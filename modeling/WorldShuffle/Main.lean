import WorldShuffle.CommandLine.Run

namespace WorldShuffle

def readIfPossible (path : String) : IO (String × Option String) := do
  try
    return (path, some (← IO.FS.readFile path))
  catch _ => return (path, none)

def inputPaths (o : Options) : List String :=
  let layers := o.skipLayers.filterMap fun arg => (splitSkipLayer arg).toOption.map Prod.snd
  [o.topology, o.logic] ++ o.macros.toList ++ o.settings.toList ++ layers

def freshSeed : IO String := do
  let n ← IO.rand 0 0xffffffff
  let ds := hexDigits n
  return zeros (8 - ds.length) ++ ds

def writeOutput (o : Output) : IO Unit := do
  IO.println o.announcement
  IO.FS.writeFile o.path o.text

end WorldShuffle

open WorldShuffle

def main (args : List String) : IO UInt32 := do
  match Options.ofArgs args with
  | none =>
    IO.eprintln "usage: --topology PATH --logic PATH [--skip-layer NAME=PATH]... [--macros PATH] [--settings PATH] [--seed TEXT] [--max-attempts N] [--output-mapping PATH] [--output-spoiler-log PATH]"
    return 2
  | some o =>
    let texts ← (inputPaths o).mapM readIfPossible
    let read (path : String) : Option String := (texts.lookup path).join
    match o.run read (← freshSeed) with
    | .error e =>
      IO.eprintln s!"Error: {e.message}"
      return UInt32.ofNat e.exitCode
    | .ok outputs =>
      outputs.forM writeOutput
      return 0

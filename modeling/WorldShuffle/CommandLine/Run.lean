import WorldShuffle.CommandLine.Directory
import WorldShuffle.CommandLine.Options
import WorldShuffle.Logic.Rulebook
import WorldShuffle.Session
import WorldShuffle.Settings.Flags
import WorldShuffle.Settings.Upgrade
import WorldShuffle.World.Encoding

namespace WorldShuffle

inductive RunError
  | unreadableTopology (path : String)
  | invalidTopology (path : String)
  | unreadableSettings (path : String)
  | invalidSettings (path : String)
  | unreadableMacros (path : String)
  | invalidMacros (path : String)
  | unreadableLayer (name path : String)
  | invalidSkipLayer (arg : String)
  | flags (e : TooManySkips)
  | failure (f : Failure)
  | defect (d : Defect)
  | output (e : PathError)

def RunError.message : RunError → String
  | .unreadableTopology path => s!"unable to read topology at {path}"
  | .invalidTopology path => s!"unable to parse topology at {path}"
  | .unreadableSettings path => s!"Unable to read settings at {path}"
  | .invalidSettings path => s!"Unable to parse settings at {path}"
  | .unreadableMacros path => s!"Unable to read macros at {path}"
  | .invalidMacros path => s!"Unable to parse macros at {path}"
  | .unreadableLayer name path => s!"unable to read logic layer {name} at {path}"
  | .invalidSkipLayer arg => s!"invalid --skip-layer '{arg}', expected NAME=PATH"
  | .flags e => e.message
  | .failure f => f.message
  | .defect d => d.message
  | .output e => e.message

def RunError.exitCode : RunError → Nat
  | .defect _ => 101
  | _ => 1

def RunError.ofFall : Fall Failure → RunError
  | .failure f => .failure f
  | .defect d => .defect d

structure Output where
  announcement : String
  path : String
  text : String

abbrev Reader := String → Option String

def orError {α : Type} (e : RunError) : Option α → Except RunError α
  | some a => .ok a
  | none => .error e

def loadTopology (read : Reader) (path : String) : Except RunError Topology := do
  let text ← orError (.unreadableTopology path) (read path)
  (Topology.load text).mapError fun _ => .invalidTopology path

def loadSettings (read : Reader) : Option String → Except RunError Settings
  | none => .ok {}
  | some path => do
    let text ← orError (.unreadableSettings path) (read path)
    (Settings.upgrade text).mapError fun _ => .invalidSettings path

def loadMacros (read : Reader) : Option String → Except RunError MacroTable
  | none => .ok {}
  | some path => do
    let text ← orError (.unreadableMacros path) (read path)
    match ({} : MacroTable).parse text with
    | (m, .ok _) => .ok m
    | (_, .error _) => .error (.invalidMacros path)

def loadLayer (read : Reader) (v : Vocabulary) (name path : String) : Except RunError Layer := do
  let text ← orError (.unreadableLayer name path) (read path)
  return (compileLayer v name text).layer

def splitSkipLayer (arg : String) : Except RunError (String × String) :=
  match cutAt ['='] arg.toList with
  | (name, some path) =>
    if name.isEmpty || path.isEmpty then .error (.invalidSkipLayer arg)
    else .ok (String.ofList name, String.ofList path)
  | _ => .error (.invalidSkipLayer arg)

/-- Layers of skips that are not enabled are not even read. -/
def loadSkipLayers (read : Reader) (v : Vocabulary) (s : Settings) :
    List String → Except RunError (List Layer)
  | [] => .ok []
  | arg :: args => do
    let (name, path) ← splitSkipLayer arg
    if s.skipEnabled name then
      let layer ← loadLayer read v name path
      return layer :: (← loadSkipLayers read v s args)
    else loadSkipLayers read v s args

def loadSession (read : Reader) (o : Options) : Except RunError Session := do
  let topology ← loadTopology read o.topology
  let settings ← loadSettings read o.settings
  let settings := { settings with maxAttempts := o.maxAttempts.getD settings.maxAttempts }
  let macros ← loadMacros read o.macros
  let v : Vocabulary := ⟨topology, settings.bindMacros macros, settings.skipPredicate⟩
  let base ← loadLayer read v "base" o.logic
  let layers ← loadSkipLayers read v settings o.skipLayers
  return { settings, topology, gates := ⟨base :: layers⟩ }

def outputsOf (o : Options) (spoiler : Spoiler) : List Output :=
  let mapping := o.outputMapping.map fun path =>
    ⟨s!"Writing mapping to {path}", path, (mappingJson spoiler.mapping).indented 0⟩
  let log := o.outputSpoilerLog.map fun path =>
    ⟨s!"Writing spoiler log to {path}", path, spoiler.json.indented 0⟩
  mapping.toList ++ log.toList

def Options.run (o : Options) (read : Reader) (otherSeed : String) :
    Except RunError (List Output) := do
  let session ← loadSession read o
  let _ ← session.settings.toFlags.mapError .flags
  let outcome ← (session.randomize (o.seed.getD otherSeed)).1.mapError .ofFall
  return outputsOf o outcome.spoiler

structure Finish where
  exitCode : Nat
  error : Option String := none
  printed : String := ""
  directory : Directory

def Finish.lines (f : Finish) : List String := printedLines f.printed

def Finish.errorLine? (f : Finish) : Option String :=
  f.error.bind fun e => (printedLines (e ++ "\n")).head?

def writeOutputs (d : Directory) (printed : String) : List Output → Finish
  | [] => { exitCode := 0, printed, directory := d }
  | o :: os =>
    let printed := printed ++ o.announcement ++ "\n"
    match d.write o.path o.text with
    | .ok d => writeOutputs d printed os
    | .error e =>
      let e := RunError.output e
      { exitCode := e.exitCode, error := some e.message, printed, directory := d }

def Directory.runCommand (d : Directory) (args : List String) (otherSeed : String) : Finish :=
  match Options.ofArgs args with
  | none => { exitCode := 2, directory := d }
  | some o =>
    match o.run d.read otherSeed with
    | .error e => { exitCode := e.exitCode, error := some e.message, directory := d }
    | .ok outputs => writeOutputs d "" outputs

end WorldShuffle

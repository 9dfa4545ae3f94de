import WorldShuffle.Logic.Token

namespace WorldShuffle

structure Options where
  topology : String
  logic : String
  skipLayers : List String := []
  macros : Option String := none
  settings : Option String := none
  seed : Option String := none
  maxAttempts : Option Nat := none
  outputMapping : Option String := none
  outputSpoilerLog : Option String := none

def pathOptions : List String :=
  ["topology", "logic", "macros", "settings", "output-mapping", "output-spoiler-log"]

def optionNames : List String := pathOptions ++ ["skip-layer", "seed", "max-attempts"]

/-- An argument that can be the value of the option before it: a dash begins another option, unless
it stands alone. -/
def isValueArg (arg : String) : Bool := arg == "-" || arg.toList.head? != some '-'

def optionPairs : List String → Option (List (String × String))
  | [] => some []
  | ["--"] => some []
  | arg :: args =>
    match arg.toList with
    | '-' :: '-' :: cs =>
      let name := String.ofList (cs.takeWhile (· ≠ '='))
      if name ∉ optionNames then none
      else match cs.dropWhile (· ≠ '=') with
        | _ :: value => (optionPairs args).map ((name, String.ofList value) :: ·)
        | [] =>
          match args with
          | value :: args =>
            if isValueArg value then (optionPairs args).map ((name, value) :: ·) else none
          | [] => none
    | _ => none

def sizeOfText? (text : String) : Option Nat :=
  let cs := text.toList
  let ds := if cs.head? = some '+' then cs.tail else cs
  if ds.isEmpty || !ds.all isDigit then none
  else if digitsValue ds < UInt64.size then some (digitsValue ds) else none

def valuesOf (pairs : List (String × String)) (name : String) : List String :=
  (pairs.filter (·.1 = name)).map Prod.snd

def Options.ofArgs (args : List String) : Option Options := do
  let pairs ← optionPairs args
  let single (name : String) : Option String := (valuesOf pairs name).head?
  guard ((optionNames.filter (· ≠ "skip-layer")).all fun name => (valuesOf pairs name).length ≤ 1)
  guard (pathOptions.all fun name => "" ∉ valuesOf pairs name)
  let maxAttempts ← match single "max-attempts" with
    | none => some none
    | some text => some <$> sizeOfText? text
  return {
    topology := ← single "topology"
    logic := ← single "logic"
    skipLayers := valuesOf pairs "skip-layer"
    macros := single "macros"
    settings := single "settings"
    seed := single "seed"
    maxAttempts
    outputMapping := single "output-mapping"
    outputSpoilerLog := single "output-spoiler-log" }

end WorldShuffle

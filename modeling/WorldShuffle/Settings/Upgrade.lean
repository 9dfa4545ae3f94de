import WorldShuffle.Json.Settled
import WorldShuffle.Settings.Encoding

namespace WorldShuffle

inductive UpgradeError
  | json (e : JsonError)
  | notAnObject
  | noVersion

def UpgradeError.message : UpgradeError → String
  | .json (.data _ message) => message
  | .json (.fault _) => "invalid JSON"
  | .notAnObject => "expected settings to be an object"
  | .noVersion => "missing version field"

def upgradeTransitions (members : List (Option String × Json)) : List (Option String × Json) :=
  let name := some "transition_settings"
  if members.any (·.1 = name) then members
  else
    let switch := some "randomize_transitions"
    let mode : TransitionMode := match members.find? (·.1 = switch) with
      | some (_, .bool true) => .randomized
      | _ => .vanilla
    setMember "transition_settings" (TransitionSettings.json { mode, swapAttempts := 200 })
      (members.filter (·.1 ≠ switch))

def upgradeMembers (members : List (Option String × Json)) :
    Except UpgradeError (List (Option String × Json)) :=
  let members := upgradeTransitions members
  if members.any (·.1 = some "version") then
    .ok (setMember "version" (.nat currentVersion) members)
  else .error .noVersion

def upgradeJson : Json → Except UpgradeError Json
  | .obj members _ => do return .obj (← upgradeMembers members) none
  | _ => throw .notAnObject

/-- Reads settings of any version as settings of the current one, and writes these. What becomes of
the text is written out and read again on the way. -/
def Settings.upgradeText (text : String) : Except UpgradeError (String × Settings) := do
  let j ← (Json.parse text).mapError fun f => .json (.fault f)
  let j ← upgradeJson j
  let s ← (Settings.parse j.text).mapError .json
  return (s.json.text, s)

def Settings.upgrade (text : String) : Except UpgradeError Settings := Prod.snd <$> upgradeText text

end WorldShuffle

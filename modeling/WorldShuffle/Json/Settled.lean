import WorldShuffle.Json.Decoder

namespace WorldShuffle

def maxJsonDepth : Nat := 128

def setMember (name : String) (j : Json) : List (Option String × Json) → List (Option String × Json)
  | [] => [(some name, j)]
  | (k, v) :: rest =>
    if k = some name then (some name, j) :: rest
    else if name < k.getD "" then (some name, j) :: (k, v) :: rest
    else (k, v) :: setMember name j rest

mutual

/-- The value of a text that is read as a whole: members are ordered by name, the last of a name
counting, and numbers are in their own form. -/
def Json.settle : Nat → Json → Except Fault Json
  | _, .null => .ok .null
  | _, .bool b => .ok (.bool b)
  | _, .num n =>
    match n.value? with
    | some x => .ok (.num x.numeral)
    | none => .error .malformed
  | _, .str (some s) => .ok (.str (some s))
  | _, .str none => .error .malformed
  | _, .broken b => .error b.read
  | 0, _ => .error .malformed
  | depth + 1, .arr items stop =>
    if depth = 0 then .error .malformed
    else do
      let items ← settleItems depth items
      match stop with
      | some b => .error b.read
      | none => .ok (.arr items none)
  | depth + 1, .obj members stop =>
    if depth = 0 then .error .malformed
    else do
      let members ← settleMembers depth [] members
      match stop with
      | some b => .error b.read
      | none => .ok (.obj members none)

def settleItems : Nat → List Json → Except Fault (List Json)
  | _, [] => .ok []
  | depth, j :: js => do
    let j ← j.settle depth
    return j :: (← settleItems depth js)

def settleMembers : Nat → List (Option String × Json) → List (Option String × Json) →
    Except Fault (List (Option String × Json))
  | _, out, [] => .ok out
  | _, _, (none, _) :: _ => .error .malformed
  | depth, out, (some name, j) :: js => do
    let j ← j.settle depth
    settleMembers depth (setMember name j out) js

end

def Json.parse (text : String) : Except Fault Json := do
  let (j, rest) := Json.parsePrefix text
  let j ← j.settle maxJsonDepth
  match rest with
  | some cs => if (skipSpace cs).isEmpty then return j else throw .malformed
  | none => throw .malformed

end WorldShuffle

import WorldShuffle.Logic.States

namespace WorldShuffle

structure Condition where
  state : String
  count : UInt32
  deriving DecidableEq

def Condition.text (c : Condition) : String :=
  if c.count = 1 then c.state else s!"{c.count.toNat}#{c.state}"

def totalCount : List Condition → UInt32
  | [] => 0
  | c :: cs => c.count + totalCount cs

/-- A conjunction of conditions. The empty clause always holds, and one that names the `false`
state never does. -/
structure Clause where
  conditions : List Condition := []
  deriving DecidableEq

structure CountOverflow where
  state : String
  deriving DecidableEq

def CountOverflow.message (e : CountOverflow) : String := s!"count of {e.state} overflows"

def Clause.always : Clause := {}

def Clause.never : Clause := ⟨[⟨falseState, 1⟩]⟩

def Clause.single (state : String) (count : UInt32) : Clause :=
  if count = 0 ∨ state = trueState then .always else ⟨[⟨state, count⟩]⟩

def Clause.isNever (c : Clause) : Bool := c.conditions.any (·.state = falseState)

def mergeCondition (state : String) (count : UInt32) :
    List Condition → Except CountOverflow (List Condition)
  | [] => .ok [⟨state, count⟩]
  | d :: ds =>
    if d.state = state then
      match addCount? d.count count with
      | some sum => .ok (⟨state, sum⟩ :: ds)
      | none => .error ⟨state⟩
    else (mergeCondition state count ds).map (d :: ·)

def Clause.add (c : Clause) (state : String) (count : UInt32) : Except CountOverflow Clause :=
  if count = 0 ∨ state = trueState then .ok c
  else (mergeCondition state count c.conditions).map Clause.mk

def Clause.normalize (c : Clause) : Except CountOverflow Clause :=
  if c.isNever then .ok .never
  else c.conditions.foldlM (fun out d => out.add d.state d.count) .always

def Clause.holds (c : Clause) (s : States) : Bool :=
  !c.isNever && c.conditions.all fun d => d.count ≤ s.count d.state

def Clause.text (c : Clause) : String :=
  if c.conditions.isEmpty then trueState else " + ".intercalate (c.conditions.map Condition.text)

def Clause.sameConditions (c d : Clause) : Bool := c.conditions.isPerm d.conditions

def addAlternative (possible : Bool) (out : List Clause) (c : Clause) :
    Except CountOverflow (List Clause) := do
  let c ← c.normalize
  if (possible && c.isNever) || out.any c.sameConditions then return out
  return out ++ [c]

/-- Normalizes each alternative, and drops repeated ones and, where another is possible, those that
never hold. -/
def normalizeAlternatives (alternatives : List Clause) : Except CountOverflow (List Clause) :=
  alternatives.foldlM (addAlternative (alternatives.any (!·.isNever))) []

def showAlternatives (alternatives : List Clause) : String :=
  " | ".intercalate (alternatives.map Clause.text)

end WorldShuffle

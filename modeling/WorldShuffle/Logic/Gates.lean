import WorldShuffle.Logic.Layer

namespace WorldShuffle

/-- The compiled layers in order; later layers add alternatives to the edges of earlier ones. An
edge without any alternative is open. -/
structure Gates where
  layers : List Layer := []

namespace Gates

variable (g : Gates)

def alternatives (edge : Nat) : List Clause := g.layers.flatMap (·.get edge)

def isConstrained (edge : Nat) : Bool := g.layers.any fun l => !(l.get edge).isEmpty

def isFalse (edge : Nat) : Bool :=
  let cs := g.alternatives edge
  !cs.isEmpty && cs.all Clause.isNever

def canTraverse (edge : Nat) (s : States) : Bool :=
  let cs := g.alternatives edge
  cs.isEmpty || cs.any (·.holds s)

end Gates

def Clause.missing (c : Clause) (s : States) : List Condition :=
  c.conditions.filterMap fun d =>
    let held := s.count d.state
    if d.count ≤ held then none else some ⟨d.state, d.count - held⟩

def isCloser (a b : List Condition) : Bool :=
  a.length < b.length || (a.length == b.length && totalCount a < totalCount b)

def closest (best : Option (List Condition)) (missing : List Condition) : List Condition :=
  match best with
  | none => missing
  | some b => if isCloser missing b then missing else b

/-- The unmet conditions of the alternative that is closest to holding, the earlier one of equals;
none if no alternative can ever hold. -/
def Gates.missing? (g : Gates) (edge : Nat) (s : States) : Option (List Condition) :=
  let cs := g.alternatives edge
  if cs.isEmpty then some []
  else (cs.filter (!·.isNever)).foldl (fun best c => some (closest best (c.missing s))) none

end WorldShuffle

import WorldShuffle.Explore.Explorer

namespace WorldShuffle

def visitDoor (t : Topology) : Visit := fun n s =>
  match t.doorStates? n with
  | none => (s, false)
  | some (near, far) =>
    let entered := s.ensure near
    (entered.ensure far, !s.has near || !entered.has far)

def visitNothing : Visit := fun _ s => (s, false)

def isCheckNode (t : Topology) (n : Nat) : Bool := (t.check? n).isSome

def visitGranting (t : Topology) : Visit := fun n s =>
  if isCheckNode t n then (s.acquire (t.state n), !s.has (t.state n)) else visitDoor t n s

end WorldShuffle

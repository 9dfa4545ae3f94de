import WorldShuffle.World.Topology

namespace WorldShuffle

namespace Topology

variable (t : Topology)

def aim (door target : Nat) : Topology :=
  match t.linkEdge? door, t.node? target with
  | some e, some n => (t.retarget e target).setFar door n.scene n.name
  | _, _ => t

def leadsTo (door target : Nat) : Bool := t.farNode? door == some target

/-- Lets two doors trade their destinations. The old far sides follow if they led back. -/
def exchange (x y : Nat) : Topology :=
  match t.farNode? x, t.farNode? y with
  | some fx, some fy =>
    let swapped := (t.aim x fy).aim y fx
    let swapped := if t.leadsTo fx x then swapped.aim fx y else swapped
    if t.leadsTo fy y then swapped.aim fy x else swapped
  | _, _ => t

end Topology

end WorldShuffle

import WorldShuffle.Placement.Attempt

namespace WorldShuffle

def proximityHops : Nat := 3

def newNodes (seen : List Nat) (ns : List Nat) : List Nat :=
  ns.foldl (fun new n => if n ∈ seen ∨ n ∈ new then new else new ++ [n]) []

def layerBefore (t : Topology) (seen layer : List Nat) : List Nat :=
  newNodes seen (layer.flatMap fun n =>
    (t.into n).filterMap fun e => t.edges[e]?.map Edge.source)

def targetsOf (t : Topology) (n : Nat) : List Nat := (t.out n).filterMap t.target?

namespace Attempt

variable {ω : Type} [Weight ω]

def isDiscovered (a : Attempt ω) (n : Nat) : Bool :=
  match a.locationAt n with
  | .discovered _ => true
  | _ => false

/-- Walks backward by the given number of hops, and penalizes the discovered locations next to the
nodes on the way, each once and the nearer ones more. -/
def penalizeFrom (t : Topology) (seen penalized layer : List Nat) :
    Nat → Attempt ω → Attempt ω
  | 0, a => a
  | hops + 1, a =>
    let before := layerBefore t seen layer
    let near := (newNodes penalized (before.flatMap (targetsOf t))).filter a.isDiscovered
    let penalty := near.foldl (fun p n => p.modify n (· + Weight.ofNat (hops + 1))) a.penalty
    penalizeFrom t (seen ++ before) (penalized ++ near) before hops { a with penalty }

def penalizeAround (t : Topology) (a : Attempt ω) (location : Nat) : Attempt ω :=
  a.penalizeFrom t [location] [location] [location] proximityHops

end Attempt

end WorldShuffle

import WorldShuffle.Chance.Trial
import WorldShuffle.Doors.Exchange
import WorldShuffle.Doors.Swaps
import WorldShuffle.Explore.Reach

namespace WorldShuffle

namespace Topology

variable (t : Topology)

def isFixedDoor (n : Nat) : Bool :=
  match t.node? n, t.door? n with
  | some node, some d =>
    t.fixed.any fun (a, b) =>
      (a, b) = (node.scene, d.farScene) || (b, a) = (node.scene, d.farScene)
  | _, _ => true

def isSealed (g : Gates) (n : Nat) : Bool :=
  ((t.into n ++ t.out n).filter (t.isKind .inner)).all g.isFalse

def eligibleDoors (g : Gates) : List Nat :=
  t.doorNodes.filter fun n => (t.farNode? n).isSome && !t.isFixedDoor n && !t.isSealed g n

def sceneOf (n : Nat) : Option SceneId := (t.node? n).map Node.scene

/-- Whether the doors `x` and `y` may trade: neither side may come to lead into its own scene. -/
def mayTrade (x fx y : Nat) : Bool :=
  match t.farNode? y with
  | none => false
  | some fy =>
    y != x && y != fx && fy != fx && t.sceneOf fy != t.sceneOf x && t.sceneOf fx != t.sceneOf y

end Topology

structure DoorShuffle where
  topology : Topology
  eligible : List Nat
  swaps : Swaps := {}

namespace DoorShuffle

variable {φ : Type}

def chooseFrom (ns : List Nat) : Trial (Fall φ) Nat := do
  return ns[← Trial.index ns.length]?.getD 0

def swapWith (g : Gates) (s : DoorShuffle) (x fx : Nat) (candidates : List Nat) :
    Trial (Fall φ) DoorShuffle := do
  let t := s.topology
  let reached := undirectedReach t g x
  let apart := candidates.filter (· ∉ reached)
  let y ← chooseFrom (if apart.isEmpty then candidates else apart)
  let fy := t.farNode? y
  Trial.report .debug s!"Swapping {t.label x} <-> {t.label y}"
  let swaps ← Trial.orDefect (s.swaps.insert x y)
  let eligible := s.eligible.filter fun n => n != x && n != y && n != fx && some n != fy
  return { topology := t.exchange x y, eligible, swaps }

def swapOnce (g : Gates) (s : DoorShuffle) : Trial (Fall φ) DoorShuffle := do
  let x ← chooseFrom s.eligible
  match s.topology.farNode? x with
  | none => return { s with eligible := s.eligible.filter (· != x) }
  | some fx =>
    let candidates := s.eligible.filter (s.topology.mayTrade x fx)
    if candidates.isEmpty then return s else s.swapWith g x fx candidates

def swapMany (g : Gates) : Nat → DoorShuffle → Trial (Fall φ) DoorShuffle
  | 0, s => return s
  | n + 1, s => do
    if s.eligible.length < 2 then return s
    swapMany g n (← s.swapOnce g)

end DoorShuffle

def shuffleDoors {φ : Type} (g : Gates) (tries attempt : Nat) (t : Topology) :
    Trial (Fall φ) DoorShuffle := do
  let eligible := t.eligibleDoors g
  Trial.report .info
    s!"[attempt {attempt}] Randomizing transitions: {eligible.length} eligible"
  let s ← DoorShuffle.swapMany g tries { topology := t, eligible }
  Trial.report .info s!"[attempt {attempt}] {s.swaps.pairs.length} transition swaps"
  return s

end WorldShuffle

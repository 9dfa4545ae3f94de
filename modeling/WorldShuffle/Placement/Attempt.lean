import WorldShuffle.Chance.Trial
import WorldShuffle.Chance.WeightedSet
import WorldShuffle.Explore.Visits
import WorldShuffle.Placement.Frontier
import WorldShuffle.Placement.Spoiler
import WorldShuffle.Settings.Basic

namespace WorldShuffle

inductive Failure
  | fewLocations (attempt available : Nat) (c : Condition)
  | noLocation (attempt : Nat) (c : Condition)
  | noItem (attempt : Nat) (state : String)
  | unplacedItems (attempt count : Nat)
  | unreachable (attempt count : Nat)
  | exhausted

def Failure.message : Failure → String
  | .fewLocations attempt available c =>
    s!"[attempt {attempt}] Attempt failed: {available} locations available for {c.text}"
  | .noLocation attempt c =>
    s!"[attempt {attempt}] Attempt failed: no location left for {c.text}"
  | .noItem attempt state =>
    s!"[attempt {attempt}] Attempt failed: no remaining item grants {state}"
  | .unplacedItems attempt count =>
    s!"[attempt {attempt}] Attempt failed: {count} items could not be placed"
  | .unreachable attempt count =>
    s!"[attempt {attempt}] Attempt failed: {count} placed checks unreachable on replay"
  | .exhausted => "Exhausted randomization attempts"

structure Dealer where
  topology : Topology
  gates : Gates
  settings : Settings
  pool : List Nat

def Dealer.new (t : Topology) (g : Gates) (settings : Settings) (save : Option Save) : Dealer :=
  let takesPart (c : Check) : Bool :=
    settings.pool.includes c.kind && !(settings.respectObtained && save.any c.obtained)
  { topology := t, gates := g, settings
    pool := t.checkNodes.filter fun n => (t.check? n).any takesPart }

def Dealer.vanilla (d : Dealer) : Except Defect Mapping :=
  d.pool.foldlM (fun m n => m.insert n (.check n)) {}

inductive LocationState
  | unplaced
  | discovered (depth : Nat)
  | reserved
  | placed
  deriving DecidableEq

/-- What changes over one attempt to deal out the pool. Arrays are by node or edge; the discovered
locations are those without an item, in order of discovery. -/
structure Attempt (ω : Type) where
  number : Nat
  round : Nat := 0
  states : States
  explorer : Explorer
  locations : Array LocationState
  penalty : Array ω
  discovered : List Nat := []
  pool : List Nat
  frontierRound : Array (Option Nat)
  mapping : Mapping := {}
  rounds : List RoundNote := []
  fillAtWill : List PlacementNote := []

variable {ω : Type} [Weight ω]

def Dealer.start (d : Dealer) (number : Nat) : Attempt ω :=
  let nodes := d.topology.nodes.size
  { number
    states := d.settings.startingStates
    explorer := (Explorer.new d.topology).addRoot d.topology.start
    locations := Array.replicate nodes .unplaced
    penalty := Array.replicate nodes (Weight.ofNat 0)
    pool := d.pool
    frontierRound := Array.replicate d.topology.edges.size none }

namespace Attempt

def visit (d : Dealer) : Visit := fun n s =>
  if isCheckNode d.topology n then
    if n ∈ d.pool then (s, false) else (s.acquire (d.topology.state n), true)
  else visitDoor d.topology n s

def locationAt (a : Attempt ω) (n : Nat) : LocationState := a.locations[n]?.getD .unplaced

def setLocation (a : Attempt ω) (n : Nat) (l : LocationState) : Attempt ω :=
  { a with locations := a.locations.setIfInBounds n l }

def discover (a : Attempt ω) (n : Nat) : Attempt ω :=
  if a.locationAt n = .unplaced then
    { a.setLocation n (.discovered a.round) with discovered := a.discovered ++ [n] }
  else a

def meetEdge (a : Attempt ω) (e : Nat) : Attempt ω :=
  { a with frontierRound := a.frontierRound.modify e (·.orElse fun _ => some a.round) }

def explore (d : Dealer) (a : Attempt ω) : Attempt ω :=
  let w := a.explorer.explore d.topology d.gates (visit d) a.states
  let a := { a with explorer := w.explorer, states := w.states }
  let a := (w.order.filter (· ∈ d.pool)).foldl discover a
  a.explorer.frontier.foldl meetEdge a

def countGranting (d : Dealer) (a : Attempt ω) (state : String) : Nat :=
  a.pool.countP (d.topology.state · = state)

def canUnlock (d : Dealer) (a : Attempt ω) (missing : List Condition) : Bool :=
  missing.all fun c => c.count.toNat ≤ a.countGranting d c.state

def demands (d : Dealer) (a : Attempt ω) : List (Nat × List Condition) :=
  a.explorer.frontier.filterMap fun e =>
    match d.gates.missing? e a.states with
    | some (c :: cs) => some (e, c :: cs)
    | _ => none

def frontier (d : Dealer) (a : Attempt ω) : List (FrontierEdge ω) :=
  let demands := a.demands d
  demands.map fun (edge, missing) =>
    let met := ((a.frontierRound[edge]?).bind id).getD a.round
    { edge, missing
      canUnlock := a.canUnlock d missing
      uniqueness := uniquenessOf (demands.map Prod.snd) missing
      backtrack := a.round - met }

def locationWeight (d : Dealer) (a : Attempt ω) (n depth : Nat) : ω :=
  let x : ω := Weight.ofNat depth
  let shop : ω :=
    if (d.topology.check? n).any Check.shop then Weight.ofNat 10 / x else Weight.ofNat 1
  x * x * x / (Weight.ofNat 1 + a.penalty[n]?.getD (Weight.ofNat 0) + shop)

def discoveredSet (d : Dealer) (a : Attempt ω) : Except Defect (WeightedSet ω Nat) :=
  a.discovered.foldlM (fun s n =>
    match a.locationAt n with
    | .discovered depth => s.add (a.locationWeight d n depth) n
    | _ => return s) {}

def place (d : Dealer) (a : Attempt ω) (location item : Nat) : Except Defect (Attempt ω) := do
  let mapping ← a.mapping.insert location (.check item)
  return { a.setLocation location .placed with
    mapping
    discovered := a.discovered.filter (· ≠ location)
    states := a.states.acquire (d.topology.state item) }

end Attempt

end WorldShuffle

import WorldShuffle.Placement.Proximity

namespace WorldShuffle

def maxLeftover : Nat := 10

def maxFillers : Nat := 64

structure Placement where
  mapping : Mapping
  rounds : List RoundNote
  fillAtWill : List PlacementNote
  leftover : List Nat

namespace Attempt

variable {ω : Type} [Weight ω]

abbrev Step := Trial (Fall Failure)

def reserve (c : Condition) : Nat → WeightedSet ω Nat → Attempt ω → Step (Attempt ω × List Nat)
  | 0, _, a => return (a, [])
  | n + 1, set, a => do
    let t : ω ← Trial.fraction
    let some i := set.pickIndex? t | Trial.fail (.noLocation a.number c)
    let (location, set) ← Trial.orDefect (set.takeAt i)
    let (a, rest) ← reserve c n set (a.setLocation location .reserved)
    return (a, location :: rest)

def placeGranting (d : Dealer) (state : String) (a : Attempt ω) (location : Nat) :
    Step (Attempt ω × PlacementNote) := do
  let some item := a.pool.find? (d.topology.state · = state)
    | Trial.fail (.noItem a.number state)
  let a ← Trial.orDefect (place d { a with pool := a.pool.erase item } location item)
  return (a.penalizeAround d.topology location, d.topology.placementNote location item)

def placeAll (d : Dealer) (state : String) :
    List Nat → Attempt ω → Step (Attempt ω × List PlacementNote)
  | [], a => return (a, [])
  | location :: locations, a => do
    let (a, note) ← a.placeGranting d state location
    let (a, notes) ← placeAll d state locations a
    return (a, note :: notes)

def supply (d : Dealer) (c : Condition) (a : Attempt ω) :
    Step (Attempt ω × List PlacementNote) := do
  let set ← Trial.orDefect (a.discoveredSet d)
  if set.size < c.count.toNat then Trial.fail (.fewLocations a.number set.size c)
  let (a, locations) ← reserve c c.count.toNat set a
  placeAll d c.state locations a

def unlock (d : Dealer) : List Condition → Attempt ω → Step (Attempt ω × List PlacementNote)
  | [], a => return (a, [])
  | c :: cs, a => do
    let (a, notes) ← a.supply d c
    let (a, more) ← unlock d cs a
    return (a, notes ++ more)

def fill (d : Dealer) (set : WeightedSet ω Nat) : Nat → Attempt ω → Step (Attempt ω)
  | 0, a => return a
  | n + 1, a => do
    if a.pool.isEmpty then return a
    let t : ω ← Trial.fraction
    match set.pickIndex? t with
    | none => return a
    | some i =>
      let (location, set) ← Trial.orDefect (set.takeAt i)
      let (item, pool) ← Trial.orDefect (takeEntry a.pool (← Trial.index a.pool.length))
      let a ← Trial.orDefect (place d { a with pool } location item)
      let note := d.topology.placementNote location item
      fill d set n { a with fillAtWill := a.fillAtWill ++ [note] }

def unlockable (frontier : List (FrontierEdge ω)) :
    Except Defect (WeightedSet ω (FrontierEdge ω)) :=
  (frontier.filter (·.canUnlock)).foldlM (fun s f => s.add f.weight f) {}

/-- One round: explores, and then opens an edge of the frontier that the pool can open. If there is
none, the deal ends with what the remaining items fill, and the answer is no. -/
def playRound (d : Dealer) (a : Attempt ω) : Step (Attempt ω × Bool) := do
  let a := { a with round := a.round + 1 }.explore d
  let frontier := a.frontier d
  let edges ← Trial.orDefect (unlockable frontier)
  if edges.items.isEmpty then
    Trial.report .info s!"[attempt {a.number}] round={a.round}: nothing left to unlock (frontier={frontier.length}), filling {a.discovered.length} discovered locations"
    let set ← Trial.orDefect (a.discoveredSet d)
    return (← a.fill d set a.pool.length, false)
  let t : ω ← Trial.fraction
  match edges.pick? t with
  | none => return (a, false)
  | some chosen =>
    let (a, placements) ← unlock d chosen.missing a
    let label := d.topology.edgeLabel chosen.edge
    Trial.report .info s!"[attempt {a.number}] round={a.round}, frontier={frontier.length}, unlockable={edges.size}, unlocked {label}, placed={placements.length}, pool={a.pool.length}"
    let note : RoundNote :=
      { round := a.round
        discovered := a.discovered.length + placements.length
        frontier := frontier.length
        unlockedEdge := label
        missing := chosen.missing.map Condition.text
        placements }
    return ({ a with rounds := a.rounds ++ [note] }, true)

/-- Plays rounds while items are left. Each round that goes on places one at least, so that there are
no more rounds than items. -/
def playRounds (d : Dealer) : Nat → Attempt ω → Step (Attempt ω)
  | 0, a => return a
  | n + 1, a => do
    if a.pool.isEmpty then return a
    let (a, goesOn) ← a.playRound d
    if goesOn then playRounds d n a else return a

def fillRest : Nat → List Nat → Mapping → Except Defect Mapping
  | _, [], m => return m
  | slot, n :: ns, m => do
    if m.has n then fillRest slot ns m
    else if slot < maxFillers then fillRest (slot + 1) ns (← m.insert n (.filler slot))
    else fillRest slot ns (← m.insert n .obtained)

def finish (d : Dealer) (a : Attempt ω) : Step Placement := do
  let left := a.pool.length
  if maxLeftover < left then Trial.fail (.unplacedItems a.number left)
  if left ≠ 0 then
    Trial.report .warn s!"[attempt {a.number}] {left} items left unplaced, using filler"
  let rest := d.topology.nodeIndexes.filter (· ∈ d.pool)
  let mapping ← Trial.orDefect (fillRest 0 rest a.mapping)
  return { mapping, rounds := a.rounds, fillAtWill := a.fillAtWill, leftover := a.pool }

end Attempt

def Dealer.play (ω : Type) [Weight ω] (d : Dealer) (number : Nat) :
    Trial (Fall Failure) (Attempt ω) := do
  let seed := (← get).stream.seed
  Trial.report .info s!"[attempt {number}] Placing {d.pool.length} checks, seed={seed}"
  Attempt.playRounds d d.pool.length (d.start number)

def Dealer.deal (ω : Type) [Weight ω] (d : Dealer) (number : Nat) :
    Trial (Fall Failure) Placement := do
  let a ← d.play ω number
  a.finish d

end WorldShuffle

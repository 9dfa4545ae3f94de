import WorldShuffle.Chance.Weight
import WorldShuffle.Defect

namespace WorldShuffle

def takeEntry {α : Type} (xs : List α) (i : Nat) : Except Defect (α × List α) :=
  match xs[i]? with
  | some x => .ok (x, xs.eraseIdx i)
  | none => .error (.removalOutOfRange i xs.length)

structure WeightedSet (ω α : Type) where
  items : List α := []
  weights : List ω := []
  sums : List ω := []

namespace WeightedSet

variable {ω α : Type} [Weight ω]

def total (s : WeightedSet ω α) : ω := s.sums.getLast?.getD (Weight.ofNat 0)

def add (s : WeightedSet ω α) (weight : ω) (item : α) : Except Defect (WeightedSet ω α) :=
  if Weight.isPositive weight then
    .ok ⟨s.items ++ [item], s.weights ++ [weight], s.sums ++ [s.total + weight]⟩
  else .error (.invalidWeight (Weight.text weight))

def size (s : WeightedSet ω α) : Nat := s.items.length

/-- The first item whose sum reaches the share `t` of the total. Rounding may leave none, and then it
is the last one. -/
def pickIndex? (s : WeightedSet ω α) (t : ω) : Option Nat :=
  if s.items.isEmpty then none
  else some ((s.sums.findIdx? (Weight.reaches · (t * s.total))).getD (s.items.length - 1))

def pick? (s : WeightedSet ω α) (t : ω) : Option α := (s.pickIndex? t).bind fun i => s.items[i]?

def runningSums (total : ω) : List ω → List ω
  | [] => []
  | w :: ws => (total + w) :: runningSums (total + w) ws

/-- Removes an item; the sums before it stay, and those behind it are formed anew. -/
def removeAt (s : WeightedSet ω α) (i : Nat) : WeightedSet ω α :=
  let weights := s.weights.eraseIdx i
  let before := s.sums.take i
  ⟨s.items.eraseIdx i, weights,
    before ++ runningSums (before.getLast?.getD (Weight.ofNat 0)) (weights.drop i)⟩

def takeAt (s : WeightedSet ω α) (i : Nat) : Except Defect (α × WeightedSet ω α) := do
  let (item, _) ← takeEntry s.items i
  return (item, s.removeAt i)

def indexOf? [DecidableEq α] (s : WeightedSet ω α) (item : α) : Option Nat :=
  s.items.findIdx? (· = item)

def remove [DecidableEq α] (s : WeightedSet ω α) (item : α) : WeightedSet ω α × Bool :=
  match s.indexOf? item with
  | some i => (s.removeAt i, true)
  | none => (s, false)

end WeightedSet

end WorldShuffle

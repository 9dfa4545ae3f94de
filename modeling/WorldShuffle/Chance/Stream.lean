import WorldShuffle.Chance.Orbit
import WorldShuffle.Chance.Sha256
import WorldShuffle.Defect

namespace WorldShuffle

structure Stream where
  seed : String
  state : BitVec 128
  odd : state.toNat % 2 = 1
  deriving DecidableEq

def swapBytes (w : UInt32) : Nat :=
  (List.range 4).foldl (fun n i => n * 256 + (w.toNat >>> (8 * i)) % 256) 0

def seedState (ws : List UInt32) : Nat :=
  (ws.take 4).zipIdx.foldl (fun n (w, i) => n + swapBytes w <<< (32 * i)) 0

theorem odd_or_one (n : Nat) : (BitVec.ofNat 128 n ||| 1).toNat % 2 = 1 := by
  rw [Nat.mod_two_eq_one_iff_testBit_zero, BitVec.testBit_toNat]
  simp

def Stream.ofSeed (seed : String) : Stream :=
  let words := Sha256.digest seed.toUTF8.toList
  { seed, state := BitVec.ofNat 128 (seedState words) ||| 1, odd := odd_or_one _ }

def Stream.derive (s : Stream) (label : String) : Stream := .ofSeed s!"{s.seed}:{label}"

theorem odd_mul_multiplier {state : BitVec 128} (h : state.toNat % 2 = 1) :
    (state * multiplier).toNat % 2 = 1 := by
  rw [multiplier]
  bv_omega

def wordOf (state : BitVec 128) : UInt64 :=
  let folded := (state >>> 64 ^^^ state).setWidth 64
  ⟨folded.rotateRight (state >>> 122).toNat⟩

def Stream.next (s : Stream) : UInt64 × Stream :=
  let state := s.state * multiplier
  (wordOf state, { s with state, odd := odd_mul_multiplier s.odd })

def Stream.next32 (s : Stream) : UInt32 × Stream :=
  let (w, s) := s.next
  (w.toUInt32, s)

def wordBytes (w : UInt64) : List UInt8 :=
  (List.range 8).map fun i => (w >>> UInt64.ofNat (8 * i)).toUInt8

def Stream.bytes (n : Nat) (s : Stream) : List UInt8 × Stream :=
  if n = 0 then ([], s)
  else if n ≤ 8 then
    let (w, s) := s.next
    ((wordBytes w).take n, s)
  else
    let (w, s) := s.next
    let (rest, s) := Stream.bytes (n - 8) s
    (wordBytes w ++ rest, s)

/-- Some word among the next `draws` is zero. -/
def Stream.MeetsZero (draws : Nat) (s : Stream) : Prop :=
  ∃ k < draws, wordOf (s.state * multiplier * stride k) = 0

theorem Stream.not_meetsZero_none (s : Stream) : ¬s.MeetsZero 0 := by
  rintro ⟨k, hk, -⟩
  exact Nat.not_lt_zero k hk

theorem Stream.MeetsZero.next {draws : Nat} {s : Stream} (h : s.MeetsZero (draws + 1))
    (hword : s.next.1 ≠ 0) : s.next.2.MeetsZero draws := by
  obtain ⟨k, hk, hzero⟩ := h
  cases k with
  | zero =>
    rw [stride, BitVec.mul_one] at hzero
    exact absurd hzero hword
  | succ k =>
    refine ⟨k, Nat.lt_of_succ_lt_succ hk, ?_⟩
    rwa [stride, ← BitVec.mul_assoc] at hzero

theorem Stream.meetsZero (s : Stream) : s.MeetsZero (1 <<< 126) := by
  obtain ⟨k, hk, hstate | hstate⟩ := exists_equal_halves (odd_mul_multiplier s.odd)
  · refine ⟨k, hk, ?_⟩
    rw [hstate]
    decide
  · refine ⟨k, hk, ?_⟩
    rw [hstate]
    decide

/-- Draws words until the low half of the product with `n` falls into the part of the range that all
results share evenly, as it does with the word zero at the latest. -/
def Stream.belowWithin (n zone : Nat) : (draws : Nat) → (s : Stream) → s.MeetsZero draws → Nat × Stream
  | 0, s, h => absurd h s.not_meetsZero_none
  | draws + 1, s, h =>
    let product := s.next.1.toNat * n
    if hzone : product % UInt64.size ≤ zone then (product / UInt64.size, s.next.2)
    else belowWithin n zone draws s.next.2 (h.next fun hzero => hzone (by simp [product, hzero]))

/-- The largest product of `n` and a power of two within 64 bits, less one. -/
def evenZone (n : Nat) : Nat := (n <<< (63 - n.log2)) - 1

def Stream.below (n : Nat) (s : Stream) : Nat × Stream :=
  s.belowWithin n (evenZone n) (1 <<< 126) s.meetsZero

def Stream.index (first last : Nat) (s : Stream) : Except Defect (Nat × Stream) :=
  if first < last then
    let (i, s) := s.below (last - first)
    .ok (first + i, s)
  else .error (.emptyRange first last)

end WorldShuffle

import WorldShuffle.Defect

namespace WorldShuffle

structure Swaps where
  pairs : List (Nat × Nat) := []

def Swaps.get? (s : Swaps) (n : Nat) : Option Nat :=
  s.pairs.findSome? fun (a, b) => if a = n then some b else if b = n then some a else none

def Swaps.insert (s : Swaps) (a b : Nat) : Except Defect Swaps :=
  if (s.get? a).isNone && (s.get? b).isNone then .ok ⟨s.pairs ++ [(a, b)]⟩
  else .error .swappedTwice

end WorldShuffle

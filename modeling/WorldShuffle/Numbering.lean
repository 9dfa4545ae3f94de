import WorldShuffle.Table

namespace WorldShuffle

structure Numbering (κ : Type) where
  keys : List κ := []
  numbers : Table κ Nat := {}

namespace Numbering

variable {κ : Type} [DecidableEq κ]

def number? (m : Numbering κ) (k : κ) : Option Nat := m.numbers.get? k

def add (m : Numbering κ) (k : κ) : Numbering κ × Nat :=
  match m.number? k with
  | some i => (m, i)
  | none => (⟨m.keys ++ [k], m.numbers.set k m.keys.length⟩, m.keys.length)

end Numbering

end WorldShuffle

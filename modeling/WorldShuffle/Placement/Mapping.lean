import WorldShuffle.Defect
import WorldShuffle.Table

namespace WorldShuffle

/-- What a check location holds: the contents of some check, a numbered filler, or nothing any more,
when the filler numbers have run out. -/
inductive Replacement
  | check (item : Nat)
  | filler (slot : Nat)
  | obtained
  deriving DecidableEq

structure Mapping where
  table : Table Nat Replacement := {}

namespace Mapping

variable (m : Mapping)

def get? (location : Nat) : Option Replacement := m.table.get? location

def has (location : Nat) : Bool := m.table.has location

def toList : List (Nat × Replacement) := m.table.entries

def insert (location : Nat) (r : Replacement) : Except Defect Mapping :=
  if m.has location then .error (.mappedTwice location) else .ok ⟨m.table.set location r⟩

def placedItems : List Nat := m.toList.filterMap fun (_, r) =>
  match r with
  | .check item => some item
  | _ => none

end Mapping

end WorldShuffle

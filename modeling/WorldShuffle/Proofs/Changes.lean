import Mathlib.Logic.Relation
import WorldShuffle.Placement.Proximity
import WorldShuffle.Proofs.Ledger

namespace WorldShuffle

namespace LocationState

inductive Moves : LocationState → LocationState → Prop
  | discover (depth : Nat) : Moves .unplaced (.discovered depth)
  | reserve (depth : Nat) : Moves (.discovered depth) .reserved
  | fill : Moves .reserved .placed
  | fillAtWill (depth : Nat) : Moves (.discovered depth) .placed

def stage : LocationState → Nat
  | .unplaced => 0
  | .discovered _ => 1
  | .reserved => 2
  | .placed => 3

theorem Moves.stage_lt {l l' : LocationState} (h : l.Moves l') : l.stage < l'.stage := by
  cases h <;> exact of_decide_eq_true rfl

end LocationState

namespace Attempt

variable {ω : Type} {d : Dealer} {a a' : Attempt ω} {l n : Nat}

theorem isDiscovered_iff : a.isDiscovered l = true ↔ ∃ depth, a.locationAt l = .discovered depth := by
  rw [isDiscovered]
  cases a.locationAt l <;> simp

variable [Weight ω]

inductive Change (d : Dealer) : Attempt ω → Attempt ω → Prop
  | explore (a : Attempt ω) : Change d a ({ a with round := a.round + 1 }.explore d)
  | reserve {a : Attempt ω} {l : Nat} (h : a.isDiscovered l = true) :
      Change d a (a.setLocation l .reserved)
  | place {a a' : Attempt ω} {l item : Nat} {pool : List Nat}
      (hl : a.locationAt l = .reserved ∨ a.isDiscovered l = true)
      (hpool : (item :: pool).Perm a.pool)
      (hok : place d { a with pool } l item = .ok a') : Change d a a'
  | penalize (a : Attempt ω) (l : Nat) : Change d a (a.penalizeAround d.topology l)
  | note (a : Attempt ω) (rounds : List RoundNote) (fillAtWill : List PlacementNote) :
      Change d a { a with rounds, fillAtWill }

def LeadsTo (d : Dealer) (a a' : Attempt ω) : Prop := Relation.ReflTransGen (Change d) a a'

theorem LeadsTo.refl (d : Dealer) (a : Attempt ω) : a.LeadsTo d a := Relation.ReflTransGen.refl

theorem LeadsTo.trans {a'' : Attempt ω} (h : a.LeadsTo d a') (h' : a'.LeadsTo d a'') :
    a.LeadsTo d a'' :=
  Relation.ReflTransGen.trans h h'

theorem Change.leadsTo (h : a.Change d a') : a.LeadsTo d a' := Relation.ReflTransGen.single h

end Attempt

end WorldShuffle

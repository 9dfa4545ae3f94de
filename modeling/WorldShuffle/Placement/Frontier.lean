import WorldShuffle.Chance.Weight
import WorldShuffle.Logic.Clause

namespace WorldShuffle

structure FrontierEdge (ω : Type) where
  edge : Nat
  missing : List Condition
  canUnlock : Bool
  uniqueness : ω
  backtrack : Nat

variable {ω : Type} [Weight ω]

def unlockWeight (uniqueness : ω) (backtrack conditions : Nat) : ω :=
  let u := uniqueness
  let d : ω := Weight.ofNat backtrack
  let c : ω := Weight.ofNat conditions
  Weight.floor ((Weight.ofNat 100 * u * u * u + d * d) / (c + Weight.ofNat 1))

def FrontierEdge.weight (f : FrontierEdge ω) : ω :=
  unlockWeight f.uniqueness f.backtrack f.missing.length

def demandFor (demands : List (List Condition)) (state : String) : UInt32 :=
  totalCount (demands.flatten.filter (·.state = state))

def uniquenessOf (demands : List (List Condition)) (missing : List Condition) : ω :=
  let share (c : Condition) : ω :=
    Weight.ofNat c.count.toNat / Weight.ofNat (demandFor demands c.state).toNat
  Weight.ofNat 1 - missing.foldl (fun product c => product * share c) (Weight.ofNat 1)

end WorldShuffle

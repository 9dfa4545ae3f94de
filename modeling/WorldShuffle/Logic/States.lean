import WorldShuffle.Table

namespace WorldShuffle

def trueState : String := "true"

def falseState : String := "false"

def addCount? (a b : UInt32) : Option UInt32 :=
  if a.toNat + b.toNat < UInt32.size then some (a + b) else none

def addCount (a b : UInt32) : UInt32 := (addCount? a b).getD 0xffffffff

structure States where
  counts : Table String UInt32 := {}

def States.acquireN (s : States) (state : String) (count : UInt32) : States :=
  match s.counts.get? state with
  | some held => ⟨s.counts.set state (addCount held count)⟩
  | none => ⟨s.counts.set state count⟩

def States.acquire (s : States) (state : String) : States := s.acquireN state 1

def States.has (s : States) (state : String) : Bool := s.counts.has state

def States.ensure (s : States) (state : String) : States :=
  if s.has state then s else s.acquire state

def States.count (s : States) (state : String) : UInt32 :=
  if state = trueState then 1 else (s.counts.get? state).getD 0

def States.toList (s : States) : List (String × UInt32) := s.counts.entries

def States.ofList (items : List (String × UInt32)) : States :=
  items.foldl (fun s (state, count) => s.acquireN state count) {}

end WorldShuffle

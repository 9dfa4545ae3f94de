import WorldShuffle.Chance.Stream
import WorldShuffle.Chance.Weight
import WorldShuffle.Defect
import WorldShuffle.Message

namespace WorldShuffle

structure Tape where
  stream : Stream
  log : List Message := []

abbrev Trial (ε : Type) := EStateM ε Tape

/-- Why an attempt ends: it cannot be completed, or a promise is broken. -/
inductive Fall (φ : Type)
  | failure (f : φ)
  | defect (d : Defect)

namespace Trial

variable {φ : Type}

def fail {α : Type} (f : φ) : Trial (Fall φ) α := throw (.failure f)

def orDefect {α : Type} : Except Defect α → Trial (Fall φ) α
  | .ok a => pure a
  | .error d => throw (.defect d)

def report (level : Level) (text : String) : Trial (Fall φ) Unit :=
  modify fun tape => { tape with log := tape.log ++ [⟨level, text⟩] }

def fraction {ω : Type} [Weight ω] : Trial (Fall φ) ω := do
  let tape ← get
  let (w, stream) := tape.stream.next
  set { tape with stream }
  return Weight.fraction w

def index (n : Nat) : Trial (Fall φ) Nat := do
  let tape ← get
  let (i, stream) ← orDefect (tape.stream.index 0 n)
  set { tape with stream }
  return i

end Trial

end WorldShuffle

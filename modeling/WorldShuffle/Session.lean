import WorldShuffle.Doors.Shuffle
import WorldShuffle.Placement.Deal
import WorldShuffle.Placement.Replay

namespace WorldShuffle

structure Session where
  settings : Settings
  topology : Topology
  gates : Gates
  save : Option Save := none

structure Outcome where
  mapping : Mapping
  swaps : Swaps
  topology : Topology
  spoiler : Spoiler
  seed : String
  attempt : Nat
  randomized : Bool

abbrev Reported (α : Type) := Except (Fall Failure) α × List Message

def attemptSeed (seed : String) (attempt : Nat) : String :=
  if attempt = 1 then seed else s!"{seed}/{attempt}"

def runTrial {α : Type} (stream : Stream) (trial : Trial (Fall Failure) α) : Reported α :=
  match trial.run { stream } with
  | .ok a tape => (.ok a, tape.log)
  | .error e tape => (.error e, tape.log)

def Placement.outcome (p : Placement) (attempt : Nat) (seed : String) (t : Topology)
    (swaps : Swaps) : Outcome :=
  { mapping := p.mapping, swaps, topology := t, seed, attempt, randomized := true
    spoiler :=
      { seed, attempt
        swaps := t.swapNotes swaps
        rounds := p.rounds
        fillAtWill := p.fillAtWill
        leftover := p.leftover.map t.itemLabel
        mapping := t.mappingNotes p.mapping } }

namespace Session

variable (s : Session)

def dealer (t : Topology) : Dealer := .new t s.gates s.settings s.save

def shuffled (attempt : Nat) (stream : Stream) : Reported (Topology × Swaps) :=
  match s.settings.transitions.mode with
  | .vanilla => (.ok (s.topology, {}), [])
  | .randomized =>
    let (r, log) := runTrial (stream.derive "transitions")
      (shuffleDoors s.gates s.settings.transitions.swapAttempts attempt s.topology)
    (r.map fun d => (d.topology, d.swaps), log)

def attemptOnce (attempt : Nat) (seed : String) : Reported Outcome :=
  let stream := Stream.ofSeed seed
  match s.shuffled attempt stream with
  | (.error e, log) => (.error e, log)
  | (.ok (t, swaps), log) =>
    let (dealt, more) := runTrial (stream.derive "checks") ((s.dealer t).deal Float attempt)
    let result := do
      let p ← dealt
      let report := replay t s.gates p.mapping s.settings.startingStates
      if report.isComplete then return p.outcome attempt seed t swaps
      throw (.failure (.unreachable attempt report.unreached.length))
    (result, log ++ more)

def attempts (seed : String) : Nat → Nat → Reported Outcome
  | _, 0 => (.error (.failure .exhausted), [])
  | number, left + 1 =>
    let own := attemptSeed seed number
    let heading := s!"Attempt {number}/{s.settings.maxAttempts}"
    let started : Message := ⟨.info, s!"{heading}: seed={own}"⟩
    match s.attemptOnce number own with
    | (.error (.failure f), log) =>
      let failed : Message := ⟨.info, s!"{heading}: Randomization failed: {f.message}"⟩
      let (result, more) := attempts seed (number + 1) left
      (result, started :: log ++ failed :: more)
    | (result, log) => (result, started :: log)

def randomize (seed : String) : Reported Outcome := s.attempts seed 1 s.settings.maxAttempts

def vanillaOutcome (seed : String) : Except Defect Outcome := do
  let mapping ← (s.dealer s.topology).vanilla
  return {
    mapping, swaps := {}, topology := s.topology, seed, attempt := 0, randomized := false
    spoiler := { seed, mapping := s.topology.mappingNotes mapping } }

def randomizeOrVanilla (seed : String) : Reported Outcome :=
  match s.randomize seed with
  | (.error (.failure f), log) =>
    let warning : Message := ⟨.warn, s!"{f.message}; falling back to the unrandomized layout"⟩
    ((s.vanillaOutcome seed).mapError .defect, log ++ [warning])
  | r => r

end Session

end WorldShuffle

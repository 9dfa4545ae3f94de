import Mathlib
import WorldShuffle.Proofs.LastResort

namespace WorldShuffle

variable {ω : Type} {d : Dealer} {a a' : Attempt ω} {vs rs : List Nat} {fs : List (Nat × Nat)}
  {number : Nat} {tape tape' : Tape} {p : Placement}

theorem Ledger.length_discovered (hd : d.Fair) (h : Ledger d vs fs rs a) :
    a.discovered.length =
      d.pool.countP fun n => a.explorer.visited.isSet n && !a.mapping.has n := by
  rw [List.countP_eq_length_filter]
  refine List.Perm.length_eq ((List.perm_ext_iff_of_nodup h.nodup_discovered
    (hd.nodup.filter _)).2 fun n => ?_)
  rw [h.discovered_iff, List.mem_filter, Bool.and_eq_true, h.visited_iff, Bool.not_eq_true',
    ← Bool.not_eq_true, h.has_iff]
  exact ⟨fun ⟨hv, hp, hf⟩ => ⟨hp, hv, hf⟩, fun ⟨hp, hv, hf⟩ => ⟨hv, hp, hf⟩⟩

variable [Weight ω]

/-- The note is true of the round that an attempt goes on with. What was missing is what was unmet of an
alternative of an edge of the frontier; the items are placed for it condition by condition. -/
structure RoundNote.TrueOf (note : RoundNote) (d : Dealer) (a : Attempt ω) : Prop where
  discovered : note.discovered = d.pool.countP fun n =>
    (a.walked d).explorer.visited.isSet n && !(a.walked d).mapping.has n
  frontier : note.frontier = (a.walked d).explorer.frontier.length
  unlocked : ∃ e ∈ (a.walked d).explorer.frontier, ∃ c ∈ d.gates.alternatives e,
    let unmet := c.missing (a.walked d).states
    c.isNever = false ∧ unmet ≠ [] ∧ note.unlockedEdge = d.topology.edgeLabel e ∧
      note.missing = unmet.map Condition.text ∧
      note.placements.map PlacementNote.state = suppliedBy unmet

namespace Attempt

/-- Every edge of the frontier is closed, though not for ever, so that something is missing of it. -/
theorem length_frontier (d : Dealer) (a : Attempt ω) :
    ((a.walked d).frontier d).length = (a.walked d).explorer.frontier.length := by
  rw [frontier, List.length_map, demands, List.filterMap_length_eq_length]
  intro e he
  obtain ⟨hclosed, hfalse⟩ := walked_closed he
  obtain ⟨c, m, ms, -, -, hmissing⟩ := Gates.missing?_closed hclosed hfalse
  rw [hmissing]
  rfl

theorem Played.noted (hd : d.Fair) (h : a.Played d number)
    (hok : (a.playRound d).Yields (a', true)) :
    ∃ note, a'.rounds = a.rounds ++ [note] ∧ note.TrueOf d a := by
  obtain ⟨vs, fs, hledger, -⟩ := h.ledger hd
  obtain ⟨f, hf, new, -, hstates, -, -, -, hrounds, -⟩ := hledger.opens hd hok
  obtain ⟨m, ms, hmissing, hm, hfrontier, -⟩ := mem_frontier hf
  obtain ⟨hclosed, hfalse⟩ := walked_closed hfrontier
  obtain ⟨c, m', ms', hnearest, hc, hm'⟩ := Gates.missing?_closed hclosed hfalse
  obtain ⟨halternative, hnever⟩ := Gates.mem_possible.1 (Gates.mem_of_nearest? hnearest)
  have hunmet : f.missing = c.missing (a.walked d).states := by
    rw [hmissing, hc]
    exact Option.some.inj (hm.symm.trans hm')
  refine ⟨_, hrounds, (hledger.walked hd).1.length_discovered hd, length_frontier d a,
    f.edge, hfrontier, c, halternative, hnever, ?_, rfl, ?_, ?_⟩
  · rw [hc]
    exact List.cons_ne_nil _ _
  · rw [← hunmet]
    rfl
  · rw [← hunmet, ← hstates]
    exact List.map_map

theorem playRounds_nil (hpool : a.pool = []) (k : Nat) : playRounds d k a = return a := by
  cases k with
  | zero => rfl
  | succ k =>
    rw [playRounds]
    simp [hpool]

theorem playRounds_succ (hpool : a.pool ≠ []) (k : Nat) : playRounds d (k + 1) a =
    a.playRound d >>= fun (a, goesOn) => if goesOn then playRounds d k a else return a := by
  rw [playRounds]
  simp [hpool]

/-- What rounds add to the log is true, note by note, of what the rounds before lead to. -/
theorem playRounds_notes (hd : d.Fair) (k : Nat) (h : a.Played d number)
    (hok : (playRounds d k a).run tape = .ok a' tape') :
    ∃ notes, a'.rounds = a.rounds ++ notes ∧ ∀ r note, notes[r]? = some note →
      ∃ b tape₁, (playRounds d r a).run tape = .ok b tape₁ ∧
        b.rounds = a.rounds ++ notes.take r ∧ note.TrueOf d b := by
  induction k generalizing a tape with
  | zero =>
    cases hok
    exact ⟨[], (List.append_nil _).symm, by simp⟩
  | succ k ih =>
    by_cases hpool : a.pool = []
    · rw [playRounds_nil hpool] at hok
      cases hok
      exact ⟨[], (List.append_nil _).symm, by simp⟩
    · rw [playRounds_succ hpool] at hok
      obtain ⟨⟨a₁, b⟩, tape₁, hround, hok⟩ := Trial.run_bind_eq_ok hok
      cases b with
      | false =>
        cases hok
        obtain ⟨vs, fs, hledger, -⟩ := h.ledger hd
        obtain ⟨-, -, -, hrounds, -⟩ := hledger.last hd ⟨_, _, hround⟩
        exact ⟨[], hrounds.trans (List.append_nil _).symm, by simp⟩
      | true =>
        obtain ⟨note, hrounds, htrue⟩ := h.noted hd ⟨_, _, hround⟩
        obtain ⟨notes, hnotes, hrun⟩ := ih (h.round hpool ⟨_, _, hround⟩) hok
        refine ⟨note :: notes, by rw [hnotes, hrounds, List.append_assoc]; rfl, ?_⟩
        -- the first note is about the attempt itself, the others about what its round leads to
        rintro (_ | r) other hother
        · obtain rfl := Option.some.inj hother
          exact ⟨a, tape, rfl, (List.append_nil _).symm, htrue⟩
        · obtain ⟨b, tape₂, hb, hbefore, htrue'⟩ := hrun r other hother
          refine ⟨b, tape₂, ?_, ?_, htrue'⟩
          · rw [playRounds_succ hpool]
            exact (Trial.run_bind hround).trans hb
          · rw [hbefore, hrounds, List.append_assoc]
            rfl

theorem play_books (hd : d.Fair) (hok : (d.play ω number).Yields a) :
    ∃ vs fs, Ledger d vs fs [] a ∧
      a.rounds.flatMap RoundNote.placements ++ a.fillAtWill = fs.map d.topology.fillNote ∧
      a.rounds.map RoundNote.round = List.range' 1 a.rounds.length := by
  obtain ⟨a₀, hplayed, hend⟩ := play_yields hd hok
  obtain ⟨vs, fs, hledger, hwill, hplacements, -, hnumbers⟩ := hplayed.ledger hd
  rcases hend with ⟨-, rfl⟩ | ⟨-, hround⟩
  · exact ⟨vs, fs, hledger, by rw [hplacements, hwill, List.append_nil], hnumbers⟩
  · obtain ⟨new, hledger', -, hrounds, hwill', -⟩ := hledger.last hd hround
    refine ⟨_, _, hledger', ?_, hrounds ▸ hnumbers⟩
    rw [hrounds, hplacements, hwill', hwill, List.nil_append, List.map_append]

end Attempt

theorem play_run (hok : (d.play ω number).run tape = .ok a tape') : ∃ start : Tape,
    start.stream = tape.stream ∧
    (Attempt.playRounds d d.pool.length (d.start number)).run start = .ok a tape' := by
  obtain ⟨read, tape₁, hread, hok⟩ := Trial.run_bind_eq_ok hok
  cases hread
  obtain ⟨_, tape₂, hreport, hok⟩ := Trial.run_bind_eq_ok hok
  cases hreport
  refine ⟨_, ?_, hok⟩
  rfl

/-- The log of a deal tells the truth. What it says of the rounds and then of filling at will names the
items of the mapping, one after another, with their locations and the states that they grant; behind
these the mapping has fillers only. The rounds are counted from one, and what is noted of each is true
of the attempt that the rounds before it lead to on the same stream. -/
theorem log_truthful (t : Topology) (g : Gates) (settings : Settings) (save : Option Save)
    (number : Nat) {tape tape' : Tape}
    (hok : ((Dealer.new t g settings save).deal ω number).run tape = .ok p tape') :
    let d := Dealer.new t g settings save
    let log := p.rounds.flatMap RoundNote.placements ++ p.fillAtWill
    (∃ fills fillers : List (Nat × Nat),
      p.mapping.toList = fills.map itemEntry ++ fillers.map fillerEntry ∧
      log = fills.map (fun f => t.placementNote f.1 f.2) ∧
      (t.mappingNotes p.mapping).map (fun m => (m.location, m.replacement)) =
        log.map (fun n => (n.location, n.item)) ++
          fillers.map fun f => (t.label f.1, s!"Filler #{f.2}")) ∧
    p.rounds.map RoundNote.round = List.range' 1 p.rounds.length ∧
    ∃ start : Tape, start.stream = tape.stream ∧ ∀ r note, p.rounds[r]? = some note →
      ∃ (a : Attempt ω) (tape₁ : Tape),
        (Attempt.playRounds d r (d.start number)).run start = .ok a tape₁ ∧
        a.rounds = p.rounds.take r ∧ note.TrueOf d a := by
  intro d log
  have hd : d.Fair := Dealer.fair_new t g settings save
  obtain ⟨a, tape₁, hplay, hfinish⟩ := Trial.run_bind_eq_ok hok
  obtain ⟨vs, fs, hledger, hlog, hnumbers⟩ := Attempt.play_books hd ⟨_, _, hplay⟩
  obtain ⟨-, hrounds, hwill, -, fillers, -, -, hmap⟩ := hledger.finish hd ⟨_, _, hfinish⟩
  rw [← hrounds, ← hwill] at hlog
  refine ⟨⟨fs, fillers.zipIdx, hmap, hlog, ?_⟩, hrounds ▸ hnumbers, ?_⟩
  · have hitems : log = fs.map t.fillNote := hlog
    rw [Topology.mappingNotes, hmap, hitems, List.map_map, List.map_append, List.map_map,
      List.map_map, List.map_map]
    rfl
  · obtain ⟨start, hstream, hstart⟩ := play_run hplay
    obtain ⟨notes, hnotes, htrue⟩ := Attempt.playRounds_notes hd _ .start hstart
    have hsame : p.rounds = notes := hrounds.trans hnotes
    rw [hsame]
    exact ⟨start, hstream, htrue⟩

theorem log_truthful_twoRooms :
    let d := Dealer.new twoRooms gateLock {} none
    ∃ (p : Placement) (tape : Tape) (note : RoundNote),
      (d.deal Rat 1).run { stream := ⟨"", 1, rfl⟩ } = .ok p tape ∧ p.rounds = [note] ∧
      note.missing = ["Key"] ∧ note.unlockedEdge = "Scene0.Key -> Scene0.Gate" ∧
      note.TrueOf d (d.start 1 : Attempt Rat) := by
  intro d
  have h : (match (d.deal Rat 1).run { stream := ⟨"", 1, rfl⟩ } with
      | .ok p _ => p.rounds.map fun note => (note.missing, note.unlockedEdge)
      | .error _ _ => []) = [(["Key"], "Scene0.Key -> Scene0.Gate")] := by cbv
  split at h
  · rename_i p tape hok
    obtain ⟨note, hrounds, hnote⟩ := List.map_eq_singleton_iff.1 h
    obtain ⟨hmissing, hedge⟩ := Prod.mk.inj hnote
    obtain ⟨-, -, start, -, htrue⟩ := log_truthful twoRooms gateLock {} none 1 hok
    obtain ⟨a, tape₁, ha, -, hnoted⟩ := htrue 0 note (by rw [hrounds]; rfl)
    cases ha
    exact ⟨p, tape, note, hok, hrounds, hmissing, hedge, hnoted⟩
  · cases h

end WorldShuffle

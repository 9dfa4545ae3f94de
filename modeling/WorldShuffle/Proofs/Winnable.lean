import WorldShuffle.Proofs.ExactDeal
import WorldShuffle.Session

namespace WorldShuffle

def dealtGrants (d : Dealer) (n : Nat) : List Grant :=
  if isCheckNode d.topology n then
    if n ∈ d.pool then [] else [.acquire (d.topology.state n)]
  else doorGrants d.topology n

namespace Dealer

/-- The world in which the given locations hold their items, and the others of the pool nothing. -/
def knowing (d : Dealer) (known : List (Nat × Nat)) : Mapping :=
  ⟨⟨known.map itemEntry ++
    (d.pool.filter (· ∉ known.map Prod.fst)).map fun n => (n, .obtained)⟩⟩

structure Maps (d : Dealer) (m : Mapping) : Prop where
  item (l i : Nat) : m.get? l = some (.check i) → isCheckNode d.topology i = true
  outside {n : Nat} : n ∉ d.pool → m.get? n = none

end Dealer

variable {d : Dealer} {g : Gates} {m : Mapping} {s₀ s : States} {vs : List Nat}
  {fs : List (Nat × Nat)}

theorem visit_gives (d : Dealer) : (Attempt.visit d).Gives (dealtGrants d) where
  states n s := by
    rw [Attempt.visit, dealtGrants]
    split
    · split <;> rfl
    · exact visitDoor_states d.topology n s
  honest n s h := by
    unfold Attempt.visit at h ⊢
    by_cases hc : isCheckNode d.topology n = true
    · rw [if_pos hc] at h ⊢
      split at h
      · rw [if_pos ‹_›]
      · simp at h
    · rw [if_neg hc] at h ⊢
      exact visitDoor_honest d.topology n s h

namespace Dealer.Maps

theorem dealtGrants_subperm (hm : d.Maps m) (n : Nat) :
    (dealtGrants d n).Subperm (mappedGrants d.topology m n) := by
  rw [dealtGrants, mappedGrants]
  split
  · split
    · exact List.nil_subperm
    · rw [hm.outside ‹_›]
  · exact List.Subperm.refl _

/-- A replay in which the filled locations hold their items gets wherever a deal has got. -/
theorem visited (hm : d.Maps m) (hd : d.Fair) (ht : d.topology.Sound)
    (hsep : d.topology.Separate)
    (hc : Course d.topology g (dealtGrants d) s₀ vs fs s)
    (hfs : ∀ f ∈ fs, f.1 ∈ d.pool ∧ m.get? f.1 = some (.check f.2)) :
    ∀ n ∈ vs, (replayWalk d.topology g m s₀).explorer.visited.isSet n = true := by
  intro n hn
  rw [visited_replayWalk]
  refine (saturated_replayWalk ht g (hsep.keepsToChecks hm.item) s₀).contains hc hm.dealtGrants_subperm
    (fun f hf => ?_) n hn
  obtain ⟨hpool, hget⟩ := hfs f hf
  have hcheck := hd.check hpool
  simp only [dealtGrants, mappedGrants, if_pos hcheck, if_pos hpool, hget, List.nil_append]
  exact List.Subperm.refl _

end Dealer.Maps

variable {ω : Type} {a a' : Attempt ω}

theorem Ledger.item_mem (h : Ledger d vs fs [] a) {f : Nat × Nat} (hf : f ∈ fs) : f.2 ∈ d.pool :=
  h.items.mem_iff.1 (List.mem_append_left _ (List.mem_map_of_mem hf))

theorem Ledger.maps (hd : d.Fair) (h : Ledger d vs fs [] a) {others : List (Nat × Replacement)}
    (hm : m.toList = fs.map itemEntry ++ others) (hdistinct : m.Distinct)
    (hothers : ∀ e ∈ others, e.1 ∈ d.pool ∧ ∀ i, e.2 ≠ .check i) :
    d.Maps m ∧ ∀ f ∈ fs, f.1 ∈ d.pool ∧ m.get? f.1 = some (.check f.2) := by
  have hpool : ∀ f ∈ fs, f.1 ∈ d.pool := fun f hf => (h.filled_mem (List.mem_map_of_mem hf)).2
  refine ⟨⟨fun l i hl => ?_, fun {n} hn => Mapping.get?_eq_none fun hl => ?_⟩, fun f hf => ?_⟩
  · have hmem := Mapping.mem_of_get? hl
    rw [hm] at hmem
    rcases List.mem_append.1 hmem with hmem | hmem
    · obtain ⟨f, hf, he⟩ := List.mem_map.1 hmem
      obtain ⟨-, hi⟩ := Prod.mk.inj he
      obtain rfl := Replacement.check.inj hi
      exact hd.check (h.item_mem hf)
    · exact absurd rfl ((hothers _ hmem).2 i)
  · rw [Mapping.locations, hm] at hl
    obtain ⟨e, he, rfl⟩ := List.mem_map.1 hl
    rcases List.mem_append.1 he with he | he
    · obtain ⟨f, hf, rfl⟩ := List.mem_map.1 he
      exact hn (hpool f hf)
    · exact hn (hothers e he).1
  · refine ⟨hpool f hf, Mapping.get?_eq_some hdistinct ?_⟩
    rw [hm]
    exact List.mem_append_left _ (List.mem_map_of_mem (f := itemEntry) hf)

theorem Ledger.maps_knowing (hd : d.Fair) (h : Ledger d vs fs [] a) :
    d.Maps (d.knowing fs) ∧ ∀ f ∈ fs, f.1 ∈ d.pool ∧ (d.knowing fs).get? f.1 = some (.check f.2) := by
  refine h.maps hd rfl ?_ ?_
  · simp only [Mapping.Distinct, Mapping.locations, Mapping.toList, Dealer.knowing,
      List.map_append, List.map_map]
    refine List.nodup_append.2 ⟨h.nodup_filled, ?_, ?_⟩
    · exact (List.map_id _).symm ▸ hd.nodup.filter _
    · rintro n hn k hk rfl
      obtain ⟨k', hk', rfl⟩ := List.mem_map.1 hk
      exact of_decide_eq_true (List.mem_filter.1 hk').2 hn
  · intro e he
    obtain ⟨n, hn, rfl⟩ := List.mem_map.1 he
    exact ⟨(List.mem_filter.1 hn).1, fun i => by simp⟩

namespace Attempt

/-- An attempt whose rounds have filled the locations of `segs`: what it has done is a lawful course,
and each round has filled locations that are reached once the rounds before it are known. -/
structure Staged (d : Dealer) (segs : List (List (Nat × Nat))) (vs : List Nat) (a : Attempt ω) :
    Prop where
  ledger : Ledger d vs segs.flatten [] a
  sound : a.explorer.Sound d.topology d.gates []
  roots : ∀ n ∈ a.explorer.roots, n = d.topology.start
  course : Course d.topology d.gates (dealtGrants d) d.settings.startingStates vs segs.flatten
    a.states
  rounds : a.rounds.map RoundNote.placements = segs.map (·.map d.topology.fillNote)
  fillAtWill : a.fillAtWill = []
  reached {r : Nat} {seg : List (Nat × Nat)} : segs[r]? = some seg → ∀ f ∈ seg,
    (replayWalk d.topology d.gates (d.knowing (segs.take r).flatten)
      d.settings.startingStates).explorer.visited.isSet f.1 = true

variable [Weight ω] {segs : List (List (Nat × Nat))}

theorem staged_start (d : Dealer) (number : Nat) :
    Staged d [] [] (d.start number : Attempt ω) where
  ledger := Ledger.start d number
  sound := (Explorer.sound_new d.topology d.gates).addRoot d.topology.start
  roots := by simp [Dealer.start, Explorer.addRoot, Explorer.new]
  course := Course.start
  rounds := rfl
  fillAtWill := rfl
  reached := by simp

omit [Weight ω] in
theorem Staged.course_walk (h : a.Staged d segs vs) (ht : d.topology.Sound) :
    Course d.topology d.gates (dealtGrants d) d.settings.startingStates (vs ++ (a.walk d).order)
      segs.flatten (a.walk d).states := by
  refine Walk.course_explore ht (visit_gives d) h.sound h.roots
    ⟨fun n => by simpa using h.ledger.visited_iff n, by simpa using h.ledger.nodup_visited⟩ ?_
  simpa using h.course

omit [Weight ω] in
/-- What a round visits is reached once the rounds before it are known. -/
theorem Staged.reached_walk (h : a.Staged d segs vs) (hd : d.Fair) (ht : d.topology.Sound)
    (hsep : d.topology.Separate) : ∀ n ∈ vs ++ (a.walk d).order,
      (replayWalk d.topology d.gates (d.knowing segs.flatten)
        d.settings.startingStates).explorer.visited.isSet n = true := by
  obtain ⟨hm, hfs⟩ := h.ledger.maps_knowing hd
  exact hm.visited hd ht hsep (h.course_walk ht) hfs

theorem Staged.round (h : a.Staged d segs vs) (hd : d.Fair) (ht : d.topology.Sound)
    (hsep : d.topology.Separate) (hok : (a.playRound d).Yields (a', true)) :
    ∃ new vs', a'.Staged d (segs ++ [new]) vs' := by
  obtain ⟨new, hledger, -, hx, hs, hrounds, hwill, -⟩ := h.ledger.round hd hok
  have hflat : (segs ++ [new]).flatten = segs.flatten ++ new := by simp
  rw [← hflat] at hledger
  have hnew : ∀ f ∈ new, f.1 ∈ vs ++ (a.walk d).order := fun f hf =>
    (hledger.filled_mem (List.mem_map_of_mem (by simp [hf]))).1
  refine ⟨new, vs ++ (a.walk d).order, ?_⟩
  exact {
    ledger := hledger
    sound := hx ▸ Walk.sound_explore ht _ h.sound
    roots := by
      rw [hx, walk, Explorer.explore, Walk.roots_explore]
      simp
    course := by
      rw [hs, hflat]
      exact (h.course_walk ht).fills (hflat ▸ hledger.nodup_filled) hnew
    rounds := by rw [hrounds, h.rounds, List.map_append, List.map_singleton]
    fillAtWill := hwill.trans h.fillAtWill
    reached := by
      intro r seg hr f hf
      by_cases hlt : r < segs.length
      · rw [List.getElem?_append_left hlt] at hr
        rw [List.take_append_of_le_length (Nat.le_of_lt hlt)]
        exact h.reached hr f hf
      · rw [List.getElem?_append_right (Nat.le_of_not_lt hlt)] at hr
        obtain ⟨hi, rfl⟩ := List.getElem?_eq_some_iff.1 hr
        rw [List.length_singleton] at hi
        obtain rfl : r = segs.length := by omega
        rw [List.take_left]
        exact h.reached_walk hd ht hsep f.1 (hnew f (by simpa using hf)) }

theorem Played.staged {number : Nat} (hd : d.Fair) (ht : d.topology.Sound)
    (hsep : d.topology.Separate) (h : a.Played d number) : ∃ segs vs, a.Staged d segs vs := by
  induction h with
  | start => exact ⟨[], [], staged_start d number⟩
  | round h hpool hok ih =>
    obtain ⟨segs, vs, hstaged⟩ := ih
    obtain ⟨new, vs', hstaged'⟩ := hstaged.round hd ht hsep hok
    exact ⟨_, _, hstaged'⟩

end Attempt

variable {p : Placement}

theorem Ledger.unreached_finish (h : Ledger d vs fs [] a) (hd : d.Fair) (ht : d.topology.Sound)
    (hsep : d.topology.Separate) (hc : Course d.topology g (dealtGrants d) s₀ vs fs s)
    (hok : (a.finish d).Yields p) : (replay d.topology g p.mapping s₀).unreached = [] := by
  obtain ⟨-, -, -, -, fillers, hasc, hperm, hmap⟩ := h.finish hd hok
  have hdistinct : p.mapping.Distinct := by
    rw [Mapping.Distinct, Mapping.locations_eq hmap, List.zipIdx_map_fst]
    exact hperm.nodup_iff.2 hd.nodup
  obtain ⟨hm, hfs⟩ := h.maps hd hmap hdistinct fun e he => by
    obtain ⟨f, hf, rfl⟩ := List.mem_map.1 he
    have hfst : f.1 ∈ fillers := List.zipIdx_map_fst 0 fillers ▸ List.mem_map_of_mem hf
    exact ⟨hperm.mem_iff.1 (List.mem_append_right _ hfst), fun i => by simp [fillerEntry]⟩
  rw [replay_unreached, List.filter_eq_nil_iff, Mapping.itemLocations_eq hmap]
  intro l hl
  simp [hm.visited hd ht hsep hc hfs l (h.filled_mem hl).1]

variable [Weight ω] {number : Nat}

/-- What comes out of a deal is reached: all of it by the final replay, and each round's share by the
replay that knows of the rounds before. -/
theorem deal_staged (hd : d.Fair) (ht : d.topology.Sound) (hsep : d.topology.Separate)
    (hok : (d.deal ω number).Yields p) :
    (replay d.topology d.gates p.mapping d.settings.startingStates).unreached = [] ∧
    ∃ (segs : List (List (Nat × Nat))) (atWill fillers : List (Nat × Nat)),
      p.rounds.map RoundNote.placements = segs.map (·.map d.topology.fillNote) ∧
      p.fillAtWill = atWill.map d.topology.fillNote ∧
      p.mapping.toList =
        (segs.flatten ++ atWill).map itemEntry ++ fillers.map fillerEntry ∧
      (∀ r seg, segs[r]? = some seg → ∀ f ∈ seg,
        (replayWalk d.topology d.gates (d.knowing (segs.take r).flatten)
          d.settings.startingStates).explorer.visited.isSet f.1 = true) ∧
      ∀ f ∈ atWill, (replayWalk d.topology d.gates (d.knowing segs.flatten)
        d.settings.startingStates).explorer.visited.isSet f.1 = true := by
  obtain ⟨a, hplay, hfinish⟩ := Trial.yields_bind hok
  obtain ⟨a₀, hplayed, hend⟩ := Attempt.play_yields hd hplay
  obtain ⟨segs, vs, h⟩ := hplayed.staged hd ht hsep
  rcases hend with ⟨-, rfl⟩ | ⟨-, hround⟩
  · obtain ⟨-, hr, hw, -, fillers, -, -, hmap⟩ := h.ledger.finish hd hfinish
    refine ⟨h.ledger.unreached_finish hd ht hsep h.course hfinish, segs, [], fillers.zipIdx,
      hr ▸ h.rounds, hw.trans h.fillAtWill, ?_, fun _ _ => h.reached, by simp⟩
    rw [List.append_nil]
    exact hmap
  · obtain ⟨new, hledger, -, hrounds, hwill, -⟩ := h.ledger.last hd hround
    obtain ⟨-, hr, hw, -, fillers, -, -, hmap⟩ := hledger.finish hd hfinish
    have hnew : ∀ f ∈ new, f.1 ∈ vs ++ (a₀.walk d).order := fun f hf =>
      (hledger.filled_mem (List.mem_map_of_mem (List.mem_append_right _ hf))).1
    have hc := (h.course_walk ht).fills hledger.nodup_filled hnew
    refine ⟨hledger.unreached_finish hd ht hsep hc hfinish, segs, new, fillers.zipIdx, ?_, ?_, hmap,
      fun _ _ => h.reached, fun f hf => h.reached_walk hd ht hsep f.1 (hnew f hf)⟩
    · rw [hr, hrounds, h.rounds]
    · rw [hw, hwill, h.fillAtWill, List.nil_append]

theorem runTrial_yields {α : Type} {stream : Stream} {trial : Trial (Fall Failure) α} {a : α}
    (h : (runTrial stream trial).1 = .ok a) : trial.Yields a := by
  rw [runTrial] at h
  split at h
  · obtain rfl := Except.ok.inj h
    exact ⟨_, _, ‹_›⟩
  · cases h

namespace Session

variable {s : Session} {t : Topology} {swaps : Swaps} {attempt : Nat} {seed : String}

theorem rewired_shuffled (ht : s.topology.Linked)
    (h : (s.shuffled attempt (Stream.ofSeed seed)).1 = .ok (t, swaps)) : s.topology.Rewired t := by
  rw [shuffled] at h
  split at h
  · obtain ⟨rfl, -⟩ := Prod.mk.inj (Except.ok.inj h)
    exact Topology.Rewired.refl ht
  · obtain ⟨shuffle, hs, he⟩ := map_eq_ok h
    obtain ⟨rfl, -⟩ := Prod.mk.inj he
    exact shuffleDoors_keeps (fun u x y hu => hu.trans (hu.linked.rewired_exchange x y))
      (Topology.Rewired.refl ht) (runTrial_yields hs)

theorem attemptOnce_eq_ok (hshuffled : (s.shuffled attempt (Stream.ofSeed seed)).1 = .ok (t, swaps))
    (hdealt : (runTrial ((Stream.ofSeed seed).derive "checks")
      ((s.dealer t).deal Float attempt)).1 = .ok p)
    (hreplay : (replay t s.gates p.mapping s.settings.startingStates).unreached = []) :
    (s.attemptOnce attempt seed).1 = .ok (p.outcome attempt seed t swaps) := by
  rw [attemptOnce]
  obtain ⟨log, hlog⟩ : ∃ log, s.shuffled attempt (Stream.ofSeed seed) = (.ok (t, swaps), log) :=
    ⟨_, Prod.ext hshuffled rfl⟩
  dsimp only
  rw [hlog]
  dsimp only
  rw [hdealt]
  exact if_pos (List.isEmpty_iff.2 hreplay)

end Session

/-- Every deal can be won in the order in which it was built. All items are reached by the replay of the
final mapping, so that no attempt of a session fails by its replay; the share of each round is
reached by the replay that knows only of the rounds before it, and what was filled last by the one
that knows of all rounds. -/
theorem deal_winnable {t : Topology} (ht : t.Loaded) (hsep : t.Separate) (g : Gates)
    (settings : Settings) (save : Option Save) :
    let d := Dealer.new t g settings save
    let session : Session := { settings, topology := t, gates := g, save }
    let reaches (known : List (Nat × Nat)) (n : Nat) : Prop :=
      (replayWalk t g (d.knowing known) settings.startingStates).explorer.visited.isSet n = true
    (∀ (number : Nat) (tape tape' : Tape) (p : Placement),
      (d.deal ω number).run tape = .ok p tape' →
      (replay t g p.mapping settings.startingStates).unreached = [] ∧
      ∃ (rounds : List (List (Nat × Nat))) (atWill fillers : List (Nat × Nat)),
        p.mapping.toList =
          (rounds.flatten ++ atWill).map itemEntry ++ fillers.map fillerEntry ∧
        p.rounds.map RoundNote.placements = rounds.map (·.map t.fillNote) ∧
        p.fillAtWill = atWill.map t.fillNote ∧
        (∀ r round, rounds[r]? = some round → ∀ f ∈ round,
          reaches (rounds.take r).flatten f.1) ∧
        ∀ f ∈ atWill, reaches rounds.flatten f.1) ∧
    ∀ (attempt : Nat) (seed : String) (t' : Topology) (swaps : Swaps) (p : Placement),
      (session.shuffled attempt (Stream.ofSeed seed)).1 = .ok (t', swaps) →
      (runTrial ((Stream.ofSeed seed).derive "checks")
        ((session.dealer t').deal Float attempt)).1 = .ok p →
      (session.attemptOnce attempt seed).1 = .ok (p.outcome attempt seed t' swaps) := by
  intro d session reaches
  refine ⟨fun number tape tape' p hok => ?_, fun attempt seed t' swaps p hshuffled hdealt => ?_⟩
  · obtain ⟨hreplay, rounds, atWill, fillers, hrounds, hwill, hmap, hreached, hlast⟩ :=
      deal_staged (Dealer.fair_new t g settings save) ht.linked.sound hsep ⟨tape, tape', hok⟩
    exact ⟨hreplay, rounds, atWill, fillers, hmap, hrounds, hwill, hreached, hlast⟩
  · have hrewired := Session.rewired_shuffled (s := session) ht.linked hshuffled
    obtain ⟨hreplay, -⟩ := deal_staged (Dealer.fair_new t' g settings save)
      hrewired.linked.sound (hsep.rewired hrewired) (runTrial_yields hdealt)
    exact Session.attemptOnce_eq_ok hshuffled hdealt hreplay

theorem deal_winnable_twoRooms : twoRooms.Loaded ∧ twoRooms.Separate ∧ ∃ p : Placement,
    p.mapping.toList = [(0, .check 0), (3, .check 3)] ∧
      (replay twoRooms gateLock p.mapping {}).unreached = [] := by
  obtain ⟨p, tape, hok, hmap⟩ := deal_twoRooms
  obtain ⟨hreplay, -⟩ := (deal_winnable loaded_twoRooms separate_twoRooms gateLock {} none).1
    1 _ tape p hok
  exact ⟨loaded_twoRooms, separate_twoRooms, p, hmap, hreplay⟩

end WorldShuffle

import Mathlib
import WorldShuffle.Proofs.Insertion
import WorldShuffle.Proofs.Shortfalls

namespace WorldShuffle

namespace WeightedSet

variable {ω α : Type} [Weight ω] {s s' : WeightedSet ω α}

theorem add_eq_error {w : ω} {item : α} {x : Defect} (h : s.add w item = .error x) :
    x = .invalidWeight (Weight.text w) := by
  rw [add] at h
  split at h
  · cases h
  · exact (Except.error.inj h).symm

theorem add_eq_ok {s : WeightedSet ℚ α} {w : ℚ} (hw : 0 < w) (item : α) :
    ∃ s', s.add w item = .ok s' :=
  ⟨_, if_pos (decide_eq_true hw)⟩

inductive Drawn (s : WeightedSet ω α) : WeightedSet ω α → Prop
  | all : Drawn s s
  | draw {left rest : WeightedSet ω α} {u : ω} {i : Nat} {item : α} (h : Drawn s left)
      (hpick : left.pickIndex? u = some i) (htake : left.takeAt i = .ok (item, rest)) : Drawn s rest

def DrawsInRange (s : WeightedSet ω α) : Prop :=
  ∀ left, s.Drawn left → ∀ u i, left.pickIndex? u = some i → i < left.size

theorem Drawn.sized (h : s.Drawn s') (hs : s.Sized) : s'.Sized := by
  induction h with
  | all => exact hs
  | draw h hpick htake ih => exact (ih.takeAt htake).2

theorem Sized.drawsInRange (hs : s.Sized) : s.DrawsInRange :=
  fun _ hleft _ _ hpick => pickIndex?_lt (hleft.sized hs) hpick

end WeightedSet

theorem floor_pos (w : ℚ) : 0 < Weight.floor w := by
  rw [Weight.floor]
  split
  · rename_i h
    have hle : (1 / 100 : ℚ) ≤ w := of_decide_eq_true h
    exact lt_of_lt_of_le (by norm_num) hle
  · exact (by norm_num : (0 : ℚ) < 1 / 100)

theorem FrontierEdge.weight_pos (f : FrontierEdge ℚ) : 0 < f.weight := floor_pos _

variable {d : Dealer} {n depth e : Nat}

namespace Attempt

section Generic

variable {ω : Type} [Weight ω] {a a' : Attempt ω} {number : Nat} {x : Defect} {fall : Fall Failure}

theorem discoveredSet_eq_error (h : a.discoveredSet d = .error x) :
    ∃ shown, x = .invalidWeight shown := by
  obtain ⟨s, n, -, hn⟩ := foldlM_eq_error h
  split at hn
  · exact ⟨_, WeightedSet.add_eq_error hn⟩
  · cases hn

theorem unlockable_eq_error {frontier : List (FrontierEdge ω)}
    (h : unlockable frontier = .error x) : ∃ shown, x = .invalidWeight shown := by
  obtain ⟨s, f, -, hf⟩ := foldlM_eq_error h
  exact ⟨_, WeightedSet.add_eq_error hf⟩

theorem sized_discoveredSet {set : WeightedSet ω Nat} (h : a.discoveredSet d = .ok set) :
    set.Sized := by
  refine foldlM_keeps (P := WeightedSet.Sized) (fun s n s' hs hn => ?_) WeightedSet.sized_empty h
  split at hn
  · exact hs.add hn
  · exact Except.ok.inj hn ▸ hs

theorem Played.leadsTo (hd : d.Fair) (h : a.Played d number) : (d.start number).LeadsTo d a := by
  induction h with
  | start => exact LeadsTo.refl d _
  | round h hpool hok ih =>
    obtain ⟨vs, fs, hledger, -⟩ := h.ledger hd
    obtain ⟨new, -, -, -, -, -, -, hleads⟩ := hledger.round hd hok
    exact ih.trans hleads

/-- What is missing at an edge of the frontier is one condition for each of its states. -/
theorem nodup_missing (hg : d.gates.Inserted) {f : FrontierEdge ω} (hf : f ∈ a.frontier d) :
    (f.missing.map Condition.state).Nodup ∧ trueState ∉ f.missing.map Condition.state := by
  obtain ⟨c, cs, hm, hmissing, -, -⟩ := mem_frontier hf
  rw [hm]
  exact hg.missing? hmissing

theorem canUnlock_iff {f : FrontierEdge ω} (hf : f ∈ a.frontier d) :
    f.canUnlock = true ↔ ∀ c ∈ f.missing, c.count.toNat ≤ a.countGranting d c.state := by
  obtain ⟨-, -, -, -, -, hcan⟩ := mem_frontier hf
  simp [hcan, canUnlock]

/-- A deal fails where a weighted set is formed, or for a cause that it names. -/
theorem deal_fails (hd : d.Fair) (hg : d.gates.Inserted)
    (hf : (d.deal ω number).Fails fall) :
    (∃ f, fall = .failure f) ∨ ∃ (a : Attempt ω) (x : Defect), (d.start number).LeadsTo d a ∧
      fall = .defect x ∧ (a.discoveredSet d = .error x ∨ unlockable (a.frontier d) = .error x) := by
  rcases Trial.fails_bind hf with hf | ⟨a, -, hf⟩
  · rcases Trial.fails_bind hf with hf | ⟨tape, -, hf⟩
    · obtain ⟨tape, tape', hget⟩ := hf
      cases hget
    rcases Trial.fails_bind hf with hf | ⟨_, -, hf⟩
    · exact absurd hf Trial.not_fails_report
    obtain ⟨a, hplayed, -, hf⟩ := playRounds_fails _ Played.start hf
    have hleads := (hplayed.leadsTo hd).trans (Change.explore a).leadsTo
    obtain ⟨vs, fs, hledger, -⟩ := hplayed.ledger hd
    rcases playRound_fails hd hledger hf with ⟨x, hx, rfl⟩ | ⟨x, hx, rfl⟩ | ⟨f, hmem, hcan, hf⟩
    · exact Or.inr ⟨_, x, hleads, rfl, Or.inr hx⟩
    · exact Or.inr ⟨_, x, hleads, rfl, Or.inl hx⟩
    · obtain ⟨hledger, -⟩ := hledger.walked hd
      rcases hledger.unlock_fails hd f.missing (nodup_missing hg hmem).1
        ((canUnlock_iff hmem).1 hcan) hf with ⟨_, _, _, _, -, -, -, he⟩ | ⟨a₁, x, hleads', hx, he⟩
      · exact Or.inl ⟨_, he⟩
      · exact Or.inr ⟨a₁, x, hleads.trans hleads', he, Or.inl hx⟩
  · exact Or.inl ⟨_, finish_fails hf⟩

end Generic

section Meeting

variable {ω : Type} {a a' : Attempt ω}

/-- The edges of the frontier are the world's, and have been met in some round up to this one. -/
structure Met (d : Dealer) (a : Attempt ω) : Prop where
  sound : a.explorer.Sound d.topology d.gates []
  isSome {e : Nat} : e < d.topology.edges.size → a.frontierRound[e]?.isSome = true
  met_le {e met : Nat} : a.frontierRound[e]? = some (some met) → met ≤ a.round
  met {e : Nat} : e ∈ a.explorer.frontier → ∃ met, a.frontierRound[e]? = some (some met)

theorem frontierRound_foldl_meetEdge (es : List Nat) (a : Attempt ω) (e : Nat) :
    (es.foldl meetEdge a).frontierRound[e]? =
      if e ∈ es then a.frontierRound[e]?.map (·.orElse fun _ => some a.round)
      else a.frontierRound[e]? := by
  induction es generalizing a with
  | nil => simp
  | cons k es ih =>
    rw [List.foldl_cons, ih]
    simp only [meetEdge, Array.getElem?_modify, List.mem_cons]
    by_cases hk : e = k
    · subst hk
      cases a.frontierRound[e]? with
      | none => simp
      | some met => cases met <;> simp
    · simp [hk, Ne.symm hk]

/-- The edges of the frontier that have not been met before are met in this round. -/
theorem frontierRound_walked (d : Dealer) (a : Attempt ω) (e : Nat) :
    (a.walked d).frontierRound[e]? =
      if e ∈ (a.walk d).explorer.frontier then
        a.frontierRound[e]?.map (·.orElse fun _ => some (a.round + 1))
      else a.frontierRound[e]? := by
  let found := (a.finds d).foldl discover
    { a with round := a.round + 1, explorer := (a.walk d).explorer, states := (a.walk d).states }
  have hwalked : a.walked d = found.explorer.frontier.foldl meetEdge found := rfl
  obtain ⟨locations, discovered, hfound⟩ : ∃ locations discovered, found = { a with
      round := a.round + 1, explorer := (a.walk d).explorer, states := (a.walk d).states
      locations, discovered } :=
    foldl_discover_eq (a.finds d) _
  rw [hwalked, hfound]
  exact frontierRound_foldl_meetEdge (a.walk d).explorer.frontier _ e

theorem met_start [Weight ω] (d : Dealer) (number : Nat) : Met d (d.start number : Attempt ω) where
  sound := (Explorer.sound_new d.topology d.gates).addRoot d.topology.start
  isSome h := by simp [Dealer.start, h]
  met_le h := by
    simp only [Dealer.start, Array.getElem?_replicate] at h
    split at h <;> simp at h
  met h := by simp [Dealer.start, Explorer.addRoot, Explorer.new] at h

theorem Met.walked (h : a.Met d) (ht : d.topology.Sound) : (a.walked d).Met d := by
  have hsound : (a.walk d).explorer.Sound d.topology d.gates [] :=
    Walk.sound_explore ht _ h.sound
  obtain ⟨locations, discovered, frontierRound, he⟩ := a.walked_eq d
  have hround : (a.walked d).round = a.round + 1 := by rw [he]
  have hx : (a.walked d).explorer = (a.walk d).explorer := by rw [he]
  constructor
  case sound => exact hx ▸ hsound
  case isSome =>
    intro e hlt
    rw [frontierRound_walked]
    split
    · rw [Option.isSome_map]
      exact h.isSome hlt
    · exact h.isSome hlt
  case met_le =>
    intro e met hmet
    rw [hround]
    rw [frontierRound_walked] at hmet
    split at hmet
    · obtain ⟨old, hold, hmet⟩ := Option.map_eq_some_iff.1 hmet
      cases old with
      | none =>
        obtain rfl := Option.some.inj hmet
        exact Nat.le_refl _
      | some old =>
        obtain rfl := Option.some.inj hmet
        exact Nat.le_succ_of_le (h.met_le hold)
    · exact Nat.le_succ_of_le (h.met_le hmet)
  case met =>
    intro e hwaits
    rw [hx] at hwaits
    rw [frontierRound_walked, if_pos hwaits]
    obtain ⟨-, edge, hedge, -⟩ := hsound.waiting (by simpa using hwaits)
    obtain ⟨hlt, -⟩ := Array.getElem?_eq_some_iff.1 hedge
    obtain ⟨met, hmet⟩ := Option.isSome_iff_exists.1 (h.isSome hlt)
    rw [hmet]
    cases met with
    | none => exact ⟨_, rfl⟩
    | some met => exact ⟨met, rfl⟩

variable [Weight ω]

theorem Met.change (h : a.Met d) (ht : d.topology.Sound) (hchange : a.Change d a') : a'.Met d := by
  rcases hchange.walks_or_stays with rfl | ⟨hx, hround, hmet⟩
  · exact h.walked ht
  · exact ⟨hx ▸ h.sound, fun he => hmet ▸ h.isSome he, fun he => hround ▸ h.met_le (hmet ▸ he),
      fun he => hmet ▸ h.met (hx ▸ he)⟩

theorem met (ht : d.topology.Sound) {number : Nat} (h : (d.start number).LeadsTo d a) : a.Met d :=
  h.keeps (P := Met d) (fun _ _ hchange hmet => hmet.change ht hchange) (met_start d number)

/-- The rounds since an edge was met are counted without running below zero. -/
theorem Met.backtrack (h : a.Met d) {f : FrontierEdge ω} (hf : f ∈ a.frontier d) :
    f.edge < d.topology.edges.size ∧ ∃ met ≤ a.round,
      a.frontierRound[f.edge]? = some (some met) ∧ f.backtrack = a.round - met := by
  obtain ⟨-, -, -, -, hwaits, -⟩ := mem_frontier hf
  obtain ⟨-, edge, hedge, -⟩ := h.sound.waiting (by simpa using hwaits)
  obtain ⟨hlt, -⟩ := Array.getElem?_eq_some_iff.1 hedge
  obtain ⟨met, hmet⟩ := h.met hwaits
  refine ⟨hlt, met, h.met_le hmet, hmet, ?_⟩
  obtain ⟨⟨e, ms⟩, -, rfl⟩ := List.mem_map.1 hf
  dsimp only at hmet ⊢
  rw [hmet]
  rfl

end Meeting

structure Paced (a : Attempt ℚ) : Prop where
  depth_pos {n depth : Nat} : a.locationAt n = .discovered depth → 0 < depth
  penalty_nonneg (n : Nat) : 0 ≤ a.penalty[n]?.getD 0

variable {a a' : Attempt ℚ}

theorem foldl_modify_nonneg {k : Nat} (ns : List Nat) (p : Array ℚ)
    (hp : ∀ n : Nat, 0 ≤ p[n]?.getD 0) (n : Nat) :
    0 ≤ (ns.foldl (fun p n => p.modify n (· + Weight.ofNat k)) p)[n]?.getD 0 := by
  induction ns generalizing p with
  | nil => exact hp n
  | cons m ns ih =>
    refine ih _ fun i => ?_
    have hi := hp i
    rw [Array.getElem?_modify]
    split
    · cases hpi : p[i]? with
      | none => exact le_refl 0
      | some q =>
        rw [hpi] at hi
        exact add_nonneg hi (Nat.cast_nonneg k)
    · exact hi

theorem penalizeFrom_nonneg (t : Topology) (seen penalized layer : List Nat) (hops : Nat)
    (a : Attempt ℚ) (hp : ∀ n : Nat, 0 ≤ a.penalty[n]?.getD 0) (n : Nat) :
    0 ≤ (a.penalizeFrom t seen penalized layer hops).penalty[n]?.getD 0 := by
  induction hops generalizing seen penalized layer a with
  | zero => exact hp n
  | succ hops ih =>
    rw [penalizeFrom]
    exact ih _ _ _ _ fun i => foldl_modify_nonneg _ _ hp i

theorem paced_start (d : Dealer) (number : Nat) : Paced (d.start number : Attempt ℚ) where
  depth_pos h := by
    rw [(Ledger.start d number).unplaced_iff _ |>.2 (by simp)] at h
    cases h
  penalty_nonneg n := by
    simp only [Dealer.start, Array.getElem?_replicate]
    split
    · exact le_of_eq Nat.cast_zero.symm
    · exact le_refl 0

theorem locationAt_of_setLocation {ω : Type} {a : Attempt ω} {l n depth : Nat} {s : LocationState}
    (hs : s ≠ .discovered depth) (h : (a.setLocation l s).locationAt n = .discovered depth) :
    a.locationAt n = .discovered depth := by
  rw [locationAt_setLocation] at h
  split at h
  · exact absurd h hs
  · exact h

theorem Paced.change (h : a.Paced) (hchange : a.Change d a') : a'.Paced := by
  cases hchange with
  | explore =>
    obtain ⟨locations, discovered, frontierRound, he⟩ := a.walked_eq d
    refine ⟨fun {n depth} hloc => ?_, ?_⟩
    · rcases locationAt_walked d a n with hn | ⟨-, hn⟩
      · exact h.depth_pos (hn ▸ hloc)
      · obtain rfl := LocationState.discovered.inj (hn.symm.trans hloc)
        exact Nat.succ_pos _
    · change ∀ n, 0 ≤ (a.walked d).penalty[n]?.getD 0
      rw [he]
      exact h.penalty_nonneg
  | reserve hl =>
    exact ⟨fun hn => h.depth_pos (locationAt_of_setLocation (by simp) hn), h.penalty_nonneg⟩
  | place hl hpool hok =>
    obtain ⟨mapping, -, hok⟩ := bind_eq_ok hok
    obtain rfl := Except.ok.inj hok
    exact ⟨fun hn => h.depth_pos (locationAt_of_setLocation (s := .placed) (by simp) hn),
      h.penalty_nonneg⟩
  | penalize l =>
    have hp := penalizeFrom_nonneg d.topology [l] [l] [l] proximityHops a h.penalty_nonneg
    obtain ⟨penalty, he⟩ := a.penalizeAround_eq d.topology l
    rw [penalizeAround] at he ⊢
    rw [he] at hp ⊢
    exact ⟨h.depth_pos, hp⟩
  | note => exact ⟨h.depth_pos, h.penalty_nonneg⟩

theorem paced {number : Nat} (h : (d.start number).LeadsTo d a) : a.Paced :=
  h.keeps (P := Paced) (fun _ _ hchange hpaced => hpaced.change hchange) (paced_start d number)

theorem Paced.locationWeight_pos (h : a.Paced) {n depth : Nat}
    (hn : a.locationAt n = .discovered depth) : 0 < a.locationWeight d n depth := by
  have hdepth : (0 : ℚ) < depth := Nat.cast_pos.2 (h.depth_pos hn)
  have hpenalty := h.penalty_nonneg n
  have hweight (shop : ℚ) (hshop : 0 < shop) :
      0 < (depth * depth * depth : ℚ) / (1 + a.penalty[n]?.getD 0 + shop) := by positivity
  rw [locationWeight]
  split
  · exact hweight _ (div_pos (by norm_num : (0 : ℚ) < 10) hdepth)
  · exact hweight _ one_pos

theorem Paced.discoveredSet (h : a.Paced) : ∃ set, a.discoveredSet d = .ok set := by
  cases hset : a.discoveredSet d with
  | ok set => exact ⟨set, rfl⟩
  | error x =>
    obtain ⟨s, n, -, hn⟩ := foldlM_eq_error hset
    split at hn
    · rename_i depth hloc
      obtain ⟨s', hs'⟩ := WeightedSet.add_eq_ok (s := s) (h.locationWeight_pos hloc) n
      rw [hs'] at hn
      cases hn
    · cases hn

theorem exists_unlockable (frontier : List (FrontierEdge ℚ)) :
    ∃ edges, unlockable frontier = .ok edges := by
  cases hedges : unlockable frontier with
  | ok edges => exact ⟨edges, rfl⟩
  | error x =>
    obtain ⟨s, f, -, hf⟩ := foldlM_eq_error hedges
    obtain ⟨s', hs'⟩ := WeightedSet.add_eq_ok (s := s) f.weight_pos f
    rw [hs'] at hf
    cases hf

theorem missing_mem_demands {ω : Type} [Weight ω] {a : Attempt ω} {f : FrontierEdge ω}
    (hf : f ∈ a.frontier d) : f.missing ∈ (a.demands d).map Prod.snd := by
  obtain ⟨demand, hdemand, rfl⟩ := List.mem_map.1 hf
  exact List.mem_map_of_mem hdemand

/-- A condition counts among all that is asked for its state, so that no share is one of nothing. -/
theorem count_le_demandFor {ω : Type} [Weight ω] {a : Attempt ω} {f : FrontierEdge ω}
    {c : Condition} (hf : f ∈ a.frontier d) (hc : c ∈ f.missing)
    (hfits : wanted ((a.demands d).map Prod.snd).flatten c.state < UInt32.size) :
    c.count ≤ demandFor ((a.demands d).map Prod.snd) c.state := by
  rw [UInt32.le_iff_toNat_le, demandFor, toNat_totalCount, ← wanted, Nat.mod_eq_of_lt hfits]
  exact count_le_wanted (List.mem_flatten.2 ⟨f.missing, missing_mem_demands hf, hc⟩)

end Attempt

/-- A deal breaks no promise. Weighed exactly, it ends on every tape in a placement or in a failure that
it names; and whatever comes of its books on the way, each weight is positive, each draw is in range,
be it from a weighted set or from the pool, a discovered location has a depth, no edge of the frontier
is met later than it is weighed, and demands that fit their sum are no less than each of their parts.
In any other arithmetic a deal can at most come upon a weight that is not valid. -/
theorem deal_safe {t : Topology} (ht : t.Loaded) {g : Gates} (hg : g.Inserted) (settings : Settings)
    (save : Option Save) (number : Nat) :
    let d := Dealer.new t g settings save
    (∀ tape, (∃ p tape', (d.deal ℚ number).run tape = .ok p tape') ∨
      ∃ f tape', (d.deal ℚ number).run tape = .error (.failure f) tape') ∧
    (∀ a : Attempt ℚ, a.Played d number → (d.start number).LeadsTo d a) ∧
    (∀ a : Attempt ℚ, (d.start number).LeadsTo d a →
      (∃ set, a.discoveredSet d = .ok set ∧ set.DrawsInRange) ∧
      (∃ edges, Attempt.unlockable (a.frontier d) = .ok edges ∧ edges.DrawsInRange) ∧
      (a.pool ≠ [] → ∀ tape, ∃ k tape',
        (Trial.index a.pool.length : Trial (Fall Failure) Nat).run tape = .ok k tape' ∧
          k < a.pool.length) ∧
      (∀ n depth, a.locationAt n = .discovered depth →
        0 < depth ∧ 0 ≤ a.penalty[n]?.getD 0 ∧ 0 < a.locationWeight d n depth) ∧
      ∀ f ∈ a.frontier d, 0 < f.weight ∧ f.edge < t.edges.size ∧
        (∃ met ≤ a.round, a.frontierRound[f.edge]? = some (some met) ∧
          f.backtrack = a.round - met) ∧
        ∀ c ∈ f.missing, 0 < c.count ∧
          (wanted ((a.demands d).map Prod.snd).flatten c.state < UInt32.size →
            c.count ≤ demandFor ((a.demands d).map Prod.snd) c.state)) ∧
    ∀ (ω : Type) [Weight ω] (tape tape' : Tape) (x : Defect),
      (d.deal ω number).run tape = .error (.defect x) tape' → ∃ shown, x = .invalidWeight shown := by
  intro d
  have hd : d.Fair := Dealer.fair_new t g settings save
  have hsound : d.topology.Sound := ht.linked.sound
  refine ⟨fun tape => ?_, fun a ha => ha.leadsTo hd, fun a hleads => ?_, ?_⟩
  · rcases Trial.yields_or_fails (d.deal ℚ number) tape with hok | ⟨e, tape', he⟩
    · exact Or.inl hok
    · rcases Attempt.deal_fails hd hg ⟨tape, tape', he⟩ with ⟨f, rfl⟩ | ⟨a, x, hleads, rfl, hx⟩
      · exact Or.inr ⟨f, tape', he⟩
      · rcases hx with hx | hx
        · obtain ⟨set, hset⟩ := (Attempt.paced hleads).discoveredSet
          rw [hset] at hx
          cases hx
        · obtain ⟨edges, hedges⟩ := Attempt.exists_unlockable (a.frontier d)
          rw [hedges] at hx
          cases hx
  · have hpaced := Attempt.paced hleads
    obtain ⟨set, hset⟩ := hpaced.discoveredSet
    obtain ⟨edges, hedges⟩ := Attempt.exists_unlockable (a.frontier d)
    refine ⟨⟨set, hset, (Attempt.sized_discoveredSet hset).drawsInRange⟩,
      ⟨edges, hedges, (Attempt.unlockable_eq_ok hedges).1.drawsInRange⟩,
      fun hpool => Trial.surely_index (List.length_pos_iff.2 hpool), fun n depth hn => ?_,
      fun f hf => ?_⟩
    · exact ⟨hpaced.depth_pos hn, hpaced.penalty_nonneg n, hpaced.locationWeight_pos hn⟩
    · obtain ⟨hlt, hmet⟩ := (Attempt.met hsound hleads).backtrack hf
      refine ⟨f.weight_pos, hlt, hmet, fun c hc => ⟨?_, Attempt.count_le_demandFor hf hc⟩⟩
      obtain ⟨m, ms, hm, hmissing, -, -⟩ := Attempt.mem_frontier hf
      exact UInt32.lt_iff_toNat_lt.2 (Gates.missing?_pos hmissing (hm ▸ hc))
  · intro ω _ tape tape' x he
    rcases Attempt.deal_fails hd hg ⟨tape, tape', he⟩ with ⟨f, hf⟩ | ⟨a, y, -, hy, hx⟩
    · cases hf
    · obtain rfl := Fall.defect.inj hy
      exact hx.elim Attempt.discoveredSet_eq_error Attempt.unlockable_eq_error

theorem deal_safe_twoRooms :
    let d := Dealer.new twoRooms insertedLock {} none
    let a : Attempt ℚ := (d.start 1).walked d
    twoRooms.Loaded ∧ insertedLock.Inserted ∧
    (∀ tape, (∃ p tape', (d.deal ℚ 1).run tape = .ok p tape') ∨
      ∃ f tape', (d.deal ℚ 1).run tape = .error (.failure f) tape') ∧
    a.locationAt 0 = .discovered 1 ∧ 0 < a.locationWeight d 0 1 ∧
    (a.frontier d).map FrontierEdge.edge = [0] ∧ ∀ f ∈ a.frontier d, 0 < f.weight := by
  have hwalked :
      let d := Dealer.new twoRooms insertedLock {} none
      let a : Attempt ℚ := (d.start 1).walked d
      a.locationAt 0 = .discovered 1 ∧ (a.frontier d).map FrontierEdge.edge = [0] := by cbv
  intro d a
  obtain ⟨hkey, hedges⟩ := hwalked
  obtain ⟨hends, -, hstates, -⟩ := deal_safe loaded_twoRooms inserted_insertedLock {} none 1
  have hleads : (d.start 1).LeadsTo d a := (Attempt.Change.explore (d.start 1)).leadsTo
  obtain ⟨-, -, -, hlocations, hfrontier⟩ := hstates a hleads
  exact ⟨loaded_twoRooms, inserted_insertedLock, hends, hkey, (hlocations 0 1 hkey).2.2, hedges,
    fun f hf => (hfrontier f hf).1⟩

end WorldShuffle

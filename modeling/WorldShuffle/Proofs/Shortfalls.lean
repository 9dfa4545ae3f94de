import WorldShuffle.Proofs.Progress

namespace WorldShuffle

variable {ω : Type} {d : Dealer} {a a' : Attempt ω} {vs vs' rs rs' : List Nat}
  {fs new : List (Nat × Nat)} {e : Fall Failure} {q : String}

namespace Attempt

variable [Weight ω]

theorem not_fails_reserve {c : Condition} (k : Nat) {set : WeightedSet ω Nat} (hs : set.Sized)
    (hk : k ≤ set.items.length) : ¬(reserve c k set a).Fails e := by
  induction k generalizing a set with
  | zero => exact Trial.not_fails_pure
  | succ k ih =>
    intro hf
    rcases Trial.fails_bind hf with hf | ⟨u, -, hf⟩
    · exact Trial.not_fails_fraction hf
    split at hf
    · rename_i i hi
      obtain ⟨l, left, htake⟩ := set.exists_takeAt (WeightedSet.pickIndex?_lt hs hi)
      obtain ⟨hperm, hsized⟩ := hs.takeAt htake
      have hlen := hperm.length_eq
      rw [List.length_cons] at hlen
      rw [htake] at hf
      rcases Trial.fails_bind hf with hf | ⟨drawn, hdrawn, hf⟩
      · exact Trial.not_fails_pure hf
      obtain rfl := Trial.yields_pure hdrawn
      rcases Trial.fails_bind hf with hf | ⟨⟨a₁, rest⟩, -, hf⟩
      · exact ih hsized (by omega) hf
      · exact Trial.not_fails_pure hf
    · rename_i hnone
      rw [WeightedSet.pickIndex?_eq_none (Option.eq_none_iff_forall_ne_some.2 hnone)] at hk
      exact absurd hk (by simp)

end Attempt

namespace Ledger

theorem countGranting_eq (h : Ledger d vs fs rs a) (h' : Ledger d vs' (fs ++ new) rs' a')
    (q : String) : a.countGranting d q =
      (new.map fun f => d.topology.state f.2).count q + a'.countGranting d q := by
  rw [Attempt.countGranting, ← (h.pool_perm h').countP_eq, List.countP_append, List.countP_map,
    List.count_eq_countP, List.countP_map]
  rfl

theorem place_eq_ok (h : Ledger d vs fs rs a) {l : Nat} (hl : l ∈ a.discovered) (pool : List Nat)
    (item : Nat) : ∃ a', Attempt.place d { a with pool } l item = .ok a' := by
  have hfree : a.mapping.has l = false := by
    rw [← Bool.not_eq_true, h.has_iff]
    exact ((h.discovered_iff l).1 hl).2.2
  exact ⟨_, by rw [Attempt.place, Mapping.insert, hfree]; rfl⟩

variable [Weight ω]

theorem placeGranting_fails (h : Ledger d vs fs rs a) {l : Nat} (hl : l ∈ a.discovered)
    (hf : (a.placeGranting d q l).Fails e) : a.countGranting d q = 0 := by
  rw [Attempt.placeGranting] at hf
  split at hf
  · rename_i item hitem
    obtain ⟨a₁, hplace⟩ := h.place_eq_ok hl (a.pool.erase item) item
    rw [hplace] at hf
    rcases Trial.fails_bind hf with hf | ⟨a₂, -, hf⟩
    · exact absurd hf Trial.not_fails_pure
    · exact absurd hf Trial.not_fails_pure
  · rename_i hnone
    rw [Attempt.countGranting, List.countP_eq_zero]
    exact List.find?_eq_none.1 (Option.eq_none_iff_forall_ne_some.2 hnone)

theorem not_fails_placeAll (hd : d.Fair) (ls : List Nat) (h : Ledger d vs fs ls a)
    (hnodup : ls.Nodup) (hls : ∀ l ∈ ls, l ∈ a.discovered) (hq : ls.length ≤ a.countGranting d q) :
    ¬(Attempt.placeAll d q ls a).Fails e := by
  induction ls generalizing fs a with
  | nil => exact Trial.not_fails_pure
  | cons l ls ih =>
    intro hf
    rw [List.length_cons] at hq
    rcases Trial.fails_bind hf with hf | ⟨⟨a₁, note⟩, hl, hf⟩
    · have hnone := h.placeGranting_fails (hls l List.mem_cons_self) hf
      omega
    obtain ⟨item, hledger, hdisc, -, -, hstate, -, -⟩ := h.placeNext hd hnodup hls hl
    have hcount := h.countGranting_eq hledger q
    have hone : List.count q [d.topology.state item] = 1 := by rw [hstate, List.count_singleton_self]
    rw [List.map_singleton, hone] at hcount
    rcases Trial.fails_bind hf with hf | ⟨⟨a₂, rest⟩, -, hf⟩
    · exact ih hledger (List.nodup_cons.1 hnodup).2 hdisc (by omega) hf
    · exact Trial.not_fails_pure hf

theorem supply_fails (hd : d.Fair) {c : Condition} (h : Ledger d vs fs [] a)
    (hc : c.count.toNat ≤ a.countGranting d c.state) (hf : (a.supply d c).Fails e) :
    a.discovered.length < c.count.toNat ∧
        e = .failure (.fewLocations a.number a.discovered.length c) ∨
      ∃ x, a.discoveredSet d = .error x ∧ e = .defect x := by
  rcases Trial.fails_bind hf with hf | ⟨set, hset, hf⟩
  · exact Or.inr (Trial.fails_orDefect hf)
  obtain ⟨hsized, hitems⟩ := h.discoveredSet (Trial.yields_orDefect hset)
  rw [← hitems]
  dsimp only at hf
  split at hf
  · rename_i hfew
    rcases Trial.fails_bind hf with hf | ⟨_, hnone, -⟩
    · exact Or.inl ⟨hfew, Trial.fails_fail hf⟩
    · exact absurd hnone Trial.not_yields_fail
  · rename_i henough
    refine absurd hf fun hf => ?_
    rcases Trial.fails_bind hf with hf | ⟨⟨a₁, ls⟩, hls, hf⟩
    · exact Attempt.not_fails_reserve _ hsized (Nat.le_of_not_lt henough) hf
    obtain ⟨hledger, hlen, hnodup, hsub, -, locations, rfl⟩ := h.reserve hd c.count.toNat hsized
      (hitems ▸ h.nodup_discovered) (fun l hl => ⟨hitems ▸ hl, List.not_mem_nil⟩) hls
    rw [List.append_nil] at hledger
    exact hledger.not_fails_placeAll hd ls hnodup (fun l hl => hitems ▸ hsub l hl)
      (hlen.symm ▸ hc) hf

/-- Unlocking fails for want of locations only. The conditions are on different states, so that the
items for one are not used up by those before it. -/
theorem unlock_fails (hd : d.Fair) (cs : List Condition) (h : Ledger d vs fs [] a)
    (hnodup : (cs.map Condition.state).Nodup)
    (hcan : ∀ c ∈ cs, c.count.toNat ≤ a.countGranting d c.state)
    (hf : (Attempt.unlock d cs a).Fails e) :
    (∃ before c after available, cs = before ++ c :: after ∧
      available + copies before = a.discovered.length ∧ available < c.count.toNat ∧
      e = .failure (.fewLocations a.number available c)) ∨
    ∃ a₁ x, a.LeadsTo d a₁ ∧ a₁.discoveredSet d = .error x ∧ e = .defect x := by
  induction cs generalizing fs a with
  | nil => exact absurd hf Trial.not_fails_pure
  | cons c cs ih =>
    obtain ⟨hnot, hnodup⟩ := List.nodup_cons.1 hnodup
    obtain ⟨hc, hcan⟩ := List.forall_mem_cons.1 hcan
    rcases Trial.fails_bind hf with hf | ⟨⟨a₁, first⟩, hfirst, hf⟩
    · rcases h.supply_fails hd hc hf with ⟨hfew, rfl⟩ | ⟨x, hx, rfl⟩
      · exact Or.inl ⟨[], c, cs, _, rfl, rfl, hfew, rfl⟩
      · exact Or.inr ⟨a, x, Attempt.LeadsTo.refl d a, hx, rfl⟩
    obtain ⟨new, hledger, hfills, -, -, hstates, hleads⟩ := h.supply hd hfirst
    have hcan₁ : ∀ c' ∈ cs, c'.count.toNat ≤ a₁.countGranting d c'.state := by
      intro c' hc'
      have hne : c'.state ≠ c.state := fun he => hnot (he ▸ List.mem_map_of_mem hc')
      have hcount := h.countGranting_eq hledger c'.state
      rw [hstates, List.count_replicate, if_neg (by simpa using hne.symm), Nat.zero_add] at hcount
      exact hcount ▸ hcan c' hc'
    rcases Trial.fails_bind hf with hf | ⟨⟨a₂, rest⟩, -, hf⟩
    · rcases ih hledger hnodup hcan₁ hf with
        ⟨before, c', after, available, rfl, hlen, hfew, he⟩ | ⟨a₂, x, hleads', hx, he⟩
      · refine Or.inl ⟨c :: before, c', after, available, rfl, ?_, hfew, hfills.number ▸ he⟩
        have hplaced := congrArg List.length hstates
        have hdisc := (h.discovered_perm hledger).length_eq
        rw [List.length_append, List.length_map] at hdisc
        rw [List.length_map, List.length_replicate] at hplaced
        rw [copies_cons]
        omega
      · exact Or.inr ⟨a₂, x, hleads.trans hleads', hx, he⟩
    · exact absurd hf Trial.not_fails_pure

theorem not_fails_fill (hd : d.Fair) (k : Nat) {set : WeightedSet ω Nat} (h : Ledger d vs fs [] a)
    (hs : set.Sized) (hset : set.items.Perm a.discovered) :
    ¬(Attempt.fill d set k a).Fails e := by
  induction k generalizing fs a set with
  | zero => exact Trial.not_fails_pure
  | succ k ih =>
    intro hf
    rw [Attempt.fill] at hf
    dsimp only at hf
    split at hf
    · exact Trial.not_fails_pure hf
    rename_i hpool
    rcases Trial.fails_bind hf with hf | ⟨u, -, hf⟩
    · exact Trial.not_fails_fraction hf
    split at hf
    · exact Trial.not_fails_pure hf
    rename_i i hi
    obtain ⟨l, left, htake⟩ := set.exists_takeAt (WeightedSet.pickIndex?_lt hs hi)
    obtain ⟨hperm, hsized⟩ := hs.takeAt htake
    rw [htake] at hf
    rcases Trial.fails_bind hf with hf | ⟨drawn, hdrawn, hf⟩
    · exact Trial.not_fails_pure hf
    obtain rfl := Trial.yields_pure hdrawn
    have hl : l ∈ a.discovered := hset.mem_iff.1 (hperm.mem_iff.1 List.mem_cons_self)
    rcases Trial.fails_bind hf with hf | ⟨j, hj, hf⟩
    · have hpos : 0 < a.pool.length := by simpa [List.length_pos_iff] using hpool
      exact (Trial.surely_index hpos).not_fails hf
    obtain ⟨item, pool, hpull⟩ := exists_takeEntry (Trial.yields_index hj)
    obtain ⟨-, -, hitem⟩ := takeEntry_eq_ok hpull
    rw [hpull] at hf
    rcases Trial.fails_bind hf with hf | ⟨pulled, hpulled, hf⟩
    · exact Trial.not_fails_pure hf
    obtain rfl := Trial.yields_pure hpulled
    obtain ⟨a₁, hplace⟩ := h.place_eq_ok hl pool item
    rw [hplace] at hf
    obtain ⟨hledger, -, -, hrest, -, -⟩ := h.placeFirst hd (hperm.trans hset) hitem hplace
    have hnoted : Ledger d vs (fs ++ [(l, item)]) [] { a₁ with
        fillAtWill := a₁.fillAtWill ++ [d.topology.placementNote l item] } :=
      hledger.keep rfl rfl rfl rfl rfl
    rcases Trial.fails_bind hf with hf | ⟨a₂, ha₂, hf⟩
    · exact Trial.not_fails_pure hf
    · rw [Trial.yields_pure ha₂] at hf
      exact ih hnoted hsized hrest.symm hf

end Ledger

namespace Attempt

variable [Weight ω] {number : Nat}

/-- A round fails where it forms a weighted set, or where it unlocks the edge that it has chosen. -/
theorem playRound_fails (hd : d.Fair) (h : Ledger d vs fs [] a) (hf : (a.playRound d).Fails e) :
    (∃ x, unlockable ((a.walked d).frontier d) = .error x ∧ e = .defect x) ∨
    (∃ x, (a.walked d).discoveredSet d = .error x ∧ e = .defect x) ∨
    ∃ f ∈ (a.walked d).frontier d, f.canUnlock = true ∧
      (unlock d f.missing (a.walked d)).Fails e := by
  rw [playRound] at hf
  dsimp only at hf
  rcases Trial.fails_bind hf with hf | ⟨edges, hedges, hf⟩
  · exact Or.inl (Trial.fails_orDefect hf)
  obtain ⟨hsized, hitems⟩ := unlockable_eq_ok (Trial.yields_orDefect hedges)
  split at hf
  · rcases Trial.fails_bind hf with hf | ⟨_, -, hf⟩
    · exact absurd hf Trial.not_fails_report
    rcases Trial.fails_bind hf with hf | ⟨set, hset, hf⟩
    · exact Or.inr (Or.inl (Trial.fails_orDefect hf))
    obtain ⟨hledger, -⟩ := h.walked hd
    obtain ⟨hset, hdisc⟩ := hledger.discoveredSet (Trial.yields_orDefect hset)
    rcases Trial.fails_bind hf with hf | ⟨a₁, -, hf⟩
    · exact absurd hf (hledger.not_fails_fill hd _ hset (hdisc ▸ List.Perm.refl _))
    · exact absurd hf Trial.not_fails_pure
  · rename_i hne
    rcases Trial.fails_bind hf with hf | ⟨u, -, hf⟩
    · exact absurd hf Trial.not_fails_fraction
    obtain ⟨f, hmem, hpick⟩ :=
      WeightedSet.pick?_eq_some hsized (fun he => hne (List.isEmpty_iff.2 he)) u
    rw [hpick] at hf
    obtain ⟨hmem, hcan⟩ := List.mem_filter.1 (hitems ▸ hmem)
    rcases Trial.fails_bind hf with hf | ⟨⟨a₁, notes⟩, -, hf⟩
    · exact Or.inr (Or.inr ⟨f, hmem, hcan, hf⟩)
    rcases Trial.fails_bind hf with hf | ⟨_, -, hf⟩
    · exact absurd hf Trial.not_fails_report
    · exact absurd hf Trial.not_fails_pure

theorem playRounds_fails (k : Nat) (h : a.Played d number) (hf : (playRounds d k a).Fails e) :
    ∃ a₀ : Attempt ω, a₀.Played d number ∧ a₀.pool ≠ [] ∧ (a₀.playRound d).Fails e := by
  induction k generalizing a with
  | zero => exact absurd hf Trial.not_fails_pure
  | succ k ih =>
    rw [playRounds] at hf
    dsimp only at hf
    split at hf
    · exact absurd hf Trial.not_fails_pure
    rename_i hempty
    have hpool : a.pool ≠ [] := fun he => hempty (List.isEmpty_iff.2 he)
    rcases Trial.fails_bind hf with hf | ⟨⟨a₁, b⟩, hround, hf⟩
    · exact ⟨a, h, hpool, hf⟩
    cases b with
    | true => exact ih (h.round hpool hround) hf
    | false => exact absurd hf Trial.not_fails_pure

theorem fillRest_ok (slot : Nat) (ns : List Nat) (m : Mapping) :
    ∃ m', fillRest slot ns m = .ok m' := by
  induction ns generalizing slot m with
  | nil => exact ⟨m, rfl⟩
  | cons n ns ih =>
    rw [fillRest]
    have free (hn : ¬m.has n = true) (r : Replacement) :
        m.insert n r = .ok ⟨m.table.set n r⟩ := by
      rw [Mapping.insert, if_neg hn]
    split
    · exact ih slot m
    · rename_i hn
      split
      · rw [free hn]
        exact ih (slot + 1) _
      · rw [free hn]
        exact ih slot _

section finish

open Trial

omit [Weight ω] in
theorem surely_finish (hfew : a.pool.length ≤ maxLeftover) :
    (a.finish d).Surely fun p =>
      fillRest 0 (d.topology.nodeIndexes.filter (· ∈ d.pool)) a.mapping = .ok p.mapping := by
  obtain ⟨m, hm⟩ := fillRest_ok 0 (d.topology.nodeIndexes.filter (· ∈ d.pool)) a.mapping
  have hrest : (orDefect (fillRest 0 (d.topology.nodeIndexes.filter (· ∈ d.pool)) a.mapping) :
      Trial (Fall Failure) Mapping).Surely (· = m) := surely_orDefect hm rfl
  rw [finish]
  dsimp only
  rw [if_neg (Nat.not_lt.2 hfew)]
  split
  · refine surely_bind (surely_report _ _) fun _ _ => ?_
    exact surely_bind hrest fun m' hm' => surely_pure (hm' ▸ hm)
  · exact surely_bind hrest fun m' hm' => surely_pure (hm' ▸ hm)

omit [Weight ω] in
theorem finish_fails (hf : (a.finish d).Fails e) :
    e = .failure (.unplacedItems a.number a.pool.length) := by
  by_cases hmany : maxLeftover < a.pool.length
  · rw [finish] at hf
    dsimp only at hf
    rw [if_pos hmany] at hf
    rcases fails_bind hf with hf | ⟨_, hnone, -⟩
    · exact fails_fail hf
    · exact absurd hnone not_yields_fail
  · exact absurd hf (surely_finish (Nat.le_of_not_lt hmany)).not_fails

end finish

section stranded

open Trial

structure Stranded (d : Dealer) (a : Attempt ω) : Prop where
  discovered : (a.walked d).discovered = []
  canUnlock : ((a.walked d).frontier d).all (!·.canUnlock) = true

theorem surely_fill_nil (k : Nat) (a : Attempt ω) :
    (a.fill d {} k).Surely (· = a) := by
  cases k with
  | zero => exact surely_pure rfl
  | succ k =>
    rw [fill]
    dsimp only
    split
    · exact surely_pure rfl
    · refine surely_bind (P := fun _ => True) (fun tape => ⟨_, _, rfl, trivial⟩) fun t _ => ?_
      exact surely_pure rfl

theorem Stranded.surely_playRound (h : a.Stranded d) :
    (a.playRound d).Surely (· = (a.walked d, false)) := by
  have hnone : ((a.walked d).frontier d).filter (·.canUnlock) = [] := by
    simpa [List.filter_eq_nil_iff] using h.canUnlock
  have hedges : unlockable ((a.walked d).frontier d) = .ok {} := by
    rw [unlockable, hnone]
    rfl
  have hset : (a.walked d).discoveredSet d = .ok {} := by
    rw [discoveredSet, h.discovered]
    rfl
  refine surely_bind (surely_orDefect (P := (· = {})) hedges rfl) fun edges hnil => ?_
  subst hnil
  refine surely_bind (surely_report _ _) fun _ _ => ?_
  refine surely_bind (surely_orDefect (P := (· = {})) hset rfl) fun set hnil => ?_
  subst hnil
  exact surely_bind (surely_fill_nil _ (a.walked d)) fun b hb => surely_pure (by rw [hb])

theorem Stranded.surely_deal (h : (d.start number : Attempt ω).Stranded d) (hpool : d.pool ≠ [])
    (hfew : d.pool.length ≤ maxLeftover) :
    (d.deal ω number).Surely fun p =>
      fillRest 0 (d.topology.nodeIndexes.filter (· ∈ d.pool)) {} = .ok p.mapping := by
  have hplay : (d.play ω number).Surely fun a => a.pool = d.pool ∧ a.mapping = {} := by
    refine surely_bind (P := fun _ => True) (fun tape => ⟨tape, tape, rfl, trivial⟩) fun tape _ => ?_
    refine surely_bind (surely_report _ _) fun _ _ => ?_
    obtain ⟨n, hn⟩ := Nat.exists_eq_succ_of_ne_zero (mt List.eq_nil_of_length_eq_zero hpool)
    obtain ⟨locations, discovered, frontierRound, hwalked⟩ :=
      (d.start number : Attempt ω).walked_eq d
    have hsome : (d.start number : Attempt ω).pool.isEmpty = false := by
      rwa [← Bool.not_eq_true, List.isEmpty_iff]
    rw [hn, playRounds, hsome]
    refine surely_bind h.surely_playRound fun r hr => ?_
    subst hr
    rw [hwalked]
    exact surely_pure ⟨rfl, rfl⟩
  refine surely_bind hplay fun a ha => ?_
  obtain ⟨hleft, hfresh⟩ := ha
  exact hfresh ▸ surely_finish (hleft ▸ hfew)

end stranded

end Attempt

end WorldShuffle

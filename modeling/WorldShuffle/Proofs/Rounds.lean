import WorldShuffle.Proofs.Changes
import WorldShuffle.Proofs.Trials

namespace WorldShuffle

variable {ω : Type} {d : Dealer} {a a' a'' : Attempt ω} {vs rs : List Nat}
  {fs new more : List (Nat × Nat)} {note : PlacementNote} {notes : List PlacementNote}

def Topology.fillNote (t : Topology) (f : Nat × Nat) : PlacementNote := t.placementNote f.1 f.2

def suppliedBy (cs : List Condition) : List String :=
  cs.flatMap fun c => List.replicate c.count.toNat c.state

theorem length_suppliedBy (cs : List Condition) : (suppliedBy cs).length = copies cs := by
  induction cs with
  | nil => rfl
  | cons c cs ih =>
    rw [suppliedBy, List.flatMap_cons, List.length_append, List.length_replicate, copies_cons, ← ih]
    rfl

structure Attempt.Fills (d : Dealer) (a : Attempt ω) (new : List (Nat × Nat)) (a' : Attempt ω) :
    Prop where
  number : a'.number = a.number
  round : a'.round = a.round
  explorer : a'.explorer = a.explorer
  rounds : a'.rounds = a.rounds
  states : a'.states = a.states.grant (new.map (itemGrant d.topology))

namespace Attempt

theorem Fills.refl (d : Dealer) (a : Attempt ω) : a.Fills d [] a := ⟨rfl, rfl, rfl, rfl, rfl⟩

theorem Fills.trans (h : a.Fills d new a') (h' : a'.Fills d more a'') :
    a.Fills d (new ++ more) a'' where
  number := h'.number.trans h.number
  round := h'.round.trans h.round
  explorer := h'.explorer.trans h.explorer
  rounds := h'.rounds.trans h.rounds
  states := by rw [h'.states, h.states, List.map_append, States.grant_append]

theorem fills_place {l item : Nat} {pool : List Nat} (h : place d { a with pool } l item = .ok a') :
    a.Fills d [(l, item)] a' ∧ a'.fillAtWill = a.fillAtWill ∧ a'.pool = pool ∧
      a'.discovered = a.discovered.filter (· ≠ l) := by
  obtain ⟨mapping, -, h⟩ := bind_eq_ok h
  obtain rfl := Except.ok.inj h
  exact ⟨⟨rfl, rfl, rfl, rfl, rfl⟩, rfl, rfl, rfl⟩

variable [Weight ω]

theorem penalizeFrom_eq (t : Topology) (seen penalized layer : List Nat) (hops : Nat)
    (a : Attempt ω) :
    ∃ penalty, a.penalizeFrom t seen penalized layer hops = { a with penalty } := by
  induction hops generalizing seen penalized layer a with
  | zero => exact ⟨a.penalty, rfl⟩
  | succ hops ih =>
    rw [penalizeFrom]
    obtain ⟨penalty, h⟩ := ih _ _ _ _
    exact ⟨penalty, h⟩

theorem penalizeAround_eq (t : Topology) (a : Attempt ω) (l : Nat) :
    ∃ penalty, a.penalizeAround t l = { a with penalty } :=
  penalizeFrom_eq t _ _ _ _ a

end Attempt

namespace Ledger

theorem locationAt_cases (h : Ledger d vs fs rs a) {l : Nat} (hl : l ∈ a.discovered) :
    a.locationAt l = .reserved ∨ a.isDiscovered l = true := by
  obtain ⟨hv, hp, hf⟩ := (h.discovered_iff l).1 hl
  have hunplaced := mt (h.unplaced_iff l).1 (not_not_intro ⟨hv, hp⟩)
  have hplaced := mt (h.placed_iff l).1 hf
  cases hloc : a.locationAt l with
  | unplaced => exact absurd hloc hunplaced
  | discovered depth => exact Or.inr (Attempt.isDiscovered_iff.2 ⟨depth, hloc⟩)
  | reserved => exact Or.inl rfl
  | placed => exact absurd hloc hplaced

theorem isDiscovered (h : Ledger d vs fs rs a) {l : Nat} (hl : l ∈ a.discovered) (hr : l ∉ rs) :
    a.isDiscovered l = true :=
  (h.locationAt_cases hl).resolve_left (mt (h.reserved_iff l).1 hr)

variable [Weight ω]

theorem placeGranting (hd : d.Fair) (h : Ledger d vs fs rs a) {l : Nat} {state : String}
    (hl : l ∈ a.discovered) (hok : (a.placeGranting d state l).Yields (a', note)) :
    ∃ item, Ledger d vs (fs ++ [(l, item)]) (rs.filter (· ≠ l)) a' ∧ a.Fills d [(l, item)] a' ∧
      a'.fillAtWill = a.fillAtWill ∧ d.topology.state item = state ∧
      note = d.topology.fillNote (l, item) ∧ a.LeadsTo d a' := by
  rw [Attempt.placeGranting] at hok
  split at hok
  · rename_i item hitem
    obtain ⟨a₁, hplace, hok⟩ := Trial.yields_bind hok
    have hplace := Trial.yields_orDefect hplace
    obtain ⟨rfl, rfl⟩ := Prod.mk.inj (Trial.yields_pure hok)
    have hpool := (List.perm_cons_erase (List.mem_of_find?_eq_some hitem)).symm
    have hledger := h.place hd hl hpool hplace
    have hleads := (Attempt.Change.place (h.locationAt_cases hl) hpool hplace).leadsTo.trans
      (Attempt.Change.penalize a₁ l).leadsTo
    obtain ⟨hfills, hwill, -, -⟩ := Attempt.fills_place hplace
    obtain ⟨penalty, hpen⟩ := a₁.penalizeAround_eq d.topology l
    rw [hpen] at hleads ⊢
    refine ⟨item, hledger.keep rfl rfl rfl rfl rfl, ⟨hfills.number, hfills.round, hfills.explorer,
      hfills.rounds, hfills.states⟩, hwill, ?_, rfl, hleads⟩
    simpa using List.find?_some hitem
  · exact absurd hok Trial.not_yields_fail

/-- An item put into the first of the reserved locations leaves the others in reserve. -/
theorem placeNext (hd : d.Fair) {l : Nat} {ls : List Nat} {state : String}
    (h : Ledger d vs fs (l :: ls) a) (hnodup : (l :: ls).Nodup)
    (hls : ∀ k ∈ l :: ls, k ∈ a.discovered)
    (hok : (a.placeGranting d state l).Yields (a', note)) :
    ∃ item, Ledger d vs (fs ++ [(l, item)]) ls a' ∧ (∀ k ∈ ls, k ∈ a'.discovered) ∧
      a.Fills d [(l, item)] a' ∧ a'.fillAtWill = a.fillAtWill ∧ d.topology.state item = state ∧
      note = d.topology.fillNote (l, item) ∧ a.LeadsTo d a' := by
  obtain ⟨hnot, -⟩ := List.nodup_cons.1 hnodup
  obtain ⟨item, hledger, hfills, hwill, hstate, hnote, hleads⟩ :=
    h.placeGranting hd (hls l List.mem_cons_self) hok
  have hledger : Ledger d vs (fs ++ [(l, item)]) ls a' := hledger.reserves fun n => by
    simp only [List.mem_filter, List.mem_cons, decide_eq_true_eq]
    exact ⟨fun hn => ⟨Or.inr hn, fun he => hnot (he ▸ hn)⟩, fun hn => hn.1.resolve_left hn.2⟩
  refine ⟨item, hledger, fun k hk => ?_, hfills, hwill, hstate, hnote, hleads⟩
  obtain ⟨hv, hp, hf⟩ := (h.discovered_iff k).1 (hls k (List.mem_cons_of_mem l hk))
  refine (hledger.discovered_iff k).2 ⟨hv, hp, ?_⟩
  rw [List.map_append, List.mem_append, not_or]
  exact ⟨hf, by simpa using fun he : k = l => hnot (he ▸ hk)⟩

theorem placeAll (hd : d.Fair) {state : String} (ls : List Nat)
    (h : Ledger d vs fs ls a) (hnodup : ls.Nodup) (hls : ∀ l ∈ ls, l ∈ a.discovered)
    (hok : (Attempt.placeAll d state ls a).Yields (a', notes)) :
    ∃ new, Ledger d vs (fs ++ new) [] a' ∧ a.Fills d new a' ∧ a'.fillAtWill = a.fillAtWill ∧
      notes = new.map d.topology.fillNote ∧ new.map Prod.fst = ls ∧
      (∀ f ∈ new, d.topology.state f.2 = state) ∧ a.LeadsTo d a' := by
  induction ls generalizing fs a notes with
  | nil =>
    obtain ⟨rfl, rfl⟩ := Prod.mk.inj (Trial.yields_pure hok)
    exact ⟨[], by rwa [List.append_nil], Attempt.Fills.refl d _, rfl, rfl, rfl, by simp,
      Attempt.LeadsTo.refl d _⟩
  | cons l ls ih =>
    obtain ⟨⟨a₁, note⟩, hl, hok⟩ := Trial.yields_bind hok
    obtain ⟨⟨a₂, rest⟩, hrest, hok⟩ := Trial.yields_bind hok
    obtain ⟨rfl, rfl⟩ := Prod.mk.inj (Trial.yields_pure hok)
    obtain ⟨item, hledger, hdisc, hfills, hwill, hstate, rfl, hleads⟩ :=
      h.placeNext hd hnodup hls hl
    obtain ⟨new, hledger', hfills', hwill', rfl, rfl, hstates, hleads'⟩ :=
      ih hledger (List.nodup_cons.1 hnodup).2 hdisc hrest
    refine ⟨(l, item) :: new, ?_, hfills.trans hfills', hwill'.trans hwill, rfl, rfl, ?_,
      hleads.trans hleads'⟩
    · rwa [List.append_assoc] at hledger'
    · exact List.forall_mem_cons.2 ⟨hstate, hstates⟩

theorem reserve (hd : d.Fair) {c : Condition} (k : Nat) {set : WeightedSet ω Nat}
    {ls : List Nat} (h : Ledger d vs fs rs a) (hs : set.Sized) (hnodup : set.items.Nodup)
    (hset : ∀ l ∈ set.items, l ∈ a.discovered ∧ l ∉ rs)
    (hok : (Attempt.reserve c k set a).Yields (a', ls)) :
    Ledger d vs fs (ls ++ rs) a' ∧ ls.length = k ∧ ls.Nodup ∧ (∀ l ∈ ls, l ∈ set.items) ∧
      a.LeadsTo d a' ∧ ∃ locations, a' = { a with locations } := by
  induction k generalizing rs a set ls with
  | zero =>
    obtain ⟨rfl, rfl⟩ := Prod.mk.inj (Trial.yields_pure hok)
    exact ⟨h, rfl, List.nodup_nil, by simp, Attempt.LeadsTo.refl d _, a'.locations, rfl⟩
  | succ k ih =>
    obtain ⟨u, -, hok⟩ := Trial.yields_bind hok
    split at hok
    · obtain ⟨⟨l, left⟩, htake, hok⟩ := Trial.yields_bind hok
      obtain ⟨⟨a₁, rest⟩, hrest, hok⟩ := Trial.yields_bind hok
      obtain ⟨rfl, rfl⟩ := Prod.mk.inj (Trial.yields_pure hok)
      obtain ⟨hperm, hsized⟩ := hs.takeAt (Trial.yields_orDefect htake)
      obtain ⟨hnot, hnodup'⟩ := List.nodup_cons.1 (hperm.nodup_iff.2 hnodup)
      have hmem : ∀ k ∈ left.items, k ∈ set.items := fun k hk =>
        hperm.mem_iff.1 (List.mem_cons_of_mem l hk)
      obtain ⟨hl, hnew⟩ := hset l (hperm.mem_iff.1 List.mem_cons_self)
      have hreserve := Attempt.Change.reserve (d := d) (h.isDiscovered hl hnew)
      have hset' : ∀ k ∈ left.items, k ∈ a.discovered ∧ k ∉ l :: rs := by
        intro k hk
        obtain ⟨hdisc, hold⟩ := hset k (hmem k hk)
        exact ⟨hdisc, List.not_mem_cons_of_ne_of_not_mem (fun he => hnot (he ▸ hk)) hold⟩
      obtain ⟨hledger, hlen, hnd, hsub, hleads, locations, rfl⟩ :=
        ih (h.reserveOne hd hl) hsized hnodup' hset' hrest
      have hsame (n : Nat) : n ∈ l :: rest ++ rs ↔ n ∈ rest ++ l :: rs :=
        List.perm_middle.symm.mem_iff
      refine ⟨hledger.reserves hsame, by rw [List.length_cons, hlen],
        List.nodup_cons.2 ⟨fun hm => hnot (hsub l hm), hnd⟩, ?_, hreserve.leadsTo.trans hleads,
        locations, rfl⟩
      exact List.forall_mem_cons.2 ⟨hperm.mem_iff.1 List.mem_cons_self,
        fun k hk => hmem k (hsub k hk)⟩
    · exact absurd hok Trial.not_yields_fail

/-- While nothing is in reserve, every discovered location can be drawn. -/
theorem discoveredSet (h : Ledger d vs fs [] a) {set : WeightedSet ω Nat}
    (hok : a.discoveredSet d = .ok set) : set.Sized ∧ set.items = a.discovered := by
  have hset := WeightedSet.sized_foldlM (fun s n s' hn hs => ?_) WeightedSet.sized_empty hok
  · simpa using hset
  · obtain ⟨depth, hloc⟩ := Attempt.isDiscovered_iff.1 (h.isDiscovered hn List.not_mem_nil)
    rw [hloc] at hs
    exact ⟨_, hs⟩

theorem supply (hd : d.Fair) {c : Condition} (h : Ledger d vs fs [] a)
    (hok : (a.supply d c).Yields (a', notes)) :
    ∃ new, Ledger d vs (fs ++ new) [] a' ∧ a.Fills d new a' ∧ a'.fillAtWill = a.fillAtWill ∧
      notes = new.map d.topology.fillNote ∧
      new.map (fun f => d.topology.state f.2) = List.replicate c.count.toNat c.state ∧
      a.LeadsTo d a' := by
  obtain ⟨set, hset, hok⟩ := Trial.yields_bind hok
  obtain ⟨hsized, hitems⟩ := h.discoveredSet (Trial.yields_orDefect hset)
  dsimp only at hok
  split at hok
  · exact absurd hok Trial.not_yields_fail_bind
  obtain ⟨⟨a₁, ls⟩, hls, hok⟩ := Trial.yields_bind hok
  obtain ⟨hledger, hlen, hnodup, hsub, hleads, locations, rfl⟩ := h.reserve hd c.count.toNat hsized
    (hitems ▸ h.nodup_discovered) (fun l hl => ⟨hitems ▸ hl, List.not_mem_nil⟩) hls
  rw [List.append_nil] at hledger
  obtain ⟨new, hledger', hfills, hwill, hnotes, rfl, hstates, hleads'⟩ :=
    hledger.placeAll hd ls hnodup (fun l hl => hitems ▸ hsub l hl) hok
  refine ⟨new, hledger', ⟨hfills.number, hfills.round, hfills.explorer, hfills.rounds,
    hfills.states⟩, hwill, hnotes, ?_, hleads.trans hleads'⟩
  rw [List.length_map] at hlen
  exact List.eq_replicate_iff.2 ⟨(List.length_map _).trans hlen, List.forall_mem_map.2 hstates⟩

/-- Unlocking puts as many items into discovered locations as its conditions count, each granting the
state of its condition. -/
theorem unlock (hd : d.Fair) (cs : List Condition) (h : Ledger d vs fs [] a)
    (hok : (Attempt.unlock d cs a).Yields (a', notes)) :
    ∃ new, Ledger d vs (fs ++ new) [] a' ∧ a.Fills d new a' ∧ a'.fillAtWill = a.fillAtWill ∧
      notes = new.map d.topology.fillNote ∧
      new.map (fun f => d.topology.state f.2) = suppliedBy cs ∧ a.LeadsTo d a' := by
  induction cs generalizing fs a notes with
  | nil =>
    obtain ⟨rfl, rfl⟩ := Prod.mk.inj (Trial.yields_pure hok)
    exact ⟨[], by rwa [List.append_nil], Attempt.Fills.refl d _, rfl, rfl, rfl,
      Attempt.LeadsTo.refl d _⟩
  | cons c cs ih =>
    obtain ⟨⟨a₁, first⟩, hc, hok⟩ := Trial.yields_bind hok
    obtain ⟨⟨a₂, rest⟩, hcs, hok⟩ := Trial.yields_bind hok
    obtain ⟨rfl, rfl⟩ := Prod.mk.inj (Trial.yields_pure hok)
    obtain ⟨new, hledger, hfills, hwill, rfl, hstates, hleads⟩ := h.supply hd hc
    obtain ⟨more, hledger', hfills', hwill', rfl, hstates', hleads'⟩ := ih hledger hcs
    refine ⟨new ++ more, ?_, hfills.trans hfills', hwill'.trans hwill, ?_, ?_,
      hleads.trans hleads'⟩
    · rwa [List.append_assoc] at hledger'
    · rw [List.map_append]
    · rw [List.map_append, hstates, hstates', suppliedBy, suppliedBy, List.flatMap_cons]

omit [Weight ω] in
/-- An item put into the first of the locations still to be drawn leaves the others. -/
theorem placeFirst (hd : d.Fair) (h : Ledger d vs fs [] a) {l item : Nat} {ls pool : List Nat}
    (hset : (l :: ls).Perm a.discovered) (hpool : (item :: pool).Perm a.pool)
    (hok : Attempt.place d { a with pool } l item = .ok a') :
    Ledger d vs (fs ++ [(l, item)]) [] a' ∧ a.Fills d [(l, item)] a' ∧
      a'.fillAtWill = a.fillAtWill ∧ a'.discovered.Perm ls ∧ a'.pool.length + 1 = a.pool.length ∧
      a.isDiscovered l = true := by
  obtain ⟨hfills, hwill, hp, hdisc⟩ := Attempt.fills_place hok
  obtain ⟨hnot, -⟩ := List.nodup_cons.1 (hset.nodup_iff.2 h.nodup_discovered)
  have hl := hset.mem_iff.1 List.mem_cons_self
  refine ⟨h.place hd hl hpool hok, hfills, hwill, ?_, ?_, h.isDiscovered hl List.not_mem_nil⟩
  · have hf := hset.filter (· ≠ l)
    rw [List.filter_cons_of_neg (by simp), List.filter_eq_self.2] at hf
    · exact hdisc ▸ hf.symm
    · exact fun n hn => decide_eq_true fun he => hnot (he ▸ hn)
  · rw [hp, ← hpool.length_eq, List.length_cons]

theorem fill (hd : d.Fair) (k : Nat) {set : WeightedSet ω Nat} (h : Ledger d vs fs [] a)
    (hs : set.Sized) (hset : set.items.Perm a.discovered) (hk : a.pool.length ≤ k)
    (hok : (Attempt.fill d set k a).Yields a') :
    ∃ new, Ledger d vs (fs ++ new) [] a' ∧ a.Fills d new a' ∧
      a'.fillAtWill = a.fillAtWill ++ new.map d.topology.fillNote ∧
      (a'.pool = [] ∨ a'.discovered = []) ∧ a.LeadsTo d a' := by
  have stop {fs : List (Nat × Nat)} {a : Attempt ω} (h : Ledger d vs fs [] a)
      (hdone : a.pool = [] ∨ a.discovered = []) :
      ∃ new, Ledger d vs (fs ++ new) [] a ∧ a.Fills d new a ∧
        a.fillAtWill = a.fillAtWill ++ new.map d.topology.fillNote ∧
        (a.pool = [] ∨ a.discovered = []) ∧ a.LeadsTo d a :=
    ⟨[], by rwa [List.append_nil], Attempt.Fills.refl d a, (List.append_nil _).symm, hdone,
      Attempt.LeadsTo.refl d a⟩
  induction k generalizing fs a set with
  | zero =>
    obtain rfl := Trial.yields_pure hok
    exact stop h (Or.inl (List.eq_nil_of_length_eq_zero (Nat.le_zero.1 hk)))
  | succ k ih =>
    rw [Attempt.fill] at hok
    dsimp only at hok
    split at hok
    · rename_i hempty
      obtain rfl := Trial.yields_pure hok
      exact stop h (Or.inl (List.isEmpty_iff.1 hempty))
    obtain ⟨u, -, hok⟩ := Trial.yields_bind hok
    split at hok
    · rename_i hnone
      obtain rfl := Trial.yields_pure hok
      rw [WeightedSet.pickIndex?_eq_none hnone] at hset
      exact stop h (Or.inr hset.nil_eq.symm)
    · obtain ⟨⟨l, left⟩, htake, hok⟩ := Trial.yields_bind hok
      obtain ⟨hperm, hsized⟩ := hs.takeAt (Trial.yields_orDefect htake)
      obtain ⟨j, -, hok⟩ := Trial.yields_bind hok
      obtain ⟨⟨item, pool⟩, hpool, hok⟩ := Trial.yields_bind hok
      obtain ⟨-, -, hpool⟩ := takeEntry_eq_ok (Trial.yields_orDefect hpool)
      obtain ⟨a₁, hplace, hok⟩ := Trial.yields_bind hok
      have hplace := Trial.yields_orDefect hplace
      obtain ⟨hledger, hfills, hwill, hrest, hlen, hl⟩ :=
        h.placeFirst hd (hperm.trans hset) hpool hplace
      have hchange := Attempt.Change.place (Or.inr hl) hpool hplace
      have hnote := Attempt.Change.note (d := d) a₁ a₁.rounds
        (a₁.fillAtWill ++ [d.topology.fillNote (l, item)])
      have hk₁ : a₁.pool.length ≤ k := by omega
      have hnoted : Ledger d vs (fs ++ [(l, item)]) [] { a₁ with
          fillAtWill := a₁.fillAtWill ++ [d.topology.fillNote (l, item)] } :=
        hledger.keep rfl rfl rfl rfl rfl
      obtain ⟨new, hledger', hfills', hwill', hdone, hleads⟩ := ih hnoted hsized hrest.symm hk₁ hok
      refine ⟨(l, item) :: new, ?_, ?_, ?_, hdone,
        hchange.leadsTo.trans (hnote.leadsTo.trans hleads)⟩
      · rwa [List.append_assoc] at hledger'
      · exact hfills.trans ⟨hfills'.number, hfills'.round, hfills'.explorer, hfills'.rounds,
          hfills'.states⟩
      · rw [hwill', List.map_cons, hwill, List.append_assoc]
        rfl

end Ledger

namespace Attempt

variable [Weight ω]

theorem mem_frontier {f : FrontierEdge ω} (h : f ∈ a.frontier d) :
    ∃ c cs, f.missing = c :: cs ∧ d.gates.missing? f.edge a.states = some (c :: cs) ∧
      f.edge ∈ a.explorer.frontier ∧ f.canUnlock = a.canUnlock d f.missing := by
  obtain ⟨⟨e, ms⟩, hm, rfl⟩ := List.mem_map.1 h
  obtain ⟨e', he', hm⟩ := List.mem_filterMap.1 hm
  split at hm
  · rename_i c cs hc
    obtain ⟨rfl, rfl⟩ := Prod.mk.inj (Option.some.inj hm)
    exact ⟨c, cs, rfl, hc, he', rfl⟩
  · simp at hm

theorem copies_pos {f : FrontierEdge ω} (h : f ∈ a.frontier d) : 0 < copies f.missing := by
  obtain ⟨c, cs, hm, hc, -, -⟩ := mem_frontier h
  have hpos := Gates.missing?_pos hc List.mem_cons_self
  rw [hm, copies_cons]
  omega

theorem unlockable_eq_ok {frontier : List (FrontierEdge ω)}
    {edges : WeightedSet ω (FrontierEdge ω)} (h : unlockable frontier = .ok edges) :
    edges.Sized ∧ edges.items = frontier.filter (·.canUnlock) := by
  obtain ⟨hs, hi⟩ := WeightedSet.sized_foldlM (fun s f s' _ hs => ⟨_, hs⟩) WeightedSet.sized_empty h
  exact ⟨hs, by rw [hi]; rfl⟩

theorem items_unlockable_eq_nil {frontier : List (FrontierEdge ω)}
    {edges : WeightedSet ω (FrontierEdge ω)} (h : unlockable frontier = .ok edges) :
    edges.items = [] ↔ ∀ f ∈ frontier, f.canUnlock = false := by
  rw [(unlockable_eq_ok h).2]
  simp

def walked (d : Dealer) (a : Attempt ω) : Attempt ω := { a with round := a.round + 1 }.explore d

omit [Weight ω] in
theorem round_walked (d : Dealer) (a : Attempt ω) : (a.walked d).round = a.round + 1 := by
  obtain ⟨locations, discovered, frontierRound, h⟩ :=
    explore_eq_walk d { a with round := a.round + 1 }
  rw [walked, h]

def logged (d : Dealer) (a : Attempt ω) (f : FrontierEdge ω) (new : List (Nat × Nat)) :
    RoundNote where
  round := a.round
  discovered := a.discovered.length
  frontier := (a.frontier d).length
  unlockedEdge := d.topology.edgeLabel f.edge
  missing := f.missing.map Condition.text
  placements := new.map d.topology.fillNote

/-- A round that goes on unlocks an edge of the frontier, and one that does not fills what it can. -/
theorem playRound_yields {b : Bool} (hok : (a.playRound d).Yields (a', b)) :
    (b = true ∧ ∃ f ∈ (a.walked d).frontier d, f.canUnlock = true ∧
      ∃ a₁ notes, (unlock d f.missing (a.walked d)).Yields (a₁, notes) ∧
        a' = { a₁ with rounds := a₁.rounds ++ [
          { round := a₁.round
            discovered := a₁.discovered.length + notes.length
            frontier := ((a.walked d).frontier d).length
            unlockedEdge := d.topology.edgeLabel f.edge
            missing := f.missing.map Condition.text
            placements := notes }] }) ∨
    (b = false ∧ (∀ f ∈ (a.walked d).frontier d, f.canUnlock = false) ∧
      ∃ set, (a.walked d).discoveredSet d = .ok set ∧
        (fill d set (a.walked d).pool.length (a.walked d)).Yields a') := by
  rw [playRound] at hok
  dsimp only at hok
  obtain ⟨edges, hedges, hok⟩ := Trial.yields_bind hok
  have hedges := Trial.yields_orDefect hedges
  obtain ⟨hsized, hitems⟩ := unlockable_eq_ok hedges
  split at hok
  · rename_i hempty
    have hnone := (items_unlockable_eq_nil hedges).1 (List.isEmpty_iff.1 hempty)
    obtain ⟨-, -, hok⟩ := Trial.yields_bind hok
    obtain ⟨set, hset, hok⟩ := Trial.yields_bind hok
    obtain ⟨a₁, hfill, hok⟩ := Trial.yields_bind hok
    obtain ⟨rfl, rfl⟩ := Prod.mk.inj (Trial.yields_pure hok)
    exact Or.inr ⟨rfl, hnone, set, Trial.yields_orDefect hset, hfill⟩
  · rename_i hne
    obtain ⟨u, -, hok⟩ := Trial.yields_bind hok
    obtain ⟨f, hf, hpick⟩ :=
      WeightedSet.pick?_eq_some hsized (fun he => hne (List.isEmpty_iff.2 he)) u
    rw [hpick] at hok
    obtain ⟨⟨a₁, notes⟩, hunlock, hok⟩ := Trial.yields_bind hok
    obtain ⟨-, -, hok⟩ := Trial.yields_bind hok
    obtain ⟨rfl, rfl⟩ := Prod.mk.inj (Trial.yields_pure hok)
    obtain ⟨hf, hcan⟩ := List.mem_filter.1 (hitems ▸ hf)
    exact Or.inl ⟨rfl, f, hf, hcan, a₁, notes, hunlock, rfl⟩

end Attempt

namespace Ledger

theorem walked (hd : d.Fair) (h : Ledger d vs fs rs a) :
    Ledger d (vs ++ (a.walk d).order) fs rs (a.walked d) ∧
      (a.walked d).explorer = (a.walk d).explorer ∧ (a.walked d).states = (a.walk d).states ∧
      (a.walked d).rounds = a.rounds ∧ (a.walked d).fillAtWill = a.fillAtWill := by
  have hround : Ledger d vs fs rs { a with round := a.round + 1 } := h.keep rfl rfl rfl rfl rfl
  obtain ⟨hledger, locations, frontierRound, he⟩ := hround.explore hd
  refine ⟨hledger, ?_, ?_, ?_, ?_⟩
  all_goals rw [Attempt.walked, he]
  all_goals rfl

variable [Weight ω]

/-- A round that goes on opens an edge of the frontier, with the items that grant what was missing. -/
theorem opens (hd : d.Fair) (h : Ledger d vs fs [] a) (hok : (a.playRound d).Yields (a', true)) :
    ∃ f ∈ (a.walked d).frontier d, ∃ new,
      Ledger d (vs ++ (a.walk d).order) (fs ++ new) [] a' ∧
      new.map (fun fill => d.topology.state fill.2) = suppliedBy f.missing ∧
      a'.round = a.round + 1 ∧ a'.explorer = (a.walk d).explorer ∧
      a'.states = (a.walk d).states.grant (new.map (itemGrant d.topology)) ∧
      a'.rounds = a.rounds ++ [(a.walked d).logged d f new] ∧
      a'.fillAtWill = a.fillAtWill ∧ a.LeadsTo d a' := by
  obtain ⟨hledger, hx, hs, hr, hw⟩ := h.walked hd
  rcases Attempt.playRound_yields hok with ⟨-, f, hf, -, a₁, notes, hunlock, rfl⟩ | ⟨hb, -⟩
  · obtain ⟨new, hledger', hfills, hwill, rfl, hstates, hleads⟩ := hledger.unlock hd f.missing hunlock
    have hround : a₁.round = a.round + 1 := hfills.round.trans (a.round_walked d)
    -- what is filled was discovered when the edge was chosen
    have hdiscovered : a₁.discovered.length + (new.map d.topology.fillNote).length =
        (a.walked d).discovered.length := by
      rw [← (hledger.discovered_perm hledger').length_eq, List.length_append, List.length_map,
        List.length_map, Nat.add_comm]
    refine ⟨f, hf, new, hledger'.keep rfl rfl rfl rfl rfl, hstates, hround, hfills.explorer.trans hx,
      ?_, ?_, hwill.trans hw, (Attempt.Change.explore a).leadsTo.trans
        (hleads.trans (Attempt.Change.note a₁ _ a₁.fillAtWill).leadsTo)⟩
    · exact hfills.states.trans (hs ▸ rfl)
    · change a₁.rounds ++ _ = _
      rw [hfills.rounds, hr, hdiscovered, hfills.round]
      rfl
  · cases hb

theorem round (hd : d.Fair) (h : Ledger d vs fs [] a)
    (hok : (a.playRound d).Yields (a', true)) :
    ∃ new, Ledger d (vs ++ (a.walk d).order) (fs ++ new) [] a' ∧ new ≠ [] ∧
      a'.explorer = (a.walk d).explorer ∧
      a'.states = (a.walk d).states.grant (new.map (itemGrant d.topology)) ∧
      a'.rounds.map RoundNote.placements =
        a.rounds.map RoundNote.placements ++ [new.map d.topology.fillNote] ∧
      a'.fillAtWill = a.fillAtWill ∧ a.LeadsTo d a' := by
  obtain ⟨f, hf, new, hledger, hstates, -, hx, hs, hrounds, hwill, hleads⟩ := h.opens hd hok
  refine ⟨new, hledger, ?_, hx, hs, ?_, hwill, hleads⟩
  · rintro rfl
    have hpos := Attempt.copies_pos hf
    rw [← length_suppliedBy, ← hstates] at hpos
    exact Nat.lt_irrefl 0 hpos
  · rw [hrounds, List.map_append]
    rfl

/-- The last round fills locations until no item or no discovered location is left. -/
theorem last (hd : d.Fair) (h : Ledger d vs fs [] a)
    (hok : (a.playRound d).Yields (a', false)) :
    ∃ new, Ledger d (vs ++ (a.walk d).order) (fs ++ new) [] a' ∧
      a'.explorer = (a.walk d).explorer ∧ a'.rounds = a.rounds ∧
      a'.fillAtWill = a.fillAtWill ++ new.map d.topology.fillNote ∧
      (a'.pool = [] ∨ a'.discovered = []) ∧ a.LeadsTo d a' := by
  obtain ⟨hledger, hx, -, hr, hw⟩ := h.walked hd
  rcases Attempt.playRound_yields hok with ⟨hb, -⟩ | ⟨-, -, set, hset, hfill⟩
  · cases hb
  · obtain ⟨hsized, hitems⟩ := hledger.discoveredSet hset
    obtain ⟨new, hledger', hfills, hwill, hdone, hleads⟩ := hledger.fill hd
      (a.walked d).pool.length hsized (hitems ▸ List.Perm.refl _) (Nat.le_refl _) hfill
    exact ⟨new, hledger', hfills.explorer.trans hx, hfills.rounds.trans hr, hw ▸ hwill, hdone,
      (Attempt.Change.explore a).leadsTo.trans hleads⟩

end Ledger

namespace Attempt

variable [Weight ω] {number : Nat}

inductive Played (d : Dealer) (number : Nat) : Attempt ω → Prop
  | start : Played d number (d.start number)
  | round {a a' : Attempt ω} (h : Played d number a) (hpool : a.pool ≠ [])
      (hok : (a.playRound d).Yields (a', true)) : Played d number a'

/-- Before the last round, the log names all that has been filled, round by round. -/
theorem Played.ledger (hd : d.Fair) (h : a.Played d number) :
    ∃ vs fs, Ledger d vs fs [] a ∧ a.fillAtWill = [] ∧
      a.rounds.flatMap RoundNote.placements = fs.map d.topology.fillNote ∧
      a.round = a.rounds.length ∧
      a.rounds.map RoundNote.round = List.range' 1 a.rounds.length := by
  induction h with
  | start => exact ⟨[], [], Ledger.start d number, rfl, rfl, rfl, rfl⟩
  | @round a a' h hpool hok ih =>
    obtain ⟨vs, fs, hledger, hwill, hplacements, hround, hnumbers⟩ := ih
    obtain ⟨f, -, new, hledger', -, hround', -, -, hrounds, hwill', -⟩ := hledger.opens hd hok
    refine ⟨_, _, hledger', hwill'.trans hwill, ?_, ?_, ?_⟩
    · rw [hrounds, List.flatMap_append, hplacements, List.map_append]
      exact congrArg _ (List.append_nil _)
    · rw [hround', hrounds, hround, List.length_append, List.length_singleton]
    · have hnumber : ((a.walked d).logged d f new).round = 1 + a.rounds.length := by
        rw [← hround, Nat.add_comm]
        exact a.round_walked d
      rw [hrounds, List.map_append, hnumbers, List.length_append, List.length_singleton,
        List.range'_1_concat, List.map_singleton, hnumber]

theorem playRounds_yields (hd : d.Fair) (k : Nat) (h : a.Played d number)
    (hk : a.pool.length ≤ k) (hok : (playRounds d k a).Yields a') :
    ∃ a₀, a₀.Played d number ∧
      (a₀.pool = [] ∧ a' = a₀ ∨ a₀.pool ≠ [] ∧ (a₀.playRound d).Yields (a', false)) := by
  induction k generalizing a with
  | zero =>
    exact ⟨a, h, Or.inl ⟨List.eq_nil_of_length_eq_zero (Nat.le_zero.1 hk),
      Trial.yields_pure hok⟩⟩
  | succ k ih =>
    rw [playRounds] at hok
    dsimp only at hok
    split at hok
    · exact ⟨a, h, Or.inl ⟨List.isEmpty_iff.1 ‹_›, Trial.yields_pure hok⟩⟩
    · rename_i hempty
      have hpool : a.pool ≠ [] := fun he => hempty (List.isEmpty_iff.2 he)
      obtain ⟨⟨a₁, b⟩, hround, hok⟩ := Trial.yields_bind hok
      cases b with
      | true =>
        obtain ⟨vs, fs, hledger, -⟩ := h.ledger hd
        obtain ⟨new, hledger', hne, -⟩ := hledger.round hd hround
        have hlen := hledger.items.length_eq
        have hlen' := hledger'.items.length_eq
        have hpos := List.length_pos_iff.2 hne
        simp only [List.length_append, List.length_map] at hlen hlen'
        exact ih (h.round hpool hround) (by omega) hok
      | false =>
        obtain rfl := Trial.yields_pure hok
        exact ⟨a, h, Or.inr ⟨hpool, hround⟩⟩

theorem play_yields (hd : d.Fair) (hok : (d.play ω number).Yields a') :
    ∃ a, a.Played d number ∧
      (a.pool = [] ∧ a' = a ∨ a.pool ≠ [] ∧ (a.playRound d).Yields (a', false)) := by
  obtain ⟨tape, -, hok⟩ := Trial.yields_bind hok
  obtain ⟨-, -, hok⟩ := Trial.yields_bind hok
  exact playRounds_yields hd d.pool.length Played.start (Nat.le_refl _) hok

/-- When its rounds are over, an attempt has no item or no discovered location left. -/
theorem ledger_play (hd : d.Fair) (hok : (d.play ω number).Yields a) :
    ∃ vs fs, Ledger d vs fs [] a ∧ (a.pool = [] ∨ a.discovered = []) := by
  obtain ⟨a₀, hplayed, hend⟩ := play_yields hd hok
  obtain ⟨vs, fs, hledger, -⟩ := hplayed.ledger hd
  rcases hend with ⟨hpool, rfl⟩ | ⟨-, hround⟩
  · exact ⟨vs, fs, hledger, Or.inl hpool⟩
  · obtain ⟨new, hledger', -, -, -, hdone, -⟩ := hledger.last hd hround
    exact ⟨_, _, hledger', hdone⟩

end Attempt

end WorldShuffle

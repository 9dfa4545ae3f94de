import WorldShuffle.Proofs.SafeDeals

namespace WorldShuffle

variable {ω : Type} [Weight ω] {d : Dealer} {a a' : Attempt ω} {f : FrontierEdge ω}
  {vs : List Nat} {fs new : List (Nat × Nat)} {notes : List PlacementNote} {e : Fall Failure}
  {number : Nat}

theorem count_suppliedBy {c : Condition} {cs : List Condition} (h : c ∈ cs) :
    c.count.toNat ≤ (suppliedBy cs).count c.state := by
  obtain ⟨before, after, rfl⟩ := List.append_of_mem h
  rw [suppliedBy, List.flatMap_append, List.flatMap_cons, List.count_append, List.count_append,
    List.count_replicate_self]
  omega

theorem count_itemGrant (t : Topology) (new : List (Nat × Nat)) (q : String) :
    (new.map (itemGrant t)).count (.acquire q) = (new.map fun f => t.state f.2).count q := by
  have hmap : new.map (itemGrant t) = (new.map fun f => t.state f.2).map Grant.acquire := by
    rw [List.map_map]
    rfl
  rw [hmap]
  exact List.count_map_of_injective _ _ (fun _ _ => Grant.acquire.inj) q

/-- Items placed for a condition add their states, up to the largest count. -/
theorem States.supplied {t : Topology} {s : States} {c : Condition} {cs : List Condition}
    (hnew : new.map (fun f => t.state f.2) = suppliedBy cs) (hc : c ∈ cs) (htrue : c.state ≠ trueState) :
    min ((s.count c.state).toNat + c.count.toNat) 0xffffffff ≤
      ((s.grant (new.map (itemGrant t))).count c.state).toNat := by
  have hacquires : Grant.ensure c.state ∉ new.map (itemGrant t) := by
    simp [itemGrant]
  have hcount := count_suppliedBy hc
  rw [toNat_count, toNat_count, if_neg htrue, if_neg htrue, amount_grant s hacquires,
    count_itemGrant, hnew]
  omega

namespace Attempt

/-- What unlocking an edge comes to: as many items as were missing are in as many locations that were
discovered, each grants the state that it was placed for, and the edge is open from then on. -/
structure Unlocks (d : Dealer) (a : Attempt ω) (f : FrontierEdge ω) (new : List (Nat × Nat))
    (a' : Attempt ω) : Prop where
  length_eq : new.length = copies f.missing
  pos : 0 < new.length
  items : (new.map Prod.snd ++ a'.pool).Perm a.pool
  locations : (new.map Prod.fst ++ a'.discovered).Perm a.discovered
  nodup : (new.map Prod.fst).Nodup
  placed (fill : Nat × Nat) : fill ∈ new → a'.locationAt fill.1 = .placed
  mapping : a'.mapping.toList = a.mapping.toList ++ new.map itemEntry
  states : new.map (fun fill => d.topology.state fill.2) = suppliedBy f.missing
  isOpen {a'' : Attempt ω} : a'.LeadsTo d a'' → d.gates.canTraverse f.edge a''.states = true
  explored {a'' : Attempt ω} : f.edge < d.topology.edges.size → a'.LeadsTo d a'' →
    (a''.walked d).explorer.explored.isSet f.edge = true

def LacksLocations (a : Attempt ω) (ms : List Condition) (e : Fall Failure) : Prop :=
  ∃ before c after available, ms = before ++ c :: after ∧
    available + copies before = a.discovered.length ∧ available < c.count.toNat ∧
    e = .failure (.fewLocations a.number available c)

theorem Unlocks.of_yields (hd : d.Fair) (hg : d.gates.Inserted) (h : Ledger d vs fs [] a)
    (hsize : a.explorer.explored.size = d.topology.edges.size) (hf : f ∈ a.frontier d)
    (hok : (unlock d f.missing a).Yields (a', notes)) :
    ∃ new, a.Unlocks d f new a' ∧ notes = new.map d.topology.fillNote := by
  obtain ⟨new, hledger, hfills, -, hnotes, hstates, -⟩ := h.unlock hd f.missing hok
  obtain ⟨c, cs, hm, hmissing, hwaits, -⟩ := mem_frontier hf
  obtain ⟨-, htrue⟩ := nodup_missing hg hf
  have hlen : new.length = copies f.missing := by
    rw [← length_suppliedBy, ← hstates, List.length_map]
  have hbelow : a.states.Below a'.states := by
    rw [hfills.states]
    exact a.states.below_grant _
  have hopen : d.gates.canTraverse f.edge a'.states = true := by
    refine Gates.canTraverse_of_supplied (hm ▸ hmissing) hbelow fun m hmem => ?_
    rw [hfills.states]
    exact States.supplied hstates hmem fun he => htrue (he ▸ List.mem_map_of_mem hmem)
  refine ⟨new, ?_, hnotes⟩
  constructor
  case length_eq => exact hlen
  case pos => exact hlen ▸ copies_pos hf
  case items => exact h.pool_perm hledger
  case locations => exact h.discovered_perm hledger
  case nodup =>
    have hfilled := hledger.nodup_filled
    rw [List.map_append] at hfilled
    exact (List.nodup_append.1 hfilled).2.1
  case placed =>
    intro fill hfill
    exact (hledger.placed_iff fill.1).2 (List.mem_map_of_mem (List.mem_append_right fs hfill))
  case mapping => rw [hledger.mapping, h.mapping, List.map_append]
  case states => exact hstates
  case isOpen =>
    intro a'' hleads
    exact Gates.canTraverse_mono hleads.states_below hopen
  case explored =>
    intro a'' hlt hleads
    rw [← hsize, ← hfills.explorer] at hlt
    have hopened : a'.Opened d f.edge := ⟨hlt, hopen, Or.inr (hfills.explorer ▸ hwaits)⟩
    exact (hopened.leadsTo hleads).explored

theorem unlock_fails (hd : d.Fair) (hg : d.gates.Inserted) (h : Ledger d vs fs [] a)
    (hf : f ∈ a.frontier d) (hcan : f.canUnlock = true) (he : (unlock d f.missing a).Fails e) :
    a.LacksLocations f.missing e ∨
      ∃ a₁ x, a.LeadsTo d a₁ ∧ a₁.discoveredSet d = .error x ∧ e = .defect x :=
  h.unlock_fails hd f.missing (nodup_missing hg hf).1 ((canUnlock_iff hf).1 hcan) he

theorem Played.rounds_add_pool_le (hd : d.Fair) (h : a.Played d number) :
    a.rounds.length + a.pool.length ≤ d.pool.length := by
  induction h with
  | start => exact Nat.le_of_eq (Nat.zero_add _)
  | round h hpool hok ih =>
    obtain ⟨vs, fs, hledger, -⟩ := h.ledger hd
    obtain ⟨new, hledger', hne, -, -, hrounds, -, -⟩ := hledger.round hd hok
    have hpos := List.length_pos_iff.2 hne
    have hitems := (hledger.pool_perm hledger').length_eq
    have hlen := congrArg List.length hrounds
    simp only [List.length_append, List.length_map, List.length_singleton] at hitems hlen
    omega

theorem rounds_deal_le {p : Placement} (hd : d.Fair) (hok : (d.deal ω number).Yields p) :
    p.rounds.length ≤ d.pool.length := by
  obtain ⟨a, hplay, hfinish⟩ := Trial.yields_bind hok
  obtain ⟨-, mapping, -, rfl⟩ := finish_yields hfinish
  obtain ⟨a₀, hplayed, hend⟩ := play_yields hd hplay
  have hrounds : a.rounds = a₀.rounds := by
    rcases hend with ⟨-, rfl⟩ | ⟨-, hround⟩
    · rfl
    · obtain ⟨vs, fs, hledger, -⟩ := hplayed.ledger hd
      obtain ⟨-, -, -, hsame, -⟩ := hledger.last hd hround
      exact hsame
  have hle := hplayed.rounds_add_pool_le hd
  change a.rounds.length ≤ _
  rw [hrounds]
  omega

theorem Played.leadsTo_round {b : Bool} (hd : d.Fair) (h : a.Played d number)
    (hok : (a.playRound d).Yields (a', b)) : a.LeadsTo d a' := by
  obtain ⟨vs, fs, hledger, -⟩ := h.ledger hd
  cases b with
  | true =>
    obtain ⟨-, -, -, -, -, -, -, hleads⟩ := hledger.round hd hok
    exact hleads
  | false =>
    obtain ⟨-, -, -, -, -, -, hleads⟩ := hledger.last hd hok
    exact hleads

end Attempt

/-- Unlocking an edge works and makes progress. It fails for want of locations only, or else upon a
weight that is not valid, which weights that are exact never are; the pool never lacks an item. What
it comes to is that all that was missing is placed, so that the edge is open from then on and explored
by the next walk. Hence there are no more such rounds than items, and no location ever goes back. -/
theorem unlock_progress (t : Topology) {g : Gates} (hg : g.Inserted) (settings : Settings)
    (save : Option Save) (number : Nat) :
    let d := Dealer.new t g settings save
    (∀ a : Attempt ω, a.Played d number → ∀ f ∈ (a.walked d).frontier d, f.canUnlock = true →
      (∀ e, (Attempt.unlock d f.missing (a.walked d)).Fails e →
        (a.walked d).LacksLocations f.missing e ∨ ∃ shown, e = .defect (.invalidWeight shown)) ∧
      ∀ a' notes, (Attempt.unlock d f.missing (a.walked d)).Yields (a', notes) →
        ∃ new, (a.walked d).Unlocks d f new a' ∧ notes = new.map t.fillNote) ∧
    (∀ a : Attempt ℚ, a.Played d number → ∀ f ∈ (a.walked d).frontier d, f.canUnlock = true →
      ∀ e, (Attempt.unlock d f.missing (a.walked d)).Fails e →
        (a.walked d).LacksLocations f.missing e) ∧
    (∀ a : Attempt ω, a.Played d number → a.rounds.length + a.pool.length ≤ d.pool.length) ∧
    (∀ p : Placement, (d.deal ω number).Yields p → p.rounds.length ≤ d.pool.length) ∧
    (∀ (a a' : Attempt ω) (b : Bool), a.Played d number → (a.playRound d).Yields (a', b) →
      a.LeadsTo d a') ∧
    ∀ (a a' : Attempt ω) (n : Nat),
      (a.Change d a' →
        a'.locationAt n = a.locationAt n ∨ (a.locationAt n).Moves (a'.locationAt n)) ∧
      (a.LeadsTo d a' → (a.locationAt n).stage ≤ (a'.locationAt n).stage) := by
  intro d
  have hd : d.Fair := Dealer.fair_new t g settings save
  refine ⟨fun a hplayed f hf hcan => ⟨fun e he => ?_, fun a' notes hok => ?_⟩,
    fun a hplayed f hf hcan e he => ?_, fun a hplayed => hplayed.rounds_add_pool_le hd,
    fun p hok => Attempt.rounds_deal_le hd hok, fun a a' b hplayed hok => hplayed.leadsTo_round hd hok,
    fun a a' n => ⟨fun hchange => hchange.location n, fun hleads => hleads.stage_le n⟩⟩
  · obtain ⟨vs, fs, hledger, -⟩ := hplayed.ledger hd
    rcases Attempt.unlock_fails hd hg (hledger.walked hd).1 hf hcan he with
      hlacks | ⟨a₁, x, -, hx, rfl⟩
    · exact Or.inl hlacks
    · obtain ⟨shown, rfl⟩ := Attempt.discoveredSet_eq_error hx
      exact Or.inr ⟨shown, rfl⟩
  · obtain ⟨vs, fs, hledger, -⟩ := hplayed.ledger hd
    have hwalk := (hplayed.leadsTo hd).trans (Attempt.Change.explore a).leadsTo
    have hsize : (a.walked d).explorer.explored.size = d.topology.edges.size :=
      hwalk.explored_size.trans (Marks.size_none _)
    exact Attempt.Unlocks.of_yields hd hg (hledger.walked hd).1 hsize hf hok
  · obtain ⟨vs, fs, hledger, -⟩ := hplayed.ledger hd
    rcases Attempt.unlock_fails hd hg (hledger.walked hd).1 hf hcan he with
      hlacks | ⟨a₁, x, hleads, hx, rfl⟩
    · exact hlacks
    · have hwalk := (hplayed.leadsTo hd).trans (Attempt.Change.explore a).leadsTo
      obtain ⟨set, hset⟩ := (Attempt.paced (hwalk.trans hleads)).discoveredSet
      rw [hset] at hx
      cases hx

/-- The key is put down before the gate, and the gate is open to all that comes after. -/
theorem unlock_progress_twoRooms :
    let d := Dealer.new twoRooms insertedLock {} none
    let a : Attempt ℚ := d.start 1
    insertedLock.Inserted ∧ a.Played d 1 ∧ ∃ f ∈ (a.walked d).frontier d, f.canUnlock = true ∧
      ∃ a' notes new, (Attempt.unlock d f.missing (a.walked d)).Yields (a', notes) ∧
        (a.walked d).Unlocks d f new a' ∧ notes = new.map twoRooms.fillNote := by
  have h :
      let d := Dealer.new twoRooms insertedLock {} none
      let a : Attempt ℚ := d.start 1
      ((a.walked d).frontier d).any (fun f => f.canUnlock &&
        ((Attempt.unlock d f.missing (a.walked d)).run' { stream := ⟨"", 1, rfl⟩ }).isSome) =
        true := by cbv
  intro d a
  obtain ⟨hunlock, -⟩ := unlock_progress (ω := ℚ) twoRooms inserted_insertedLock {} none 1
  obtain ⟨f, hmem, hf⟩ := List.any_eq_true.1 h
  obtain ⟨hcan, hrun⟩ := Bool.and_eq_true_iff.1 hf
  obtain ⟨⟨a', notes⟩, hsome⟩ := Option.isSome_iff_exists.1 hrun
  have hyields : (Attempt.unlock d f.missing (a.walked d)).Yields (a', notes) :=
    Trial.yields_of_run' hsome
  obtain ⟨new, hnew, hnotes⟩ := (hunlock a .start f hmem hcan).2 a' notes hyields
  exact ⟨inserted_insertedLock, .start, f, hmem, hcan, a', notes, new, hyields, hnew, hnotes⟩

end WorldShuffle

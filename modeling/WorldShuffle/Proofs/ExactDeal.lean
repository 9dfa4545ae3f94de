import WorldShuffle.Proofs.Exchanges
import WorldShuffle.Proofs.Rounds

namespace WorldShuffle

def fillerEntry (f : Nat × Nat) : Nat × Replacement := (f.1, .filler f.2)

namespace Mapping

variable {m : Mapping} {fs fillers : List (Nat × Nat)}

theorem locations_eq (h : m.toList = fs.map itemEntry ++ fillers.map fillerEntry) :
    m.locations = fs.map Prod.fst ++ fillers.map Prod.fst := by
  rw [locations, h, List.map_append, List.map_map, List.map_map]
  rfl

theorem placedItems_eq (h : m.toList = fs.map itemEntry ++ fillers.map fillerEntry) :
    m.placedItems = fs.map Prod.snd := by
  simp [placedItems, h, Function.comp_def, itemEntry, fillerEntry]

theorem itemLocations_eq (h : m.toList = fs.map itemEntry ++ fillers.map fillerEntry) :
    m.itemLocations = fs.map Prod.fst := by
  simp [itemLocations, h, Function.comp_def, itemEntry, fillerEntry]

end Mapping

namespace Attempt

theorem fillRest_eq_ok (ns : List Nat) {slot : Nat} {m m' : Mapping} (hnodup : ns.Nodup)
    (hroom : slot + (ns.filter (!m.has ·)).length ≤ maxFillers)
    (h : fillRest slot ns m = .ok m') :
    m'.toList = m.toList ++ ((ns.filter (!m.has ·)).zipIdx slot).map fillerEntry := by
  induction ns generalizing slot m with
  | nil =>
    obtain rfl := Except.ok.inj h
    exact (List.append_nil _).symm
  | cons n ns ih =>
    obtain ⟨hnot, hnodup⟩ := List.nodup_cons.1 hnodup
    rw [fillRest] at h
    by_cases hn : m.has n = true
    · rw [if_pos hn] at h
      rw [List.filter_cons_of_neg (by simp [hn])] at hroom ⊢
      exact ih hnodup hroom h
    · rw [List.filter_cons_of_pos (by simpa using hn), List.length_cons] at hroom
      rw [if_neg hn, if_pos (by omega)] at h
      obtain ⟨m₁, hm₁, h⟩ := bind_eq_ok h
      obtain ⟨-, he⟩ := Mapping.insert_eq_ok hm₁
      -- what comes later in the list is not the location just filled
      have hsame : ns.filter (!m₁.has ·) = ns.filter (!m.has ·) := by
        refine List.filter_congr fun k hk => ?_
        have hne : k ≠ n := fun heq => hnot (heq ▸ hk)
        rw [Bool.eq_iff_iff]
        simp [← Bool.not_eq_true, Mapping.has_iff, Mapping.locations, he, hne]
      have hrest := ih hnodup (by rw [hsame]; omega) h
      rw [hrest, hsame, he, List.filter_cons_of_pos (by simpa using hn), List.zipIdx_cons,
        List.append_assoc]
      rfl

variable {ω : Type} {d : Dealer} {a : Attempt ω} {vs : List Nat} {fs : List (Nat × Nat)}
  {p : Placement}

theorem finish_yields (h : (a.finish d).Yields p) :
    a.pool.length ≤ maxLeftover ∧ ∃ mapping,
      fillRest 0 (d.topology.nodeIndexes.filter (· ∈ d.pool)) a.mapping = .ok mapping ∧
      p = { mapping, rounds := a.rounds, fillAtWill := a.fillAtWill, leftover := a.pool } := by
  rw [finish] at h
  dsimp only at h
  split at h
  · exact absurd h Trial.not_yields_fail_bind
  · rename_i hle
    refine ⟨Nat.le_of_not_lt hle, ?_⟩
    split at h
    · obtain ⟨-, -, h⟩ := Trial.yields_bind h
      obtain ⟨mapping, hm, h⟩ := Trial.yields_bind h
      exact ⟨mapping, Trial.yields_orDefect hm, Trial.yields_pure h⟩
    · obtain ⟨mapping, hm, h⟩ := Trial.yields_bind h
      exact ⟨mapping, Trial.yields_orDefect hm, Trial.yields_pure h⟩

end Attempt

variable {ω : Type} {d : Dealer} {a : Attempt ω} {vs : List Nat} {fs : List (Nat × Nat)}
  {p : Placement}

/-- What comes out of an attempt: its items first, and then fillers for the other locations. -/
theorem Ledger.finish (hd : d.Fair) (h : Ledger d vs fs [] a) (hok : (a.finish d).Yields p) :
    a.pool.length ≤ maxLeftover ∧ p.rounds = a.rounds ∧ p.fillAtWill = a.fillAtWill ∧
      p.leftover = a.pool ∧ ∃ fillers, fillers.Pairwise (· < ·) ∧
        (fs.map Prod.fst ++ fillers).Perm d.pool ∧
        p.mapping.toList = fs.map itemEntry ++ fillers.zipIdx.map fillerEntry := by
  obtain ⟨hle, m, hm, rfl⟩ := Attempt.finish_yields hok
  let rest := d.topology.nodeIndexes.filter (· ∈ d.pool)
  have hrest (n : Nat) : n ∈ rest ↔ n ∈ d.pool := by
    simp only [rest, List.mem_filter, Topology.nodeIndexes, List.mem_range, decide_eq_true_eq,
      and_iff_right_iff_imp]
    exact fun hn => lt_of_isCheckNode (hd.check hn)
  have hmem (n : Nat) : n ∈ rest.filter (!a.mapping.has ·) ↔
      n ∈ d.pool ∧ n ∉ fs.map Prod.fst := by
    rw [List.mem_filter, hrest, ← h.has_iff, Bool.not_eq_true', Bool.not_eq_true]
  have hnodup : rest.Nodup := List.nodup_range.filter _
  have hperm : (fs.map Prod.fst ++ rest.filter (!a.mapping.has ·)).Perm d.pool := by
    refine (List.perm_ext_iff_of_nodup ?_ hd.nodup).2 fun n => ?_
    · refine List.nodup_append.2 ⟨h.nodup_filled, hnodup.filter _, ?_⟩
      rintro n hn k hk rfl
      exact ((hmem n).1 hk).2 hn
    · rw [List.mem_append, hmem]
      constructor
      · rintro (hn | hn)
        · exact (h.filled_mem hn).2
        · exact hn.1
      · exact fun hn => (Classical.em _).imp_right fun hf => ⟨hn, hf⟩
  have hlen : (rest.filter (!a.mapping.has ·)).length = a.pool.length := by
    have hp := hperm.length_eq
    have hi := h.items.length_eq
    simp only [List.length_append, List.length_map] at hp hi
    omega
  refine ⟨hle, rfl, rfl, rfl, _, (List.pairwise_lt_range.filter _).filter _, hperm, ?_⟩
  have hroom : 0 + (rest.filter (!a.mapping.has ·)).length ≤ maxFillers := by
    rw [hlen]
    simp only [maxLeftover, maxFillers] at hle ⊢
    omega
  rw [← h.mapping]
  exact Attempt.fillRest_eq_ok rest hnodup hroom hm

variable [Weight ω]

/-- A successful attempt deals the pool out: each location of the pool is mapped once, the items placed
and the items left over are the contents of the pool, and the locations without an item, as many as
are left over, have never been visited and hold the fillers from zero on in the order of the nodes. -/
theorem deal_exact (t : Topology) (g : Gates) (settings : Settings) (save : Option Save)
    (number : Nat) {tape tape' : Tape}
    (hok : ((Dealer.new t g settings save).deal ω number).run tape = .ok p tape') :
    let d := Dealer.new t g settings save
    p.mapping.locations.Perm d.pool ∧ d.pool.Nodup ∧
    (p.mapping.placedItems ++ p.leftover).Perm d.pool ∧
    ∃ (a : Attempt ω) (tape₁ : Tape) (fills : List (Nat × Nat)) (fillers : List Nat),
      (d.play ω number).run tape = .ok a tape₁ ∧
      p.mapping.toList = fills.map itemEntry ++ fillers.zipIdx.map fillerEntry ∧
      (∀ l, (l, Replacement.obtained) ∉ p.mapping.toList) ∧
      fillers.Pairwise (· < ·) ∧ fillers.length = p.leftover.length ∧
      p.leftover.length ≤ maxLeftover ∧
      (∀ n ∈ fillers, a.explorer.visited.isSet n = false) ∧
      ∀ n ∈ d.pool, a.explorer.visited.isSet n = true → n ∈ fills.map Prod.fst := by
  intro d
  have hd : d.Fair := Dealer.fair_new t g settings save
  obtain ⟨a, tape₁, hplay, hfinish⟩ := Trial.run_bind_eq_ok hok
  obtain ⟨vs, fs, hledger, hdone⟩ := Attempt.ledger_play hd ⟨tape, tape₁, hplay⟩
  obtain ⟨hle, -, -, hleft, fillers, hasc, hperm, hmap⟩ :=
    hledger.finish hd ⟨tape₁, tape', hfinish⟩
  have hlocations := Mapping.locations_eq hmap
  rw [List.zipIdx_map_fst] at hlocations
  have hplaced := Mapping.placedItems_eq hmap
  have hlen : fillers.length = p.leftover.length := by
    have hp := hperm.length_eq
    have hi := hledger.items.length_eq
    simp only [List.length_append, List.length_map] at hp hi
    rw [hleft]
    omega
  -- a visited location without an item is still discovered, and then no item is left
  have hvisited : ∀ n ∈ d.pool, a.explorer.visited.isSet n = true → n ∈ fs.map Prod.fst := by
    intro n hn hv
    by_contra hf
    have hdisc := (hledger.discovered_iff n).2 ⟨(hledger.visited_iff n).1 hv, hn, hf⟩
    have hpool := hdone.resolve_right (List.ne_nil_of_mem hdisc)
    have hfiller : n ∈ fillers :=
      (List.mem_append.1 (hperm.mem_iff.2 hn)).resolve_left hf
    have hpos := List.length_pos_of_mem hfiller
    rw [hlen, hleft, hpool] at hpos
    exact Nat.lt_irrefl 0 hpos
  refine ⟨hlocations ▸ hperm, hd.nodup, ?_, a, tape₁, fs, fillers, hplay, hmap, ?_, hasc, hlen,
    hleft ▸ hle, ?_, hvisited⟩
  · rw [hplaced, hleft]
    exact hledger.items
  · intro l hl
    rw [hmap] at hl
    simp [itemEntry, fillerEntry] at hl
  · intro n hn
    have hnodup := List.nodup_append.1 (hperm.nodup_iff.2 hd.nodup)
    rw [← Bool.not_eq_true]
    intro hv
    have hp := hperm.mem_iff.1 (List.mem_append_right _ hn)
    exact hnodup.2.2 n (hvisited n hp hv) n hn rfl

/-- The first round puts the key before the gate, and the second fills the shelf with what is left. -/
theorem deal_twoRooms : ∃ (p : Placement) (tape : Tape),
    ((Dealer.new twoRooms gateLock {} none).deal Rat 1).run { stream := ⟨"", 1, rfl⟩ } = .ok p tape ∧
      p.mapping.toList = [(0, .check 0), (3, .check 3)] := by
  have h : (match ((Dealer.new twoRooms gateLock {} none).deal Rat 1).run { stream := ⟨"", 1, rfl⟩ } with
      | .ok p _ => p.mapping.toList
      | .error _ _ => []) = [(0, .check 0), (3, .check 3)] := by cbv
  split at h
  · exact ⟨_, _, ‹_›, h⟩
  · cases h

theorem deal_exact_twoRooms : ∃ p : Placement,
    p.mapping.toList = [(0, .check 0), (3, .check 3)] ∧ p.mapping.locations.Perm [0, 3] ∧
      (p.mapping.placedItems ++ p.leftover).Perm [0, 3] := by
  obtain ⟨p, tape, hok, hmap⟩ := deal_twoRooms
  have hpool : (Dealer.new twoRooms gateLock {} none).pool = [0, 3] := by cbv
  obtain ⟨hlocations, -, hitems, -⟩ := deal_exact twoRooms gateLock {} none 1 hok
  rw [hpool] at hlocations hitems
  exact ⟨p, hmap, hlocations, hitems⟩

end WorldShuffle

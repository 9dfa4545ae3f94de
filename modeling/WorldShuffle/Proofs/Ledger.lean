import WorldShuffle.Placement.Deal
import WorldShuffle.Proofs.Except
import WorldShuffle.Proofs.Mappings
import WorldShuffle.Proofs.Handouts

namespace WorldShuffle

namespace Dealer

structure Fair (d : Dealer) : Prop where
  nodup : d.pool.Nodup
  check {n : Nat} : n ∈ d.pool → isCheckNode d.topology n = true

theorem fair_new (t : Topology) (g : Gates) (settings : Settings) (save : Option Save) :
    (Dealer.new t g settings save).Fair where
  nodup := (List.nodup_range.filter _).filter _
  check hn := (List.mem_filter.1 (List.mem_filter.1 hn).1).2

end Dealer

variable {ω : Type} {d : Dealer} {a a' : Attempt ω} {vs vs' rs rs' : List Nat}
  {fs new : List (Nat × Nat)}

def itemEntry (f : Nat × Nat) : Nat × Replacement := (f.1, .check f.2)

/-- The books of an attempt that has visited `vs` and filled `fs`, and now holds the locations `rs` in
reserve: what is known of each location, and that no item is lost. -/
structure Ledger (d : Dealer) (vs : List Nat) (fs : List (Nat × Nat)) (rs : List Nat)
    (a : Attempt ω) : Prop where
  size : a.locations.size = d.topology.nodes.size
  visited_iff (n : Nat) : a.explorer.visited.isSet n = true ↔ n ∈ vs
  nodup_visited : vs.Nodup
  unplaced_iff (n : Nat) : a.locationAt n = .unplaced ↔ ¬(n ∈ vs ∧ n ∈ d.pool)
  placed_iff (n : Nat) : a.locationAt n = .placed ↔ n ∈ fs.map Prod.fst
  reserved_iff (n : Nat) : a.locationAt n = .reserved ↔ n ∈ rs
  discovered_iff (n : Nat) :
    n ∈ a.discovered ↔ n ∈ vs ∧ n ∈ d.pool ∧ n ∉ fs.map Prod.fst
  nodup_discovered : a.discovered.Nodup
  nodup_filled : (fs.map Prod.fst).Nodup
  mapping : a.mapping.toList = fs.map itemEntry
  items : (fs.map Prod.snd ++ a.pool).Perm d.pool

namespace Attempt

theorem locationAt_setLocation (a : Attempt ω) (l : LocationState) (n k : Nat) :
    (a.setLocation n l).locationAt k =
      if k = n ∧ n < a.locations.size then l else a.locationAt k := by
  simp only [locationAt, setLocation, Array.getElem?_setIfInBounds]
  by_cases h : n = k
  · subst h
    by_cases hn : n < a.locations.size <;> simp [hn]
  · simp [h, Ne.symm h]

/-- Discovering new locations lists them behind those known, and marks them with the round. -/
theorem foldl_discover (ns : List Nat) (a : Attempt ω) (hn : ns.Nodup)
    (hlt : ∀ n ∈ ns, n < a.locations.size) (hnew : ∀ n ∈ ns, a.locationAt n = .unplaced) :
    ∃ locations, ns.foldl discover a =
        { a with locations, discovered := a.discovered ++ ns } ∧
      locations.size = a.locations.size ∧ ∀ k, (ns.foldl discover a).locationAt k =
        if k ∈ ns then .discovered a.round else a.locationAt k := by
  induction ns generalizing a with
  | nil => exact ⟨a.locations, by simp, rfl, by simp⟩
  | cons n ns ih =>
    obtain ⟨hnot, hn⟩ := List.nodup_cons.1 hn
    have hd : a.discover n =
        { a.setLocation n (.discovered a.round) with discovered := a.discovered ++ [n] } := by
      rw [discover, if_pos (hnew n List.mem_cons_self)]
    have hloc (k : Nat) : (a.discover n).locationAt k =
        if k = n then .discovered a.round else a.locationAt k := by
      have h : (a.discover n).locationAt k = (a.setLocation n (.discovered a.round)).locationAt k := by
        rw [hd]
        rfl
      rw [h, locationAt_setLocation]
      simp [hlt n List.mem_cons_self]
    have hsize : (a.discover n).locations.size = a.locations.size := by
      rw [hd]
      exact Array.size_setIfInBounds
    obtain ⟨locations, he, hs, hl⟩ := ih (a.discover n) hn
      (fun k hk => hsize ▸ hlt k (List.mem_cons_of_mem n hk))
      (fun k hk => by
        have hne : k ≠ n := fun h => hnot (h ▸ hk)
        rw [hloc, if_neg hne]
        exact hnew k (List.mem_cons_of_mem n hk))
    refine ⟨locations, ?_, hs.trans hsize, fun k => ?_⟩
    · rw [List.foldl_cons, he, hd]
      simp [setLocation]
    · rw [List.foldl_cons, hl, hloc, hd]
      by_cases hk : k ∈ ns
      · simp [hk, setLocation]
      · simp [hk]

theorem foldl_meetEdge (es : List Nat) (a : Attempt ω) :
    ∃ frontierRound, es.foldl meetEdge a = { a with frontierRound } := by
  induction es generalizing a with
  | nil => exact ⟨a.frontierRound, rfl⟩
  | cons e es ih =>
    obtain ⟨fr, h⟩ := ih (a.meetEdge e)
    exact ⟨fr, h⟩

def walk (d : Dealer) (a : Attempt ω) : Walk :=
  a.explorer.explore d.topology d.gates (visit d) a.states

theorem foldl_discover_eq (ns : List Nat) (a : Attempt ω) :
    ∃ locations discovered, ns.foldl discover a = { a with locations, discovered } := by
  induction ns generalizing a with
  | nil => exact ⟨a.locations, a.discovered, rfl⟩
  | cons n ns ih =>
    obtain ⟨locations, discovered, h⟩ := ih (a.discover n)
    rw [List.foldl_cons, h, discover]
    split
    · exact ⟨locations, discovered, rfl⟩
    · exact ⟨locations, discovered, rfl⟩

def finds (d : Dealer) (a : Attempt ω) : List Nat := (a.walk d).order.filter (· ∈ d.pool)

theorem mem_finds {n : Nat} : n ∈ a.finds d ↔ n ∈ (a.walk d).order ∧ n ∈ d.pool := by
  simp [finds]

theorem explore_eq_discover (d : Dealer) (a : Attempt ω) : ∃ frontierRound, a.explore d =
    { (a.finds d).foldl discover
        { a with explorer := (a.walk d).explorer, states := (a.walk d).states } with
      frontierRound } :=
  foldl_meetEdge _ _

theorem explore_eq_walk (d : Dealer) (a : Attempt ω) :
    ∃ locations discovered frontierRound, a.explore d =
      { a with explorer := (a.walk d).explorer, states := (a.walk d).states
               locations, discovered, frontierRound } := by
  obtain ⟨frontierRound, hexplore⟩ := explore_eq_discover d a
  obtain ⟨locations, discovered, hdiscover⟩ := foldl_discover_eq (a.finds d)
    { a with explorer := (a.walk d).explorer, states := (a.walk d).states }
  exact ⟨locations, discovered, frontierRound, by rw [hexplore, hdiscover]⟩

end Attempt

namespace Ledger

theorem start [Weight ω] (d : Dealer) (number : Nat) :
    Ledger d [] [] [] (d.start number : Attempt ω) := by
  have hloc (n : Nat) : (d.start number : Attempt ω).locationAt n = .unplaced := by
    simp only [Dealer.start, Attempt.locationAt, Array.getElem?_replicate]
    split <;> rfl
  exact {
    size := Array.size_replicate
    visited_iff := fun n => by
      simp [Dealer.start, Explorer.addRoot, Explorer.new, Marks.isSet_none]
    nodup_visited := List.nodup_nil
    unplaced_iff := fun n => by simp [hloc]
    placed_iff := fun n => by simp [hloc]
    reserved_iff := fun n => by simp [hloc]
    discovered_iff := fun n => by simp [Dealer.start]
    nodup_discovered := List.nodup_nil
    nodup_filled := List.nodup_nil
    mapping := rfl
    items := List.Perm.refl _ }

theorem tracks (h : Ledger d vs fs rs a) : (a.walk d).Tracks vs :=
  Walk.Tracks.explore ⟨fun n => by simpa using h.visited_iff n, by simpa using h.nodup_visited⟩

theorem has_iff (h : Ledger d vs fs rs a) (n : Nat) :
    a.mapping.has n = true ↔ n ∈ fs.map Prod.fst := by
  rw [Mapping.has_iff, Mapping.locations, h.mapping, List.map_map]
  rfl

theorem filled_mem (h : Ledger d vs fs rs a) {n : Nat} (hn : n ∈ fs.map Prod.fst) :
    n ∈ vs ∧ n ∈ d.pool := by
  have hp := (h.placed_iff n).2 hn
  by_contra hc
  rw [(h.unplaced_iff n).2 hc] at hp
  cases hp

theorem not_mem_of_mem_finds (h : Ledger d vs fs rs a) {n : Nat} (hn : n ∈ a.finds d) :
    n ∉ vs := by
  intro hv
  have hnodup := List.nodup_append.1 h.tracks.nodup
  exact hnodup.2.2 n hv n (Attempt.mem_finds.1 hn).1 rfl

theorem unplaced_of_mem_finds (h : Ledger d vs fs rs a) {n : Nat} (hn : n ∈ a.finds d) :
    a.locationAt n = .unplaced :=
  (h.unplaced_iff n).2 fun hc => h.not_mem_of_mem_finds hn hc.1

theorem nodup_finds (h : Ledger d vs fs rs a) : (a.finds d).Nodup :=
  (List.nodup_append.1 h.tracks.nodup).2.1.filter _

theorem explore_eq (hd : d.Fair) (h : Ledger d vs fs rs a) : ∃ locations frontierRound,
    a.explore d = { a with
      explorer := (a.walk d).explorer
      states := (a.walk d).states
      locations
      discovered := a.discovered ++ a.finds d
      frontierRound } ∧
    locations.size = a.locations.size ∧ ∀ n, (a.explore d).locationAt n =
      if n ∈ a.finds d then .discovered a.round else a.locationAt n := by
  let a₁ : Attempt ω :=
    { a with explorer := (a.walk d).explorer, states := (a.walk d).states }
  obtain ⟨locations, he, hsize, hloc⟩ := Attempt.foldl_discover (a.finds d) a₁ h.nodup_finds
    (fun n hn => h.size.symm ▸ lt_of_isCheckNode (hd.check (Attempt.mem_finds.1 hn).2))
    (fun n hn => h.unplaced_of_mem_finds hn)
  obtain ⟨fr, hfr⟩ := a.explore_eq_discover d
  have hx : a.explore d = { a₁ with
      locations, discovered := a.discovered ++ a.finds d, frontierRound := fr } := by
    rw [hfr, he]
  refine ⟨locations, fr, hx, hsize, fun n => ?_⟩
  have hn := hloc n
  rw [he] at hn
  rw [hx]
  exact hn

/-- A round's walk adds what it visits, and discovers the locations of the pool among it. -/
theorem explore (hd : d.Fair) (h : Ledger d vs fs rs a) :
    Ledger d (vs ++ (a.walk d).order) fs rs (a.explore d) ∧ ∃ locations frontierRound,
      a.explore d = { a with
        explorer := (a.walk d).explorer
        states := (a.walk d).states
        locations
        discovered := a.discovered ++ a.finds d
        frontierRound } := by
  obtain ⟨locations, fr, hx, hsize, hloc⟩ := h.explore_eq hd
  have htr := h.tracks
  refine ⟨?_, locations, fr, hx⟩
  constructor
  case size =>
    rw [hx]
    exact hsize.trans h.size
  case visited_iff =>
    intro n
    rw [hx]
    exact htr.visited_iff n
  case nodup_visited => exact htr.nodup
  case unplaced_iff =>
    intro n
    rw [hloc]
    by_cases hn : n ∈ a.finds d
    · simp [hn, Attempt.mem_finds.1 hn]
    · rw [if_neg hn, h.unplaced_iff, List.mem_append, or_and_right, ← Attempt.mem_finds]
      simp [hn]
  case placed_iff =>
    intro n
    rw [hloc]
    by_cases hn : n ∈ a.finds d
    · simp only [hn, if_true, reduceCtorEq, false_iff]
      exact fun hm => h.not_mem_of_mem_finds hn (h.filled_mem hm).1
    · rw [if_neg hn, h.placed_iff]
  case reserved_iff =>
    intro n
    rw [hloc]
    by_cases hn : n ∈ a.finds d
    · simp only [hn, if_true, reduceCtorEq, false_iff]
      intro hr
      have hu := h.unplaced_of_mem_finds hn
      rw [(h.reserved_iff n).2 hr] at hu
      cases hu
    · rw [if_neg hn, h.reserved_iff]
  case discovered_iff =>
    intro n
    rw [hx]
    change n ∈ a.discovered ++ a.finds d ↔ _
    rw [List.mem_append, h.discovered_iff, List.mem_append]
    constructor
    · rintro (hn | hn)
      · exact ⟨Or.inl hn.1, hn.2⟩
      · obtain ⟨ho, hp⟩ := Attempt.mem_finds.1 hn
        exact ⟨Or.inr ho, hp, fun hm => h.not_mem_of_mem_finds hn (h.filled_mem hm).1⟩
    · rintro ⟨hn | hn, hp, hm⟩
      · exact Or.inl ⟨hn, hp, hm⟩
      · exact Or.inr (Attempt.mem_finds.2 ⟨hn, hp⟩)
  case nodup_discovered =>
    rw [hx]
    refine List.nodup_append.2 ⟨h.nodup_discovered, h.nodup_finds, ?_⟩
    rintro n hn k hk rfl
    exact h.not_mem_of_mem_finds hk ((h.discovered_iff n).1 hn).1
  case nodup_filled => exact h.nodup_filled
  case mapping =>
    rw [hx]
    exact h.mapping
  case items =>
    rw [hx]
    exact h.items

theorem keep (h : Ledger d vs fs rs a) (hl : a'.locations = a.locations)
    (hx : a'.explorer = a.explorer) (hd : a'.discovered = a.discovered)
    (hm : a'.mapping = a.mapping) (hp : a'.pool = a.pool) : Ledger d vs fs rs a' := by
  obtain ⟨number, round, states, explorer, locations, penalty, discovered, pool, frontierRound,
    mapping, rounds, fillAtWill⟩ := a'
  subst hl hx hd hm hp
  exact ⟨h.size, h.visited_iff, h.nodup_visited, h.unplaced_iff, h.placed_iff, h.reserved_iff,
    h.discovered_iff, h.nodup_discovered, h.nodup_filled, h.mapping, h.items⟩

theorem reserves {rs' : List Nat} (h : Ledger d vs fs rs a) (hm : ∀ n, n ∈ rs' ↔ n ∈ rs) :
    Ledger d vs fs rs' a :=
  { h with reserved_iff := fun n => (h.reserved_iff n).trans (hm n).symm }

theorem lt_of_discovered (hd : d.Fair) (h : Ledger d vs fs rs a) {l : Nat}
    (hl : l ∈ a.discovered) : l < a.locations.size :=
  h.size.symm ▸ lt_of_isCheckNode (hd.check ((h.discovered_iff l).1 hl).2.1)

theorem reserveOne (hd : d.Fair) (h : Ledger d vs fs rs a) {l : Nat} (hl : l ∈ a.discovered) :
    Ledger d vs fs (l :: rs) (a.setLocation l .reserved) := by
  have hlt := h.lt_of_discovered hd hl
  obtain ⟨hv, hp, hf⟩ := (h.discovered_iff l).1 hl
  have hloc (n : Nat) : (a.setLocation l .reserved).locationAt n =
      if n = l then .reserved else a.locationAt n := by
    simp [Attempt.locationAt_setLocation, hlt]
  exact {
    size := Array.size_setIfInBounds.trans h.size
    visited_iff := h.visited_iff
    nodup_visited := h.nodup_visited
    unplaced_iff := fun n => by
      rw [hloc, ← h.unplaced_iff]
      by_cases hn : n = l
      · subst hn
        simp [h.unplaced_iff, hv, hp]
      · rw [if_neg hn]
    placed_iff := fun n => by
      rw [hloc]
      by_cases hn : n = l
      · subst hn
        simpa using hf
      · rw [if_neg hn, h.placed_iff]
    reserved_iff := fun n => by
      rw [hloc, List.mem_cons]
      by_cases hn : n = l
      · simp [hn]
      · rw [if_neg hn, h.reserved_iff]
        simp [hn]
    discovered_iff := h.discovered_iff
    nodup_discovered := h.nodup_discovered
    nodup_filled := h.nodup_filled
    mapping := h.mapping
    items := h.items }

theorem place (hd : d.Fair) (h : Ledger d vs fs rs a) {l item : Nat} {pool : List Nat}
    (hl : l ∈ a.discovered) (hpool : (item :: pool).Perm a.pool)
    (hok : Attempt.place d { a with pool } l item = .ok a') :
    Ledger d vs (fs ++ [(l, item)]) (rs.filter (· ≠ l)) a' := by
  have hlt := h.lt_of_discovered hd hl
  obtain ⟨hv, hp, hf⟩ := (h.discovered_iff l).1 hl
  obtain ⟨m, hm, hok⟩ := bind_eq_ok hok
  obtain rfl := Except.ok.inj hok
  have hloc (n : Nat) : (a.setLocation l .placed).locationAt n =
      if n = l then .placed else a.locationAt n := by
    simp [Attempt.locationAt_setLocation, hlt]
  obtain ⟨-, hm⟩ := Mapping.insert_eq_ok hm
  have hfilled (n : Nat) : n ∈ (fs ++ [(l, item)]).map Prod.fst ↔ n ∈ fs.map Prod.fst ∨ n = l := by
    simp
  exact {
    size := Array.size_setIfInBounds.trans h.size
    visited_iff := h.visited_iff
    nodup_visited := h.nodup_visited
    unplaced_iff := fun n => by
      change (a.setLocation l .placed).locationAt n = .unplaced ↔ _
      rw [hloc, ← h.unplaced_iff]
      by_cases hn : n = l
      · subst hn
        simp [h.unplaced_iff, hv, hp]
      · rw [if_neg hn]
    placed_iff := fun n => by
      change (a.setLocation l .placed).locationAt n = .placed ↔ _
      rw [hloc, hfilled]
      by_cases hn : n = l
      · simp [hn]
      · rw [if_neg hn, h.placed_iff]
        simp [hn]
    reserved_iff := fun n => by
      change (a.setLocation l .placed).locationAt n = .reserved ↔ _
      rw [hloc]
      by_cases hn : n = l
      · simp [hn]
      · rw [if_neg hn, h.reserved_iff]
        simp [hn]
    discovered_iff := fun n => by
      rw [List.mem_filter, h.discovered_iff, hfilled]
      simp [not_or, and_assoc]
    nodup_discovered := h.nodup_discovered.filter _
    nodup_filled := by
      rw [List.map_append]
      exact List.nodup_append_comm.2 (List.nodup_cons.2 ⟨hf, h.nodup_filled⟩)
    mapping := by
      rw [List.map_append, ← h.mapping]
      exact hm
    items := by
      rw [List.map_append, List.append_assoc]
      exact (hpool.append_left _).trans h.items }

theorem pool_perm (h : Ledger d vs fs rs a) (h' : Ledger d vs' (fs ++ new) rs' a') :
    (new.map Prod.snd ++ a'.pool).Perm a.pool := by
  refine (List.perm_append_left_iff (fs.map Prod.snd)).1 ?_
  rw [← List.append_assoc, ← List.map_append]
  exact h'.items.trans h.items.symm

theorem discovered_perm (h : Ledger d vs fs rs a) (h' : Ledger d vs (fs ++ new) rs' a') :
    (new.map Prod.fst ++ a'.discovered).Perm a.discovered := by
  have hfilled := h'.nodup_filled
  rw [List.map_append] at hfilled
  obtain ⟨-, hnew, hapart⟩ := List.nodup_append.1 hfilled
  have hmem (n : Nat) : n ∈ a'.discovered ↔
      n ∈ vs ∧ n ∈ d.pool ∧ n ∉ fs.map Prod.fst ∧ n ∉ new.map Prod.fst := by
    rw [h'.discovered_iff, List.map_append, List.mem_append, not_or]
  refine (List.perm_ext_iff_of_nodup ?_ h.nodup_discovered).2 fun n => ?_
  · refine List.nodup_append.2 ⟨hnew, h'.nodup_discovered, ?_⟩
    rintro n hn k hk rfl
    exact ((hmem n).1 hk).2.2.2 hn
  · rw [List.mem_append, hmem, h.discovered_iff]
    constructor
    · rintro (hn | ⟨hv, hp, hf, -⟩)
      · obtain ⟨hv, hp⟩ := h'.filled_mem (n := n) (by simp_all)
        exact ⟨hv, hp, fun hf => hapart n hf n hn rfl⟩
      · exact ⟨hv, hp, hf⟩
    · rintro ⟨hv, hp, hf⟩
      by_cases hn : n ∈ new.map Prod.fst
      · exact Or.inl hn
      · exact Or.inr ⟨hv, hp, hf, hn⟩

end Ledger

end WorldShuffle

import WorldShuffle.Placement.Replay
import WorldShuffle.Proofs.Course

namespace WorldShuffle

def Topology.IsDoorState (t : Topology) (q : String) : Prop :=
  ∃ n near far, t.doorStates? n = some (near, far) ∧ (q = near ∨ q = far)

theorem Topology.doorStates?_eq_some {t : Topology} {n : Nat} {near far : String} :
    t.doorStates? n = some (near, far) ↔ ∃ node d, t.node? n = some node ∧ node.door? = some d ∧
      near = node.label ∧ far = stateName d.farScene d.farName := by
  constructor
  · intro h
    obtain ⟨node, hnode, h⟩ := Option.bind_eq_some_iff.1 h
    obtain ⟨d, hd, h⟩ := Option.map_eq_some_iff.1 h
    obtain ⟨rfl, rfl⟩ := Prod.mk.inj h
    exact ⟨node, d, hnode, hd, rfl, rfl⟩
  · rintro ⟨node, d, hnode, hd, rfl, rfl⟩
    rw [doorStates?, hnode, Option.bind_some, Node.doorStates?, hd, Option.map_some]

def Topology.Separate (t : Topology) : Prop :=
  ∀ n, isCheckNode t n = true → ¬t.IsDoorState (t.state n)

theorem lt_of_isCheckNode {t : Topology} {n : Nat} (h : isCheckNode t n = true) :
    n < t.nodes.size := by
  obtain ⟨c, hc⟩ := Option.isSome_iff_exists.1 h
  obtain ⟨node, hnode, -⟩ := Option.bind_eq_some_iff.1 hc
  exact (Array.getElem?_eq_some_iff.1 hnode).1

theorem Topology.separate_iff {t : Topology} : t.Separate ↔ ∀ n ∈ t.checkNodes,
    ∀ k ∈ t.nodeIndexes, ∀ sides ∈ t.doorStates? k,
      t.state n ≠ sides.1 ∧ t.state n ≠ sides.2 := by
  constructor
  · intro h n hn k _ sides hsides
    have hcheck : isCheckNode t n = true := (List.mem_filter.1 hn).2
    exact ⟨fun he => h n hcheck ⟨k, _, _, hsides, Or.inl he⟩,
      fun he => h n hcheck ⟨k, _, _, hsides, Or.inr he⟩⟩
  · rintro h n hn ⟨k, near, far, hk, hq⟩
    obtain ⟨node, hnode, -⟩ := Option.bind_eq_some_iff.1 hk
    have hlt : k < t.nodes.size := (Array.getElem?_eq_some_iff.1 hnode).1
    obtain ⟨hnear, hfar⟩ := h n (List.mem_filter.2 ⟨List.mem_range.2 (lt_of_isCheckNode hn), hn⟩) k
      (List.mem_range.2 hlt) _ hk
    exact hq.elim hnear hfar

instance (t : Topology) : Decidable t.Separate := decidable_of_iff' _ Topology.separate_iff

def doorGrants (t : Topology) (n : Nat) : List Grant :=
  match t.doorStates? n with
  | none => []
  | some (near, far) => [.ensure near, .ensure far]

def mappedGrants (t : Topology) (m : Mapping) (n : Nat) : List Grant :=
  if isCheckNode t n then
    match m.get? n with
    | some (.check item) => [.acquire (t.state item)]
    | some (.filler _) | some .obtained => []
    | none => [.acquire (t.state n)]
  else doorGrants t n

def KeepsToChecks (t : Topology) (m : Mapping) : Prop :=
  ∀ n q, .acquire q ∈ mappedGrants t m n → ¬t.IsDoorState q

variable {t : Topology} {m : Mapping} {n : Nat} {q : String}

theorem States.ensure_eq_self {s : States} (h : s.has q = true) : s.ensure q = s := by
  rw [ensure, if_pos h]

theorem visitDoor_states (t : Topology) (n : Nat) (s : States) :
    (visitDoor t n s).1 = s.grant (doorGrants t n) := by
  rw [visitDoor, doorGrants]
  rcases t.doorStates? n with _ | ⟨near, far⟩ <;> rfl

theorem visitDoor_honest (t : Topology) : (visitDoor t).Honest := by
  intro n s h
  unfold visitDoor at h ⊢
  split
  · rfl
  · rename_i near far hdoor
    simp only [hdoor, Bool.or_eq_false_iff, Bool.not_eq_false'] at h
    rw [States.ensure_eq_self h.1] at h ⊢
    exact States.ensure_eq_self h.2

theorem visitMapped_gives (t : Topology) (m : Mapping) :
    (visitMapped t m).Gives (mappedGrants t m) where
  states n s := by
    rw [visitMapped, mappedGrants]
    split
    · rcases m.get? n with _ | (_ | _ | _) <;> rfl
    · exact visitDoor_states t n s
  honest n s h := by
    unfold visitMapped at h ⊢
    by_cases hc : isCheckNode t n = true
    · rw [if_pos hc] at h ⊢
      split at h
      · simp at h
      · rfl
      · rfl
      · simp at h
    · rw [if_neg hc] at h ⊢
      exact visitDoor_honest t n s h

theorem ensure_mem_doorGrants (h : .ensure q ∈ doorGrants t n) : t.IsDoorState q := by
  rw [doorGrants] at h
  split at h
  · simp at h
  · rename_i near far hdoor
    exact ⟨n, near, far, hdoor, by simpa using h⟩

theorem acquire_not_mem_doorGrants : .acquire q ∉ doorGrants t n := by
  rw [doorGrants]
  split <;> simp

theorem ensure_mem_mappedGrants (h : .ensure q ∈ mappedGrants t m n) : t.IsDoorState q := by
  rw [mappedGrants] at h
  split at h
  · split at h <;> simp at h
  · exact ensure_mem_doorGrants h

theorem KeepsToChecks.separate (h : KeepsToChecks t m) (n k : Nat) (q : String)
    (he : .ensure q ∈ mappedGrants t m n) : .acquire q ∉ mappedGrants t m k :=
  fun ha => h k q ha (ensure_mem_mappedGrants he)

theorem Topology.Separate.keepsToChecks (h : t.Separate)
    (hm : ∀ l i, m.get? l = some (.check i) → isCheckNode t i = true) : KeepsToChecks t m := by
  intro n q hq
  rw [mappedGrants] at hq
  split at hq
  · rename_i hc
    split at hq
    · rename_i item hitem
      obtain rfl : q = t.state item := by simpa using hq
      exact h item (hm n item hitem)
    · simp at hq
    · simp at hq
    · obtain rfl : q = t.state n := by simpa using hq
      exact h n hc
  · exact absurd hq acquire_not_mem_doorGrants

def replayWalk (t : Topology) (g : Gates) (m : Mapping) (s : States) : Walk :=
  (Walk.fresh t s).explore t g (visitMapped t m)

theorem replay_reached (t : Topology) (g : Gates) (m : Mapping) (s : States) :
    (replay t g m s).reached =
      m.itemLocations.filter (replayWalk t g m s).explorer.visited.isSet := rfl

theorem replay_unreached (t : Topology) (g : Gates) (m : Mapping) (s : States) :
    (replay t g m s).unreached =
      m.itemLocations.filter (!(replayWalk t g m s).explorer.visited.isSet ·) := rfl

theorem visited_replayWalk (t : Topology) (g : Gates) (m : Mapping) (s : States) :
    (replayWalk t g m s).explorer.visited.isSet n = true ↔ n ∈ (replayWalk t g m s).order :=
  Walk.visited_fresh _ s n

theorem saturated_replayWalk (ht : t.Sound) (g : Gates) (hm : KeepsToChecks t m) (s : States) :
    Saturated t g (mappedGrants t m) s (replayWalk t g m s).order :=
  Walk.saturated_fresh ht (visitMapped_gives t m) hm.separate s

end WorldShuffle

import WorldShuffle.Proofs.Exchanges
import WorldShuffle.Proofs.Mappings

namespace WorldShuffle

/-- A play of a filled world: the nodes visited, the start first and each further one through an edge
that leaves a visited node and is open to the states held by then, and these states. A node visited
again gives nothing. -/
inductive LegalPlay (t : Topology) (g : Gates) (m : Mapping) (s₀ : States) :
    List Nat → States → Prop
  | start : LegalPlay t g m s₀ [t.start] (s₀.grant (mappedGrants t m t.start))
  | step {ns s e edge} (h : LegalPlay t g m s₀ ns s) (hedge : t.edges[e]? = some edge)
      (hs : edge.source ∈ ns) (hopen : g.canTraverse e s = true) :
      LegalPlay t g m s₀ (ns ++ [edge.target])
        (if edge.target ∈ ns then s else s.grant (mappedGrants t m edge.target))

variable {t : Topology} {g : Gates} {m : Mapping} {s₀ s : States} {ns vs : List Nat}

theorem LegalPlay.course (h : LegalPlay t g m s₀ ns s) :
    ∃ vs, Course t g (mappedGrants t m) s₀ vs [] s ∧ ∀ n, n ∈ vs ↔ n ∈ ns := by
  induction h with
  | start =>
    exact ⟨[t.start], Course.root Course.start List.not_mem_nil, fun n => Iff.rfl⟩
  | @step ns s e edge h hedge hs hopen ih =>
    obtain ⟨vs, hc, hm⟩ := ih
    by_cases hn : edge.target ∈ ns
    · refine ⟨vs, by rwa [if_pos hn], fun n => ?_⟩
      rw [hm, List.mem_append, List.mem_singleton]
      exact ⟨Or.inl, fun h => h.elim id fun h => h ▸ hn⟩
    · rw [if_neg hn]
      refine ⟨vs ++ [edge.target], ?_, fun n => by simp [hm]⟩
      exact Course.visit hc hedge ((hm _).2 hs) hopen fun h => hn ((hm _).1 h)

theorem Course.eq_of_nil {base : Nat → List Grant} {fs : List (Nat × Nat)}
    (h : Course t g base s₀ [] fs s) : s = s₀ := by
  generalize hvs : ([] : List Nat) = vs at h
  cases h with
  | start => rfl
  | root h hn => simp at hvs
  | visit h hedge hs hopen hn => simp at hvs
  | fill h hl hn => simp [← hvs] at hl

theorem Course.start_mem {base : Nat → List Grant} {fs : List (Nat × Nat)}
    (h : Course t g base s₀ vs fs s) (hvs : vs ≠ []) : t.start ∈ vs := by
  induction h with
  | start => exact absurd rfl hvs
  | root h hn ih => simp
  | visit h hedge hs hopen hn ih =>
    exact List.mem_append_left _ (ih (List.ne_nil_of_mem hs))
  | fill h hl hn ih => exact ih hvs

theorem Course.legalPlay (h : Course t g (mappedGrants t m) s₀ vs [] s) (hvs : vs ≠ []) :
    LegalPlay t g m s₀ vs s := by
  generalize hfs : ([] : List (Nat × Nat)) = fs at h
  induction h with
  | start => exact absurd rfl hvs
  | @root vs fs s h hn ih =>
    by_cases hv : vs = []
    · subst hv
      rw [h.eq_of_nil]
      exact LegalPlay.start
    · exact absurd (h.start_mem hv) hn
  | visit h hedge hs hopen hn ih =>
    have hstep := LegalPlay.step (ih (List.ne_nil_of_mem hs) hfs) hedge hs hopen
    rwa [if_neg hn] at hstep
  | fill h hl hn ih => simp at hfs

theorem LegalPlay.visited_replay (ht : t.Sound) (hm : KeepsToChecks t m)
    (h : LegalPlay t g m s₀ ns s) :
    ∀ n ∈ ns, (replayWalk t g m s₀).explorer.visited.isSet n = true := by
  intro n hn
  obtain ⟨vs, hc, hvs⟩ := h.course
  rw [visited_replayWalk]
  exact (saturated_replayWalk ht g hm s₀).contains hc (fun _ => List.Subperm.refl _)
    (by simp) n ((hvs n).2 hn)

theorem legalPlay_replay (ht : t.Sound) (g : Gates) (m : Mapping) (s₀ : States) :
    LegalPlay t g m s₀ (replayWalk t g m s₀).order (replayWalk t g m s₀).states := by
  have hstart := Walk.start_mem_fresh (g := g) ht (visitMapped t m) s₀
  exact (Walk.course_fresh ht (visitMapped_gives t m) s₀).legalPlay (List.ne_nil_of_mem hstart)

/-- A replay reaches the filled locations that some play visits, and no others, though plays may take
any order; and it tells of each filled location once. -/
theorem replay_exact (ht : t.Loaded) (g : Gates) (hm : m.Distinct) (s₀ : States) :
    (∀ l ∈ (replay t g m s₀).reached, ∃ ns s, LegalPlay t g m s₀ ns s ∧ l ∈ ns) ∧
    (KeepsToChecks t m → ∀ ns s, LegalPlay t g m s₀ ns s →
      ∀ l ∈ m.itemLocations, l ∈ ns → l ∈ (replay t g m s₀).reached) ∧
    ((replay t g m s₀).reached ++ (replay t g m s₀).unreached).Perm m.itemLocations ∧
    (replay t g m s₀).reached.Sublist m.itemLocations ∧
    (replay t g m s₀).unreached.Sublist m.itemLocations ∧ m.itemLocations.Nodup := by
  have hsound := ht.linked.sound
  refine ⟨fun l hl => ?_, fun hk ns s hp l hl hn => ?_, ?_, ?_, ?_, Mapping.nodup_itemLocations hm⟩
  · rw [replay_reached] at hl
    exact ⟨_, _, legalPlay_replay hsound g m s₀,
      (visited_replayWalk t g m s₀).1 (List.mem_filter.1 hl).2⟩
  · rw [replay_reached]
    exact List.mem_filter.2 ⟨hl, hp.visited_replay hsound hk l hn⟩
  · rw [replay_reached, replay_unreached]
    exact List.filter_append_perm _ _
  · exact List.filter_sublist
  · exact List.filter_sublist

/-- With the key where it was and the shelf where it was, both are reached, and by a play. -/
theorem replay_exact_twoRooms :
    let m : Mapping := ⟨⟨[(0, .check 0), (3, .check 3)]⟩⟩
    twoRooms.Loaded ∧ m.Distinct ∧ KeepsToChecks twoRooms m ∧
    (replay twoRooms gateLock m {}).reached = [0, 3] ∧
    (∀ l ∈ [0, 3], ∃ ns s, LegalPlay twoRooms gateLock m {} ns s ∧ l ∈ ns) ∧
    ∀ ns s, LegalPlay twoRooms gateLock m {} ns s → ∀ l ∈ m.itemLocations, l ∈ ns → l ∈ [0, 3] := by
  intro m
  have hm : m.Distinct := of_decide_eq_true (by cbv)
  have hreached : (replay twoRooms gateLock m {}).reached = [0, 3] := by cbv
  have hk : KeepsToChecks twoRooms m := by
    refine separate_twoRooms.keepsToChecks fun l i hl => ?_
    have hmem : (l, Replacement.check i) ∈ m.toList := Mapping.mem_of_get? hl
    obtain ⟨-, hi⟩ | ⟨-, hi⟩ : l = 0 ∧ i = 0 ∨ l = 3 ∧ i = 3 := by
      simpa [m, Mapping.toList] using hmem
    · exact hi ▸ rfl
    · exact hi ▸ rfl
  obtain ⟨hplays, hall, -⟩ := replay_exact loaded_twoRooms gateLock hm {}
  rw [hreached] at hplays hall
  exact ⟨loaded_twoRooms, hm, hk, hreached, hplays, hall hk⟩

end WorldShuffle

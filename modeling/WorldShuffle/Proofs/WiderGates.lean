import WorldShuffle.Proofs.Insertion
import WorldShuffle.Proofs.LegalPlay

namespace WorldShuffle

namespace Gates

variable {g g' : Gates} {l : Layer} {e : Nat} {s : States}

theorem canTraverse_iff : g.canTraverse e s = true ↔
    g.alternatives e = [] ∨ ∃ c ∈ g.possible e, c.holds s = true := by
  rw [canTraverse, Bool.or_eq_true, List.isEmpty_iff, List.any_eq_true]
  refine or_congr_right (exists_congr fun c => ?_)
  rw [mem_possible, and_assoc]
  refine and_congr_right fun _ => (and_iff_right_of_imp fun hc => ?_).symm
  simp only [Clause.holds, Bool.and_eq_true, Bool.not_eq_true'] at hc
  exact hc.1

theorem isFalse_iff : g.isFalse e = true ↔ g.alternatives e ≠ [] ∧ g.possible e = [] := by
  simp [isFalse, possible, List.filter_eq_nil_iff]

theorem isConstrained_iff : g.isConstrained e = true ↔ g.alternatives e ≠ [] := by
  simp [isConstrained, alternatives, List.flatMap_eq_nil_iff]

structure Wider (g g' : Gates) : Prop where
  opens {e : Nat} {s : States} : g.canTraverse e s = true → g'.canTraverse e s = true
  possible {e : Nat} : g'.isFalse e = true → g.isFalse e = true

/-- It is enough to look at the alternatives of each edge: free edges stay free, and what was possible
is no harder. -/
theorem wider_of_possible (hfree : ∀ e, g.alternatives e = [] → g'.alternatives e = [])
    (hpossible : ∀ e, ∀ c ∈ g.possible e, ∃ c' ∈ g'.possible e,
      ∀ s : States, c.holds s = true → c'.holds s = true) : g.Wider g' where
  opens {e s} h := by
    rw [canTraverse_iff] at h ⊢
    refine h.imp (hfree e) ?_
    rintro ⟨c, hc, hs⟩
    obtain ⟨c', hc', hholds⟩ := hpossible e c hc
    exact ⟨c', hc', hholds s hs⟩
  possible {e} h := by
    rw [isFalse_iff] at h ⊢
    refine ⟨fun hnil => h.1 (hfree e hnil), List.eq_nil_iff_forall_not_mem.2 fun c hc => ?_⟩
    obtain ⟨c', hc', -⟩ := hpossible e c hc
    rw [h.2] at hc'
    cases hc'

def extended (g : Gates) (l : Layer) : Gates := ⟨g.layers ++ [l]⟩

theorem alternatives_extended (g : Gates) (l : Layer) (e : Nat) :
    (g.extended l).alternatives e = g.alternatives e ++ l.get e := by
  simp [alternatives, extended]

/-- A further layer adds alternatives. It could only shut edges that had none. -/
theorem wider_extended (hl : ∀ e, l.get e ≠ [] → g.isConstrained e = true) :
    g.Wider (g.extended l) := by
  refine wider_of_possible (fun e hnil => ?_) fun e c hc => ⟨c, ?_, fun _ => id⟩
  · rw [alternatives_extended, hnil, List.nil_append]
    exact not_not.1 fun hne => isConstrained_iff.1 (hl e hne) hnil
  · rw [mem_possible, alternatives_extended] at *
    exact ⟨List.mem_append_left _ hc.1, hc.2⟩

end Gates

variable {t : Topology} {g g' : Gates} {m : Mapping} {s₀ s : States} {ns : List Nat}

theorem LegalPlay.wider (hg : g.Wider g') (h : LegalPlay t g m s₀ ns s) :
    LegalPlay t g' m s₀ ns s := by
  induction h with
  | start => exact LegalPlay.start
  | step h hedge hs hopen ih => exact ih.step hedge hs (hg.opens hopen)

/-- Through wider gates a replay visits all that it visited before, in whatever order it comes there. -/
theorem visited_replayWalk_wider (ht : t.Sound) (hm : KeepsToChecks t m) (hg : g.Wider g') {n : Nat}
    (h : (replayWalk t g m s₀).explorer.visited.isSet n = true) :
    (replayWalk t g' m s₀).explorer.visited.isSet n = true := by
  have hplay := (legalPlay_replay ht g m s₀).wider hg
  exact hplay.visited_replay ht hm n ((visited_replayWalk t g m s₀).1 h)

/-- A layer on edges that are constrained already only widens the world: a replay that visits a node
still does, locations reached stay reached, and no edge that could be traversed at some time, or that
was not false, becomes false. -/
theorem extra_layer_widens (ht : t.Loaded) (g : Gates) (l : Layer)
    (hl : ∀ e, l.get e ≠ [] → g.isConstrained e = true) (hm : KeepsToChecks t m) (s₀ : States) :
    (∀ n, (replayWalk t g m s₀).explorer.visited.isSet n = true →
      (replayWalk t (g.extended l) m s₀).explorer.visited.isSet n = true) ∧
    (∀ n ∈ (replay t g m s₀).reached, n ∈ (replay t (g.extended l) m s₀).reached) ∧
    (∀ e s, g.canTraverse e s = true → (g.extended l).isFalse e = false) ∧
    ∀ e, g.isFalse e = false → (g.extended l).isFalse e = false := by
  have hg := Gates.wider_extended hl
  have hvisited (n : Nat) (hn : (replayWalk t g m s₀).explorer.visited.isSet n = true) :
      (replayWalk t (g.extended l) m s₀).explorer.visited.isSet n = true :=
    visited_replayWalk_wider ht.linked.sound hm hg hn
  have hfalse (e : Nat) (h : g.isFalse e = false) : (g.extended l).isFalse e = false := by
    refine Bool.eq_false_iff.2 fun hshut => ?_
    rw [hg.possible hshut] at h
    cases h
  refine ⟨hvisited, fun n hn => ?_, fun e s hopen => hfalse e ?_, hfalse⟩
  · rw [replay_reached, List.mem_filter] at hn ⊢
    exact ⟨hn.1, hvisited n hn.2⟩
  · refine Bool.eq_false_iff.2 fun hshut => ?_
    rw [Gates.canTraverse_eq_false_of_isFalse hshut] at hopen
    cases hopen

def lampLayer : Layer := (({ name := "climbs" } : Layer).insert 0 0 [.single "Lamp" 1]).1

/-- With the key out of reach on the shelf behind the lock, only the lamp gets there. -/
theorem extra_layer_widens_twoRooms :
    let m : Mapping := ⟨⟨[(0, .check 3), (3, .check 0)]⟩⟩
    let lamp : States := ({} : States).acquire "Lamp"
    twoRooms.Loaded ∧ insertedLock.Inserted ∧ lampLayer.Inserted ∧
    (∀ e, lampLayer.get e ≠ [] → insertedLock.isConstrained e = true) ∧ KeepsToChecks twoRooms m ∧
    (replay twoRooms insertedLock m lamp).reached = [0] ∧
    (replay twoRooms (insertedLock.extended lampLayer) m lamp).reached = [0, 3] ∧
    (∀ n ∈ [0], n ∈ (replay twoRooms (insertedLock.extended lampLayer) m lamp).reached) ∧
    (insertedLock.extended lampLayer).isFalse 0 = false := by
  intro m lamp
  have hl : ∀ e, lampLayer.get e ≠ [] → insertedLock.isConstrained e = true := by
    intro e he
    have hlogic : lampLayer.logic = ⟨[(0, [.single "Lamp" 1])]⟩ := by cbv
    have h0 : e = 0 := by
      by_contra hne
      have hno : (e == 0) = false := beq_false_of_ne hne
      exact he (by simp [Layer.get, hlogic, Table.get?, List.lookup_cons, hno])
    exact h0 ▸ (by cbv : insertedLock.isConstrained 0 = true)
  have hm : KeepsToChecks twoRooms m := by
    have hitems : ∀ i ∈ m.placedItems, isCheckNode twoRooms i = true := by decide
    exact separate_twoRooms.keepsToChecks fun l i hl => hitems i (Mapping.mem_placedItems hl)
  have hreached : (replay twoRooms insertedLock m lamp).reached = [0] := by cbv
  obtain ⟨-, hkept, hopened, -⟩ := extra_layer_widens loaded_twoRooms insertedLock lampLayer hl hm lamp
  rw [hreached] at hkept
  have hlock : insertedLock.canTraverse 0 (lamp.acquire "Key") = true := by cbv
  exact ⟨loaded_twoRooms, inserted_insertedLock, (Layer.Inserted.empty "climbs").insert 0 0 _, hl, hm,
    hreached, by cbv, hkept, hopened 0 _ hlock⟩

end WorldShuffle

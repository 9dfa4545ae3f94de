import Mathlib.Logic.Function.Iterate
import WorldShuffle.Proofs.Course
import WorldShuffle.Proofs.Exchanges

namespace WorldShuffle

/-- The life of an explorer, which between explorations is given roots, while the states change in
whatever way. The indexes are the roots it has been given, the nodes it has visited, in order, and what
it and the states have become. -/
inductive Explorer.Life (t : Topology) (g : Gates) :
    List Nat → List Nat → Explorer → States → Prop
  | new (s : States) : Life t g [] [] (Explorer.new t) s
  | addRoot {rs vs x s} (h : Life t g rs vs x s) (n : Nat) :
      Life t g (rs ++ [n]) vs (x.addRoot n) s
  | change {rs vs x s} (h : Life t g rs vs x s) (s' : States) : Life t g rs vs x s'
  | explore {rs vs x s} (h : Life t g rs vs x s) (visit : Visit) :
      Life t g rs (vs ++ (x.explore t g visit s).order) (x.explore t g visit s).explorer
        (x.explore t g visit s).states

variable {t : Topology} {g : Gates} {visit : Visit} {rs vs : List Nat} {x : Explorer} {s : States}
  {w : Walk}

/-- How an explorer that has been given the roots `rs` has come to the nodes it has visited: each is a
root or lies behind an explored edge. -/
structure Explorer.Entered (t : Topology) (g : Gates) (rs : List Nat) (x : Explorer) : Prop where
  size : x.explored.size = t.edges.size
  roots : ∀ n ∈ x.roots, n ∈ rs
  possible {e : Nat} : x.explored.isSet e = true → g.isFalse e = false
  behind {n : Nat} : x.visited.isSet n = true →
    n ∈ rs ∨ ∃ e edge, x.explored.isSet e = true ∧ t.edges[e]? = some edge ∧ edge.target = n

theorem Explorer.entered_new (t : Topology) (g : Gates) : (Explorer.new t).Entered t g [] where
  size := Marks.size_none _
  roots _ hn := nomatch hn
  possible h := by simp [Explorer.new, Marks.isSet_none] at h
  behind h := by simp [Explorer.new, Marks.isSet_none] at h

theorem Explorer.Entered.addRoot (h : x.Entered t g rs) (n : Nat) :
    (x.addRoot n).Entered t g (rs ++ [n]) where
  size := h.size
  roots k hk := by
    rcases List.mem_append.1 hk with hk | hk
    · exact List.mem_append_left _ (h.roots k hk)
    · exact List.mem_append_right _ hk
  possible := h.possible
  behind hk := (h.behind hk).imp_left (List.mem_append_left _)

theorem Explorer.Entered.arrive {n : Nat} (h : x.Entered t g rs)
    (hn : n ∈ rs ∨ ∃ e edge, x.explored.isSet e = true ∧ t.edges[e]? = some edge ∧ edge.target = n) :
    ({ x with visited := x.visited.mark n } : Explorer).Entered t g rs where
  size := h.size
  roots := h.roots
  possible := h.possible
  behind hk := by
    rcases Marks.isSet_mark.1 hk with hk | ⟨rfl, -⟩
    · exact h.behind hk
    · exact hn

/-- An edge out of a visited node has been explored, can never be traversed, or waits, and no two of
these. -/
theorem Explorer.Entered.one_of_three {n e : Nat} (h : x.Entered t g rs) (hx : x.Sound t g [])
    (hn : x.visited.isSet n = true) (he : e ∈ t.out n) :
    (x.explored.isSet e = true ∧ g.isFalse e = false ∧ e ∉ x.frontier) ∨
      (x.explored.isSet e = false ∧ g.isFalse e = true ∧ e ∉ x.frontier) ∨
      (x.explored.isSet e = false ∧ g.isFalse e = false ∧ e ∈ x.frontier) := by
  rcases hx.settled hn he with hs | hs | hs
  · refine Or.inl ⟨hs, h.possible hs, fun hf => ?_⟩
    rw [(hx.waiting hf).1] at hs
    cases hs
  · refine Or.inr (Or.inl ⟨?_, hs, fun hf => ?_⟩)
    · by_contra hexplored
      rw [Bool.not_eq_false] at hexplored
      rw [h.possible hexplored] at hs
      cases hs
    · rw [hx.possible hf] at hs
      cases hs
  · exact Or.inr (Or.inr ⟨(hx.waiting hs).1, hx.possible hs, hs⟩)

theorem Explorer.Entered.behind_visited {n : Nat} (h : x.Entered t g rs) (hx : x.Sound t g [])
    (hn : x.visited.isSet n = true) : n ∈ rs ∨ ∃ e edge, x.explored.isSet e = true ∧
      t.edges[e]? = some edge ∧ x.visited.isSet edge.source = true ∧ edge.target = n := by
  rcases h.behind hn with hn | ⟨e, edge, he, hedge, htarget⟩
  · exact Or.inl hn
  · obtain ⟨edge', hedge', hs, -⟩ := hx.joined he
    obtain rfl := Option.some.inj (hedge.symm.trans hedge')
    exact Or.inr ⟨e, edge, he, hedge, hs, htarget⟩

namespace Walk

theorem entered_cross {e : Nat} (h : w.explorer.Entered t g rs)
    (hopen : g.canTraverse e w.states = true) : (w.cross e).explorer.Entered t g rs where
  size := Marks.size_mark.trans h.size
  roots := h.roots
  possible {e'} he' := by
    rcases Marks.isSet_mark.1 he' with he' | ⟨rfl, -⟩
    · exact h.possible he'
    · by_contra hfalse
      rw [Bool.not_eq_false] at hfalse
      rw [Gates.canTraverse_eq_false_of_isFalse hfalse] at hopen
      cases hopen
  behind hn := by
    rcases h.behind hn with hn | ⟨e', edge, he', hedge⟩
    · exact Or.inl hn
    · exact Or.inr ⟨e', edge, Marks.isSet_mark.2 (Or.inl he'), hedge⟩

theorem entered_explore (ht : t.Sound) (h : w.explorer.Sound t g [])
    (hw : w.explorer.Entered t g rs) : (w.explore t g visit).explorer.Entered t g rs := by
  refine (explore_induction (P := fun v => v.explorer.Entered t g rs) ht ?_
    (fun v e hv hopen => entered_cross hv hopen) ?_ ?_ w ?_ h hw).2
  · intro v hv
    exact ⟨hv.size, fun n hn => absurd hn List.not_mem_nil, hv.possible, hv.behind⟩
  · intro v e hv
    obtain ⟨es, he⟩ := defer_eq v e
    rw [he]
    exact ⟨hv.size, hv.roots, hv.possible, hv.behind⟩
  · intro v e edge hv hedge hs hopen hnew
    apply (entered_cross hv hopen).arrive
    have hlt : e < v.explorer.explored.size := by
      rw [hv.size]
      exact (Array.getElem?_eq_some_iff.1 hedge).1
    exact Or.inr ⟨e, edge, Marks.isSet_mark.2 (Or.inr ⟨rfl, hlt⟩), hedge, rfl⟩
  · intro v n hn hv hnew
    exact hv.arrive (Or.inl (hw.roots n hn))

/-- An exploration ends with the first pass that acquires nothing, and each pass before that has
visited a node. -/
theorem explore_eq_iterate (w : Walk) : ∃ k ≤ w.unvisited,
    w.explore t g visit = (pass t g visit)^[k + 1] w ∧
      (w.explore t g visit).acquired = false := by
  fun_induction explore t g visit w with
  | case1 w v hacq ih =>
    obtain ⟨k, hk, hiterate, hlast⟩ := ih
    have hlt := unvisited_pass_lt t g visit hacq
    refine ⟨k + 1, ?_, ?_, hlast⟩
    · exact Nat.lt_of_le_of_lt hk hlt
    · rw [hiterate]
      exact (Function.iterate_succ_apply (pass t g visit) (k + 1) w).symm
  | case2 w v hacq =>
    refine ⟨0, Nat.zero_le _, rfl, ?_⟩
    exact Bool.eq_false_iff.2 hacq

end Walk

namespace Explorer.Life

theorem sound (ht : t.Sound) (h : Life t g rs vs x s) : x.Sound t g [] := by
  induction h with
  | new s => exact sound_new t g
  | addRoot h n ih => exact ih.addRoot n
  | change h s' ih => exact ih
  | explore h visit ih => exact Walk.sound_explore ht visit ih

theorem entered (ht : t.Sound) (h : Life t g rs vs x s) : x.Entered t g rs := by
  induction h with
  | new s => exact entered_new t g
  | addRoot h n ih => exact ih.addRoot n
  | change h s' ih => exact ih
  | explore h visit ih => exact Walk.entered_explore ht (h.sound ht) ih

theorem tracks (h : Life t g rs vs x s) :
    ({ explorer := x, states := s } : Walk).Tracks vs := by
  induction h with
  | new s => exact ⟨(Walk.tracks_fresh t s).visited_iff, List.nodup_nil⟩
  | addRoot h n ih => exact ⟨ih.visited_iff, ih.nodup⟩
  | change h s' ih => exact ⟨ih.visited_iff, ih.nodup⟩
  | @explore rs vs x s h visit ih =>
    have hw : (x.explore t g visit s).Tracks vs := ih.explore
    constructor
    · intro n
      rw [List.append_nil]
      exact hw.visited_iff n
    · rw [List.append_nil]
      exact hw.nodup

end Explorer.Life

/-- Whatever an explorer has been through, an exploration ends at a fixpoint. It has visited each
visited node once; each edge out of one has been explored, can never be traversed, or waits at the
frontier, which is closed to the states held in the end. -/
theorem explore_fixpoint (ht : t.Loaded) (h : Explorer.Life t g rs vs x s) (hv : visit.Honest) :
    let w := x.explore t g visit s
    (∃ k ≤ x.visited.left,
      w = (Walk.pass t g visit)^[k + 1] { explorer := x, states := s } ∧ w.acquired = false) ∧
    ((vs ++ w.order).Nodup ∧ (∀ n, w.explorer.visited.isSet n = true ↔ n ∈ vs ++ w.order) ∧
      w.states = w.order.foldl (fun s n => (visit n s).1) s) ∧
    ((∀ n e, w.explorer.visited.isSet n = true → e ∈ t.out n →
        (w.explorer.explored.isSet e = true ∧ g.isFalse e = false ∧ e ∉ w.explorer.frontier) ∨
        (w.explorer.explored.isSet e = false ∧ g.isFalse e = true ∧ e ∉ w.explorer.frontier) ∨
        (w.explorer.explored.isSet e = false ∧ g.isFalse e = false ∧ e ∈ w.explorer.frontier)) ∧
      w.explorer.frontier.Nodup ∧
      ∀ e ∈ w.explorer.frontier, ∃ n, w.explorer.visited.isSet n = true ∧ e ∈ t.out n) ∧
    (∀ e ∈ w.explorer.frontier, g.canTraverse e w.states = false) ∧
    (∀ n, w.explorer.visited.isSet n = true → n ∈ rs ∨ ∃ e edge,
      w.explorer.explored.isSet e = true ∧ t.edges[e]? = some edge ∧
        w.explorer.visited.isSet edge.source = true ∧ edge.target = n) ∧
    ∀ e, w.explorer.explored.isSet e = true → ∃ edge, t.edges[e]? = some edge ∧
      w.explorer.visited.isSet edge.source = true ∧
        w.explorer.visited.isSet edge.target = true := by
  intro w
  have hnext := h.explore visit
  have hsound := hnext.sound ht.linked.sound
  have hentered := hnext.entered ht.linked.sound
  have htracks := hnext.tracks
  refine ⟨Walk.explore_eq_iterate { explorer := x, states := s },
    ⟨?_, ?_, Walk.states_explore { explorer := x, states := s } rfl⟩,
    ⟨fun n e hn he => hentered.one_of_three hsound hn he, hsound.nodup, ?_⟩,
    Walk.explore_blocked hv _, fun n hn => hentered.behind_visited hsound hn,
    fun e he => hsound.joined he⟩
  · simpa using htracks.nodup
  · simpa using htracks.visited_iff
  · intro e he
    obtain ⟨-, edge, hedge, hs⟩ := hsound.waiting he
    exact ⟨edge.source, hs, ht.linked.sound.mem_out.2 ⟨edge, hedge, rfl⟩⟩

def keylessWalk : Walk :=
  ((Explorer.new twoRooms).addRoot 0).explore twoRooms gateLock visitNothing {}

def resumedWalk : Walk :=
  keylessWalk.explorer.explore twoRooms gateLock visitNothing (keylessWalk.states.acquire "Key")

theorem explore_fixpoint_twoRooms :
    (keylessWalk.order = [0] ∧ keylessWalk.explorer.frontier = [0]) ∧
    (resumedWalk.order = [1, 2, 3] ∧ resumedWalk.explorer.frontier = []) ∧
    Explorer.Life twoRooms gateLock [0] keylessWalk.order keylessWalk.explorer
      (keylessWalk.states.acquire "Key") ∧
    (keylessWalk.order ++ resumedWalk.order).Nodup ∧
    ∀ e ∈ resumedWalk.explorer.frontier, gateLock.canTraverse e resumedWalk.states = false := by
  have hlife : Explorer.Life twoRooms gateLock [0] keylessWalk.order keylessWalk.explorer
      (keylessWalk.states.acquire "Key") :=
    .change (.explore (.addRoot (.new {}) 0) visitNothing) _
  have hhonest : visitNothing.Honest := fun _ _ _ => rfl
  obtain ⟨-, ⟨hnodup, -, -⟩, -, hblocked, -⟩ := explore_fixpoint loaded_twoRooms hlife hhonest
  exact ⟨by cbv, by cbv, hlife, hnodup, hblocked⟩

end WorldShuffle

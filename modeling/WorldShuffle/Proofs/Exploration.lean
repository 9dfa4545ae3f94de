import WorldShuffle.Explore.Explorer
import WorldShuffle.Proofs.Grants

namespace WorldShuffle

namespace Marks

variable {m : Marks} {i j : Nat}

theorem isSet_iff : m.isSet i = true ↔ m[i]? = some true := by simp [isSet]

theorem isOpen_iff : m.isOpen i = true ↔ i < m.size ∧ m.isSet i = false := by
  simp only [isOpen, isSet, beq_iff_eq, beq_eq_false_iff_ne, ne_eq]
  rcases h : m[i]? with _ | b
  · simp [Array.getElem?_eq_none_iff.1 h]
  · obtain ⟨hi, -⟩ := Array.getElem?_eq_some_iff.1 h
    cases b <;> simp [hi]

theorem size_mark : (m.mark i).size = m.size := Array.size_setIfInBounds

theorem isSet_mark : (m.mark i).isSet j = true ↔ m.isSet j = true ∨ j = i ∧ i < m.size := by
  simp only [isSet_iff, mark, Array.getElem?_setIfInBounds]
  by_cases h : i = j
  · subst h
    by_cases hi : i < m.size <;> simp [hi]
  · simp [h, Ne.symm h]

theorem isOpen_mark : (m.mark i).isOpen j = true ↔ m.isOpen j = true ∧ j ≠ i := by
  rw [isOpen_iff, isOpen_iff, size_mark, Bool.eq_false_iff, Bool.eq_false_iff, ne_eq, ne_eq,
    isSet_mark]
  constructor
  · rintro ⟨hlt, hset⟩
    exact ⟨⟨hlt, fun h => hset (Or.inl h)⟩, fun h => hset (Or.inr ⟨h, h ▸ hlt⟩)⟩
  · rintro ⟨⟨hlt, hset⟩, hne⟩
    exact ⟨hlt, fun h => h.elim hset fun h => hne h.1⟩

theorem isSet_none (n : Nat) : (Marks.none n).isSet i = false := by
  simp only [isSet, Marks.none, Array.getElem?_replicate, beq_eq_false_iff_ne, ne_eq]
  split <;> simp

theorem size_none (n : Nat) : (Marks.none n).size = n := Array.size_replicate

end Marks

structure Topology.Sound (t : Topology) : Prop where
  start_lt : t.start < t.nodes.size
  target_lt {e : Nat} {edge : Edge} : t.edges[e]? = some edge → edge.target < t.nodes.size
  mem_out {n e : Nat} : e ∈ t.out n ↔ ∃ edge, t.edges[e]? = some edge ∧ edge.source = n
  nodup_out (n : Nat) : (t.out n).Nodup

variable {t : Topology} {g : Gates} {x : Explorer} {stack : List Nat}

/-- What holds of an explorer that is to follow the edges of `stack`: the edges that leave visited
nodes have been explored, can never be traversed, or wait at the frontier or on the stack, once. -/
structure Explorer.Sound (t : Topology) (g : Gates) (x : Explorer) (stack : List Nat) : Prop where
  visited_size : x.visited.size = t.nodes.size
  explored_size : x.explored.size = t.edges.size
  joined {e : Nat} : x.explored.isSet e = true → ∃ edge, t.edges[e]? = some edge ∧
    x.visited.isSet edge.source = true ∧ x.visited.isSet edge.target = true
  waiting {e : Nat} : e ∈ stack ++ x.frontier → x.explored.isSet e = false ∧
    ∃ edge, t.edges[e]? = some edge ∧ x.visited.isSet edge.source = true
  possible {e : Nat} : e ∈ x.frontier → g.isFalse e = false
  nodup : (stack ++ x.frontier).Nodup
  settled {n e : Nat} : x.visited.isSet n = true → e ∈ t.out n →
    x.explored.isSet e = true ∨ g.isFalse e = true ∨ e ∈ stack ++ x.frontier

namespace Explorer

theorem sound_new (t : Topology) (g : Gates) : (Explorer.new t).Sound t g [] where
  visited_size := Marks.size_none _
  explored_size := Marks.size_none _
  joined h := by simp [Explorer.new, Marks.isSet_none] at h
  waiting h := by simp [Explorer.new] at h
  possible h := by simp [Explorer.new] at h
  nodup := List.nodup_nil
  settled h := by simp [Explorer.new, Marks.isSet_none] at h

theorem Sound.addRoot (h : x.Sound t g stack) (n : Nat) : (x.addRoot n).Sound t g stack :=
  ⟨h.visited_size, h.explored_size, h.joined, h.waiting, h.possible, h.nodup, h.settled⟩

theorem Sound.perm {stack' : List Nat} (h : x.Sound t g stack) (hp : stack.Perm stack') :
    x.Sound t g stack' := by
  have hm (e : Nat) : e ∈ stack' ++ x.frontier ↔ e ∈ stack ++ x.frontier := by
    simp only [List.mem_append, hp.mem_iff]
  exact {
    visited_size := h.visited_size
    explored_size := h.explored_size
    joined := h.joined
    waiting := fun he => h.waiting ((hm _).1 he)
    possible := h.possible
    nodup := (hp.append_right x.frontier).nodup_iff.1 h.nodup
    settled := fun hn he => by simpa only [hm] using h.settled hn he }

theorem Sound.resume (h : x.Sound t g []) :
    ({ x with frontier := [], roots := [] } : Explorer).Sound t g x.frontier where
  visited_size := h.visited_size
  explored_size := h.explored_size
  joined := h.joined
  waiting he := h.waiting (by simpa using he)
  possible he := by simp at he
  nodup := by simpa using h.nodup
  settled hn he := by simpa using h.settled hn he

theorem Sound.skip {e : Nat} (h : x.Sound t g (e :: stack))
    (he : x.explored.isSet e = true ∨ g.isFalse e = true) : x.Sound t g stack where
  visited_size := h.visited_size
  explored_size := h.explored_size
  joined := h.joined
  waiting he := h.waiting (List.mem_cons_of_mem e he)
  possible := h.possible
  nodup := (List.nodup_cons.1 h.nodup).2
  settled {n e'} hn he' := by
    rcases h.settled hn he' with hs | hs | hs
    · exact Or.inl hs
    · exact Or.inr (Or.inl hs)
    · rcases List.mem_cons.1 hs with rfl | hs
      · exact he.imp_right Or.inl
      · exact Or.inr (Or.inr hs)

theorem Sound.lt_edges {e : Nat} (h : x.Sound t g (e :: stack)) : e < x.explored.size := by
  obtain ⟨-, edge, hedge, -⟩ := h.waiting List.mem_cons_self
  obtain ⟨he, -⟩ := Array.getElem?_eq_some_iff.1 hedge
  rw [h.explored_size]
  exact he

theorem Sound.cross {e : Nat} {edge : Edge} (h : x.Sound t g (e :: stack))
    (hedge : t.edges[e]? = some edge) (hv : x.visited.isSet edge.target = true) :
    ({ x with explored := x.explored.mark e } : Explorer).Sound t g stack where
  visited_size := h.visited_size
  explored_size := Marks.size_mark.trans h.explored_size
  joined {e'} he' := by
    rcases Marks.isSet_mark.1 he' with he' | ⟨rfl, -⟩
    · exact h.joined he'
    · obtain ⟨-, edge', hedge', hs⟩ := h.waiting List.mem_cons_self
      obtain rfl := Option.some.inj (hedge.symm.trans hedge')
      exact ⟨edge, hedge, hs, hv⟩
  waiting {e'} he' := by
    obtain ⟨hx, hs⟩ := h.waiting (List.mem_cons_of_mem e he')
    have hne : e' ≠ e := fun hne => (List.nodup_cons.1 h.nodup).1 (hne ▸ he')
    refine ⟨Bool.eq_false_iff.2 fun hm => ?_, hs⟩
    rcases Marks.isSet_mark.1 hm with hm | hm
    · simp [hx] at hm
    · exact hne hm.1
  possible := h.possible
  nodup := (List.nodup_cons.1 h.nodup).2
  settled {n e'} hn he' := by
    rcases h.settled hn he' with hs | hs | hs
    · exact Or.inl (Marks.isSet_mark.2 (Or.inl hs))
    · exact Or.inr (Or.inl hs)
    · rcases List.mem_cons.1 hs with rfl | hs
      · exact Or.inl (Marks.isSet_mark.2 (Or.inr ⟨rfl, h.lt_edges⟩))
      · exact Or.inr (Or.inr hs)

theorem Sound.arrive {n : Nat} (ht : t.Sound) (h : x.Sound t g stack)
    (hn : x.visited.isOpen n = true) :
    ({ x with visited := x.visited.mark n } : Explorer).Sound t g (t.out n ++ stack) := by
  obtain ⟨hlt, hnew⟩ := Marks.isOpen_iff.1 hn
  have keep {k : Nat} (hk : x.visited.isSet k = true) : (x.visited.mark n).isSet k = true :=
    Marks.isSet_mark.2 (Or.inl hk)
  -- Edges that are explored or wait have a visited source, and so do not leave the new node.
  have hfar {e : Nat} (he : e ∈ t.out n) : x.explored.isSet e = false ∧ e ∉ stack ++ x.frontier := by
    obtain ⟨edge, hedge, rfl⟩ := ht.mem_out.1 he
    constructor
    · refine Bool.eq_false_iff.2 fun hx => ?_
      obtain ⟨edge', hedge', hs, -⟩ := h.joined hx
      obtain rfl := Option.some.inj (hedge.symm.trans hedge')
      simp [hnew] at hs
    · intro hw
      obtain ⟨-, edge', hedge', hs⟩ := h.waiting hw
      obtain rfl := Option.some.inj (hedge.symm.trans hedge')
      simp [hnew] at hs
  exact {
    visited_size := Marks.size_mark.trans h.visited_size
    explored_size := h.explored_size
    joined := fun he => by
      obtain ⟨edge, hedge, hs, htgt⟩ := h.joined he
      exact ⟨edge, hedge, keep hs, keep htgt⟩
    waiting := fun {e} he => by
      rw [List.append_assoc, List.mem_append] at he
      rcases he with he | he
      · obtain ⟨edge, hedge, hs⟩ := ht.mem_out.1 he
        exact ⟨(hfar he).1, edge, hedge, Marks.isSet_mark.2 (Or.inr ⟨hs, hlt⟩)⟩
      · obtain ⟨hx, edge, hedge, hs⟩ := h.waiting he
        exact ⟨hx, edge, hedge, keep hs⟩
    possible := h.possible
    nodup := by
      rw [List.append_assoc, List.nodup_append]
      refine ⟨ht.nodup_out n, h.nodup, fun a ha b hb hab => ?_⟩
      exact (hfar ha).2 (hab ▸ hb)
    settled := fun {k e} hk he => by
      rw [List.append_assoc, List.mem_append]
      rcases Marks.isSet_mark.1 hk with hk | ⟨rfl, -⟩
      · rcases h.settled hk he with hs | hs | hs
        · exact Or.inl hs
        · exact Or.inr (Or.inl hs)
        · exact Or.inr (Or.inr (Or.inr hs))
      · exact Or.inr (Or.inr (Or.inl he)) }

theorem Sound.defer {e : Nat} (h : x.Sound t g (e :: stack)) (he : g.isFalse e = false) :
    ({ x with frontier := x.frontier ++ [e] } : Explorer).Sound t g stack := by
  have hp : (e :: (stack ++ x.frontier)).Perm (stack ++ (x.frontier ++ [e])) := by
    rw [← List.append_assoc]
    exact (List.perm_append_singleton e _).symm
  have hm (e' : Nat) : e' ∈ stack ++ (x.frontier ++ [e]) ↔ e' ∈ e :: (stack ++ x.frontier) :=
    hp.mem_iff.symm
  exact {
    visited_size := h.visited_size
    explored_size := h.explored_size
    joined := h.joined
    waiting := fun he => h.waiting ((hm _).1 he)
    possible := fun {e'} he' => by
      rcases List.mem_append.1 he' with he' | he'
      · exact h.possible he'
      · rw [List.mem_singleton.1 he']
        exact he
    nodup := hp.nodup_iff.1 h.nodup
    settled := fun hn he => by simpa only [hm, List.cons_append] using h.settled hn he }

end Explorer

def Visit.Honest (visit : Visit) : Prop := ∀ n s, (visit n s).2 = false → (visit n s).1 = s

namespace Walk

variable {visit : Visit} {w : Walk}

theorem mem_frontier_defer {e e' : Nat} :
    e' ∈ (w.defer e).explorer.frontier ↔ e' ∈ w.explorer.frontier ∨ e' = e := by
  rw [defer]
  split
  · exact ⟨Or.inl, fun h => h.elim id fun h => h ▸ ‹_›⟩
  · simp

theorem acquired_arrive {n : Nat} (h : (w.arrive visit n).acquired = false) :
    w.acquired = false ∧ (visit n w.states).2 = false := by
  simpa only [arrive, Bool.or_eq_false_iff] using h

theorem sound_defer {e : Nat} (h : w.explorer.Sound t g (e :: stack)) (he : g.isFalse e = false) :
    (w.defer e).explorer.Sound t g stack := by
  have hnew : e ∉ w.explorer.frontier := fun hf =>
    (List.nodup_cons.1 h.nodup).1 (List.mem_append_right stack hf)
  rw [defer, if_neg hnew]
  exact h.defer he

/-- What every step of a walk keeps is kept by following a stack; each new node is the target of an
edge that leaves a visited one and is open at that moment. -/
theorem follow_induction (ht : t.Sound) {P : Walk → Prop}
    (hcross : ∀ w e, P w → g.canTraverse e w.states = true → P (w.cross e))
    (hdefer : ∀ w e, P w → P (w.defer e))
    (harrive : ∀ w e edge, P w → t.edges[e]? = some edge →
      w.explorer.visited.isSet edge.source = true → g.canTraverse e w.states = true →
      w.isNew edge.target = true → P ((w.cross e).arrive visit edge.target))
    (stack : List Nat) (w : Walk) (h : w.explorer.Sound t g stack) (hw : P w) :
    (follow t g visit stack w).explorer.Sound t g [] ∧ P (follow t g visit stack w) := by
  fun_induction follow t g visit stack w with
  | case1 w => exact ⟨h, hw⟩
  | case2 e stack w hskip ih => exact ih (h.skip (by simpa using hskip)) hw
  | case3 e stack w hskip hopen htgt ih =>
    obtain ⟨-, edge, hedge, -⟩ := h.waiting List.mem_cons_self
    simp [Topology.target?, hedge] at htgt
  | case4 e stack w hskip hopen n htgt hnew ih =>
    obtain ⟨-, edge, hedge, hs⟩ := h.waiting List.mem_cons_self
    obtain rfl : edge.target = n := by simpa [Topology.target?, hedge] using htgt
    have hlt := (Marks.isOpen_iff.1 hnew).1
    have ha := (Explorer.Sound.arrive ht h hnew).perm List.perm_middle
    exact ih (ha.cross hedge (Marks.isSet_mark.2 (Or.inr ⟨rfl, hlt⟩)))
      (harrive w e edge hw hedge hs hopen hnew)
  | case5 e stack w hskip hopen n htgt hold ih =>
    obtain ⟨-, edge, hedge, -⟩ := h.waiting List.mem_cons_self
    obtain rfl : edge.target = n := by simpa [Topology.target?, hedge] using htgt
    have hlt : edge.target < w.explorer.visited.size := by
      rw [h.visited_size]
      exact ht.target_lt hedge
    cases hv : w.explorer.visited.isSet edge.target with
    | true => exact ih (h.cross hedge hv) (hcross w e hw hopen)
    | false => exact absurd (Marks.isOpen_iff.2 ⟨hlt, hv⟩) hold
  | case6 e stack w hskip hopen ih =>
    simp only [Bool.or_eq_true, not_or, Bool.not_eq_true] at hskip
    exact ih (sound_defer h hskip.2) (hdefer w e hw)

theorem enter_induction (ht : t.Sound) {P : Walk → Prop} (roots : List Nat)
    (hroot : ∀ w, ∀ n ∈ roots, P w → w.isNew n = true → P (w.arrive visit n))
    (s : Walk × List Nat) (h : s.1.explorer.Sound t g s.2) (hs : P s.1) :
    (roots.foldr (enter t visit) s).1.explorer.Sound t g (roots.foldr (enter t visit) s).2 ∧
      P (roots.foldr (enter t visit) s).1 := by
  induction roots with
  | nil => exact ⟨h, hs⟩
  | cons n roots ih =>
    obtain ⟨hsound, hp⟩ := ih fun w m hm => hroot w m (List.mem_cons_of_mem n hm)
    simp only [List.foldr_cons, enter]
    split
    · exact ⟨hsound.arrive ht ‹_›, hroot _ n List.mem_cons_self hp ‹_›⟩
    · exact ⟨hsound, hp⟩

theorem roots_follow (stack : List Nat) (w : Walk) :
    (follow t g visit stack w).explorer.roots = w.explorer.roots := by
  fun_induction follow t g visit stack w with
  | case1 w => rfl
  | case2 e stack w hskip ih => exact ih
  | case3 e stack w hskip hopen htgt ih => exact ih
  | case4 e stack w hskip hopen n htgt hnew ih => exact ih
  | case5 e stack w hskip hopen n htgt hold ih => exact ih
  | case6 e stack w hskip hopen ih =>
    rw [ih]
    rw [defer]
    split <;> rfl

theorem roots_enter (roots : List Nat) (s : Walk × List Nat) :
    (roots.foldr (enter t visit) s).1.explorer.roots = s.1.explorer.roots := by
  induction roots with
  | nil => rfl
  | cons n roots ih =>
    simp only [List.foldr_cons, enter]
    split <;> exact ih

theorem roots_pass (w : Walk) : (w.pass t g visit).explorer.roots = [] :=
  (roots_follow _ _).trans (roots_enter w.explorer.roots _)

theorem roots_explore (w : Walk) : (w.explore t g visit).explorer.roots = [] := by
  fun_induction explore t g visit w with
  | case1 w v hacq ih => exact ih
  | case2 w v hacq => exact roots_pass w

/-- The induction over a whole exploration, `P` being kept by all that its passes do. -/
theorem explore_induction (ht : t.Sound) {P : Walk → Prop} (hbegin : ∀ w, P w → P w.begin)
    (hcross : ∀ w e, P w → g.canTraverse e w.states = true → P (w.cross e))
    (hdefer : ∀ w e, P w → P (w.defer e))
    (harrive : ∀ w e edge, P w → t.edges[e]? = some edge →
      w.explorer.visited.isSet edge.source = true → g.canTraverse e w.states = true →
      w.isNew edge.target = true → P ((w.cross e).arrive visit edge.target))
    (w : Walk)
    (hroot : ∀ v, ∀ n ∈ w.explorer.roots, P v → v.isNew n = true → P (v.arrive visit n))
    (h : w.explorer.Sound t g []) (hw : P w) :
    (w.explore t g visit).explorer.Sound t g [] ∧ P (w.explore t g visit) := by
  have pass (w : Walk)
      (hroot : ∀ v, ∀ n ∈ w.explorer.roots, P v → v.isNew n = true → P (v.arrive visit n))
      (h : w.explorer.Sound t g []) (hw : P w) :
      (w.pass t g visit).explorer.Sound t g [] ∧ P (w.pass t g visit) := by
    obtain ⟨hs, hp⟩ := enter_induction ht w.explorer.roots hroot
      (w.begin, w.explorer.frontier) h.resume (hbegin w hw)
    exact follow_induction ht hcross hdefer harrive _ _ hs hp
  fun_induction explore t g visit w with
  | case1 w v hacq ih =>
    obtain ⟨hs, hp⟩ := pass w hroot h hw
    refine ih (fun u n hn => ?_) hs hp
    rw [roots_pass] at hn
    exact absurd hn List.not_mem_nil
  | case2 w v hacq => exact pass w hroot h hw

theorem sound_explore (ht : t.Sound) (visit : Visit) (h : w.explorer.Sound t g []) :
    (w.explore t g visit).explorer.Sound t g [] :=
  (explore_induction (P := fun _ => True) ht (fun _ _ => trivial) (fun _ _ _ _ => trivial)
    (fun _ _ _ => trivial) (fun _ _ _ _ _ _ _ _ => trivial) w (fun _ _ _ _ _ => trivial)
    h trivial).1

theorem follow_keeps {P : Walk → Prop} (hcross : ∀ w e, P w → P (w.cross e))
    (hdefer : ∀ w e, P w → P (w.defer e))
    (harrive : ∀ w n, P w → w.isNew n = true → P (w.arrive visit n))
    (stack : List Nat) (w : Walk) (hw : P w) : P (follow t g visit stack w) := by
  fun_induction follow t g visit stack w with
  | case1 w => exact hw
  | case2 e stack w hskip ih => exact ih hw
  | case3 e stack w hskip hopen htgt ih => exact ih (hcross w e hw)
  | case4 e stack w hskip hopen n htgt hnew ih => exact ih (harrive _ n (hcross w e hw) hnew)
  | case5 e stack w hskip hopen n htgt hold ih => exact ih (hcross w e hw)
  | case6 e stack w hskip hopen ih => exact ih (hdefer w e hw)

theorem enter_keeps {P : Walk → Prop}
    (harrive : ∀ w n, P w → w.isNew n = true → P (w.arrive visit n))
    (roots : List Nat) (s : Walk × List Nat) (hs : P s.1) :
    P (roots.foldr (enter t visit) s).1 := by
  induction roots with
  | nil => exact hs
  | cons n roots ih =>
    simp only [List.foldr_cons, enter]
    split
    · exact harrive _ n ih ‹_›
    · exact ih

theorem explore_keeps {P : Walk → Prop} (hbegin : ∀ w, P w → P w.begin)
    (hcross : ∀ w e, P w → P (w.cross e)) (hdefer : ∀ w e, P w → P (w.defer e))
    (harrive : ∀ w n, P w → w.isNew n = true → P (w.arrive visit n))
    (w : Walk) (hw : P w) : P (w.explore t g visit) := by
  have pass (w : Walk) (hw : P w) : P (w.pass t g visit) :=
    follow_keeps hcross hdefer harrive _ _
      (enter_keeps harrive w.explorer.roots (w.begin, w.explorer.frontier) (hbegin w hw))
  fun_induction explore t g visit w with
  | case1 w v hacq ih => exact ih (pass w hw)
  | case2 w v hacq => exact pass w hw

theorem defer_eq (w : Walk) (e : Nat) : ∃ es, w.defer e =
    { w with explorer := { w.explorer with frontier := es } } := by
  rw [defer]
  split
  · exact ⟨w.explorer.frontier, rfl⟩
  · exact ⟨_, rfl⟩

/-- The states in the end are what the visits, made in order, make of those in the beginning. -/
theorem states_explore (w : Walk) (h : w.order = []) :
    (w.explore t g visit).states =
      (w.explore t g visit).order.foldl (fun s n => (visit n s).1) w.states := by
  refine explore_keeps
    (P := fun v => v.states = v.order.foldl (fun s n => (visit n s).1) w.states)
    (fun v hv => hv) (fun v e hv => hv) (fun v e hv => ?_) (fun v n hv hn => ?_) w ?_
  · obtain ⟨es, he⟩ := defer_eq v e
    rw [he]
    exact hv
  · rw [arrive, List.foldl_append, ← hv]
    rfl
  · rw [h]
    rfl

structure Tracks (vs : List Nat) (w : Walk) : Prop where
  visited_iff (n : Nat) : w.explorer.visited.isSet n = true ↔ n ∈ vs ++ w.order
  nodup : (vs ++ w.order).Nodup

variable {vs : List Nat}

theorem Tracks.arrive {n : Nat} (h : w.Tracks vs) (hn : w.isNew n = true) :
    (w.arrive visit n).Tracks vs := by
  obtain ⟨hlt, hnew⟩ := Marks.isOpen_iff.1 hn
  have hnot : n ∉ vs ++ w.order := fun hm => by simp [(h.visited_iff n).2 hm] at hnew
  have happ : vs ++ (w.arrive visit n).order = (vs ++ w.order) ++ [n] :=
    (List.append_assoc vs w.order [n]).symm
  constructor
  · intro k
    rw [happ, List.mem_append, List.mem_singleton, ← h.visited_iff k]
    refine Marks.isSet_mark.trans (or_congr_right ?_)
    exact ⟨And.left, fun hk => ⟨hk, hlt⟩⟩
  · rw [happ, List.nodup_append]
    refine ⟨h.nodup, List.nodup_cons.2 ⟨List.not_mem_nil, List.nodup_nil⟩, ?_⟩
    intro a ha b hb hab
    exact hnot (List.mem_singleton.1 hb ▸ hab ▸ ha)

theorem Tracks.explore (h : w.Tracks vs) : (w.explore t g visit).Tracks vs := by
  refine explore_keeps (P := Tracks vs) (fun w hw => ⟨hw.visited_iff, hw.nodup⟩)
    (fun w e hw => ⟨hw.visited_iff, hw.nodup⟩) (fun w e hw => ?_)
    (fun w n hw hn => hw.arrive hn) w h
  obtain ⟨es, he⟩ := defer_eq w e
  exact he ▸ ⟨hw.visited_iff, hw.nodup⟩

theorem visited_arrive {n k : Nat} (h : w.explorer.visited.isSet k = true) :
    (w.arrive visit n).explorer.visited.isSet k = true :=
  Marks.isSet_mark.2 (Or.inl h)

theorem visited_follow {k : Nat} (stack : List Nat) (h : w.explorer.visited.isSet k = true) :
    (follow t g visit stack w).explorer.visited.isSet k = true := by
  refine follow_keeps (P := fun v => v.explorer.visited.isSet k = true) (fun w e hw => hw)
    (fun w e hw => ?_) (fun w n hw hn => visited_arrive hw) stack w h
  obtain ⟨es, he⟩ := defer_eq w e
  exact he ▸ hw

theorem visited_explore {k : Nat} (h : w.explorer.visited.isSet k = true) :
    (w.explore t g visit).explorer.visited.isSet k = true := by
  refine explore_keeps (P := fun v => v.explorer.visited.isSet k = true) (fun w hw => hw)
    (fun w e hw => hw) (fun w e hw => ?_) (fun w n hw hn => visited_arrive hw) w h
  obtain ⟨es, he⟩ := defer_eq w e
  exact he ▸ hw

theorem explored_follow {e : Nat} (stack : List Nat) (h : w.explorer.explored.isSet e = true) :
    (follow t g visit stack w).explorer.explored.isSet e = true := by
  refine follow_keeps (P := fun v => v.explorer.explored.isSet e = true)
    (fun w e' hw => Marks.isSet_mark.2 (Or.inl hw)) (fun w e' hw => ?_) (fun w n hw hn => hw) stack w h
  obtain ⟨es, he⟩ := defer_eq w e'
  exact he ▸ hw

theorem explored_explore {e : Nat} (h : w.explorer.explored.isSet e = true) :
    (w.explore t g visit).explorer.explored.isSet e = true := by
  refine explore_keeps (P := fun v => v.explorer.explored.isSet e = true) (fun w hw => hw)
    (fun w e' hw => Marks.isSet_mark.2 (Or.inl hw)) (fun w e' hw => ?_) (fun w n hw hn => hw) w h
  obtain ⟨es, he⟩ := defer_eq w e'
  exact he ▸ hw

theorem size_explored_explore (w : Walk) :
    (w.explore t g visit).explorer.explored.size = w.explorer.explored.size := by
  refine explore_keeps (P := fun v => v.explorer.explored.size = w.explorer.explored.size)
    (fun v hv => hv) (fun v e hv => Marks.size_mark.trans hv) (fun v e hv => ?_)
    (fun v n hv hn => hv) w rfl
  obtain ⟨es, he⟩ := defer_eq v e
  exact he ▸ hv

/-- An open edge on the stack is crossed, for visits take no states away. -/
theorem follow_crosses (hv : ∀ (n : Nat) (s : States), s.Below (visit n s).1) {e : Nat}
    (stack : List Nat) (w : Walk)
    (he : e ∈ stack) (hopen : g.canTraverse e w.states = true)
    (hlt : e < w.explorer.explored.size) :
    (follow t g visit stack w).explorer.explored.isSet e = true := by
  have crossed (w : Walk) (hlt : e < w.explorer.explored.size) :
      (w.cross e).explorer.explored.isSet e = true :=
    Marks.isSet_mark.2 (Or.inr ⟨rfl, hlt⟩)
  have size (w : Walk) (e' : Nat) :
      (w.cross e').explorer.explored.size = w.explorer.explored.size := Marks.size_mark
  fun_induction follow t g visit stack w with
  | case1 w => exact absurd he List.not_mem_nil
  | case2 e' stack w hskip ih =>
    rcases List.mem_cons.1 he with rfl | he
    · rcases Bool.or_eq_true_iff.1 hskip with hskip | hskip
      · exact explored_follow stack hskip
      · rw [Gates.canTraverse_eq_false_of_isFalse hskip] at hopen
        cases hopen
    · exact ih he hopen hlt
  | case3 e' stack w hskip hopen' htgt ih =>
    rcases List.mem_cons.1 he with rfl | he
    · exact explored_follow stack (crossed w hlt)
    · exact ih he hopen ((size w e').symm ▸ hlt)
  | case4 e' stack w hskip hopen' n htgt hnew ih =>
    rcases List.mem_cons.1 he with rfl | he
    · exact explored_follow _ (crossed w hlt)
    · exact ih (List.mem_append_right _ he) (Gates.canTraverse_mono (hv n w.states) hopen)
        ((size w e').symm ▸ hlt)
  | case5 e' stack w hskip hopen' n htgt hold ih =>
    rcases List.mem_cons.1 he with rfl | he
    · exact explored_follow stack (crossed w hlt)
    · exact ih he hopen ((size w e').symm ▸ hlt)
  | case6 e' stack w hskip hclosed ih =>
    obtain ⟨es, hdefer⟩ := defer_eq w e'
    rcases List.mem_cons.1 he with rfl | he
    · exact absurd hopen hclosed
    · exact ih he (hdefer ▸ hopen) (hdefer ▸ hlt)

theorem explore_crosses (hv : ∀ (n : Nat) (s : States), s.Below (visit n s).1) {e : Nat}
    (he : e ∈ w.explorer.frontier)
    (hopen : g.canTraverse e w.states = true) (hlt : e < w.explorer.explored.size) :
    (w.explore t g visit).explorer.explored.isSet e = true := by
  have entered (roots : List Nat) (s : Walk × List Nat) (he : e ∈ s.2)
      (hopen : g.canTraverse e s.1.states = true) :
      e ∈ (roots.foldr (enter t visit) s).2 ∧
        g.canTraverse e (roots.foldr (enter t visit) s).1.states = true ∧
        (roots.foldr (enter t visit) s).1.explorer.explored = s.1.explorer.explored := by
    induction roots with
    | nil => exact ⟨he, hopen, rfl⟩
    | cons n roots ih =>
      obtain ⟨hmem, hopen, hsame⟩ := ih
      simp only [List.foldr_cons, enter]
      split
      · exact ⟨List.mem_append_right _ hmem, Gates.canTraverse_mono (hv n _) hopen, hsame⟩
      · exact ⟨hmem, hopen, hsame⟩
  obtain ⟨hmem, hopen, hsame⟩ := entered w.explorer.roots (w.begin, w.explorer.frontier) he hopen
  have hpass : (w.pass t g visit).explorer.explored.isSet e = true :=
    follow_crosses hv _ _ hmem hopen (hsame ▸ hlt)
  rw [explore]
  split
  · exact explored_explore hpass
  · exact hpass

theorem visited_root {n : Nat} (hn : n ∈ w.explorer.roots) (hlt : n < w.explorer.visited.size) :
    (w.explore t g visit).explorer.visited.isSet n = true := by
  have entered (roots : List Nat) (s : Walk × List Nat) (hn : n ∈ roots)
      (hlt : n < s.1.explorer.visited.size) :
      (roots.foldr (enter t visit) s).1.explorer.visited.isSet n = true := by
    induction roots with
    | nil => exact absurd hn List.not_mem_nil
    | cons m roots ih =>
      have hsize : (roots.foldr (enter t visit) s).1.explorer.visited.size =
          s.1.explorer.visited.size :=
        enter_keeps (P := fun v => v.explorer.visited.size = s.1.explorer.visited.size)
          (fun w n hw _ => Marks.size_mark.trans hw) roots s rfl
      simp only [List.foldr_cons, enter]
      split
      · rcases List.mem_cons.1 hn with rfl | hn
        · exact Marks.isSet_mark.2 (Or.inr ⟨rfl, hsize ▸ hlt⟩)
        · exact visited_arrive (ih hn)
      · rename_i hold
        rcases List.mem_cons.1 hn with rfl | hn
        · cases hv : (roots.foldr (enter t visit) s).1.explorer.visited.isSet n with
          | true => rfl
          | false => exact absurd (Marks.isOpen_iff.2 ⟨hsize ▸ hlt, hv⟩) hold
        · exact ih hn
  have hpass : (w.pass t g visit).explorer.visited.isSet n = true :=
    visited_follow _ (entered w.explorer.roots (w.begin, w.explorer.frontier) hn hlt)
  rw [explore]
  split
  · exact visited_explore hpass
  · exact hpass

/-- While nothing is acquired the states stay as they are, and so do the edges that they close. -/
theorem follow_idle (hv : visit.Honest) (stack : List Nat) (w : Walk)
    (h : (follow t g visit stack w).acquired = false) :
    w.acquired = false ∧ (follow t g visit stack w).states = w.states ∧
      ∀ e ∈ (follow t g visit stack w).explorer.frontier,
        e ∈ w.explorer.frontier ∨ g.canTraverse e w.states = false := by
  fun_induction follow t g visit stack w with
  | case1 w => exact ⟨h, rfl, fun e he => Or.inl he⟩
  | case2 e stack w hskip ih => exact ih h
  | case3 e stack w hskip hopen htgt ih => exact ih h
  | case4 e stack w hskip hopen n htgt hnew ih =>
    obtain ⟨ha, hs, hf⟩ := ih h
    obtain ⟨ha, hchanged⟩ := acquired_arrive ha
    have hkept : ((w.cross e).arrive visit n).states = w.states := hv n w.states hchanged
    rw [hkept] at hs hf
    exact ⟨ha, hs, hf⟩
  | case5 e stack w hskip hopen n htgt hold ih => exact ih h
  | case6 e stack w hskip hopen ih =>
    obtain ⟨ha, hs, hf⟩ := ih h
    have hstates : (w.defer e).states = w.states := by unfold defer; split <;> rfl
    have hacq : (w.defer e).acquired = w.acquired := by unfold defer; split <;> rfl
    rw [hstates] at hs hf
    refine ⟨hacq ▸ ha, hs, fun e' he' => ?_⟩
    rcases hf e' he' with hw | hc
    · rcases mem_frontier_defer.1 hw with hw | rfl
      · exact Or.inl hw
      · exact Or.inr (by simpa using hopen)
    · exact Or.inr hc

theorem enter_idle (hv : visit.Honest) (roots : List Nat) (s : Walk × List Nat)
    (h : (roots.foldr (enter t visit) s).1.acquired = false) :
    (roots.foldr (enter t visit) s).1.states = s.1.states ∧
      (roots.foldr (enter t visit) s).1.explorer.frontier = s.1.explorer.frontier := by
  induction roots with
  | nil => exact ⟨rfl, rfl⟩
  | cons n roots ih =>
    simp only [List.foldr_cons, enter] at h ⊢
    split at h
    · rename_i hn
      obtain ⟨h, hchanged⟩ := acquired_arrive h
      obtain ⟨hs, hf⟩ := ih h
      rw [if_pos hn]
      exact ⟨(hv n _ hchanged).trans hs, hf⟩
    · rename_i hn
      rw [if_neg hn]
      exact ih h

theorem pass_blocked (hv : visit.Honest) (w : Walk) (h : (w.pass t g visit).acquired = false) :
    ∀ e ∈ (w.pass t g visit).explorer.frontier,
      g.canTraverse e (w.pass t g visit).states = false := by
  obtain ⟨ha, hs, hf⟩ := follow_idle hv _ _ h
  obtain ⟨-, hfront⟩ := enter_idle hv w.explorer.roots (w.begin, w.explorer.frontier) ha
  intro e he
  rcases hf e he with hw | hc
  · have hb : e ∈ w.begin.explorer.frontier := hfront ▸ hw
    simp [begin] at hb
  · rw [pass]
    rw [hs]
    exact hc

/-- What waits at the frontier in the end is closed to the states held in the end. -/
theorem explore_blocked (hv : visit.Honest) (w : Walk) :
    ∀ e ∈ (w.explore t g visit).explorer.frontier,
      g.canTraverse e (w.explore t g visit).states = false := by
  fun_induction explore t g visit w with
  | case1 w v hacq ih => exact ih
  | case2 w v hacq => exact pass_blocked hv w (by simpa using hacq)

theorem follow_possible (stack : List Nat) (w : Walk)
    (h : ∀ e ∈ w.explorer.frontier, g.isFalse e = false) :
    ∀ e ∈ (follow t g visit stack w).explorer.frontier, g.isFalse e = false := by
  fun_induction follow t g visit stack w with
  | case1 w => exact h
  | case2 e stack w hskip ih => exact ih h
  | case3 e stack w hskip hopen htgt ih => exact ih h
  | case4 e stack w hskip hopen n htgt hnew ih => exact ih h
  | case5 e stack w hskip hopen n htgt hold ih => exact ih h
  | case6 e stack w hskip hopen ih =>
    refine ih fun e' he' => ?_
    rcases mem_frontier_defer.1 he' with he' | rfl
    · exact h e' he'
    · simp only [Bool.or_eq_true, not_or, Bool.not_eq_true] at hskip
      exact hskip.2

theorem explore_possible (w : Walk) :
    ∀ e ∈ (w.explore t g visit).explorer.frontier, g.isFalse e = false := by
  have pass (w : Walk) : ∀ e ∈ (w.pass t g visit).explorer.frontier, g.isFalse e = false := by
    refine follow_possible _ _ ?_
    exact enter_keeps (P := fun v => ∀ e ∈ v.explorer.frontier, g.isFalse e = false)
      (fun v n hv _ => hv) w.explorer.roots (w.begin, w.explorer.frontier) (by simp [begin])
  fun_induction explore t g visit w with
  | case1 w v hacq ih => exact ih
  | case2 w v hacq => exact pass w

end Walk

end WorldShuffle

import WorldShuffle.Proofs.Adjacency

namespace WorldShuffle

open Relation

section classes

variable {r r' R S : Nat → Nat → Prop} {a b x y n m k N : Nat}

open Classical in
noncomputable def firsts (r : Nat → Nat → Prop) (N : Nat) : Finset Nat :=
  {n ∈ Finset.range N | ∀ m < n, ¬r m n}

theorem mem_firsts : n ∈ firsts r N ↔ n < N ∧ ∀ m < n, ¬r m n := by
  simp [firsts]

theorem firsts_anti (h : ∀ x y, r x y → r' x y) (N : Nat) : firsts r' N ⊆ firsts r N := by
  intro n hn
  obtain ⟨hlt, hfirst⟩ := mem_firsts.1 hn
  exact mem_firsts.2 ⟨hlt, fun m hm hr => hfirst m hm (h m n hr)⟩

theorem exists_first (hr : Equivalence r) (n : Nat) : ∃ f, r f n ∧ ∀ m < f, ¬r m f := by
  induction n using Nat.strong_induction_on with
  | _ n ih =>
    by_cases h : ∃ m < n, r m n
    · obtain ⟨m, hm, hmn⟩ := h
      obtain ⟨f, hf, hfirst⟩ := ih m hm
      exact ⟨f, hr.trans hf hmn, hfirst⟩
    · exact ⟨n, hr.refl n, fun m hm hmn => h ⟨m, hm, hmn⟩⟩

def merged (r : Nat → Nat → Prop) (a b x y : Nat) : Prop :=
  r x y ∨ r x a ∧ r b y ∨ r x b ∧ r a y

theorem merged_comm : merged r a b x y ↔ merged r b a x y := or_congr_right or_comm

theorem merged_of_rel (hr : Equivalence r) (h : r a b) : merged r a b x y ↔ r x y := by
  refine ⟨?_, Or.inl⟩
  rintro (hxy | ⟨hxa, hby⟩ | ⟨hxb, hay⟩)
  · exact hxy
  · exact hr.trans hxa (hr.trans h hby)
  · exact hr.trans hxb (hr.trans (hr.symm h) hay)

theorem firsts_merged {fa fb : Nat} (hr : Equivalence r) (ha : r fa a) (hb : r fb b)
    (hfa : ∀ m < fa, ¬r m fa) (hfb : ∀ m < fb, ¬r m fb) (hlt : fa < fb) :
    firsts (merged r a b) N = (firsts r N).erase fb := by
  ext n
  rw [Finset.mem_erase, mem_firsts, mem_firsts]
  constructor
  · rintro ⟨hn, hfirst⟩
    refine ⟨?_, hn, fun m hm hmn => hfirst m hm (Or.inl hmn)⟩
    rintro rfl
    exact hfirst fa hlt (Or.inr (Or.inl ⟨ha, hr.symm hb⟩))
  · rintro ⟨hne, hn, hfirst⟩
    refine ⟨hn, fun m hm => ?_⟩
    -- the first members of one class are the same
    have same {f f' : Nat} (hf : ∀ m < f, ¬r m f) (hf' : ∀ m < f', ¬r m f') (h : r f f') : f = f' := by
      rcases Nat.lt_trichotomy f f' with hlt | heq | hgt
      · exact absurd h (hf' f hlt)
      · exact heq
      · exact absurd (hr.symm h) (hf f' hgt)
    rintro (hmn | ⟨-, hbn⟩ | ⟨hmb, han⟩)
    · exact hfirst m hm hmn
    · exact hne (same hfirst hfb (hr.symm (hr.trans hb hbn)))
    · have heq : n = fa := same hfirst hfa (hr.symm (hr.trans ha han))
      have hle : fb ≤ m := Nat.le_of_not_lt fun h => hfb m h (hr.trans hmb (hr.symm hb))
      omega

theorem first_lt (hr : Equivalence r) {f : Nat} (hf : r f n) (hfirst : ∀ m < f, ¬r m f)
    (hn : n < N) : f ∈ firsts r N := by
  refine mem_firsts.2 ⟨?_, hfirst⟩
  by_contra hle
  exact hfirst n (by omega) (hr.symm hf)

theorem card_firsts_merged (hr : Equivalence r) (ha : a < N) (hb : b < N) (hne : ¬r a b) :
    (firsts (merged r a b) N).card + 1 = (firsts r N).card := by
  obtain ⟨fa, hfa, hfirsta⟩ := exists_first hr a
  obtain ⟨fb, hfb, hfirstb⟩ := exists_first hr b
  have hdiff : fa ≠ fb := by
    rintro rfl
    exact hne (hr.trans (hr.symm hfa) hfb)
  rcases Nat.lt_or_gt_of_ne hdiff with hlt | hgt
  · rw [firsts_merged hr hfa hfb hfirsta hfirstb hlt]
    exact Finset.card_erase_add_one (first_lt hr hfb hfirstb hb)
  · have hcomm : merged r a b = merged r b a := by
      funext x y
      exact propext merged_comm
    rw [hcomm, firsts_merged hr hfb hfa hfirstb hfirsta hgt]
    exact Finset.card_erase_add_one (first_lt hr hfa hfirsta ha)

theorem card_firsts_of_reached (h : ∃ m < k, r m k) :
    (firsts r (k + 1)).card = (firsts r k).card := by
  congr 1
  ext n
  rw [mem_firsts, mem_firsts]
  refine and_congr_left fun hfirst => ⟨fun hn => ?_, fun hn => by omega⟩
  obtain ⟨m, hm, hmk⟩ := h
  by_contra hle
  obtain rfl : n = k := by omega
  exact hfirst m hm hmk

theorem card_firsts_of_new (h : ∀ m < k, ¬r m k) :
    (firsts r (k + 1)).card = (firsts r k).card + 1 := by
  have hinsert : firsts r (k + 1) = insert k (firsts r k) := by
    ext n
    rw [Finset.mem_insert, mem_firsts, mem_firsts]
    constructor
    · rintro ⟨hn, hfirst⟩
      rcases Nat.lt_succ_iff_lt_or_eq.1 hn with hn | rfl
      · exact Or.inr ⟨hn, hfirst⟩
      · exact Or.inl rfl
    · rintro (rfl | ⟨hn, hfirst⟩)
      · exact ⟨Nat.lt_succ_self n, h⟩
      · exact ⟨by omega, hfirst⟩
  rw [hinsert, Finset.card_insert_of_notMem]
  exact fun hk => Nat.lt_irrefl k (mem_firsts.1 hk).1

theorem equivalence_reach [Std.Symm R] : Equivalence (ReflTransGen R) where
  refl _ := ReflTransGen.refl
  symm h := ReflTransGen.stdSymm.symm _ _ h
  trans := ReflTransGen.trans

def Pair (a b x y : Nat) : Prop := x = a ∧ y = b ∨ x = b ∧ y = a

theorem Pair.symm (h : Pair a b x y) : Pair a b y x := by
  rcases h with ⟨rfl, rfl⟩ | ⟨rfl, rfl⟩
  · exact Or.inr ⟨rfl, rfl⟩
  · exact Or.inl ⟨rfl, rfl⟩

def Plus (R : Nat → Nat → Prop) (a b x y : Nat) : Prop := R x y ∨ Pair a b x y

instance [Std.Symm R] : Std.Symm (Plus R a b) where
  symm _ _ h := h.imp (Std.Symm.symm _ _) Pair.symm

theorem reach_plus (h : ReflTransGen R x y) : ReflTransGen (Plus R a b) x y :=
  ReflTransGen.mono (fun _ _ => Or.inl) x y h

theorem reach_new : ReflTransGen (Plus R a b) a b :=
  ReflTransGen.single (Or.inr (Or.inl ⟨rfl, rfl⟩))

theorem reach_plus_eq [Std.Symm R] :
    ReflTransGen (Plus R a b) = merged (ReflTransGen R) a b := by
  funext x y
  refine propext ⟨fun h => ?_, fun h => ?_⟩
  · induction h with
    | refl => exact Or.inl ReflTransGen.refl
    | tail _ hstep ih =>
      rename_i y z
      rcases hstep with hstep | ⟨rfl, rfl⟩ | ⟨rfl, rfl⟩
      · exact ih.imp (·.tail hstep) (Or.imp (.imp_right (·.tail hstep)) (.imp_right (·.tail hstep)))
      · rcases ih with h | ⟨h, -⟩ | ⟨h, -⟩
        · exact Or.inr (Or.inl ⟨h, .refl⟩)
        · exact Or.inr (Or.inl ⟨h, .refl⟩)
        · exact Or.inl h
      · rcases ih with h | ⟨h, -⟩ | ⟨h, -⟩
        · exact Or.inr (Or.inr ⟨h, .refl⟩)
        · exact Or.inl h
        · exact Or.inr (Or.inr ⟨h, .refl⟩)
  · rcases h with h | ⟨hx, hy⟩ | ⟨hx, hy⟩
    · exact reach_plus h
    · exact ((reach_plus hx).trans reach_new).trans (reach_plus hy)
    · refine ((reach_plus hx).tail (Or.inr (Or.inr ⟨rfl, rfl⟩))).trans (reach_plus hy)

noncomputable def classes (R : Nat → Nat → Prop) (N : Nat) : Nat := (firsts (ReflTransGen R) N).card

theorem classes_anti (h : ∀ x y, R x y → S x y) : classes S N ≤ classes R N :=
  Finset.card_le_card (firsts_anti (fun x y => ReflTransGen.mono h x y) N)

theorem classes_plus_of_reach [Std.Symm R] (h : ReflTransGen R a b) :
    classes (Plus R a b) N = classes R N := by
  have hsame : ReflTransGen (Plus R a b) = ReflTransGen R := by
    funext x y
    rw [reach_plus_eq]
    exact propext (merged_of_rel equivalence_reach h)
  rw [classes, hsame, classes]

theorem classes_plus_of_not_reach [Std.Symm R] (ha : a < N) (hb : b < N)
    (h : ¬ReflTransGen R a b) : classes (Plus R a b) N + 1 = classes R N := by
  rw [classes, reach_plus_eq]
  exact card_firsts_merged equivalence_reach ha hb h

theorem classes_le_plus [Std.Symm R] (ha : a < N) (hb : b < N) :
    classes R N ≤ classes (Plus R a b) N + 1 := by
  by_cases h : ReflTransGen R a b
  · rw [classes_plus_of_reach h]
    exact Nat.le_succ _
  · exact (classes_plus_of_not_reach ha hb h).ge

end classes

section reach

variable {t : Topology} {g : Gates} {root n k : Nat} {m seen : Marks} {ns reached stack : List Nat}

theorem mem_markNew : k ∈ (markNew m ns).2 ↔ k ∈ ns ∧ m.isOpen k = true := by
  induction ns generalizing m with
  | nil => simp [markNew]
  | cons n ns ih =>
    rw [markNew]
    split
    · rename_i hopen
      obtain ⟨hlt, -⟩ := Marks.isOpen_iff.1 hopen
      rw [List.mem_cons, ih, List.mem_cons, Marks.isOpen_iff, Marks.isOpen_iff, Marks.size_mark,
        Bool.eq_false_iff, Bool.eq_false_iff, ne_eq, ne_eq, Marks.isSet_mark]
      by_cases hk : k = n
      · subst hk
        obtain ⟨-, hset⟩ := Marks.isOpen_iff.1 hopen
        simp [hlt, hset]
      · simp [hk]
    · rename_i hclosed
      rw [ih, List.mem_cons]
      refine ⟨fun h => ⟨Or.inr h.1, h.2⟩, ?_⟩
      rintro ⟨rfl | hk, hopen⟩
      · exact absurd hopen hclosed
      · exact ⟨hk, hopen⟩

theorem isSet_markNew : (markNew m ns).1.isSet k = true ↔
    m.isSet k = true ∨ k ∈ ns ∧ k < m.size := by
  induction ns generalizing m with
  | nil => simp [markNew]
  | cons n ns ih =>
    rw [markNew]
    split
    · rename_i hopen
      obtain ⟨hlt, -⟩ := Marks.isOpen_iff.1 hopen
      rw [ih, Marks.isSet_mark, Marks.size_mark, List.mem_cons]
      by_cases hk : k = n
      · simp [hk, hlt]
      · simp [hk]
    · rename_i hclosed
      rw [ih, List.mem_cons]
      by_cases hk : k = n
      · subst hk
        rw [Marks.isOpen_iff, not_and, Bool.not_eq_false] at hclosed
        exact ⟨fun h => h.imp_right fun h => ⟨Or.inr h.1, h.2⟩, fun h => by
          rcases h with h | ⟨-, hlt⟩
          · exact Or.inl h
          · exact Or.inl (hclosed hlt)⟩
      · simp [hk]

theorem size_markNew : (markNew m ns).1.size = m.size := by
  induction ns generalizing m with
  | nil => rfl
  | cons n ns ih =>
    rw [markNew]
    split
    · exact ih.trans Marks.size_mark
    · exact ih

/-- What holds while nodes are reached from a root: all but those on the stack have had their
neighbours reached. -/
structure Reaching (t : Topology) (g : Gates) (root : Nat) (seen : Marks)
    (reached stack : List Nat) : Prop where
  size : seen.size = t.nodes.size
  isSet {n : Nat} : seen.isSet n = true ↔ n ∈ reached ∧ n < t.nodes.size
  base : root ∈ reached
  stacked {n : Nat} : n ∈ stack → n ∈ reached
  sound {n : Nat} : n ∈ reached → ReflTransGen (t.Joined g.MayOpen) root n
  closed {n k : Nat} : n ∈ reached → n ∉ stack → t.Joined g.MayOpen n k → k ∈ reached

theorem Reaching.step (ht : t.Listed) (h : Reaching t g root seen reached (n :: stack)) :
    let found := markNew seen (neighbours t g n)
    Reaching t g root found.1 (reached ++ found.2) (found.2.reverse ++ stack) := by
  intro found
  have hfound {k : Nat} : k ∈ found.2 ↔ t.Joined g.MayOpen n k ∧ k ∉ reached := by
    rw [mem_markNew, mem_neighbours ht, Marks.isOpen_iff, Bool.eq_false_iff, ne_eq, h.isSet, h.size]
    refine and_congr_right fun hj => ?_
    have hlt := ht.lt_of_joined hj
    simp [hlt]
  refine ⟨size_markNew.trans h.size, fun {k} => ?_, ?_, fun {k} hk => ?_, fun {k} hk => ?_,
    fun {m k} hm hstack hj => ?_⟩
  · rw [isSet_markNew, h.isSet, mem_neighbours ht, h.size, List.mem_append, hfound]
    by_cases hk : k ∈ reached
    · simp [hk]
    · simp [hk]
  · exact List.mem_append_left _ h.base
  · rcases List.mem_append.1 hk with hk | hk
    · exact List.mem_append_right _ (List.mem_reverse.1 hk)
    · exact List.mem_append_left _ (h.stacked (List.mem_cons_of_mem n hk))
  · rcases List.mem_append.1 hk with hk | hk
    · exact h.sound hk
    · exact (h.sound (h.stacked List.mem_cons_self)).tail (hfound.1 hk).1
  · rw [List.mem_append, not_or, List.mem_reverse] at hstack
    have hm := (List.mem_append.1 hm).resolve_right hstack.1
    by_cases hmn : m = n
    · subst hmn
      by_cases hk : k ∈ reached
      · exact List.mem_append_left _ hk
      · exact List.mem_append_right _ (hfound.2 ⟨hj, hk⟩)
    · refine List.mem_append_left _ (h.closed hm ?_ hj)
      exact fun hmem => (List.mem_cons.1 hmem).elim hmn hstack.2

theorem Reaching.mem_reachFrom (ht : t.Listed) (h : Reaching t g root seen reached stack) :
    n ∈ reachFrom t g seen reached stack ↔ ReflTransGen (t.Joined g.MayOpen) root n := by
  induction seen, reached, stack using reachFrom.induct t g with
  | case1 seen reached =>
    rw [reachFrom]
    refine ⟨h.sound, fun hn => ?_⟩
    induction hn with
    | refl => exact h.base
    | tail _ hj ih => exact h.closed ih List.not_mem_nil hj
  | case2 seen reached n stack found ih =>
    rw [reachFrom]
    exact ih (h.step ht)

/-- Following edges both ways from a root finds what is connected to it. -/
theorem Topology.Listed.mem_undirectedReach (ht : t.Listed) :
    n ∈ undirectedReach t g root ↔ ReflTransGen (t.Joined g.MayOpen) root n := by
  refine Reaching.mem_reachFrom ht ⟨?_, fun {k} => ?_, ?_, fun hn => hn, fun {k} hk => ?_, ?_⟩
  · rw [Marks.size_mark, Marks.size_none]
  · rw [Marks.isSet_mark, Marks.isSet_none, Marks.size_none, List.mem_singleton]
    constructor
    · rintro (h | ⟨rfl, hlt⟩)
      · cases h
      · exact ⟨rfl, hlt⟩
    · rintro ⟨rfl, hlt⟩
      exact Or.inr ⟨rfl, hlt⟩
  · exact List.mem_singleton_self root
  · rw [List.mem_singleton.1 hk]
  · exact fun hn hstack => absurd hn hstack

theorem mem_undirectedReach (ht : t.Loaded) :
    n ∈ undirectedReach t g root ↔ ReflTransGen (t.Joined g.MayOpen) root n :=
  ht.listed.mem_undirectedReach

theorem isSet_foldl_mark : (ns.foldl Marks.mark m).isSet k = true ↔
    m.isSet k = true ∨ k ∈ ns ∧ k < m.size := by
  induction ns generalizing m with
  | nil => simp
  | cons n ns ih =>
    rw [List.foldl_cons, ih, Marks.isSet_mark, Marks.size_mark, List.mem_cons]
    by_cases hk : k = n
    · subst hk
      tauto
    · simp [hk]

theorem size_foldl_mark : (ns.foldl Marks.mark m).size = m.size := by
  induction ns generalizing m with
  | nil => rfl
  | cons n ns ih => exact ih.trans Marks.size_mark

def countStep (t : Topology) (g : Gates) (s : Marks × Nat) (root : Nat) : Marks × Nat :=
  if s.1.isSet root then s else ((undirectedReach t g root).foldl Marks.mark s.1, s.2 + 1)

structure Counting (t : Topology) (g : Gates) (k : Nat) (s : Marks × Nat) : Prop where
  size : s.1.size = t.nodes.size
  isSet {n : Nat} : s.1.isSet n = true ↔
    (∃ r < k, ReflTransGen (t.Joined g.MayOpen) r n) ∧ n < t.nodes.size
  count : s.2 = (firsts (ReflTransGen (t.Joined g.MayOpen)) k).card

theorem Counting.step {s : Marks × Nat} (ht : t.Listed) (h : Counting t g k s)
    (hk : k < t.nodes.size) : Counting t g (k + 1) (countStep t g s k) := by
  rw [countStep]
  split
  · rename_i hset
    obtain ⟨⟨r, hr, hrk⟩, -⟩ := h.isSet.1 hset
    refine ⟨h.size, fun {n} => h.isSet.trans (and_congr_left fun _ => ?_), ?_⟩
    · constructor
      · rintro ⟨r', hr', hn⟩
        exact ⟨r', by omega, hn⟩
      · rintro ⟨r', hr', hn⟩
        rcases Nat.lt_succ_iff_lt_or_eq.1 hr' with hr' | rfl
        · exact ⟨r', hr', hn⟩
        · exact ⟨r, hr, hrk.trans hn⟩
    · rw [card_firsts_of_reached ⟨r, hr, hrk⟩]
      exact h.count
  · rename_i hset
    refine ⟨size_foldl_mark.trans h.size, fun {n} => ?_, ?_⟩
    · rw [isSet_foldl_mark, h.isSet, h.size, ht.mem_undirectedReach, ← or_and_right]
      refine and_congr_left fun _ => ?_
      constructor
      · rintro (⟨r, hr, hn⟩ | hn)
        · exact ⟨r, by omega, hn⟩
        · exact ⟨k, by omega, hn⟩
      · rintro ⟨r, hr, hn⟩
        rcases Nat.lt_succ_iff_lt_or_eq.1 hr with hr | rfl
        · exact Or.inl ⟨r, hr, hn⟩
        · exact Or.inr hn
    · rw [card_firsts_of_new fun m hm hmk => hset (h.isSet.2 ⟨⟨m, hm, hmk⟩, hk⟩)]
      exact congrArg (· + 1) h.count

theorem Topology.Listed.countComponents_eq (ht : t.Listed) (g : Gates) :
    countComponents t g = classes (t.Joined g.MayOpen) t.nodes.size := by
  have hcounting (k : Nat) (hk : k ≤ t.nodes.size) :
      Counting t g k ((List.range k).foldl (countStep t g) (Marks.none t.nodes.size, 0)) := by
    induction k with
    | zero => exact ⟨Marks.size_none _, by simp [Marks.isSet_none], by simp [firsts]⟩
    | succ k ih =>
      rw [List.range_succ, List.foldl_append]
      exact (ih (by omega)).step ht (by omega)
  exact (hcounting t.nodes.size (Nat.le_refl _)).count

theorem countComponents_eq (ht : t.Loaded) (g : Gates) :
    countComponents t g = classes (t.Joined g.MayOpen) t.nodes.size :=
  ht.listed.countComponents_eq g

end reach

end WorldShuffle

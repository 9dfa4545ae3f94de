import WorldShuffle.Proofs.Reindexing

namespace WorldShuffle

open Relation

section marks

variable {m seen : Marks} {ns reached stack : List Nat} {t : Topology} {g : Gates} {n k : Nat}

theorem isOpen_markNew : (markNew m ns).1.isOpen k = true ↔ m.isOpen k = true ∧ k ∉ ns := by
  rw [Marks.isOpen_iff, Marks.isOpen_iff, size_markNew, Bool.eq_false_iff, Bool.eq_false_iff, ne_eq,
    ne_eq, isSet_markNew]
  tauto

theorem nodup_markNew : (markNew m ns).2.Nodup := by
  induction ns generalizing m with
  | nil => exact List.nodup_nil
  | cons n ns ih =>
    rw [markNew]
    split
    · refine List.nodup_cons.2 ⟨fun hn => ?_, ih⟩
      exact (Marks.isOpen_mark.1 (mem_markNew.1 hn).2).2 rfl
    · exact ih

theorem prefix_reachFrom : reached <+: reachFrom t g seen reached stack := by
  induction seen, reached, stack using reachFrom.induct t g with
  | case1 seen reached => rw [reachFrom]
  | case2 seen reached n stack found ih =>
    rw [reachFrom]
    exact (List.prefix_append reached found.2).trans ih

theorem nodup_reachFrom (hnodup : reached.Nodup) (hmarked : ∀ n ∈ reached, ¬seen.isOpen n = true) :
    (reachFrom t g seen reached stack).Nodup := by
  induction seen, reached, stack using reachFrom.induct t g with
  | case1 seen reached =>
    rw [reachFrom]
    exact hnodup
  | case2 seen reached n stack found ih =>
    rw [reachFrom]
    refine ih (List.nodup_append.2 ⟨hnodup, nodup_markNew, ?_⟩) fun k hk hopen => ?_
    · rintro k hk _ hfound rfl
      exact hmarked k hk (mem_markNew.1 hfound).2
    · obtain ⟨hopen, hnot⟩ := isOpen_markNew.1 hopen
      rcases List.mem_append.1 hk with hk | hk
      · exact hmarked k hk hopen
      · exact hnot (mem_markNew.1 hk).1

theorem nodup_undirectedReach (t : Topology) (g : Gates) (n : Nat) : (undirectedReach t g n).Nodup := by
  refine nodup_reachFrom (List.nodup_singleton n) fun k hk hopen => ?_
  exact (Marks.isOpen_mark.1 hopen).2 (List.mem_singleton.1 hk)

theorem head?_undirectedReach (t : Topology) (g : Gates) (n : Nat) :
    (undirectedReach t g n).head? = some n := by
  have hprefix : [n] <+: undirectedReach t g n := prefix_reachFrom
  obtain ⟨rest, hrest⟩ := hprefix
  rw [← hrest]
  rfl

end marks

/-- Each class has one first member, so there are as many classes as first members. -/
theorem card_firsts {r : Nat → Nat → Prop} {N : Nat} {f : Nat → Finset Nat} (hr : Equivalence r)
    (hf : ∀ n < N, ∀ m, m ∈ f n ↔ r n m) : (firsts r N).card = ((Finset.range N).image f).card := by
  have himage : (Finset.range N).image f = (firsts r N).image f := by
    apply Finset.Subset.antisymm
    · intro c hc
      obtain ⟨n, hn, rfl⟩ := Finset.mem_image.1 hc
      obtain ⟨k, hk, hfirst⟩ := exists_first hr n
      have hmem := first_lt hr hk hfirst (Finset.mem_range.1 hn)
      refine Finset.mem_image.2 ⟨k, hmem, ?_⟩
      ext m
      rw [hf k (mem_firsts.1 hmem).1, hf n (Finset.mem_range.1 hn)]
      exact ⟨hr.trans (hr.symm hk), hr.trans hk⟩
    · refine Finset.image_subset_image fun n hn => ?_
      exact Finset.mem_range.2 (mem_firsts.1 hn).1
  rw [himage, Finset.card_image_of_injOn]
  intro n hn m hm he
  obtain ⟨hn, hfirstn⟩ := mem_firsts.1 hn
  obtain ⟨hm, hfirstm⟩ := mem_firsts.1 hm
  have hnm : r n m := (hf n hn m).1 (he ▸ (hf m hm m).2 (hr.refl m))
  rcases Nat.lt_trichotomy n m with hlt | heq | hgt
  · exact absurd hnm (hfirstm n hlt)
  · exact heq
  · exact absurd (hr.symm hnm) (hfirstn m hgt)

namespace Topology

variable {t t₀ : Topology} {cs : List Rewire} {n m : Nat}

theorem Listed.lt_of_connected {p : Nat → Prop} (h : t.Listed) (hn : n < t.nodes.size)
    (hm : ReflTransGen (t.Joined p) n m) : m < t.nodes.size := by
  cases hm with
  | refl => exact hn
  | tail _ hj => exact h.lt_of_joined hj

/-- However doors and edges have been redirected, the search both ways finds each node once that is
connected to its root, its root first; connected nodes find the same and others nothing in common,
and components are what is found from any node. -/
theorem undirectedReach_exact (h : t₀.finalize = .ok t) (hcs : ∀ c ∈ cs, c.InRange t) (g : Gates) :
    let s := t.rewire cs
    let reach := undirectedReach s g
    (∀ n < s.nodes.size, (reach n).head? = some n ∧ (reach n).Nodup ∧
      (∀ m, m ∈ reach n ↔ ReflTransGen (s.Joined g.MayOpen) n m) ∧
      ∀ m ∈ reach n, m < s.nodes.size) ∧
    (∀ n < s.nodes.size, ∀ m < s.nodes.size, (m ∈ reach n ↔ n ∈ reach m) ∧
      ((reach n).toFinset = (reach m).toFinset ∨ (reach n).Disjoint (reach m))) ∧
    countComponents s g = ((Finset.range s.nodes.size).image fun n => (reach n).toFinset).card := by
  intro s reach
  have hs : s.Listed := (listed_finalize h).rewire hcs |>.1
  have hr : Equivalence (ReflTransGen (s.Joined g.MayOpen)) := equivalence_reach
  have hmem {n m : Nat} : m ∈ reach n ↔ ReflTransGen (s.Joined g.MayOpen) n m :=
    hs.mem_undirectedReach
  refine ⟨fun n hn => ⟨?_, ?_, fun m => hmem, fun m hm => ?_⟩, fun n _ m _ => ⟨?_, ?_⟩, ?_⟩
  · exact head?_undirectedReach s g n
  · exact nodup_undirectedReach s g n
  · exact hs.lt_of_connected hn (hmem.1 hm)
  · exact hmem.trans (Iff.trans ⟨hr.symm, hr.symm⟩ hmem.symm)
  · by_cases hnm : ReflTransGen (s.Joined g.MayOpen) n m
    · left
      ext k
      rw [List.mem_toFinset, List.mem_toFinset, hmem, hmem]
      exact ⟨hr.trans (hr.symm hnm), hr.trans hnm⟩
    · right
      intro k hk hk'
      exact hnm (hr.trans (hmem.1 hk) (hr.symm (hmem.1 hk')))
  · rw [hs.countComponents_eq, classes]
    refine card_firsts hr fun n _ m => ?_
    rw [List.mem_toFinset, hmem]

def walledUp : Gates := ⟨[{ name := "walls", logic := ⟨[(0, [.never]), (5, [.never])]⟩ }]⟩

/-- The back of the house leads to itself and its front into the cellar. -/
theorem undirectedReach_exact_homestead :
    let cs : List Rewire := [.retarget 3 1, .retarget 2 5]
    let s := homestead.rewire cs
    homestead.finalize = .ok homestead ∧ (∀ c ∈ cs, c.InRange homestead) ∧
      undirectedReach s walledUp 1 = [1] ∧ ReflTransGen (s.Joined walledUp.MayOpen) 3 4 ∧
      3 ∈ undirectedReach s walledUp 4 ∧
      (undirectedReach s walledUp 1).Disjoint (undirectedReach s walledUp 4) ∧
      countComponents s walledUp = 2 := by
  intro cs s
  have hfinal : homestead.finalize = .ok homestead := by cbv
  have hrange : ∀ c ∈ cs, c.InRange homestead := by simp [cs, Rewire.InRange, homestead]
  have hback : undirectedReach s walledUp 1 = [1] := by cbv
  have hhatch : undirectedReach s walledUp 3 = [3, 2, 0, 5, 4] := by cbv
  have hsize : s.nodes.size = 6 := by cbv
  have hlt {n : Nat} (hn : n < 6) : n < s.nodes.size := hsize ▸ hn
  obtain ⟨heach, htwo, -⟩ := undirectedReach_exact hfinal hrange walledUp
  have htrap : 4 ∈ undirectedReach s walledUp 3 := by
    rw [hhatch]
    decide
  have hapart : (undirectedReach s walledUp 1).Disjoint (undirectedReach s walledUp 4) := by
    refine (htwo 1 (hlt (by decide)) 4 (hlt (by decide))).2.resolve_left fun hsame => ?_
    have hself : 4 ∈ undirectedReach s walledUp 1 := by
      rw [← List.mem_toFinset, hsame, List.mem_toFinset]
      exact ((heach 4 (hlt (by decide))).2.2.1 4).2 .refl
    rw [hback] at hself
    exact absurd hself (by decide)
  exact ⟨hfinal, hrange, hback, ((heach 3 (hlt (by decide))).2.2.1 4).1 htrap,
    (htwo 3 (hlt (by decide)) 4 (hlt (by decide))).1.1 htrap, hapart, by cbv⟩

end Topology

end WorldShuffle

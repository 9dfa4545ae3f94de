import Mathlib.Data.Multiset.AddSub
import WorldShuffle.Proofs.Insertion

namespace WorldShuffle

variable {cs ds out out' : List Clause} {l : Layer} {g g' : Gates} {e : Nat}

/-- Alternatives whose order and whose order of conditions is left open. -/
def unordered (cs : List Clause) : Multiset (Multiset Condition) :=
  (cs.map fun c => (c.conditions : Multiset Condition) : List (Multiset Condition))

theorem unordered_append (cs ds : List Clause) :
    unordered (cs ++ ds) = unordered cs + unordered ds := by
  rw [unordered, List.map_append, ← Multiset.coe_add]
  rfl

theorem mem_unordered {m : Multiset Condition} :
    m ∈ unordered cs ↔ ∃ c ∈ cs, (c.conditions : Multiset Condition) = m := by
  rw [unordered, Multiset.mem_coe, List.mem_map]

theorem nodup_unordered (h : normalizeAlternatives cs = .ok out) : (unordered out).Nodup := by
  obtain ⟨-, -, -, hpair⟩ := foldlM_addAlternative h
  rw [unordered, Multiset.coe_nodup, List.Nodup, List.pairwise_map]
  refine (hpair List.Pairwise.nil).imp fun {c d} hsame heq => ?_
  exact not_perm_of_sameConditions hsame (Multiset.coe_eq_coe.1 heq)

theorem mem_unordered_normalized (h : normalizeAlternatives cs = .ok out) {m : Multiset Condition} :
    m ∈ unordered out ↔ ∃ c ∈ cs, ∃ c₁, c.normalize = .ok c₁ ∧
      (cs.any (!·.isNever) && c₁.isNever) = false ∧ (c₁.conditions : Multiset Condition) = m := by
  obtain ⟨hfrom, -, hall, -⟩ := foldlM_addAlternative h
  rw [mem_unordered]
  constructor
  · rintro ⟨c', hc', rfl⟩
    obtain ⟨c, hc, hn, hp⟩ := (hfrom c' hc').resolve_left List.not_mem_nil
    exact ⟨c, hc, c', hn, hp, rfl⟩
  · rintro ⟨c, hc, c₁, hn, hp, rfl⟩
    obtain ⟨c₂, hn', hkept⟩ := hall c hc
    obtain rfl := Except.ok.inj (hn.symm.trans hn')
    rw [hp] at hkept
    obtain ⟨c', hc', hsame⟩ := hkept.resolve_left Bool.false_ne_true
    exact ⟨c', hc', Multiset.coe_eq_coe.2 (List.isPerm_iff.1 hsame).symm⟩

/-- Which of several equal alternatives comes first decides on the order of its conditions only. -/
theorem unordered_of_perm (hperm : cs.Perm ds) (h : normalizeAlternatives cs = .ok out)
    (h' : normalizeAlternatives ds = .ok out') : unordered out = unordered out' := by
  rw [Multiset.Nodup.ext (nodup_unordered h) (nodup_unordered h')]
  intro m
  rw [mem_unordered_normalized h, mem_unordered_normalized h', hperm.any_eq]
  simp only [hperm.mem_iff]

theorem any_of_unordered {p : Clause → Bool}
    (hp : ∀ c d : Clause, c.conditions.Perm d.conditions → p c = true → p d = true)
    (h : unordered cs = unordered ds) : cs.any p = ds.any p := by
  have hsub {cs ds : List Clause} (h : unordered cs = unordered ds) (hany : cs.any p = true) :
      ds.any p = true := by
    obtain ⟨c, hc, hpc⟩ := List.any_eq_true.1 hany
    obtain ⟨d, hd, heq⟩ := mem_unordered.1 (h ▸ mem_unordered.2 ⟨c, hc, rfl⟩)
    exact List.any_eq_true.2 ⟨d, hd, hp c d (Multiset.coe_eq_coe.1 heq).symm hpc⟩
  exact Bool.eq_iff_iff.2 ⟨hsub h, hsub h.symm⟩

theorem isEmpty_of_unordered (h : unordered cs = unordered ds) : cs.isEmpty = ds.isEmpty := by
  have hlength := congrArg Multiset.card h
  rw [unordered, unordered, Multiset.coe_card, Multiset.coe_card, List.length_map,
    List.length_map] at hlength
  rw [Bool.eq_iff_iff, List.isEmpty_iff_length_eq_zero, List.isEmpty_iff_length_eq_zero, hlength]

namespace Gates

theorem canTraverse_of_unordered (h : unordered (g.alternatives e) = unordered (g'.alternatives e))
    (s : States) : g.canTraverse e s = g'.canTraverse e s := by
  rw [canTraverse, canTraverse, isEmpty_of_unordered h]
  rw [any_of_unordered (fun c d hcd hc => Clause.holds_perm hcd s ▸ hc) h]

theorem isFalse_of_unordered (h : unordered (g.alternatives e) = unordered (g'.alternatives e)) :
    g.isFalse e = g'.isFalse e := by
  rw [isFalse, isFalse, isEmpty_of_unordered h, List.all_eq_not_any_not, List.all_eq_not_any_not]
  rw [any_of_unordered (fun c d hcd hc => Clause.isNever_perm hcd ▸ hc) h]

theorem unordered_alternatives {l l' : Layer} (h : unordered (l.get e) = unordered (l'.get e))
    (before after : List Layer) : unordered ((mk (before ++ l :: after)).alternatives e) =
      unordered ((mk (before ++ l' :: after)).alternatives e) := by
  simp only [alternatives, List.flatMap_append, List.flatMap_cons, unordered_append, h]

end Gates

structure Insertion where
  scene : SceneId
  edge : Nat
  alternatives : List Clause

def insertedFor (is : List Insertion) (e : Nat) : List Clause :=
  (is.filter (·.edge = e)).flatMap (·.alternatives)

theorem insertedFor_cons (i : Insertion) (is : List Insertion) (e : Nat) :
    insertedFor (i :: is) e = if i.edge = e then i.alternatives ++ insertedFor is e
      else insertedFor is e := by
  by_cases h : i.edge = e
  · simp [insertedFor, h]
  · simp [insertedFor, h]

theorem insertedFor_append (is js : List Insertion) (e : Nat) :
    insertedFor (is ++ js) e = insertedFor is e ++ insertedFor js e := by
  rw [insertedFor, List.filter_append, List.flatMap_append]
  rfl

theorem insertedFor_perm {is js : List Insertion} (h : is.Perm js) (e : Nat) :
    (insertedFor is e).Perm (insertedFor js e) := (h.filter _).flatMap_right _

namespace Layer

def insertEach (l : Layer) (is : List Insertion) : Layer :=
  is.foldl (fun l i => (l.insert i.scene i.edge i.alternatives).1) l

theorem get_insert_of_ne (l : Layer) (scene : SceneId) {e' : Nat} (h : e' ≠ e) (cs : List Clause) :
    (l.insert scene e cs).1.get e' = l.get e' := by
  obtain ⟨out, hlogic, -⟩ := l.logic_insert scene e cs
  rw [get, hlogic, Table.get?_set, if_neg h]
  rfl

/-- An edge always has what all the alternatives inserted for it so far are normalized to. -/
theorem get_insertEach {is : List Insertion} (hl : normalizeAlternatives cs = .ok (l.get e))
    (h : ∀ c ∈ cs ++ insertedFor is e, ∃ c', c.normalize = .ok c') :
    normalizeAlternatives (cs ++ insertedFor is e) = .ok ((l.insertEach is).get e) := by
  induction is generalizing l cs with
  | nil => exact (List.append_nil cs).symm ▸ hl
  | cons i is ih =>
    rw [insertedFor_cons] at h ⊢
    by_cases he : i.edge = e
    · subst he
      rw [if_pos rfl, ← List.append_assoc] at h ⊢
      obtain ⟨out, hout⟩ :=
        exists_normalizeAlternatives.2 fun c hc => h c (List.mem_append_left _ hc)
      have hinsert : l.insert i.scene i.edge i.alternatives = (l.put i.scene i.edge out, none) :=
        insert_ok ((normalizeAlternatives_append hl _).trans hout)
      refine ih ?_ h
      dsimp only
      rw [hinsert, get_put, if_pos rfl]
      exact hout
    · rw [if_neg he] at h ⊢
      refine ih ?_ h
      rw [get_insert_of_ne l i.scene (Ne.symm he)]
      exact hl

theorem get_insertEach_empty (name : String) {is : List Insertion}
    (h : ∀ c ∈ insertedFor is e, ∃ c', c.normalize = .ok c') :
    normalizeAlternatives (insertedFor is e) = .ok ((insertEach { name } is).get e) := by
  have hnone : normalizeAlternatives [] = .ok (({ name } : Layer).get e) := rfl
  exact get_insertEach hnone h

/-- No call for an edge fails unless one of the alternatives does by itself. -/
theorem insert_insertEach (name : String) {is js : List Insertion} {i : Insertion}
    (h : ∀ c ∈ insertedFor (is ++ i :: js) i.edge, ∃ c', c.normalize = .ok c') :
    ((insertEach { name } is).insert i.scene i.edge i.alternatives).2 = none := by
  rw [insertedFor_append, insertedFor_cons, if_pos rfl, ← List.append_assoc] at h
  have hthere := get_insertEach_empty name fun c hc =>
    h c (List.mem_append_left _ (List.mem_append_left _ hc))
  obtain ⟨out, hout⟩ :=
    exists_normalizeAlternatives.2 fun c hc => h c (List.mem_append_left _ hc)
  rw [insert_ok ((normalizeAlternatives_append hthere _).trans hout)]

end Layer

/-- Alternatives may be inserted in any portions. What a portion is normalized to is normalized, is
empty only if the portion is, and stands for the portion whatever is added to it. So an edge has
what all the alternatives inserted for it are normalized to at once; and calls in another order make
the same of it up to the order of alternatives and of conditions, so that the edge is open to the
same states, and is `false` or not, as before. -/
theorem portions_exact {a : List Clause} (ha : ∀ c ∈ a, ∃ c', c.normalize = .ok c') :
    (∃ out, normalizeAlternatives a = .ok out ∧ normalizeAlternatives out = .ok out ∧
      (a ≠ [] → out ≠ []) ∧
      ∀ b, normalizeAlternatives (out ++ b) = normalizeAlternatives (a ++ b)) ∧
    ∀ (name : String) (is : List Insertion) (e : Nat), insertedFor is e = a →
      let l := ({ name } : Layer).insertEach is
      normalizeAlternatives a = .ok (l.get e) ∧
      (∀ before i after, is = before ++ i :: after → i.edge = e →
        ((({ name } : Layer).insertEach before).insert i.scene e i.alternatives).2 = none) ∧
      ∀ is', is.Perm is' →
        let l' := ({ name } : Layer).insertEach is'
        unordered (l.get e) = unordered (l'.get e) ∧
        ∀ before after, let g : Gates := ⟨before ++ l :: after⟩
          let g' : Gates := ⟨before ++ l' :: after⟩
          (∀ s, g.canTraverse e s = g'.canTraverse e s) ∧ g.isFalse e = g'.isFalse e := by
  constructor
  · obtain ⟨out, hout⟩ := exists_normalizeAlternatives.2 ha
    exact ⟨out, hout, normalizeAlternatives_again hout, normalizeAlternatives_ne_nil hout,
      normalizeAlternatives_append hout⟩
  · rintro name is e rfl
    refine ⟨Layer.get_insertEach_empty name ha, ?_, fun is' hperm => ?_⟩
    · rintro before i after rfl rfl
      exact Layer.insert_insertEach name ha
    · have hinserted := insertedFor_perm hperm e
      have hsame := unordered_of_perm hinserted (Layer.get_insertEach_empty name ha)
        (Layer.get_insertEach_empty name fun c hc => ha c (hinserted.mem_iff.2 hc))
      refine ⟨hsame, fun before after => ⟨fun s => ?_, ?_⟩⟩
      · exact Gates.canTraverse_of_unordered (Gates.unordered_alternatives hsame before after) s
      · exact Gates.isFalse_of_unordered (Gates.unordered_alternatives hsame before after)

def lockPortions : List Insertion :=
  [⟨0, 4, [.never]⟩, ⟨0, 4, [⟨[⟨"Key", 1⟩, ⟨"Bow", 1⟩]⟩]⟩, ⟨1, 5, [.never]⟩, ⟨0, 4, []⟩,
    ⟨0, 4, [⟨[⟨"Bow", 1⟩, ⟨"Key", 1⟩]⟩, ⟨[⟨"Coin", 2⟩, ⟨"Coin", 3⟩]⟩]⟩]

theorem portions_exact_locks :
    let l := ({ name := "locks" } : Layer).insertEach lockPortions
    let l' := ({ name := "locks" } : Layer).insertEach lockPortions.reverse
    (∀ c ∈ insertedFor lockPortions 4, ∃ c', c.normalize = .ok c') ∧
      normalizeAlternatives (insertedFor lockPortions 4) = .ok (l.get 4) ∧
      l.get 4 = [⟨[⟨"Key", 1⟩, ⟨"Bow", 1⟩]⟩, .single "Coin" 5] ∧
      l'.get 4 = [⟨[⟨"Bow", 1⟩, ⟨"Key", 1⟩]⟩, .single "Coin" 5] ∧
      unordered (l.get 4) = unordered (l'.get 4) := by
  intro l l'
  have hkeys : normalizeAlternatives (insertedFor lockPortions 4) =
      .ok [⟨[⟨"Key", 1⟩, ⟨"Bow", 1⟩]⟩, .single "Coin" 5] := by cbv
  have hkeys' : normalizeAlternatives (insertedFor lockPortions.reverse 4) =
      .ok [⟨[⟨"Bow", 1⟩, ⟨"Key", 1⟩]⟩, .single "Coin" 5] := by cbv
  have hnormalize := exists_normalizeAlternatives.1 ⟨_, hkeys⟩
  have hnormalize' := exists_normalizeAlternatives.1 ⟨_, hkeys'⟩
  obtain ⟨hget, -, hperm⟩ := (portions_exact hnormalize).2 "locks" lockPortions 4 rfl
  obtain ⟨hget', -⟩ := (portions_exact hnormalize').2 "locks" lockPortions.reverse 4 rfl
  obtain ⟨hsame, -⟩ := hperm lockPortions.reverse (List.reverse_perm _).symm
  exact ⟨hnormalize, hget, Except.ok.inj (hget.symm.trans hkeys),
    Except.ok.inj (hget'.symm.trans hkeys'), hsame⟩

end WorldShuffle

import Mathlib.Data.List.Flatten
import Mathlib.Data.List.Forall2
import Mathlib.Data.List.MinMax
import Mathlib.Data.List.Nodup
import Mathlib.Data.List.Perm.Subperm

namespace List

variable {α β : Type}

theorem Subperm.flatMap_right {xs ys : List α} (h : xs.Subperm ys) (f : α → List β) :
    (xs.flatMap f).Subperm (ys.flatMap f) := by
  obtain ⟨zs, hp, hs⟩ := h
  exact ⟨zs.flatMap f, hp.flatMap_right f, hs.flatMap f⟩

theorem forall_mem_intercalate {P : β → Prop} {sep : List β} {f : α → List β} {xs : List α}
    (hsep : ∀ y ∈ sep, P y) (hxs : ∀ x ∈ xs, ∀ y ∈ f x, P y) :
    ∀ y ∈ sep.intercalate (xs.map f), P y := by
  induction xs with
  | nil => exact nofun
  | cons x xs ih =>
    obtain ⟨hx, hxs⟩ := forall_mem_cons.1 hxs
    cases xs with
    | nil =>
      rw [map_singleton, intercalate_singleton]
      exact hx
    | cons x' xs =>
      rw [map_cons, map_cons, intercalate_cons_cons, ← map_cons]
      intro y hy
      rcases mem_append.1 hy with hy | hy
      · exact (mem_append.1 hy).elim (hx y) (hsep y)
      · exact ih hxs y hy

theorem findIdx?_append_cons {p : α → Bool} {xs : List α} {x : α} (ys : List α)
    (h : ∀ y ∈ xs, p y = false) (hx : p x = true) :
    (xs ++ x :: ys).findIdx? p = some xs.length := by
  rw [findIdx?_append, findIdx?_eq_none_iff.2 h, findIdx?_cons, if_pos hx, Option.none_or,
    Option.map_some, Nat.zero_add]

theorem append_cons_of_findIdx? {p : α → Bool} {xs : List α} {i : Nat}
    (h : xs.findIdx? p = some i) :
    ∃ as x bs, xs = as ++ x :: bs ∧ as.length = i ∧ p x = true ∧ ∀ y ∈ as, p y = false := by
  obtain ⟨hi, hx, hbefore⟩ := findIdx?_eq_some_iff_getElem.1 h
  refine ⟨xs.take i, xs[i], xs.drop (i + 1), ?_, length_take_of_le hi.le, hx, fun y hy => ?_⟩
  · rw [← drop_eq_getElem_cons hi, take_append_drop]
  · obtain ⟨j, hj, rfl⟩ := mem_iff_getElem.1 hy
    rw [getElem_take]
    exact Bool.eq_false_iff.2 (hbefore j (length_take_of_le hi.le ▸ hj))

section related

variable {R : α → β → Prop} {xs : List α} {ys : List β}

theorem exists_of_forall₂ (h : Forall₂ R xs ys) {y : β} (hy : y ∈ ys) : ∃ x ∈ xs, R x y := by
  induction h with
  | nil => cases hy
  | cons hxy _ ih =>
    rcases mem_cons.1 hy with rfl | hy
    · exact ⟨_, mem_cons_self, hxy⟩
    · obtain ⟨x, hx, hr⟩ := ih hy
      exact ⟨x, mem_cons_of_mem _ hx, hr⟩

theorem find?_related {p : α → Bool} {q : β → Bool} (h : Forall₂ R xs ys)
    (hpq : ∀ x y, R x y → p x = q y) : Option.Rel R (xs.find? p) (ys.find? q) := by
  induction h with
  | nil => exact .none
  | cons hxy _ ih =>
    rw [find?_cons, find?_cons, hpq _ _ hxy]
    split
    · exact .some hxy
    · exact ih

end related

/-- The first of the least entries stands before no smaller one and behind greater ones. -/
theorem exists_split_of_argmin [LinearOrder β] {f : α → β} {xs : List α} {x : α}
    (h : xs.argmin f = some x) : ∃ before after, xs = before ++ x :: after ∧
      (∀ y ∈ before, f x < f y) ∧ ∀ y ∈ after, f x ≤ f y := by
  induction xs with
  | nil => cases h
  | cons y ys ih =>
    rw [argmin_cons] at h
    cases hys : ys.argmin f with
    | none =>
      rw [hys] at h
      obtain rfl := Option.some.inj h
      rw [argmin_eq_none.1 hys]
      exact ⟨[], [], rfl, nofun, nofun⟩
    | some z =>
      rw [hys] at h
      by_cases hlt : f z < f y
      · obtain rfl : z = x := by simpa [hlt] using h
        obtain ⟨before, after, rfl, hbefore, hafter⟩ := ih hys
        exact ⟨y :: before, after, rfl, forall_mem_cons.2 ⟨hlt, hbefore⟩, hafter⟩
      · obtain rfl : y = x := by simpa [hlt] using h
        exact ⟨[], ys, rfl, nofun, fun w hw => (le_of_not_gt hlt).trans (le_of_mem_argmin hw hys)⟩

end List

namespace Array

variable {α : Type}

theorem getElem?_foldl_setIfInBounds (is : List Nat) (xs : Array α) (x : α) (j : Nat) :
    (is.foldl (·.setIfInBounds · x) xs)[j]? = if j ∈ is ∧ j < xs.size then some x else xs[j]? := by
  induction is generalizing xs with
  | nil => simp
  | cons i is ih =>
    rw [List.foldl_cons, ih, size_setIfInBounds, getElem?_setIfInBounds]
    by_cases hj : i = j
    · subst hj
      by_cases hi : i < xs.size <;> simp [hi]
    · simp [hj, Ne.symm hj]

theorem getElem?_foldl_modify {f : α → α} {is : List Nat} (his : is.Nodup) (xs : Array α) (j : Nat) :
    (is.foldl (fun xs i => xs.modify i f) xs)[j]? = if j ∈ is then xs[j]?.map f else xs[j]? := by
  induction is generalizing xs with
  | nil => rfl
  | cons i is ih =>
    obtain ⟨hi, his⟩ := List.nodup_cons.1 his
    rw [List.foldl_cons, ih his, getElem?_modify]
    by_cases hj : i = j
    · subst hj
      rw [if_neg hi, if_pos rfl, if_pos List.mem_cons_self]
    · simp only [hj, if_false, List.mem_cons, Ne.symm hj, false_or]

theorem size_foldl_modify (f : α → α) (is : List Nat) (xs : Array α) :
    (is.foldl (fun xs i => xs.modify i f) xs).size = xs.size := by
  induction is generalizing xs with
  | nil => rfl
  | cons i is ih => rw [List.foldl_cons, ih, size_modify]

end Array

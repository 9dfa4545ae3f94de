import Mathlib.Data.List.Nodup
import WorldShuffle.Table

namespace WorldShuffle

namespace Table

variable {κ α : Type} [DecidableEq κ] {t : Table κ α} {k : κ} {a : α} {es : List (κ × α)}

theorem has_set (t : Table κ α) (k q : κ) (a : α) :
    (t.set k a).has q = (decide (q = k) || t.has q) := by
  by_cases h : q = k <;> simp [has, h]

theorem lookup_eq_none (h : k ∉ es.map Prod.fst) : es.lookup k = none := by
  rw [List.lookup_eq_none_iff]
  intro e he
  rw [bne_iff_ne]
  rintro rfl
  exact h (List.mem_map_of_mem he)

theorem lookup_eq_some (hn : (es.map Prod.fst).Nodup) (h : (k, a) ∈ es) :
    es.lookup k = some a := by
  induction es with
  | nil => simp at h
  | cons e es ih =>
    rw [List.map_cons, List.nodup_cons] at hn
    rcases List.mem_cons.1 h with rfl | h
    · exact List.lookup_cons_self
    · have hne : (k == e.1) = false := by
        simp only [beq_eq_false_iff_ne]
        rintro rfl
        exact hn.1 (List.mem_map.2 ⟨_, h, rfl⟩)
      rw [List.lookup_cons, hne]
      exact ih hn.2 h

theorem mem_of_lookup (h : es.lookup k = some a) : (k, a) ∈ es := by
  induction es with
  | nil => cases h
  | cons e es ih =>
    rw [List.lookup_cons] at h
    split at h
    · rename_i heq
      obtain rfl := Option.some.inj h
      rw [eq_of_beq heq]
      exact List.mem_cons_self
    · exact List.mem_cons_of_mem e (ih h)

theorem has_iff : t.has k = true ↔ k ∈ t.keys := by
  rw [has, get?, keys]
  constructor
  · intro h
    obtain ⟨a, ha⟩ := Option.isSome_iff_exists.1 h
    exact List.mem_map_of_mem (mem_of_lookup ha)
  · intro h
    cases hl : t.entries.lookup k with
    | some a => rfl
    | none =>
      obtain ⟨⟨k', a⟩, he, rfl⟩ := List.mem_map.1 h
      have hne := List.lookup_eq_none_iff.1 hl (k', a) he
      simp at hne

theorem putEntry_new (a : α) (h : k ∉ es.map Prod.fst) : putEntry k a es = es ++ [(k, a)] := by
  induction es with
  | nil => rfl
  | cons e es ih =>
    simp only [List.map_cons, List.mem_cons, not_or] at h
    rw [putEntry, if_neg (Ne.symm h.1), ih h.2]
    rfl

theorem keys_putEntry_of_mem (a : α) (h : k ∈ es.map Prod.fst) :
    (putEntry k a es).map Prod.fst = es.map Prod.fst := by
  induction es with
  | nil => cases h
  | cons e es ih =>
    rw [putEntry]
    split
    · rename_i hk
      rw [List.map_cons, List.map_cons, hk]
    · rename_i hk
      rw [List.map_cons, List.map_cons, ih ((List.mem_cons.1 h).resolve_left (Ne.symm hk))]

theorem nodup_keys_set (h : t.keys.Nodup) : (t.set k a).keys.Nodup := by
  by_cases hk : k ∈ t.keys
  · have hsame : (t.set k a).keys = t.keys := keys_putEntry_of_mem a hk
    rwa [hsame]
  · have hnew : (t.set k a).keys = t.keys ++ [k] := by
      rw [keys, set, putEntry_new a hk, List.map_append]
      rfl
    rw [hnew]
    exact List.nodup_append_comm.2 (List.nodup_cons.2 ⟨hk, h⟩)

end Table

end WorldShuffle

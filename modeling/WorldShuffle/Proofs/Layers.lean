import WorldShuffle.Logic.Layer
import WorldShuffle.Proofs.Alternatives
import WorldShuffle.Proofs.Tables

namespace WorldShuffle

namespace Layer

variable {l : Layer} {scene : SceneId} {e : Nat} {cs out : List Clause}
  {es : List Nat}

theorem get_eq_nil (h : l.logic.has e = false) : l.get e = [] := by
  rw [Table.has, Option.isSome_eq_false_iff, Option.isNone_iff_eq_none] at h
  rw [get, h, Option.getD_none]

def Tidy (l : Layer) : Prop := ∀ e cs, l.logic.get? e = some cs → WorldShuffle.Tidy cs

theorem tidy_empty (name : String) : Tidy { name } := nofun

theorem Tidy.normal (h : l.Tidy) {c : Clause} (hc : c ∈ l.get e) : c.Normal := by
  rw [get] at hc
  cases hget : l.logic.get? e with
  | none =>
    rw [hget] at hc
    cases hc
  | some cs =>
    rw [hget] at hc
    exact (h e cs hget).normal c hc

theorem Tidy.normal_append (h : l.Tidy) (hcs : WorldShuffle.Tidy cs) :
    ∀ c ∈ l.get e ++ cs, c.Normal :=
  fun c hc => (List.mem_append.1 hc).elim h.normal (hcs.normal c)

def put (l : Layer) (scene : SceneId) (e : Nat) (cs : List Clause) : Layer :=
  { l.file scene e with logic := l.logic.set e cs }

theorem get_put (l : Layer) (scene : SceneId) (e e' : Nat) (cs : List Clause) :
    (l.put scene e cs).get e' = if e' = e then cs else l.get e' := by
  rw [get, put, Table.get?_set]
  split <;> rfl

theorem Tidy.put (h : l.Tidy) (hcs : WorldShuffle.Tidy cs) : (l.put scene e cs).Tidy := by
  intro e' cs' hget
  rw [Layer.put, Table.get?_set] at hget
  split at hget
  · exact Option.some.inj hget ▸ hcs
  · exact h e' cs' hget

theorem insert_ok (h : normalizeAlternatives (l.get e ++ cs) = .ok out) :
    l.insert scene e cs = (l.put scene e out, none) := by
  rw [insert, h]
  rfl

/-- Normal alternatives are not merged with one another, so that no count runs over. -/
theorem Tidy.insert (h : l.Tidy) (hcs : WorldShuffle.Tidy cs) (scene : SceneId) (e : Nat) :
    ∃ cs', WorldShuffle.Tidy cs' ∧ normalizeAlternatives (l.get e ++ cs) = .ok cs' ∧
      l.insert scene e cs = (l.put scene e cs', none) := by
  have hnormal := h.normal_append hcs (e := e)
  obtain ⟨cs', hout⟩ := normalizeAlternatives_nodup fun c hc => (hnormal c hc).nodup
  exact ⟨cs', tidy_normalized (List.append_ne_nil_of_right_ne_nil _ hcs.ne_nil)
    (fun c hc => (hnormal c hc).plain) hout, hout, insert_ok hout⟩

theorem Tidy.insertAll {P : Layer → Prop} (h : l.Tidy) (hcs : WorldShuffle.Tidy cs)
    (hP : ∀ l e cs, e ∈ es → P l → P (l.put scene e cs)) (hl : P l) :
    ∃ l', insertAll scene cs es l = (l', none) ∧ l'.Tidy ∧ P l' := by
  induction es generalizing l with
  | nil => exact ⟨l, rfl, h, hl⟩
  | cons e es ih =>
    obtain ⟨cs', hcs', -, hinsert⟩ := h.insert hcs scene e
    rw [Layer.insertAll, hinsert]
    exact ih (h.put hcs') (fun l e' cs he' => hP l e' cs (List.mem_cons_of_mem e he'))
      (hP l e cs' List.mem_cons_self hl)

end Layer

end WorldShuffle

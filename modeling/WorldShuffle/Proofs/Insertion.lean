import WorldShuffle.Proofs.Grants
import WorldShuffle.Proofs.Layers

namespace WorldShuffle

variable {l : Layer} {g : Gates} {c c' : Clause} {s s' : States} {q : String} {n : UInt32} {e : Nat}

namespace Clause

structure Merged (c : Clause) : Prop where
  plain : c.Plain
  nodup : c.names.Nodup

theorem merged_normalize (h : c.normalize = .ok c') : c'.Merged :=
  ⟨(normal_normalize h).plain, (normal_normalize h).nodup⟩

theorem names_missing_sublist (c : Clause) (s : States) :
    ((c.missing s).map Condition.state).Sublist c.names := by
  rw [missing, names]
  induction c.conditions with
  | nil => exact List.Sublist.refl _
  | cons d ds ih =>
    rw [List.filterMap_cons]
    dsimp only
    split
    · exact ih.cons d.state
    · rename_i m hm
      split at hm
      · cases hm
      · obtain rfl := Option.some.inj hm
        exact ih.cons_cons d.state

/-- A clause comes to hold once what was missing of it has been added. -/
theorem holds_of_supplied (hc : c.isNever = false) (hs : s.Below s')
    (h : ∀ m ∈ c.missing s, min ((s.count m.state).toNat + m.count.toNat) 0xffffffff ≤
      (s'.count m.state).toNat) : c.holds s' = true := by
  simp only [holds, hc, Bool.not_false, Bool.true_and, List.all_eq_true, decide_eq_true_eq]
  intro d hd
  by_cases hheld : d.count ≤ s.count d.state
  · exact UInt32.le_trans hheld (hs d.state)
  · have hm : ⟨d.state, d.count - s.count d.state⟩ ∈ c.missing s :=
      List.mem_filterMap.2 ⟨d, hd, if_neg hheld⟩
    have hsupplied := h _ hm
    have hlt := d.count.toNat_lt
    rw [UInt32.le_iff_toNat_le] at hheld ⊢
    rw [UInt32.toNat_sub_of_le _ _ (UInt32.le_iff_toNat_le.2 (by omega))] at hsupplied
    dsimp only at hsupplied
    omega

end Clause

/-- A layer that insertions have made, some of which may have run over. -/
inductive Layer.Inserted : Layer → Prop
  | empty (name : String) : Inserted { name }
  | insert {l : Layer} (h : Inserted l) (scene : SceneId) (e : Nat) (cs : List Clause) :
      Inserted (l.insert scene e cs).1

theorem Layer.logic_insert (l : Layer) (scene : SceneId) (e : Nat) (cs : List Clause) :
    ∃ out, (l.insert scene e cs).1.logic = l.logic.set e out ∧
      (out = [] ∨ normalizeAlternatives (l.get e ++ cs) = .ok out) := by
  rw [insert]
  cases h : normalizeAlternatives (l.get e ++ cs) with
  | ok out => exact ⟨out, rfl, Or.inr rfl⟩
  | error overflow => exact ⟨[], rfl, Or.inl rfl⟩

theorem merged_of_mem_normalized {cs out : List Clause} (h : normalizeAlternatives cs = .ok out)
    (hc : c ∈ out) : c.Merged := by
  obtain ⟨hfrom, -⟩ := foldlM_addAlternative h
  obtain ⟨d, -, hd, -⟩ := (hfrom c hc).resolve_left List.not_mem_nil
  exact Clause.merged_normalize hd

theorem Layer.Inserted.merged (h : l.Inserted) (e : Nat) : ∀ c ∈ l.get e, c.Merged := by
  induction h with
  | empty name => simp [Layer.get, Table.get?]
  | @insert l h scene e' cs ih =>
    obtain ⟨out, hlogic, hout⟩ := l.logic_insert scene e' cs
    intro c hc
    rw [Layer.get, hlogic, Table.get?_set] at hc
    split at hc
    · rcases hout with rfl | hout
      · exact absurd hc List.not_mem_nil
      · exact merged_of_mem_normalized hout hc
    · exact ih c hc

def Gates.Inserted (g : Gates) : Prop := ∀ l ∈ g.layers, l.Inserted

theorem Gates.Inserted.merged (h : g.Inserted) (hc : c ∈ g.alternatives e) : c.Merged := by
  obtain ⟨l, hl, hc⟩ := List.mem_flatMap.1 hc
  exact (h l hl).merged e c hc

/-- What is missing at an edge is one condition for each of its states, on nothing that always holds. -/
theorem Gates.Inserted.missing? (h : g.Inserted) {ms : List Condition}
    (hm : g.missing? e s = some ms) :
    (ms.map Condition.state).Nodup ∧ trueState ∉ ms.map Condition.state := by
  rcases Gates.missing?_mem hm with rfl | ⟨c, hc, rfl⟩
  · simp
  · have hmerged := h.merged (Gates.mem_possible.1 hc).1
    have hsub := c.names_missing_sublist s
    exact ⟨hmerged.nodup.sublist hsub, fun ht => hmerged.plain (hsub.subset ht)⟩

theorem Gates.canTraverse_of_supplied {ms : List Condition} (hm : g.missing? e s = some ms)
    (hs : s.Below s') (h : ∀ m ∈ ms, min ((s.count m.state).toNat + m.count.toNat) 0xffffffff ≤
      (s'.count m.state).toNat) : g.canTraverse e s' = true := by
  rw [Gates.missing?_eq] at hm
  rw [Gates.canTraverse, Bool.or_eq_true]
  split at hm
  · exact Or.inl ‹_›
  · obtain ⟨c, hc, rfl⟩ := Option.map_eq_some_iff.1 hm
    obtain ⟨hmem, hnever⟩ := Gates.mem_possible.1 (Gates.mem_of_nearest? hc)
    exact Or.inr (List.any_eq_true.2 ⟨c, hmem, Clause.holds_of_supplied hnever hs h⟩)

def insertedLock : Gates := ⟨[(({ name := "locks" } : Layer).insert 0 0 [.single "Key" 1]).1]⟩

theorem inserted_insertedLock : insertedLock.Inserted :=
  List.forall_mem_singleton.2 ((Layer.Inserted.empty "locks").insert 0 0 [.single "Key" 1])

end WorldShuffle

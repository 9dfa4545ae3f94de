import WorldShuffle.Proofs.CompiledLayers
import WorldShuffle.Proofs.Insertion

namespace WorldShuffle

variable {c c' : Clause} {cs : List Clause} {ds : List Condition} {q state : String} {n : UInt32}
  {o : CountOverflow}

theorem size_le_of_addCount? {a b : UInt32} (h : addCount? a b = none) :
    UInt32.size ≤ a.toNat + b.toNat := by
  rw [addCount?] at h
  split at h
  · cases h
  · exact Nat.le_of_not_lt ‹_›

theorem mergeCondition_eq_error (h : mergeCondition state n ds = .error o) :
    o.state = state ∧ UInt32.size ≤ wanted ds state + n.toNat := by
  induction ds with
  | nil => cases h
  | cons d ds ih =>
    rw [mergeCondition] at h
    rw [wanted_cons]
    split at h
    · rename_i hd
      subst hd
      split at h
      · cases h
      · rename_i hsum
        obtain rfl := Except.error.inj h
        refine ⟨rfl, (size_le_of_addCount? hsum).trans ?_⟩
        rw [if_pos rfl]
        omega
    · rename_i hd
      rw [if_neg (Ne.symm hd), Nat.zero_add]
      exact ih (map_eq_error h)

namespace Clause

structure Overflows (c : Clause) (q : String) : Prop where
  possible : c.isNever = false
  counted : q ≠ trueState
  exceeds : UInt32.size ≤ c.wants q

theorem wants_lt (h : c.names.Nodup) (q : String) : c.wants q < UInt32.size := by
  by_cases hq : q ∈ c.names
  · obtain ⟨d, hd, rfl⟩ := List.mem_map.1 hq
    rw [wants, wanted_eq_count h hd]
    exact d.count.toNat_lt
  · rw [wants, wanted_eq_zero hq]
    decide

theorem not_overflows (h : c.names.Nodup) : ¬c.Overflows q :=
  fun ho => absurd (wants_lt h q) (Nat.not_lt_of_le ho.exceeds)

theorem wants_add (h : c.add state n = .ok c') (hq : q ≠ trueState) :
    c'.wants q = c.wants q + if q = state then n.toNat else 0 := by
  by_cases hs : state = trueState
  · rw [add, if_pos (Or.inr hs)] at h
    obtain rfl := Except.ok.inj h
    rw [if_neg fun he => hq (he.trans hs), Nat.add_zero]
  · exact (add_eq_ok h hs).1 q

theorem add_eq_error (h : c.add state n = .error o) :
    o.state = state ∧ state ≠ trueState ∧ UInt32.size ≤ c.wants state + n.toNat := by
  rw [add] at h
  split at h
  · cases h
  · rename_i hz
    obtain ⟨hstate, hsize⟩ := mergeCondition_eq_error (map_eq_error h)
    exact ⟨hstate, fun hs => hz (Or.inr hs), hsize⟩

theorem wants_foldlM_add (h : ds.foldlM (fun out d => out.add d.state d.count) c = .ok c')
    (hq : q ≠ trueState) : c'.wants q = c.wants q + wanted ds q := by
  induction ds generalizing c with
  | nil =>
    obtain rfl := Except.ok.inj h
    rfl
  | cons d ds ih =>
    obtain ⟨c₁, hadd, h⟩ := foldlM_cons_eq_ok h
    rw [ih h, wants_add hadd hq, wanted_cons, Nat.add_assoc]

/-- The state that runs over is asked for too often by what has been merged together with the rest. -/
theorem foldlM_add_eq_error (h : ds.foldlM (fun out d => out.add d.state d.count) c = .error o) :
    o.state ≠ trueState ∧ UInt32.size ≤ c.wants o.state + wanted ds o.state := by
  induction ds generalizing c with
  | nil => cases h
  | cons d ds ih =>
    rw [List.foldlM_cons] at h
    rw [wanted_cons]
    rcases bind_eq_error h with h | ⟨c₁, hadd, h⟩
    · obtain ⟨hstate, hcounted, hsize⟩ := add_eq_error h
      rw [hstate, if_pos rfl]
      refine ⟨hcounted, hsize.trans ?_⟩
      omega
    · obtain ⟨hcounted, hsize⟩ := ih h
      rw [wants_add hadd hcounted, Nat.add_assoc] at hsize
      exact ⟨hcounted, hsize⟩

theorem overflows_of_normalize (h : c.normalize = .error o) : c.Overflows o.state := by
  rw [normalize] at h
  split at h
  · cases h
  · rename_i hn
    obtain ⟨hcounted, hsize⟩ := foldlM_add_eq_error h
    have hnone : Clause.always.wants o.state = 0 := rfl
    rw [hnone, Nat.zero_add] at hsize
    exact ⟨Bool.eq_false_iff.2 hn, hcounted, hsize⟩

theorem Overflows.normalize (h : c.Overflows q) : ∃ o, c.normalize = .error o := by
  cases hn : c.normalize with
  | error o => exact ⟨o, rfl⟩
  | ok c' =>
    -- a normal form has one condition for each state, whose count stands for all of them
    have hlt := wants_lt (merged_normalize hn).nodup q
    rw [Clause.normalize, h.possible] at hn
    rw [wants_foldlM_add hn h.counted] at hlt
    have hwants : Clause.always.wants q + wanted c.conditions q = c.wants q := Nat.zero_add _
    exact absurd hlt (Nat.not_lt_of_le (hwants ▸ h.exceeds))

end Clause

theorem overflows_of_normalizeAlternatives (h : normalizeAlternatives cs = .error o) :
    ∃ c ∈ cs, c.Overflows o.state := by
  obtain ⟨out, c, hc, h⟩ := foldlM_eq_error h
  refine ⟨c, hc, Clause.overflows_of_normalize ?_⟩
  rcases bind_eq_error h with h | ⟨c', -, h⟩
  · exact h
  · split at h <;> cases h

theorem normalizeAlternatives_overflows (hc : c ∈ cs) (h : c.Overflows q) :
    ∃ o, normalizeAlternatives cs = .error o := by
  cases hn : normalizeAlternatives cs with
  | error o => exact ⟨o, rfl⟩
  | ok out =>
    obtain ⟨-, -, hall, -⟩ := foldlM_addAlternative hn
    obtain ⟨c₁, hok, -⟩ := hall c hc
    obtain ⟨o, ho⟩ := h.normalize
    rw [hok] at ho
    cases ho

theorem Table.size_set {κ α : Type} [DecidableEq κ] (t : Table κ α) (k : κ) (a : α) :
    (t.set k a).size = if t.has k then t.size else t.size + 1 := by
  have hlength : (t.set k a).size = (t.set k a).keys.length := (List.length_map _).symm
  split
  · have hsame : (t.set k a).keys = t.keys := keys_putEntry_of_mem a (has_iff.1 ‹_›)
    rw [hlength, hsame]
    exact List.length_map _
  · rename_i hk
    rw [size, set, putEntry_new a fun hmem => hk (has_iff.2 hmem), List.length_append]
    rfl

namespace Layer

variable {l : Layer} {scene : SceneId} {e : Nat}

/-- A failed insertion has put the edge on the list of its scene and taken its alternatives away. -/
theorem insert_failed (h : (l.insert scene e cs).2 = some o) :
    normalizeAlternatives (l.get e ++ cs) = .error o ∧
      (l.insert scene e cs).1 = l.put scene e [] := by
  rw [insert] at h ⊢
  cases hn : normalizeAlternatives (l.get e ++ cs) with
  | ok out =>
    rw [hn] at h
    cases h
  | error overflow =>
    rw [hn] at h
    exact ⟨congrArg _ (Option.some.inj h), rfl⟩

/-- What is in the layer has been normalized before, so only the new alternatives can run over. -/
theorem Inserted.overflows (h : l.Inserted) (ho : (l.insert scene e cs).2 = some o) :
    ∃ c ∈ cs, c.Overflows o.state := by
  obtain ⟨c, hc, hover⟩ := overflows_of_normalizeAlternatives (insert_failed ho).1
  rcases List.mem_append.1 hc with hc | hc
  · exact absurd hover (Clause.not_overflows (h.merged e c hc).nodup)
  · exact ⟨c, hc, hover⟩

theorem insert_overflows (l : Layer) (scene : SceneId) (e : Nat) (hc : c ∈ cs) (h : c.Overflows q) :
    (l.insert scene e cs).2 ≠ none := by
  obtain ⟨o, ho⟩ := normalizeAlternatives_overflows (List.mem_append_right (l.get e) hc) h
  rw [insert, ho]
  exact Option.some_ne_none o

theorem size_put (l : Layer) (scene : SceneId) (e : Nat) (cs : List Clause) :
    (l.put scene e cs).size = if l.logic.has e then l.size else l.size + 1 :=
  l.logic.size_set e cs

def Alike (l l' : Layer) : Prop :=
  (∀ e, l'.get e = l.get e) ∧ l'.size = l.size ∧ ∀ scene, l'.listed scene = l.listed scene

theorem alike_put_nil : l.Alike (l.put scene e []) ↔
    l.logic.get? e = some [] ∧ e ∈ l.listed scene := by
  constructor
  · rintro ⟨hget, hsize, hlisted⟩
    constructor
    · have hhas : l.logic.has e = true := by
        by_contra hno
        rw [size_put, if_neg hno] at hsize
        omega
      obtain ⟨cs, hcs⟩ := Option.isSome_iff_exists.1 hhas
      have hnil := hget e
      rw [get_put, if_pos rfl, get, hcs] at hnil
      rw [hcs, ← show [] = cs from hnil]
    · have hscene := hlisted scene
      rw [listed_put, if_pos rfl] at hscene
      by_contra hno
      rw [if_neg hno] at hscene
      simp at hscene
  · rintro ⟨hnil, hmem⟩
    refine ⟨fun e' => ?_, ?_, fun scene' => ?_⟩
    · rw [get_put]
      split
      · rename_i he
        rw [he, get, hnil]
        rfl
      · rfl
    · have hhas : l.logic.has e = true := Option.isSome_of_eq_some hnil
      rw [size_put, if_pos hhas]
    · rw [listed_put, if_pos hmem]
      split
      · rename_i hs
        rw [hs]
      · rfl

/-- An insertion into a layer that insertions have made fails just when it is handed an alternative
that asks for some state more often than can be counted, as no compiled expression does. What it leaves
behind is all of the layer but the alternatives of its own edge: these are gone, and the edge is listed
under the scene and counted. So the layer is as it was just where the edge had been left in that way
before. -/
theorem failed_insert_exact (h : l.Inserted) (scene : SceneId) (e : Nat) (cs : List Clause) :
    let after := (l.insert scene e cs).1
    let failure := (l.insert scene e cs).2
    (failure ≠ none ↔ ∃ c ∈ cs, ∃ q, c.Overflows q) ∧
    (∀ o, failure = some o → ∃ c ∈ cs, c.Overflows o.state) ∧
    (∀ m skips ts, compileExpression m skips ts = .ok cs → failure = none) ∧
    (failure ≠ none →
      (∀ e', after.get e' = if e' = e then [] else l.get e') ∧
      after.size = (if l.logic.has e then l.size else l.size + 1) ∧
      (∀ scene', after.listed scene' =
        if scene' = scene ∧ e ∉ l.listed scene then l.listed scene ++ [e] else l.listed scene') ∧
      (l.Alike after ↔ l.logic.get? e = some [] ∧ e ∈ l.listed scene)) := by
  intro after failure
  have hover (o : CountOverflow) (ho : failure = some o) : ∃ c ∈ cs, c.Overflows o.state :=
    h.overflows ho
  have hexact : failure ≠ none ↔ ∃ c ∈ cs, ∃ q, c.Overflows q := by
    constructor
    · intro hne
      obtain ⟨o, ho⟩ := Option.ne_none_iff_exists'.1 hne
      obtain ⟨c, hc, hq⟩ := hover o ho
      exact ⟨c, hc, o.state, hq⟩
    · rintro ⟨c, hc, q, hq⟩
      exact l.insert_overflows scene e hc hq
  refine ⟨hexact, hover, fun m skips ts hcs => ?_, fun hne => ?_⟩
  · by_contra hne
    obtain ⟨c, hc, q, hq⟩ := hexact.1 hne
    exact Clause.not_overflows ((compileExpression_tidy hcs).normal c hc).nodup hq
  · obtain ⟨o, ho⟩ := Option.ne_none_iff_exists'.1 hne
    have hafter : after = l.put scene e [] := (insert_failed ho).2
    rw [hafter]
    refine ⟨fun e' => l.get_put scene e e' [], l.size_put scene e [], fun scene' => ?_, alike_put_nil⟩
    rw [listed_put]
    by_cases hs : scene' = scene
    · subst hs
      by_cases hmem : e ∈ l.listed scene' <;> simp [hmem]
    · simp [hs]

def tooManyCoins : List Clause := [⟨[⟨"Coin", 0xffffffff⟩, ⟨"Coin", 1⟩]⟩]

theorem overflows_tooManyCoins : (Clause.mk [⟨"Coin", 0xffffffff⟩, ⟨"Coin", 1⟩]).Overflows "Coin" where
  possible := by decide
  counted := by decide
  exceeds := by decide

/-- Handed to an empty layer for a second time, the coins change nothing any more. -/
theorem failed_insert_exact_coins :
    let l := (({ name := "locks" } : Layer).insert 0 4 tooManyCoins).1
    l.Inserted ∧ (l.insert 0 4 tooManyCoins).2 ≠ none ∧
      (∀ e, (l.insert 0 4 tooManyCoins).1.get e = if e = 4 then [] else l.get e) ∧
      l.Alike (l.insert 0 4 tooManyCoins).1 := by
  intro l
  have hl : l.Inserted := (Inserted.empty "locks").insert 0 4 tooManyCoins
  obtain ⟨hexact, -, -, hleft⟩ := failed_insert_exact hl 0 4 tooManyCoins
  have hfails := hexact.2 ⟨_, List.mem_singleton_self _, "Coin", overflows_tooManyCoins⟩
  obtain ⟨hget, -, -, halike⟩ := hleft hfails
  exact ⟨hl, hfails, hget, halike.2 ⟨by decide, by decide⟩⟩

/-- A lock that needs the key stands open once too many coins have been asked for as well. -/
theorem failed_insert_opens :
    let l := (({ name := "locks" } : Layer).insert 0 0 [.single "Key" 1]).1
    let after := l.insert 0 0 tooManyCoins
    l.Inserted ∧ after.2 = some ⟨"Coin"⟩ ∧ l.get 0 = [.single "Key" 1] ∧ after.1.get 0 = [] ∧
      (Gates.mk [l]).canTraverse 0 {} = false ∧ (Gates.mk [after.1]).canTraverse 0 {} = true := by
  intro l after
  exact ⟨(Inserted.empty "locks").insert 0 0 _, by cbv, by cbv, by cbv, by cbv, by cbv⟩

end Layer

end WorldShuffle

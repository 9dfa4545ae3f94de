import Mathlib.Algebra.BigOperators.Ring.List
import Mathlib.Algebra.Ring.Nat
import Mathlib.Data.List.Nodup
import WorldShuffle.Logic.Clause
import WorldShuffle.Proofs.Except

namespace WorldShuffle

def copies (cs : List Condition) : Nat := (cs.map fun c => c.count.toNat).sum

theorem copies_cons (c : Condition) (cs : List Condition) :
    copies (c :: cs) = c.count.toNat + copies cs :=
  List.sum_cons

theorem toNat_totalCount (cs : List Condition) :
    (totalCount cs).toNat = copies cs % UInt32.size := by
  induction cs with
  | nil => rfl
  | cons c cs ih =>
    rw [totalCount, UInt32.toNat_add, ih, copies_cons]
    exact Nat.add_mod_mod _ _ _

def wanted (cs : List Condition) (q : String) : Nat := copies (cs.filter (·.state = q))

theorem toNat_of_addCount? {a b c : UInt32} (h : addCount? a b = some c) :
    c.toNat = a.toNat + b.toNat := by
  rw [addCount?] at h
  split at h
  · rw [← Option.some.inj h, UInt32.toNat_add, Nat.mod_eq_of_lt ‹_›]
  · cases h

@[simp] theorem wanted_nil (q : String) : wanted [] q = 0 := rfl

theorem wanted_cons (c : Condition) (cs : List Condition) (q : String) :
    wanted (c :: cs) q = (if q = c.state then c.count.toNat else 0) + wanted cs q := by
  by_cases h : q = c.state
  · simp [wanted, copies, h]
  · simp [wanted, h, Ne.symm h]

theorem wanted_append (cs ds : List Condition) (q : String) :
    wanted (cs ++ ds) q = wanted cs q + wanted ds q := by
  simp [wanted, copies]

theorem count_le_wanted {c : Condition} {cs : List Condition} (hc : c ∈ cs) :
    c.count.toNat ≤ wanted cs c.state := by
  obtain ⟨before, after, rfl⟩ := List.append_of_mem hc
  rw [wanted_append, wanted_cons, if_pos rfl]
  omega

theorem wanted_eq_zero {cs : List Condition} {q : String} (h : q ∉ cs.map Condition.state) :
    wanted cs q = 0 := by
  rw [wanted, List.filter_eq_nil_iff.2]
  · rfl
  · intro c hc hq
    rw [decide_eq_true_eq] at hq
    exact h (hq ▸ List.mem_map_of_mem hc)

theorem wanted_eq_count {cs : List Condition} (hn : (cs.map Condition.state).Nodup) {c : Condition}
    (hc : c ∈ cs) : wanted cs c.state = c.count.toNat := by
  induction cs with
  | nil => simp at hc
  | cons d cs ih =>
    obtain ⟨hnot, hn⟩ := List.nodup_cons.1 hn
    rw [wanted_cons]
    rcases List.mem_cons.1 hc with rfl | hc
    · rw [if_pos rfl, wanted_eq_zero hnot, Nat.add_zero]
    · have hne : c.state ≠ d.state := fun he => hnot (he ▸ List.mem_map_of_mem hc)
      rw [if_neg hne, ih hn hc, Nat.zero_add]

theorem wanted_perm {cs ds : List Condition} (h : cs.Perm ds) (q : String) :
    wanted cs q = wanted ds q := by
  rw [wanted, wanted, copies, copies]
  exact ((h.filter _).map _).sum_nat

theorem mergeCondition_eq_ok {state : String} {n : UInt32} {cs cs' : List Condition}
    (h : mergeCondition state n cs = .ok cs') :
    (∀ q, wanted cs' q = wanted cs q + if q = state then n.toNat else 0) ∧
      cs'.map Condition.state =
        if state ∈ cs.map Condition.state then cs.map Condition.state
        else cs.map Condition.state ++ [state] := by
  induction cs generalizing cs' with
  | nil =>
    obtain rfl := Except.ok.inj h
    exact ⟨fun q => by simp [wanted_cons], rfl⟩
  | cons d ds ih =>
    rw [mergeCondition] at h
    split at h
    · rename_i hd
      subst hd
      split at h
      · rename_i sum hsum
        obtain rfl := Except.ok.inj h
        refine ⟨fun q => ?_, by simp⟩
        rw [wanted_cons, wanted_cons, toNat_of_addCount? hsum]
        dsimp only
        split <;> omega
      · cases h
    · rename_i hd
      obtain ⟨ds', hds, rfl⟩ := map_eq_ok h
      obtain ⟨hw, hs⟩ := ih hds
      refine ⟨fun q => ?_, ?_⟩
      · rw [wanted_cons, wanted_cons, hw, Nat.add_assoc]
      · rw [List.map_cons, List.map_cons, hs]
        by_cases hm : state ∈ ds.map Condition.state
        · simp [hm]
        · simp only [List.mem_cons, Ne.symm hd, hm, or_self, if_false, List.cons_append]

namespace Clause

variable {ε : Type} {c c' d out out' : Clause} {state q : String} {n : UInt32} {s : States}

def wants (c : Clause) (q : String) : Nat := wanted c.conditions q

def names (c : Clause) : List String := c.conditions.map Condition.state

def Plain (c : Clause) : Prop := trueState ∉ c.names

theorem isNever_iff : c.isNever = true ↔ falseState ∈ c.names := by
  rw [isNever, List.any_eq_true, names, List.mem_map]
  exact exists_congr fun d => and_congr_right fun _ => decide_eq_true_iff

theorem add_eq_ok (h : c.add state n = .ok c') (hs : state ≠ trueState) :
    (∀ q, c'.wants q = c.wants q + if q = state then n.toNat else 0) ∧
      (c.names.Nodup → c'.names.Nodup) ∧ ∀ q ∈ c'.names, q ∈ c.names ∨ q = state := by
  rw [add] at h
  split at h
  · rename_i hz
    obtain rfl := Except.ok.inj h
    have hn : n.toNat = 0 := by simp [hz.resolve_right hs]
    exact ⟨fun q => by simp [hn], id, fun q hq => Or.inl hq⟩
  · obtain ⟨cs, hcs, rfl⟩ := map_eq_ok h
    obtain ⟨hw, hnames⟩ := mergeCondition_eq_ok hcs
    refine ⟨hw, fun hn => ?_, fun q hq => ?_⟩
    · rw [names, hnames]
      split
      · exact hn
      · rename_i hm
        exact List.nodup_append_comm.2 (List.nodup_cons.2 ⟨hm, hn⟩)
    · rw [names, hnames] at hq
      split at hq
      · exact Or.inl hq
      · exact (List.mem_append.1 hq).imp_right List.mem_singleton.1

/-- What merging conditions one after another makes of a clause, each condition counting as `w` says. -/
theorem merges {f : Clause → Condition → Except ε Clause} {w : Condition → Nat}
    {ds : List Condition} (hplain : trueState ∉ ds.map Condition.state)
    (hf : ∀ out d out', d ∈ ds → f out d = .ok out' →
      ∃ n, out.add d.state n = .ok out' ∧ n.toNat = w d)
    (h : ds.foldlM f out = .ok out') :
    (∀ q, out'.wants q = out.wants q + ((ds.filter (·.state = q)).map w).sum) ∧
      (out.names.Nodup → out'.names.Nodup) ∧
      ∀ q ∈ out'.names, q ∈ out.names ∨ q ∈ ds.map Condition.state := by
  induction ds generalizing out with
  | nil =>
    obtain rfl := Except.ok.inj h
    exact ⟨fun q => rfl, id, fun q hq => Or.inl hq⟩
  | cons d ds ih =>
    rw [List.map_cons, List.mem_cons, not_or] at hplain
    obtain ⟨out₁, hd, h⟩ := foldlM_cons_eq_ok h
    obtain ⟨n, hadd, hn⟩ := hf out d out₁ List.mem_cons_self hd
    obtain ⟨hw, hnodup, hnames⟩ := add_eq_ok hadd (Ne.symm hplain.1)
    obtain ⟨hw', hnodup', hnames'⟩ :=
      ih hplain.2 (fun out d' out' hd' => hf out d' out' (List.mem_cons_of_mem d hd')) h
    refine ⟨fun q => ?_, fun h => hnodup' (hnodup h), fun q hq => ?_⟩
    · rw [hw', hw, hn]
      by_cases hq : q = d.state
      · simp [hq, Nat.add_assoc]
      · simp [hq, Ne.symm hq]
    · rw [List.map_cons, List.mem_cons]
      rcases hnames' q hq with hq | hq
      · exact (hnames q hq).imp_right Or.inl
      · exact Or.inr (Or.inr hq)

structure Normal (c : Clause) : Prop where
  plain : c.Plain
  nodup : c.names.Nodup
  never : c.isNever = true → c = .never

theorem normal_never : Clause.never.Normal where
  plain := by simp [Plain, names, never, falseState, trueState]
  nodup := by simp [names, never]
  never _ := rfl

end Clause

abbrev Demand := Option (String → Nat)

def Demand.Met (s : States) : Demand → Prop
  | none => False
  | some wants => ∀ q, wants q ≤ (s.count q).toNat

namespace Clause

variable {c c' d : Clause} {s : States}

def demand (c : Clause) : Demand := if c.isNever then none else some c.wants

theorem demand_eq_none : c.demand = none ↔ c.isNever = true := by simp [demand]

theorem names_add {state : String} {n : UInt32} (h : c.add state n = .ok c') :
    (c.names.Nodup → c'.names.Nodup) ∧
      ∀ q ∈ c'.names, q ∈ c.names ∨ q = state ∧ state ≠ trueState := by
  by_cases hs : state = trueState
  · rw [add, if_pos (Or.inr hs)] at h
    obtain rfl := Except.ok.inj h
    exact ⟨id, fun q hq => Or.inl hq⟩
  · obtain ⟨-, hnodup, hnames⟩ := add_eq_ok h hs
    exact ⟨hnodup, fun q hq => (hnames q hq).imp_right (⟨·, hs⟩)⟩

theorem names_foldlM_add {ds : List Condition}
    (h : ds.foldlM (fun out d => out.add d.state d.count) c = .ok c') :
    (c.names.Nodup → c'.names.Nodup) ∧
      ∀ q ∈ c'.names, q ∈ c.names ∨ q ∈ ds.map Condition.state ∧ q ≠ trueState := by
  induction ds generalizing c with
  | nil =>
    obtain rfl := Except.ok.inj h
    exact ⟨id, fun q hq => Or.inl hq⟩
  | cons d ds ih =>
    obtain ⟨c₁, hd, h⟩ := foldlM_cons_eq_ok h
    obtain ⟨hnodup, hnames⟩ := names_add hd
    obtain ⟨hnodup', hnames'⟩ := ih h
    refine ⟨fun hc => hnodup' (hnodup hc), fun q hq => ?_⟩
    rw [List.map_cons, List.mem_cons]
    rcases hnames' q hq with hq | ⟨hq, ht⟩
    · rcases hnames q hq with hq | ⟨rfl, ht⟩
      · exact Or.inl hq
      · exact Or.inr ⟨Or.inl rfl, ht⟩
    · exact Or.inr ⟨Or.inr hq, ht⟩

theorem isNever_normalize (h : c.normalize = .ok c') : c'.isNever = c.isNever := by
  rw [normalize] at h
  split at h
  · rename_i hn
    obtain rfl := Except.ok.inj h
    exact hn.symm
  · rename_i hn
    obtain ⟨-, hnames⟩ := names_foldlM_add h
    rw [Bool.not_eq_true] at hn
    rw [hn, Bool.eq_false_iff, ne_eq, isNever_iff]
    intro hmem
    obtain ⟨hmem, -⟩ := (hnames falseState hmem).resolve_left List.not_mem_nil
    rw [isNever_iff.2 hmem] at hn
    cases hn

theorem normal_normalize (h : c.normalize = .ok c') : c'.Normal := by
  have hsame := isNever_normalize h
  rw [normalize] at h
  split at h
  · obtain rfl := Except.ok.inj h
    exact normal_never
  · rename_i hn
    obtain ⟨hnodup, hnames⟩ := names_foldlM_add h
    refine ⟨fun ht => ?_, hnodup List.nodup_nil, fun hn' => absurd (hsame.symm.trans hn') hn⟩
    exact ((hnames trueState ht).resolve_left List.not_mem_nil).2 rfl

theorem normalize_eq_ok (h : c.normalize = .ok c') (hp : c.Plain) :
    c'.Normal ∧ c'.demand = c.demand := by
  refine ⟨normal_normalize h, ?_⟩
  rw [demand, demand, isNever_normalize h]
  split
  · rfl
  · rename_i hn
    rw [normalize, if_neg hn] at h
    obtain ⟨hw, -⟩ := merges (w := fun d => d.count.toNat) hp
      (fun out d out' _ hd => ⟨d.count, hd, rfl⟩) h
    congr 1
    funext q
    rw [hw, ← copies]
    exact Nat.zero_add _

theorem isNever_perm (h : c.conditions.Perm d.conditions) : c.isNever = d.isNever := h.any_eq

theorem holds_perm (h : c.conditions.Perm d.conditions) (s : States) : c.holds s = d.holds s := by
  rw [holds, holds, isNever_perm h, h.all_eq]

theorem demand_eq_of_same (h : c.sameConditions d = true) : c.demand = d.demand := by
  have hp : c.conditions.Perm d.conditions := List.isPerm_iff.1 h
  have hw : c.wants = d.wants := funext fun q => wanted_perm hp q
  rw [demand, demand, isNever_perm hp, hw]

theorem Normal.holds_iff (hc : c.Normal) : c.holds s = true ↔ c.demand.Met s := by
  rw [holds, Bool.and_eq_true, Bool.not_eq_true', List.all_eq_true]
  cases hn : c.isNever with
  | true => simp [demand, hn, Demand.Met]
  | false =>
    simp only [demand, hn, Bool.false_eq_true, if_false, true_and, decide_eq_true_eq, Demand.Met]
    constructor
    · intro h q
      by_cases hq : q ∈ c.names
      · obtain ⟨d, hd, rfl⟩ := List.mem_map.1 hq
        rw [wants, wanted_eq_count hc.nodup hd]
        exact UInt32.le_iff_toNat_le.1 (h d hd)
      · rw [wants, wanted_eq_zero hq]
        exact Nat.zero_le _
    · intro h d hd
      rw [UInt32.le_iff_toNat_le, ← wanted_eq_count hc.nodup hd]
      exact h d.state

end Clause

theorem addAlternative_eq_ok {possible : Bool} {out out' : List Clause} {c : Clause}
    (h : addAlternative possible out c = .ok out') : ∃ c', c.normalize = .ok c' ∧
      (((possible && c'.isNever) = true ∨ ∃ d ∈ out, c'.sameConditions d = true) ∧ out' = out ∨
        (possible && c'.isNever) = false ∧ (∀ d ∈ out, c'.sameConditions d = false) ∧
          out' = out ++ [c']) := by
  obtain ⟨c', hc, h⟩ := bind_eq_ok h
  refine ⟨c', hc, ?_⟩
  split at h
  · rename_i hskip
    rw [Bool.or_eq_true, List.any_eq_true] at hskip
    exact Or.inl ⟨hskip, (Except.ok.inj h).symm⟩
  · rename_i hkeep
    rw [Bool.not_eq_true, Bool.or_eq_false_iff, List.any_eq_false] at hkeep
    exact Or.inr ⟨hkeep.1, fun d hd => Bool.not_eq_true _ ▸ hkeep.2 d hd, (Except.ok.inj h).symm⟩

/-- Adding alternatives one after another keeps those there, and adds the normal form of each that is
neither needless nor there already. -/
theorem foldlM_addAlternative {possible : Bool} {cs out out' : List Clause}
    (h : cs.foldlM (addAlternative possible) out = .ok out') :
    (∀ c' ∈ out', c' ∈ out ∨
      ∃ c ∈ cs, c.normalize = .ok c' ∧ (possible && c'.isNever) = false) ∧
    (∀ c' ∈ out, c' ∈ out') ∧
    (∀ c ∈ cs, ∃ c₁, c.normalize = .ok c₁ ∧
      ((possible && c₁.isNever) = true ∨ ∃ c' ∈ out', c₁.sameConditions c' = true)) ∧
    (out.Pairwise (fun a b => b.sameConditions a = false) →
      out'.Pairwise fun a b => b.sameConditions a = false) := by
  induction cs generalizing out with
  | nil =>
    obtain rfl := Except.ok.inj h
    exact ⟨fun c' hc' => Or.inl hc', fun c' hc' => hc', by simp, id⟩
  | cons c cs ih =>
    obtain ⟨out₁, hc, h⟩ := foldlM_cons_eq_ok h
    obtain ⟨c₁, hn, hadd⟩ := addAlternative_eq_ok hc
    obtain ⟨hfrom, hkeep, hall, hpair⟩ := ih h
    rcases hadd with ⟨hskip, rfl⟩ | ⟨hpossible, hnew, rfl⟩
    · refine ⟨fun c' hc' => ?_, hkeep, ?_, hpair⟩
      · refine (hfrom c' hc').imp_right ?_
        exact fun ⟨c₂, hc₂, h⟩ => ⟨c₂, List.mem_cons_of_mem c hc₂, h⟩
      · refine List.forall_mem_cons.2 ⟨⟨c₁, hn, hskip.imp_right ?_⟩, hall⟩
        exact fun ⟨d, hd, hs⟩ => ⟨d, hkeep d hd, hs⟩
    · refine ⟨fun c' hc' => ?_, fun c' hc' => hkeep c' (List.mem_append_left _ hc'), ?_,
        fun hp => hpair ?_⟩
      · rcases hfrom c' hc' with hc' | ⟨c₂, hc₂, h⟩
        · rcases List.mem_append.1 hc' with hc' | hc'
          · exact Or.inl hc'
          · obtain rfl := List.mem_singleton.1 hc'
            exact Or.inr ⟨c, List.mem_cons_self, hn, hpossible⟩
        · exact Or.inr ⟨c₂, List.mem_cons_of_mem c hc₂, h⟩
      · have hmem : c₁ ∈ out ++ [c₁] := List.mem_append_right _ (List.mem_singleton_self c₁)
        have hsame : c₁.sameConditions c₁ = true := List.isPerm_iff.2 (List.Perm.refl _)
        exact List.forall_mem_cons.2 ⟨⟨c₁, hn, Or.inr ⟨c₁, hkeep c₁ hmem, hsame⟩⟩, hall⟩
      · exact List.pairwise_append.2 ⟨hp, List.pairwise_singleton _ _, fun d hd b hb =>
          List.mem_singleton.1 hb ▸ hnew d hd⟩

section kept

variable {cs out : List Clause} {c : Clause}

/-- The normal form of an alternative is kept, unless it is impossible and others are not. -/
theorem exists_same_of_normalized (h : normalizeAlternatives cs = .ok out) (hc : c ∈ cs)
    (hp : cs.any (!·.isNever) = false ∨ c.isNever = false) :
    ∃ c₁, c.normalize = .ok c₁ ∧ ∃ c' ∈ out, c₁.sameConditions c' = true := by
  obtain ⟨-, -, hall, -⟩ := foldlM_addAlternative h
  obtain ⟨c₁, hn, hc₁⟩ := hall c hc
  rw [Clause.isNever_normalize hn, Bool.and_eq_true] at hc₁
  refine ⟨c₁, hn, hc₁.resolve_left fun h => ?_⟩
  rcases hp with hp | hp
  · exact absurd (hp.symm.trans h.1) Bool.false_ne_true
  · exact absurd (hp.symm.trans h.2) Bool.false_ne_true

theorem normalizeAlternatives_ne_nil (h : normalizeAlternatives cs = .ok out) (hne : cs ≠ []) :
    out ≠ [] := by
  cases hp : cs.any (!·.isNever) with
  | true =>
    obtain ⟨c, hc, hn⟩ := List.any_eq_true.1 hp
    obtain ⟨-, -, c', hc', -⟩ := exists_same_of_normalized h hc (Or.inr (by simpa using hn))
    exact List.ne_nil_of_mem hc'
  | false =>
    obtain ⟨c, hc⟩ := List.exists_mem_of_ne_nil cs hne
    obtain ⟨-, -, c', hc', -⟩ := exists_same_of_normalized h hc (Or.inl hp)
    exact List.ne_nil_of_mem hc'

/-- Normalizing finds out nothing new about whether some alternative is possible. -/
theorem any_possible_normalized (h : normalizeAlternatives cs = .ok out) :
    out.any (!·.isNever) = cs.any (!·.isNever) := by
  rw [Bool.eq_iff_iff, List.any_eq_true, List.any_eq_true]
  constructor
  · rintro ⟨c', hc', hn'⟩
    obtain ⟨hfrom, -⟩ := foldlM_addAlternative h
    obtain ⟨c, hc, hn, -⟩ := (hfrom c' hc').resolve_left List.not_mem_nil
    exact ⟨c, hc, Clause.isNever_normalize hn ▸ hn'⟩
  · rintro ⟨c, hc, hn⟩
    obtain ⟨c₁, hc₁, c', hc', hsame⟩ := exists_same_of_normalized h hc (Or.inr (by simpa using hn))
    rw [← Clause.isNever_normalize hc₁, Clause.isNever_perm (List.isPerm_iff.1 hsame)] at hn
    exact ⟨c', hc', hn⟩

end kept

/-- Alternatives that ask for the same as a list of demands, once what cannot be met is left out. -/
structure Offers (cs : List Clause) (ds : List Demand) : Prop where
  ne_nil : cs ≠ []
  plain (c : Clause) : c ∈ cs → c.Plain
  demand_mem (c : Clause) : c ∈ cs → c.demand ∈ ds
  exists_demand {wants : String → Nat} : some wants ∈ ds → ∃ c ∈ cs, c.demand = some wants

structure Represents (cs : List Clause) (ds : List Demand) : Prop extends Offers cs ds where
  normal (c : Clause) : c ∈ cs → c.Normal
  alone {c : Clause} : c ∈ cs → c.isNever = true → cs = [.never]

variable {cs out : List Clause} {ds : List Demand} {s : States}

theorem Offers.mem_normalized (ho : Offers cs ds) (h : normalizeAlternatives cs = .ok out)
    {c' : Clause} (hc' : c' ∈ out) : ∃ c ∈ cs, (c'.Normal ∧ c'.demand = c.demand) ∧
      (cs.any (!·.isNever) && c'.isNever) = false := by
  obtain ⟨hfrom, -⟩ := foldlM_addAlternative h
  obtain ⟨c, hc, hn, hp⟩ := (hfrom c' hc').resolve_left List.not_mem_nil
  exact ⟨c, hc, Clause.normalize_eq_ok hn (ho.plain c hc), hp⟩

theorem Offers.kept (ho : Offers cs ds) (h : normalizeAlternatives cs = .ok out) {c : Clause}
    (hc : c ∈ cs) (hp : cs.any (!·.isNever) = false ∨ c.isNever = false) :
    ∃ c' ∈ out, c'.demand = c.demand := by
  obtain ⟨c₁, hn, c', hc', hsame⟩ := exists_same_of_normalized h hc hp
  obtain ⟨-, hd⟩ := Clause.normalize_eq_ok hn (ho.plain c hc)
  exact ⟨c', hc', (Clause.demand_eq_of_same hsame).symm.trans hd⟩

/-- Where one is kept though impossible, all are, and then they are the same. -/
theorem Offers.never_alone (ho : Offers cs ds) (h : normalizeAlternatives cs = .ok out)
    {c' : Clause} (hc' : c' ∈ out) (hn : c'.isNever = true) : out = [.never] := by
  obtain ⟨-, -, -, hpair⟩ := foldlM_addAlternative h
  obtain ⟨-, -, -, hp⟩ := ho.mem_normalized h hc'
  rw [hn, Bool.and_true] at hp
  have hnever : ∀ d ∈ out, d = .never := by
    intro d hd
    obtain ⟨c, hc, ⟨hnormal, hdemand⟩, -⟩ := ho.mem_normalized h hd
    have hcn : c.isNever = true := by simpa using List.any_eq_false.1 hp c hc
    refine hnormal.never (Clause.demand_eq_none.1 (hdemand.trans ?_))
    exact Clause.demand_eq_none.2 hcn
  match out, hc', hnever, hpair List.Pairwise.nil with
  | [d], _, hnever, _ => rw [hnever d List.mem_cons_self]
  | d :: e :: rest, _, hnever, hpair =>
    have hne := (List.pairwise_cons.1 hpair).1 e (by simp)
    rw [hnever d (by simp), hnever e (by simp)] at hne
    exact absurd hne (by decide)

theorem Offers.represents (ho : Offers cs ds) (h : normalizeAlternatives cs = .ok out) :
    Represents out ds := by
  constructor
  case toOffers =>
    refine ⟨normalizeAlternatives_ne_nil h ho.ne_nil, fun c' hc' => ?_, fun c' hc' => ?_,
      fun {wants} hw => ?_⟩
    · obtain ⟨c, hc, hn, -⟩ := ho.mem_normalized h hc'
      exact hn.1.plain
    · obtain ⟨c, hc, hn, -⟩ := ho.mem_normalized h hc'
      exact hn.2 ▸ ho.demand_mem c hc
    · obtain ⟨c, hc, hd⟩ := ho.exists_demand hw
      have hn : c.isNever = false := by
        rw [← Bool.not_eq_true, ← Clause.demand_eq_none, hd]
        simp
      obtain ⟨c', hc', hd'⟩ := ho.kept h hc (Or.inr hn)
      exact ⟨c', hc', hd'.trans hd⟩
  case normal =>
    intro c' hc'
    obtain ⟨c, hc, hn, -⟩ := ho.mem_normalized h hc'
    exact hn.1
  case alone => exact fun hc' hn => ho.never_alone h hc' hn

namespace Represents

theorem holds_iff (h : Represents cs ds) :
    (∃ c ∈ cs, c.holds s = true) ↔ ∃ d ∈ ds, Demand.Met s d := by
  constructor
  · rintro ⟨c, hc, hh⟩
    exact ⟨c.demand, h.demand_mem c hc, (h.normal c hc).holds_iff.1 hh⟩
  · rintro ⟨d, hd, hm⟩
    cases d with
    | none => exact hm.elim
    | some wants =>
      obtain ⟨c, hc, he⟩ := h.exists_demand hd
      exact ⟨c, hc, (h.normal c hc).holds_iff.2 (he ▸ hm)⟩

theorem eq_never_iff (h : Represents cs ds) : cs = [.never] ↔ ∀ d ∈ ds, d = none := by
  constructor
  · intro hcs d hd
    cases d with
    | none => rfl
    | some wants =>
      obtain ⟨c, hc, he⟩ := h.exists_demand hd
      rw [hcs, List.mem_singleton] at hc
      subst hc
      cases he
  · intro hds
    obtain ⟨c, hc⟩ := List.exists_mem_of_ne_nil cs h.ne_nil
    exact h.alone hc (Clause.demand_eq_none.1 (hds _ (h.demand_mem c hc)))

end Represents

end WorldShuffle

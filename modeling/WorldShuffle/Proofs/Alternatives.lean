import WorldShuffle.Proofs.Demands

namespace WorldShuffle

variable {state : String} {n : UInt32} {c c' : Clause} {cs ds out : List Clause}

theorem mergeCondition_new {ds : List Condition} (h : state ∉ ds.map Condition.state) :
    mergeCondition state n ds = .ok (ds ++ [⟨state, n⟩]) := by
  induction ds with
  | nil => rfl
  | cons d ds ih =>
    rw [List.map_cons, List.mem_cons, not_or] at h
    rw [mergeCondition, if_neg (Ne.symm h.1), ih h.2]
    rfl

theorem counted_mergeCondition {ds ds' : List Condition} (hn : n ≠ 0)
    (hds : ∀ d ∈ ds, d.count ≠ 0) (h : mergeCondition state n ds = .ok ds') :
    ∀ d ∈ ds', d.count ≠ 0 := by
  induction ds generalizing ds' with
  | nil =>
    obtain rfl := Except.ok.inj h
    exact List.forall_mem_singleton.2 hn
  | cons d ds ih =>
    obtain ⟨hd, hds⟩ := List.forall_mem_cons.1 hds
    rw [mergeCondition] at h
    split at h
    · split at h
      · rename_i sum hsum
        obtain rfl := Except.ok.inj h
        refine List.forall_mem_cons.2 ⟨fun hz => hn (UInt32.toNat_inj.1 ?_), hds⟩
        have htotal := toNat_of_addCount? hsum
        change sum = 0 at hz
        rw [hz, UInt32.toNat_zero] at htotal
        rw [UInt32.toNat_zero]
        omega
      · cases h
    · obtain ⟨rest, hrest, rfl⟩ := map_eq_ok h
      exact List.forall_mem_cons.2 ⟨hd, ih hds hrest⟩

namespace Clause

def Counted (c : Clause) : Prop := ∀ d ∈ c.conditions, d.count ≠ 0

theorem counted_always : Clause.always.Counted := nofun

theorem counted_never : Clause.never.Counted := List.forall_mem_singleton.2 (by decide)

theorem Counted.add (hc : c.Counted) (h : c.add state n = .ok c') : c'.Counted := by
  rw [Clause.add] at h
  split at h
  · exact Except.ok.inj h ▸ hc
  · rename_i hz
    obtain ⟨ds, hds, rfl⟩ := map_eq_ok h
    exact counted_mergeCondition (fun hn => hz (Or.inl hn)) hc hds

theorem counted_normalize (h : c.normalize = .ok c') : c'.Counted := by
  rw [normalize] at h
  split at h
  · exact Except.ok.inj h ▸ counted_never
  · exact foldlM_keeps (fun _ _ _ hout hadd => hout.add hadd) counted_always h

theorem add_new (n : UInt32) (h : state ∉ c.names) :
    ∃ c', c.add state n = .ok c' ∧ c'.names.Sublist (c.names ++ [state]) := by
  rw [add]
  split
  · exact ⟨c, rfl, List.sublist_append_left _ _⟩
  · rw [mergeCondition_new h]
    refine ⟨_, rfl, ?_⟩
    rw [names, List.map_append]
    exact List.Sublist.refl _

theorem add_all {ds : List Condition} (h : (c.names ++ ds.map Condition.state).Nodup) :
    ∃ c', ds.foldlM (fun out d => out.add d.state d.count) c = .ok c' := by
  induction ds generalizing c with
  | nil => exact ⟨c, rfl⟩
  | cons d ds ih =>
    rw [List.map_cons, List.append_cons] at h
    have hnew : d.state ∉ c.names :=
      fun hd => (List.nodup_append.1 (List.nodup_append.1 h).1).2.2 _ hd _ (by simp) rfl
    obtain ⟨c₁, hadd, hsub⟩ := add_new d.count hnew
    obtain ⟨c', hc'⟩ := ih (h.sublist (hsub.append_right _))
    refine ⟨c', ?_⟩
    rw [List.foldlM_cons, hadd]
    exact hc'

theorem normalize_nodup (h : c.names.Nodup) : ∃ c', c.normalize = .ok c' := by
  rw [normalize]
  split
  · exact ⟨.never, rfl⟩
  · exact add_all h

end Clause

theorem exists_normalizeAlternatives :
    (∃ out, normalizeAlternatives cs = .ok out) ↔ ∀ c ∈ cs, ∃ c', c.normalize = .ok c' := by
  constructor
  · rintro ⟨out, hout⟩ c hc
    obtain ⟨-, -, hall, -⟩ := foldlM_addAlternative hout
    exact (hall c hc).imp fun _ h => h.1
  · intro h
    cases hout : normalizeAlternatives cs with
    | ok out => exact ⟨out, rfl⟩
    | error e =>
      obtain ⟨out, c, hc, hadd⟩ := foldlM_eq_error hout
      obtain ⟨c', hc'⟩ := h c hc
      rcases bind_eq_error hadd with hadd | ⟨c₁, -, hadd⟩
      · rw [hc'] at hadd
        cases hadd
      · split at hadd <;> cases hadd

theorem normalizeAlternatives_nodup (h : ∀ c ∈ cs, c.names.Nodup) :
    ∃ out, normalizeAlternatives cs = .ok out :=
  exists_normalizeAlternatives.2 fun c hc => Clause.normalize_nodup (h c hc)

structure Tidy (cs : List Clause) : Prop where
  ne_nil : cs ≠ []
  normal (c : Clause) : c ∈ cs → c.Normal
  counted (c : Clause) : c ∈ cs → c.Counted
  distinct : cs.Pairwise fun a b => ¬a.conditions.Perm b.conditions
  alone {c : Clause} : c ∈ cs → c.isNever = true → cs = [.never]

theorem offers_demands (hne : cs ≠ []) (hplain : ∀ c ∈ cs, c.Plain) :
    Offers cs (cs.map Clause.demand) :=
  ⟨hne, hplain, fun _ hc => List.mem_map_of_mem hc, fun hw => List.mem_map.1 hw⟩

theorem Tidy.represents (h : Tidy cs) : Represents cs (cs.map Clause.demand) where
  toOffers := offers_demands h.ne_nil fun c hc => (h.normal c hc).plain
  normal := h.normal
  alone := h.alone

theorem not_perm_of_sameConditions {a b : Clause} (h : b.sameConditions a = false) :
    ¬a.conditions.Perm b.conditions := by
  intro hperm
  have hsame : b.sameConditions a = true := List.isPerm_iff.2 hperm.symm
  exact absurd (hsame.symm.trans h) (by decide)

theorem tidy_normalized (hne : cs ≠ []) (hplain : ∀ c ∈ cs, c.Plain)
    (h : normalizeAlternatives cs = .ok out) : Tidy out := by
  obtain ⟨hfrom, -, -, hpair⟩ := foldlM_addAlternative h
  have hr := (offers_demands hne hplain).represents h
  refine ⟨hr.ne_nil, hr.normal, fun c' hc' => ?_, ?_, hr.alone⟩
  · obtain ⟨c, -, hn, -⟩ := (hfrom c' hc').resolve_left List.not_mem_nil
    exact Clause.counted_normalize hn
  · exact (hpair List.Pairwise.nil).imp not_perm_of_sameConditions

theorem tidy_term (name : String) : Tidy (termAlternatives name) := by
  have hr := represents_literal name
  obtain ⟨c, hc, hcounted⟩ : ∃ c, termAlternatives name = [c] ∧ c.Counted := by
    rw [termAlternatives]
    split
    · exact ⟨.always, rfl, Clause.counted_always⟩
    · rename_i ht
      split
      · exact ⟨.never, rfl, Clause.counted_never⟩
      · refine ⟨.single name 1, rfl, ?_⟩
        rw [Clause.single, if_neg (by simp [ht])]
        exact List.forall_mem_singleton.2 (by simp)
  rw [hc] at hr ⊢
  exact ⟨hr.ne_nil, hr.normal, List.forall_mem_singleton.2 hcounted, List.pairwise_singleton _ _,
    hr.alone⟩

theorem Tidy.plain (h : Tidy cs) (hc : c ∈ cs) : c.Plain := (h.normal c hc).plain

theorem Tidy.either (hl : Tidy cs) (hr : Tidy ds) (h : normalizeAlternatives (cs ++ ds) = .ok out) :
    Tidy out := by
  refine tidy_normalized (List.append_ne_nil_of_left_ne_nil hl.ne_nil ds) (fun c hc => ?_) h
  exact (List.mem_append.1 hc).elim hl.plain hr.plain

theorem Tidy.both (hl : Tidy cs) (hr : Tidy ds) (h : bothOf cs ds = .ok out) : Tidy out := by
  obtain ⟨merged, hmerged, h⟩ := bind_eq_ok h
  obtain ⟨hfrom, hto⟩ := mapM_eq_ok (mapError_eq_ok hmerged)
  obtain ⟨a, ha⟩ := List.exists_mem_of_ne_nil cs hl.ne_nil
  obtain ⟨b, hb⟩ := List.exists_mem_of_ne_nil ds hr.ne_nil
  obtain ⟨c, hc, -⟩ := hto ⟨a.conditions ++ b.conditions⟩
    (List.mem_flatMap.2 ⟨a, ha, List.mem_map_of_mem hb⟩)
  refine tidy_normalized (List.ne_nil_of_mem hc) (fun c hc => ?_) (normalized_eq_ok h)
  obtain ⟨p, hp, hn⟩ := hfrom c hc
  obtain ⟨a, ha, hp⟩ := List.mem_flatMap.1 hp
  obtain ⟨b, hb, rfl⟩ := List.mem_map.1 hp
  exact (Clause.normalize_eq_ok hn (plain_append (hl.plain ha) (hr.plain hb))).1.plain

theorem Tidy.times (hr : Tidy cs) (h : scaleAll n cs = .ok out) : Tidy out := by
  obtain ⟨scaled, hscaled, h⟩ := bind_eq_ok h
  obtain ⟨hfrom, hto⟩ := mapM_eq_ok hscaled
  obtain ⟨c, hc⟩ := List.exists_mem_of_ne_nil cs hr.ne_nil
  obtain ⟨c', hc', -⟩ := hto c hc
  refine tidy_normalized (List.ne_nil_of_mem hc') (fun c' hc' => ?_) (normalized_eq_ok h)
  obtain ⟨c, hc, hs⟩ := hfrom c' hc'
  exact (scale_eq_ok (hr.plain hc) hs).1

def Value.Tidy : Value → Prop
  | .int _ => True
  | .alternatives cs => WorldShuffle.Tidy cs

theorem Operator.apply_tidy {o : Operator} {l r v : Value} (hl : l.Tidy) (hr : r.Tidy)
    (h : o.apply l r = .ok v) : v.Tidy := by
  cases o with
  | times =>
    cases l with
    | alternatives cs => cases h
    | int n =>
      cases r with
      | int m => cases h
      | alternatives cs =>
        obtain ⟨out, hout, rfl⟩ := map_eq_ok h
        exact WorldShuffle.Tidy.times hr hout
  | both =>
    cases l with
    | int n => cases h
    | alternatives cs =>
      cases r with
      | int m => cases h
      | alternatives ds =>
        obtain ⟨out, hout, rfl⟩ := map_eq_ok h
        exact WorldShuffle.Tidy.both hl hr hout
  | either =>
    cases l with
    | int n => cases h
    | alternatives cs =>
      cases r with
      | int m => cases h
      | alternatives ds =>
        obtain ⟨out, hout, rfl⟩ := map_eq_ok h
        exact WorldShuffle.Tidy.either hl hr (normalized_eq_ok hout)

theorem Expr.value_tidy {e : Expr} {v : Value} (h : e.value = .ok v) : v.Tidy := by
  induction e generalizing v with
  | term name =>
    obtain rfl := Except.ok.inj h
    exact tidy_term name
  | int n =>
    obtain rfl := Except.ok.inj h
    trivial
  | op o l r ihl ihr =>
    obtain ⟨v₁, hl, h⟩ := bind_eq_ok h
    obtain ⟨v₂, hr, h⟩ := bind_eq_ok h
    exact o.apply_tidy (ihl hl) (ihr hr) h

theorem compileExpression_tidy {macros : MacroTable} {skips : Skips} {ts : List Token}
    (h : compileExpression macros skips ts = .ok cs) : Tidy cs := by
  obtain ⟨us, e, -, -, hv⟩ := compileExpression_iff.1 h
  exact e.value_tidy hv

section fixpoints

theorem Tidy.sublist (h : Tidy cs) (hs : ds.Sublist cs) (hne : ds ≠ []) : Tidy ds where
  ne_nil := hne
  normal c hc := h.normal c (hs.subset hc)
  counted c hc := h.counted c (hs.subset hc)
  distinct := h.distinct.sublist hs
  alone {c} hc hn := by
    rw [h.alone (hs.subset hc) hn] at hs
    exact (List.sublist_singleton.1 hs).resolve_left hne

theorem Clause.add_counted (hn : n ≠ 0) (ht : state ≠ trueState) (h : state ∉ c.names) :
    c.add state n = .ok ⟨c.conditions ++ [⟨state, n⟩]⟩ := by
  rw [add, if_neg (not_or.2 ⟨hn, ht⟩), mergeCondition_new h]
  rfl

theorem Clause.add_all_counted {ds : List Condition} (hplain : trueState ∉ ds.map Condition.state)
    (hcounted : ∀ d ∈ ds, d.count ≠ 0) (h : (c.names ++ ds.map Condition.state).Nodup) :
    ds.foldlM (fun out d => out.add d.state d.count) c = .ok ⟨c.conditions ++ ds⟩ := by
  induction ds generalizing c with
  | nil =>
    rw [List.append_nil]
    rfl
  | cons d ds ih =>
    rw [List.map_cons, List.mem_cons, not_or] at hplain
    rw [List.map_cons, List.append_cons] at h
    obtain ⟨hd, hcounted⟩ := List.forall_mem_cons.1 hcounted
    have hnew : d.state ∉ c.names :=
      fun hd => (List.nodup_append.1 (List.nodup_append.1 h).1).2.2 _ hd _ (by simp) rfl
    have hnames : (Clause.mk (c.conditions ++ [d])).names = c.names ++ [d.state] := List.map_append
    rw [List.foldlM_cons, add_counted hd (Ne.symm hplain.1) hnew]
    refine (ih hplain.2 hcounted (hnames ▸ h)).trans ?_
    rw [List.append_assoc]
    rfl

theorem Clause.Normal.normalize (hc : c.Normal) (hcounted : c.Counted) : c.normalize = .ok c := by
  rw [Clause.normalize]
  split
  · rw [hc.never ‹_›]
  · exact Clause.add_all_counted hc.plain hcounted hc.nodup

theorem addAlternative_new {possible : Bool} (hc : c.normalize = .ok c)
    (hpossible : (possible && c.isNever) = false) (hnew : ∀ d ∈ out, ¬d.conditions.Perm c.conditions) :
    addAlternative possible out c = .ok (out ++ [c]) := by
  have hany : out.any c.sameConditions = false :=
    List.any_eq_false.2 fun d hd hsame => hnew d hd (List.isPerm_iff.1 hsame).symm
  rw [addAlternative, hc]
  change (if (possible && c.isNever || out.any c.sameConditions) = true then _ else _) = _
  rw [hpossible, hany]
  rfl

theorem foldlM_addAlternative_new {possible : Bool} (hcs : ∀ c ∈ cs, c.normalize = .ok c)
    (hpossible : ∀ c ∈ cs, (possible && c.isNever) = false)
    (hnew : (out ++ cs).Pairwise fun a b => ¬a.conditions.Perm b.conditions) :
    cs.foldlM (addAlternative possible) out = .ok (out ++ cs) := by
  induction cs generalizing out with
  | nil =>
    rw [List.append_nil]
    rfl
  | cons c cs ih =>
    obtain ⟨hc, hcs⟩ := List.forall_mem_cons.1 hcs
    obtain ⟨hp, hpossible⟩ := List.forall_mem_cons.1 hpossible
    have hlater : ∀ d ∈ out, ¬d.conditions.Perm c.conditions :=
      fun d hd => (List.pairwise_append.1 hnew).2.2 d hd c List.mem_cons_self
    rw [List.foldlM_cons, addAlternative_new hc hp hlater]
    rw [List.append_cons] at hnew
    exact (ih hcs hpossible hnew).trans (by rw [List.append_assoc]; rfl)

theorem Tidy.normalizeAlternatives (h : Tidy cs) : normalizeAlternatives cs = .ok cs := by
  refine foldlM_addAlternative_new (fun c hc => (h.normal c hc).normalize (h.counted c hc)) ?_
    h.distinct
  intro c hc
  cases hn : c.isNever with
  | false => exact Bool.and_false _
  | true =>
    rw [h.alone hc hn]
    rfl

theorem foldlM_addAlternative_again {possible : Bool}
    (h : cs.foldlM (addAlternative possible) [] = .ok out) :
    out.foldlM (addAlternative possible) [] = .ok out := by
  obtain ⟨hfrom, -, -, hpair⟩ := foldlM_addAlternative h
  have hkept : ∀ c' ∈ out, c'.normalize = .ok c' ∧ (possible && c'.isNever) = false := by
    intro c' hc'
    obtain ⟨c, -, hn, hp⟩ := (hfrom c' hc').resolve_left List.not_mem_nil
    exact ⟨(Clause.normal_normalize hn).normalize (Clause.counted_normalize hn), hp⟩
  exact foldlM_addAlternative_new (fun c hc => (hkept c hc).1) (fun c hc => (hkept c hc).2)
    ((hpair List.Pairwise.nil).imp not_perm_of_sameConditions)

theorem normalizeAlternatives_again (h : normalizeAlternatives cs = .ok out) :
    normalizeAlternatives out = .ok out := by
  rw [normalizeAlternatives, any_possible_normalized h]
  exact foldlM_addAlternative_again h

end fixpoints

section portions

variable {possible : Bool} {old : List Clause} {c₁ : Clause}

theorem addAlternative_absorbed (hc : c.normalize = .ok c₁)
    (h : (possible && c₁.isNever) = true ∨ ∃ d ∈ out, c₁.sameConditions d = true) :
    addAlternative possible out c = .ok out := by
  have hskip : (possible && c₁.isNever || out.any c₁.sameConditions) = true := by
    rwa [Bool.or_eq_true, List.any_eq_true]
  rw [addAlternative, hc]
  change (if (possible && c₁.isNever || out.any c₁.sameConditions) = true then _ else _) = _
  rw [if_pos hskip]
  rfl

theorem foldlM_addAlternative_absorbed (h : ∀ c ∈ cs, ∃ c₁, c.normalize = .ok c₁ ∧
      ((possible && c₁.isNever) = true ∨ ∃ d ∈ out, c₁.sameConditions d = true)) :
    cs.foldlM (addAlternative possible) out = .ok out := by
  induction cs with
  | nil => rfl
  | cons c cs ih =>
    obtain ⟨⟨c₁, hc, habsorbed⟩, h⟩ := List.forall_mem_cons.1 h
    rw [List.foldlM_cons, addAlternative_absorbed hc habsorbed]
    exact ih h

/-- Where an alternative is possible, impossible ones leave nothing behind. -/
theorem foldlM_addAlternative_never (h : ∀ c ∈ cs, ∃ c₁, c.normalize = .ok c₁)
    (hnever : cs.any (!·.isNever) = false) :
    cs.foldlM (addAlternative true) out = .ok out := by
  refine foldlM_addAlternative_absorbed fun c hc => ?_
  obtain ⟨c₁, hn⟩ := h c hc
  refine ⟨c₁, hn, Or.inl ?_⟩
  rw [Clause.isNever_normalize hn]
  simpa using List.any_eq_false.1 hnever c hc

/-- What a portion was normalized to stands for the portion, whatever else is added. Where the whole
is possible and the portion is not, both leave nothing behind. -/
theorem normalizeAlternatives_append (h : normalizeAlternatives old = .ok out) (cs : List Clause) :
    normalizeAlternatives (out ++ cs) = normalizeAlternatives (old ++ cs) := by
  have hsame := any_possible_normalized h
  have hfirst : out.foldlM (addAlternative ((old ++ cs).any (!·.isNever))) [] =
      old.foldlM (addAlternative ((old ++ cs).any (!·.isNever))) [] := by
    rw [List.any_append]
    cases hold : old.any (!·.isNever) with
    | true =>
      rw [normalizeAlternatives, hold] at h
      exact (foldlM_addAlternative_again h).trans h.symm
    | false =>
      rw [hold] at hsame
      rw [Bool.false_or]
      cases cs.any (!·.isNever) with
      | false =>
        rw [normalizeAlternatives, hold] at h
        exact (foldlM_addAlternative_again h).trans h.symm
      | true =>
        have hout := normalizeAlternatives_again h
        rw [foldlM_addAlternative_never (exists_normalizeAlternatives.1 ⟨out, h⟩) hold,
          foldlM_addAlternative_never (exists_normalizeAlternatives.1 ⟨out, hout⟩) hsame]
  rw [normalizeAlternatives, normalizeAlternatives, List.foldlM_append, List.foldlM_append]
  rw [List.any_append, hsame, ← List.any_append, hfirst]

/-- Alternatives that have been added once make no difference when they are added again. -/
theorem normalizeAlternatives_absorbs (h : normalizeAlternatives (old ++ cs) = .ok out) :
    normalizeAlternatives (out ++ cs) = .ok out := by
  obtain ⟨-, -, hall, -⟩ := foldlM_addAlternative h
  have hpossible : (old ++ cs ++ cs).any (!·.isNever) = (old ++ cs).any (!·.isNever) := by
    rw [List.any_append, List.any_append, Bool.or_assoc, Bool.or_self]
  rw [normalizeAlternatives_append h cs, normalizeAlternatives, hpossible, List.foldlM_append]
  change ((normalizeAlternatives (old ++ cs)).bind fun out => _) = _
  rw [h]
  exact foldlM_addAlternative_absorbed fun c hc => hall c (List.mem_append_right old hc)

end portions

end WorldShuffle

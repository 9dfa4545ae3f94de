import Mathlib
import WorldShuffle.Proofs.PatternMeanings

namespace WorldShuffle

namespace Layer

variable {l : Layer} {cs : List Clause}

theorem Tidy.insertAll_get (h : l.Tidy) (hcs : WorldShuffle.Tidy cs) (scene : SceneId)
    (es : List Nat) :
    ∃ l', Layer.insertAll scene cs es l = (l', none) ∧ l'.Tidy ∧ ∀ e,
      (e ∈ es → normalizeAlternatives (l.get e ++ cs) = .ok (l'.get e)) ∧
      (e ∉ es → l'.get e = l.get e) := by
  induction es generalizing l with
  | nil => exact ⟨l, rfl, h, fun e => ⟨nofun, fun _ => rfl⟩⟩
  | cons e₀ es ih =>
    obtain ⟨cs', htidy, hout, hinsert⟩ := h.insert hcs scene e₀
    have hput : (l.put scene e₀ cs').Tidy := h.put htidy
    obtain ⟨l', hl', hl'tidy, hget⟩ := ih hput
    refine ⟨l', ?_, hl'tidy, fun e => ?_⟩
    · rw [Layer.insertAll, hinsert]
      exact hl'
    · obtain ⟨hin, hnot⟩ := hget e
      rw [get_put] at hin hnot
      by_cases he : e = e₀
      · subst he
        rw [if_pos rfl] at hin hnot
        have hsame : l'.get e = cs' := by
          by_cases hmem : e ∈ es
          · have hagain := normalizeAlternatives_absorbs hout
            exact Except.ok.inj ((hin hmem).symm.trans hagain)
          · exact hnot hmem
        exact ⟨fun _ => hsame ▸ hout, fun hmem => absurd List.mem_cons_self hmem⟩
      · rw [if_neg he] at hin hnot
        refine ⟨fun hmem => hin ((List.mem_cons.1 hmem).resolve_left he), fun hmem => hnot ?_⟩
        exact fun hes => hmem (List.mem_cons_of_mem e₀ hes)

end Layer

section edges

variable {t : Topology} {groups : Groups} {scene : SceneId} {F T : Pattern} {A B : Set Nat}
  {sources targets es : List Nat} {a b e : Nat} {r : Rule}

def Topology.Crosses (t : Topology) (A B : Set Nat) (e : Nat) : Prop :=
  ∃ edge, t.edges[e]? = some edge ∧ edge.kind = .inner ∧ edge.source ≠ edge.target ∧
    edge.source ∈ A ∧ edge.target ∈ B

theorem Topology.Loaded.mem_edgesBetween (ht : t.Loaded) :
    e ∈ t.edgesBetween a b ↔
      ∃ edge, t.edges[e]? = some edge ∧ edge.kind = .inner ∧ edge.source = a ∧ edge.target = b := by
  rw [edgesBetween, List.mem_filter, ht.linked.sound.mem_out, Bool.and_eq_true, beq_iff_eq, isKind,
    target?]
  constructor
  · rintro ⟨⟨edge, hedge, hsource⟩, hkind, htarget⟩
    rw [hedge] at hkind htarget
    exact ⟨edge, hedge, of_decide_eq_true hkind, hsource, Option.some.inj htarget⟩
  · rintro ⟨edge, hedge, hkind, hsource, htarget⟩
    rw [hedge]
    exact ⟨⟨edge, rfl, hsource⟩, decide_eq_true hkind, congrArg some htarget⟩

def Topology.edgesAmong (t : Topology) (sources targets : List Nat) : List Nat :=
  sources.flatMap fun a => targets.flatMap fun b => if a = b then [] else t.edgesBetween a b

theorem Topology.Loaded.mem_edgesAmong (ht : t.Loaded) :
    e ∈ t.edgesAmong sources targets ↔ t.Crosses {n | n ∈ sources} {n | n ∈ targets} e := by
  simp only [edgesAmong, List.mem_flatMap]
  constructor
  · rintro ⟨a, ha, b, hb, he⟩
    split at he
    · cases he
    · obtain ⟨edge, hedge, hkind, rfl, rfl⟩ := ht.mem_edgesBetween.1 he
      exact ⟨edge, hedge, hkind, ‹_›, ha, hb⟩
  · rintro ⟨edge, hedge, hkind, hne, hsource, htarget⟩
    refine ⟨edge.source, hsource, edge.target, htarget, ?_⟩
    rw [if_neg hne]
    exact ht.mem_edgesBetween.2 ⟨edge, hedge, hkind, rfl, rfl⟩

def Joins (t : Topology) (scene : SceneId) (F T : Pattern) : Prop :=
  ∀ a b, F = .exact a → T = .exact b →
    ∃ e, t.Crosses (t.nodesWith scene (· = a)) (t.nodesWith scene (· = b)) e

theorem resolveEdges_eq_ok (hF : F.resolve t groups scene (maxNesting + 1) = .ok sources)
    (hT : T.resolve t groups scene (maxNesting + 1) = .ok targets)
    (h : ∀ a b, F = .exact a → T = .exact b → t.edgesAmong sources targets ≠ []) :
    resolveEdges t groups scene F T = .ok (t.edgesAmong sources targets) := by
  rw [resolveEdges, hF, hT]
  dsimp only [Except.mapError, bind, Except.bind]
  split
  · exact if_neg fun hnil => h _ _ rfl rfl (List.isEmpty_iff.1 hnil)
  · rfl

theorem resolveEdges_eq_error {x y : String}
    (hF : (Pattern.exact x).resolve t groups scene (maxNesting + 1) = .ok sources)
    (hT : (Pattern.exact y).resolve t groups scene (maxNesting + 1) = .ok targets)
    (h : t.edgesAmong sources targets = []) :
    resolveEdges t groups scene (.exact x) (.exact y) = .error (.noEdge x y scene) := by
  rw [resolveEdges, hF, hT]
  dsimp only [Except.mapError, bind, Except.bind]
  exact if_pos (List.isEmpty_iff.2 h)

theorem resolveEdges_inv (h : resolveEdges t groups scene F T = .ok es) :
    ∃ sources targets, F.resolve t groups scene (maxNesting + 1) = .ok sources ∧
      T.resolve t groups scene (maxNesting + 1) = .ok targets ∧ es = t.edgesAmong sources targets ∧
      ∀ a b, F = .exact a → T = .exact b → es ≠ [] := by
  obtain ⟨sources, hF, h'⟩ := bind_eq_ok h
  obtain ⟨targets, hT, -⟩ := bind_eq_ok h'
  have hF := mapError_eq_ok hF
  have hT := mapError_eq_ok hT
  by_cases hplain : ∀ a b, F = .exact a → T = .exact b → t.edgesAmong sources targets ≠ []
  · obtain rfl := Except.ok.inj ((resolveEdges_eq_ok hF hT hplain).symm.trans h)
    exact ⟨sources, targets, hF, hT, rfl, hplain⟩
  · push Not at hplain
    obtain ⟨a, b, rfl, rfl, hnil⟩ := hplain
    rw [resolveEdges_eq_error hF hT hnil] at h
    cases h

theorem joins_iff (hF : Describes t groups scene F A) (hT : Describes t groups scene T B) :
    Joins t scene F T ↔ ∀ a b, F = .exact a → T = .exact b → ∃ e, t.Crosses A B e := by
  constructor
  · rintro h a b rfl rfl
    cases hF
    cases hT
    exact h a b rfl rfl
  · rintro h a b rfl rfl
    cases hF
    cases hT
    exact h a b rfl rfl

theorem mem_resolveEdges (ht : t.Loaded) (h : resolveEdges t groups scene F T = .ok es)
    (hF : Describes t groups scene F A) (hT : Describes t groups scene T B) :
    e ∈ es ↔ t.Crosses A B e := by
  obtain ⟨sources, targets, hsources, htargets, rfl, -⟩ := resolveEdges_inv h
  rw [ht.mem_edgesAmong, hF.unique (Pattern.describes_of_resolve ht.filed hsources),
    hT.unique (Pattern.describes_of_resolve ht.filed htargets)]

theorem resolveEdges_exists (ht : t.Loaded) : (∃ es, resolveEdges t groups scene F T = .ok es) ↔
    Shallow t groups scene (maxNesting + 1) F ∧ Shallow t groups scene (maxNesting + 1) T ∧
      Joins t scene F T := by
  constructor
  · rintro ⟨es, h⟩
    obtain ⟨sources, targets, hsources, htargets, -, hplain⟩ := resolveEdges_inv h
    have hF := Pattern.describes_of_resolve ht.filed hsources
    have hT := Pattern.describes_of_resolve ht.filed htargets
    refine ⟨(Pattern.resolve_exists ht.filed).1 ⟨sources, hsources⟩,
      (Pattern.resolve_exists ht.filed).1 ⟨targets, htargets⟩,
      (joins_iff hF hT).2 fun a b ha hb => ?_⟩
    obtain ⟨e, he⟩ := List.exists_mem_of_ne_nil es (hplain a b ha hb)
    exact ⟨e, (mem_resolveEdges ht h hF hT).1 he⟩
  · rintro ⟨hF, hT, hjoins⟩
    obtain ⟨sources, hsources⟩ := (Pattern.resolve_exists ht.filed).2 hF
    obtain ⟨targets, htargets⟩ := (Pattern.resolve_exists ht.filed).2 hT
    refine ⟨_, resolveEdges_eq_ok hsources htargets fun a b ha hb => ?_⟩
    obtain ⟨e, he⟩ := (joins_iff (Pattern.describes_of_resolve ht.filed hsources)
      (Pattern.describes_of_resolve ht.filed htargets)).1 hjoins a b ha hb
    exact List.ne_nil_of_mem (ht.mem_edgesAmong.2 he)

theorem Rule.mem_edges (ht : t.Loaded) (h : r.edges t groups scene = .ok es)
    (hF : Describes t groups scene r.source A) (hT : Describes t groups scene r.target B) :
    e ∈ es ↔ t.Crosses A B e ∨ r.twoWay = true ∧ t.Crosses B A e := by
  obtain ⟨there, hthere, h⟩ := bind_eq_ok h
  rw [← mem_resolveEdges ht hthere hF hT]
  split at h
  · rename_i htwo
    obtain ⟨back, hback, h⟩ := bind_eq_ok h
    obtain rfl := Except.ok.inj h
    rw [← mem_resolveEdges ht hback hT hF, List.mem_append, htwo]
    simp only [true_and]
  · rename_i hone
    obtain rfl := Except.ok.inj h
    exact (or_iff_left fun hback => hone hback.1).symm

theorem Rule.edges_exists (ht : t.Loaded) : (∃ es, r.edges t groups scene = .ok es) ↔
    Shallow t groups scene (maxNesting + 1) r.source ∧
      Shallow t groups scene (maxNesting + 1) r.target ∧ Joins t scene r.source r.target ∧
      (r.twoWay = true → Joins t scene r.target r.source) := by
  constructor
  · rintro ⟨es, h⟩
    obtain ⟨there, hthere, h⟩ := bind_eq_ok h
    obtain ⟨hF, hT, hjoins⟩ := (resolveEdges_exists ht).1 ⟨there, hthere⟩
    refine ⟨hF, hT, hjoins, fun htwo => ?_⟩
    rw [if_pos htwo] at h
    obtain ⟨back, hback, -⟩ := bind_eq_ok h
    exact ((resolveEdges_exists ht).1 ⟨back, hback⟩).2.2
  · rintro ⟨hF, hT, hjoins, hback⟩
    obtain ⟨there, hthere⟩ := (resolveEdges_exists ht).2 ⟨hF, hT, hjoins⟩
    cases htwo : r.twoWay with
    | false => exact ⟨there, by rw [Rule.edges, hthere, htwo]; rfl⟩
    | true =>
      obtain ⟨back, hback⟩ := (resolveEdges_exists ht).2 ⟨hT, hF, hback htwo⟩
      exact ⟨there ++ back, by rw [Rule.edges, hthere, htwo, hback]; rfl⟩

end edges

namespace Rulebook

variable {v : Vocabulary} {b : Rulebook} {W : List Char → Pattern → Prop} {F T : Pattern}
  {fs us es : List Token} {a : Token} {cs : List Clause} {scene : SceneId}

def ruleSign (twoWay : Bool) : Token := if twoWay then .twoWay else .arrow

theorem isArrow_ruleSign (twoWay : Bool) : isArrow (ruleSign twoWay) = true := by
  cases twoWay <;> rfl

theorem addStatement_rule (v : Vocabulary) (b : Rulebook) (hF : Notates W fs F)
    (ha : isArrow a = true) (us : List Token) :
    b.addStatement v (fs ++ a :: us) = b.addRule v (fs ++ a :: us) := by
  have hmem : a ∈ fs ++ a :: us := List.mem_append_right fs List.mem_cons_self
  refine (addStatement_arrow v b ha hmem).resolve_left ?_
  rintro ⟨name, rest, heq, -⟩
  cases hF with
  | not _ => cases heq
  | group _ =>
    obtain ⟨-, heq⟩ := List.cons.inj heq
    rw [(List.cons.inj heq).1] at ha
    cases ha
  | word _ => cases heq

theorem no_sign (hF : Notates W fs F) {t : Token} (ht : t ∈ fs) : isArrow t = false ∧ t ≠ .colon := by
  rcases hF.mem ht with rfl | ⟨name, rfl⟩ | ⟨word, rfl⟩ <;> exact ⟨rfl, nofun⟩

theorem ofTokens_iff {r : Rule} {twoWay : Bool} (hF : Pattern.ofTokens fs = .ok F)
    (hT : Pattern.ofTokens us = .ok T) :
    Rule.ofTokens v (fs ++ ruleSign twoWay :: (us ++ .colon :: es)) = .ok r ↔
      ∃ cs, compileExpression v.macros v.skips es = .ok cs ∧ r = ⟨F, T, twoWay, cs⟩ := by
  have hfs : ∀ t ∈ fs, isArrow t = false ∧ t ≠ .colon :=
    fun t ht => no_sign (Pattern.ofTokens_eq_ok.1 hF) ht
  have hus : .colon ∉ us := fun ht => (no_sign (Pattern.ofTokens_eq_ok.1 hT) ht).2 rfl
  have hsign : (ruleSign twoWay == .twoWay) = twoWay := by cases twoWay <;> rfl
  rw [Rule.ofTokens_rule v es (isArrow_ruleSign twoWay) hfs hus, hF, hT, hsign]
  cases es with
  | nil =>
    -- an empty expression compiles to nothing either
    refine iff_of_false nofun ?_
    rintro ⟨cs, hcs, -⟩
    cases hcs
  | cons e es =>
    cases compileExpression v.macros v.skips (e :: es) with
    | error err => exact iff_of_false nofun nofun
    | ok cs =>
      constructor
      · intro h
        exact ⟨cs, rfl, (Except.ok.inj h).symm⟩
      · rintro ⟨cs', hcs, rfl⟩
        obtain rfl := Except.ok.inj hcs
        rfl

theorem rule_iff {edges : List Nat} {twoWay : Bool} (hF : Pattern.ofTokens fs = .ok F)
    (hT : Pattern.ofTokens us = .ok T) :
    b.rule v (fs ++ ruleSign twoWay :: (us ++ .colon :: es)) = .ok (scene, edges, cs) ↔
      b.scene = some scene ∧ compileExpression v.macros v.skips es = .ok cs ∧
        (Rule.mk F T twoWay cs).edges v.topology b.groups scene = .ok edges := by
  constructor
  · intro h
    obtain ⟨r, hscene, hr, hedges, rfl⟩ := rule_eq_ok h
    obtain ⟨cs, hcs, rfl⟩ := (ofTokens_iff hF hT).1 hr
    exact ⟨hscene, hcs, hedges⟩
  · rintro ⟨hscene, hcs, hedges⟩
    rw [rule, hscene]
    dsimp only
    rw [(ofTokens_iff hF hT).2 ⟨cs, hcs, rfl⟩]
    change (do return (scene, ← (Rule.mk F T twoWay cs).edges v.topology b.groups scene, cs)) = _
    rw [hedges]
    rfl

/-- On a tidy layer, a rule that can be read is carried out on all its edges. -/
theorem addRule_eq_ok {edges : List Nat} (hb : b.layer.Tidy)
    (h : b.rule v fs = .ok (scene, edges, cs)) :
    ∃ l', b.addRule v fs = ({ b with layer := l' }, none) ∧ l'.Tidy ∧ ∀ e,
      (e ∈ edges → normalizeAlternatives (b.layer.get e ++ cs) = .ok (l'.get e)) ∧
      (e ∉ edges → l'.get e = b.layer.get e) := by
  obtain ⟨l', hl', htidy, hget⟩ := hb.insertAll_get (rule_tidy h) scene edges
  refine ⟨l', ?_, htidy, hget⟩
  rw [addRule, h]
  dsimp only
  rw [hl']
  rfl

theorem addRule_cases (v : Vocabulary) (hb : b.layer.Tidy) (ts : List Token) :
    ((b.addRule v ts).2 ≠ none ∧ (b.addRule v ts).1 = b ∧
        ∀ scene edges cs, b.rule v ts ≠ .ok (scene, edges, cs)) ∨
      (b.addRule v ts).2 = none ∧ ∃ scene edges cs, b.rule v ts = .ok (scene, edges, cs) := by
  cases hrule : b.rule v ts with
  | error err =>
    rw [addRule, hrule]
    refine Or.inl ⟨Option.some_ne_none _, rfl, ?_⟩
    rintro scene edges cs ⟨⟩
  | ok parts =>
    obtain ⟨scene, edges, cs⟩ := parts
    obtain ⟨l', hadd, -, -⟩ := addRule_eq_ok hb hrule
    exact Or.inr ⟨congrArg Prod.snd hadd, scene, edges, cs, rfl⟩

/-- A rule between two patterns is accepted just when a scene is active, its expression compiles, no
unknown name or group is in the patterns and nothing below sixteen levels, and plain names have an edge
in each direction asked for. Then each pattern stands for one set of nodes, and the rule adds its
alternatives once to the inner edges from a node of the first set to a different one of the second, for
a two-way rule also to those back, and to no other edge. A rule that is not accepted changes nothing. -/
theorem rule_exact (ht : v.topology.Loaded) (hb : b.layer.Tidy) (hF : Pattern.ofTokens fs = .ok F)
    (hT : Pattern.ofTokens us = .ok T) (twoWay : Bool) (es : List Token) :
    let result := b.addStatement v (fs ++ ruleSign twoWay :: (us ++ .colon :: es))
    (result.2 ≠ none → result.1 = b) ∧
    (result.2 = none ↔ ∃ scene cs, b.scene = some scene ∧
      compileExpression v.macros v.skips es = .ok cs ∧
      Shallow v.topology b.groups scene (maxNesting + 1) F ∧
      Shallow v.topology b.groups scene (maxNesting + 1) T ∧
      Joins v.topology scene F T ∧ (twoWay = true → Joins v.topology scene T F)) ∧
    (result.2 = none → ∀ scene cs, b.scene = some scene →
      compileExpression v.macros v.skips es = .ok cs → ∃ A B,
      Describes v.topology b.groups scene F A ∧
      (∀ A', Describes v.topology b.groups scene F A' → A' = A) ∧
      Describes v.topology b.groups scene T B ∧
      (∀ B', Describes v.topology b.groups scene T B' → B' = B) ∧
      result.1 = { b with layer := result.1.layer } ∧ result.1.layer.Tidy ∧ ∀ e,
        (v.topology.Crosses A B e ∨ twoWay = true ∧ v.topology.Crosses B A e →
          normalizeAlternatives (b.layer.get e ++ cs) = .ok (result.1.layer.get e)) ∧
        (¬(v.topology.Crosses A B e ∨ twoWay = true ∧ v.topology.Crosses B A e) →
          result.1.layer.get e = b.layer.get e)) := by
  intro result
  have hresult : result = b.addRule v (fs ++ ruleSign twoWay :: (us ++ .colon :: es)) :=
    addStatement_rule v b (Pattern.ofTokens_eq_ok.1 hF) (isArrow_ruleSign twoWay) _
  rcases addRule_cases v hb (fs ++ ruleSign twoWay :: (us ++ .colon :: es)) with
    ⟨hfails, hsame, hno⟩ | ⟨hok, scene, edges, cs, hrule⟩
  · rw [← hresult] at hfails hsame
    refine ⟨fun _ => hsame, iff_of_false hfails ?_, fun hok => absurd hok hfails⟩
    rintro ⟨scene, cs, hscene, hcs, hedges⟩
    obtain ⟨edges, hedges⟩ := (Rule.edges_exists ht (r := ⟨F, T, twoWay, cs⟩)).2 hedges
    exact hno scene edges cs ((rule_iff hF hT).2 ⟨hscene, hcs, hedges⟩)
  · rw [← hresult] at hok
    obtain ⟨hscene, hcs, hedges⟩ := (rule_iff hF hT).1 hrule
    refine ⟨fun hfails => absurd hok hfails, iff_of_true hok ⟨scene, cs, hscene, hcs,
      (Rule.edges_exists ht).1 ⟨edges, hedges⟩⟩, fun _ scene' cs' hscene' hcs' => ?_⟩
    obtain rfl := Option.some.inj (hscene.symm.trans hscene')
    obtain rfl := Except.ok.inj (hcs.symm.trans hcs')
    obtain ⟨l', hadd, htidy, hget⟩ := addRule_eq_ok hb hrule
    obtain ⟨hsF, hsT, -, -⟩ := (Rule.edges_exists ht).1 ⟨edges, hedges⟩
    obtain ⟨sources, hsources⟩ := (Pattern.resolve_exists ht.filed).2 hsF
    obtain ⟨targets, htargets⟩ := (Pattern.resolve_exists ht.filed).2 hsT
    have hA := Pattern.describes_of_resolve ht.filed hsources
    have hB := Pattern.describes_of_resolve ht.filed htargets
    rw [hresult, hadd]
    refine ⟨_, _, hA, fun A' => hA.unique, hB, fun B' => hB.unique, rfl, htidy, fun e => ?_⟩
    rw [← Rule.mem_edges ht hedges hA hB]
    exact hget e

def othersRulebook : Rulebook where
  scene := some 0
  groups := Table.set {} (0, "Others") [.not (.exact "Key")]
  layer := { name := "base" }

def othersRule : List Token := [.ident "Key", .arrow, .group "Others", .colon, .ident "Oil"]

theorem rule_exact_others :
    let result := othersRulebook.addStatement twoRoomsWords othersRule
    result.2 = none ∧ result.1.layer.get 0 = [.single "Oil" 1] ∧ ∃ A B,
      Describes twoRooms othersRulebook.groups 0 (.exact "Key") A ∧
      Describes twoRooms othersRulebook.groups 0 (.group "Others") B ∧
      ∀ e, ¬twoRooms.Crosses A B e → result.1.layer.get e = [] := by
  intro result
  have hF : Pattern.ofTokens [.ident "Key"] = .ok (.exact "Key") := by cbv
  have hT : Pattern.ofTokens [.group "Others"] = .ok (.group "Others") := rfl
  obtain ⟨-, -, heffect⟩ := rule_exact loaded_twoRooms (Layer.tidy_empty "base") hF hT false
    [.ident "Oil"] (v := twoRoomsWords) (b := othersRulebook)
  have hok : (othersRulebook.addStatement twoRoomsWords othersRule).2 = none := by cbv
  have hoil : (othersRulebook.addStatement twoRoomsWords othersRule).1.layer.get 0 =
      [.single "Oil" 1] := by cbv
  obtain ⟨A, B, hA, -, hB, -, -, -, hget⟩ := heffect hok 0 [.single "Oil" 1] rfl (by cbv)
  refine ⟨hok, hoil, A, B, hA, hB, fun e he => (hget e).2 ?_⟩
  rintro (hcrosses | ⟨htwo, -⟩)
  · exact he hcrosses
  · cases htwo

end Rulebook

end WorldShuffle

import WorldShuffle.Proofs.Easing
import WorldShuffle.Proofs.Statements
import WorldShuffle.Proofs.WiderGates
import WorldShuffle.Settings.Basic

namespace WorldShuffle

section settings

variable {s s' : Settings} {m : MacroTable} {name : String}

structure SkipSetting.Eases (k k' : SkipSetting) : Prop where
  name : k.name = k'.name
  enabled : k.enabled = true → k'.enabled = true

theorem rel_get?_set {α : Type} {R : α → α → Prop} {t t' : Table String α} {a a' : α}
    (h : ∀ name, Option.Rel R (t.get? name) (t'.get? name)) (ha : R a a') (key name : String) :
    Option.Rel R ((t.set key a).get? name) ((t'.set key a').get? name) := by
  rw [Table.get?_set, Table.get?_set]
  split
  · exact Option.Rel.some ha
  · exact h name

theorem skipPredicate_eases (h : List.Forall₂ SkipSetting.Eases s.skips s'.skips) (name : String) :
    Option.Rel (· ≤ ·) (s.skipPredicate name) (s'.skipPredicate name) := by
  have htables : ∀ name, Option.Rel (· ≤ ·) (s.skipTable.get? name) (s'.skipTable.get? name) := by
    refine List.rel_foldl (P := fun t t' : Table String Bool => ∀ name,
      Option.Rel (· ≤ ·) (t.get? name) (t'.get? name)) ?_ (fun _ => Option.Rel.none) h
    intro t t' ht k k' hk name
    dsimp only
    rw [← hk.name]
    exact rel_get?_set ht (Bool.le_iff_imp.2 hk.enabled) k.name name
  exact htables name

theorem rel_isSome {α β : Type} {R : α → β → Prop} {a : Option α} {b : Option β}
    (h : Option.Rel R a b) : a.isSome = b.isSome := by
  cases h <;> rfl

/-- The same macros are bound under both, each to no less under the second. -/
theorem bindMacros_eases (h : List.Forall₂ SkipSetting.Eases s.skips s'.skips) (m : MacroTable)
    (name : String) : Option.Rel (List.Forall₂ Token.Eased) ((s.bindMacros m).get? name)
      ((s'.bindMacros m).get? name) := by
  have hsame : ∀ name, Option.Rel (List.Forall₂ Token.Eased) (m.get? name) (m.get? name) := by
    intro name
    cases m.get? name with
    | none => exact Option.Rel.none
    | some body => exact Option.Rel.some (List.forall₂_same.2 fun t _ => Token.Eased.refl t)
  have htables : ∀ name, Option.Rel (List.Forall₂ Token.Eased) ((s.bindMacros m).get? name)
      ((s'.bindMacros m).get? name) := by
    refine List.rel_foldl (P := fun m m' : MacroTable => ∀ name,
      Option.Rel (List.Forall₂ Token.Eased) (m.get? name) (m'.get? name)) ?_ hsame h
    intro m m' hm k k' hk
    dsimp only
    rw [← hk.name, ← rel_isSome (hm k.name)]
    split
    · exact rel_get?_set hm (List.Forall₂.cons
        (literalToken_eased (Bool.le_iff_imp.2 hk.enabled)) List.Forall₂.nil) k.name
    · exact hm
  exact htables name

theorem bindMacros_get?_none (s : Settings) (h : m.get? name = none) :
    (s.bindMacros m).get? name = none := by
  rw [Settings.bindMacros]
  induction s.skips generalizing m with
  | nil => exact h
  | cons k ks ih =>
    rw [List.foldl_cons]
    refine ih ?_
    split
    · rename_i hdefined
      have hne : name ≠ k.name := by
        rintro rfl
        rw [h] at hdefined
        cases hdefined
      rw [MacroTable.get?, MacroTable.bind, Table.get?_set, if_neg hne]
      exact h
    · exact h

theorem relaxes_of_skips (h : List.Forall₂ SkipSetting.Eases s.skips s'.skips)
    (hlit : KeepsLiterals m s.skipPredicate) :
    Relaxes (s.bindMacros m) s.skipPredicate (s'.bindMacros m) s'.skipPredicate where
  macros := bindMacros_eases h m
  skips := skipPredicate_eases h
  literals value := ⟨bindMacros_get?_none s (hlit value).1, (hlit value).2⟩

end settings

section layers

variable {l l' : Layer} {cs cs' ds ds' : List Clause} {scene : SceneId} {es : List Nat}

theorem offered_append {wants : String → Nat} :
    Offered (cs ++ ds) wants ↔ Offered cs wants ∨ Offered ds wants := by
  simp only [Offered, List.mem_append, or_and_right, exists_or]

theorem Covers.append (h : Covers cs' cs) (hd : Covers ds' ds) : Covers (cs' ++ ds') (cs ++ ds) :=
  fun wants hw => offered_append.2 ((offered_append.1 hw).imp (h wants) (hd wants))

/-- Compiled layers, of which the second leaves free what the first does, and offers at each edge what
the first offers there. -/
structure Layer.Eased (l l' : Layer) : Prop where
  tidy : l.Tidy
  tidy' : l'.Tidy
  free {e : Nat} : l.get e = [] → l'.get e = []
  covers (e : Nat) : Covers (l'.get e) (l.get e)

theorem Layer.eased_empty (name name' : String) : Layer.Eased { name } { name := name' } where
  tidy := Layer.tidy_empty name
  tidy' := Layer.tidy_empty name'
  free _ := rfl
  covers _ _ := id

/-- What is put on an edge offers what the edge had and what was added. -/
theorem Layer.Tidy.insert_offered (h : l.Tidy) (hcs : WorldShuffle.Tidy cs) (scene : SceneId) (e : Nat) :
    ∃ out, WorldShuffle.Tidy out ∧ l.insert scene e cs = (l.put scene e out, none) ∧
      ∀ wants, Offered out wants ↔ Offered (l.get e ++ cs) wants := by
  obtain ⟨out, hout, hnormalized, hinsert⟩ := h.insert hcs scene e
  exact ⟨out, hout, hinsert, fun _ =>
    offered_normalized (List.append_ne_nil_of_right_ne_nil _ hcs.ne_nil)
      (fun c hc => (h.normal_append hcs c hc).plain) hnormalized⟩

theorem Layer.Eased.insertAll (h : l.Eased l') (hcs : WorldShuffle.Tidy cs)
    (hcs' : WorldShuffle.Tidy cs') (hc : Covers cs' cs) :
    (Layer.insertAll scene cs es l).1.Eased (Layer.insertAll scene cs' es l').1 := by
  induction es generalizing l l' with
  | nil => exact h
  | cons e es ih =>
    obtain ⟨out, hout, hinsert, hoffered⟩ := h.tidy.insert_offered hcs scene e
    obtain ⟨out', hout', hinsert', hoffered'⟩ := h.tidy'.insert_offered hcs' scene e
    rw [Layer.insertAll, Layer.insertAll, hinsert, hinsert']
    refine ih ⟨h.tidy.put hout, h.tidy'.put hout', fun {e'} hnil => ?_, fun e' => ?_⟩
    · rw [Layer.get_put] at hnil ⊢
      split at hnil
      · exact absurd hnil hout.ne_nil
      · rw [if_neg ‹_›]
        exact h.free hnil
    · rw [Layer.get_put, Layer.get_put]
      split
      · intro wants hw
        exact (hoffered' wants).2 ((h.covers e).append hc wants ((hoffered wants).1 hw))
      · exact h.covers e'

theorem Gates.alternatives_single (l : Layer) (e : Nat) : (Gates.mk [l]).alternatives e = l.get e := by
  simp [Gates.alternatives]

/-- Gates of the eased layer alone are wider than those of the other alone. -/
theorem Layer.Eased.wider (h : l.Eased l') : (Gates.mk [l]).Wider ⟨[l']⟩ := by
  refine Gates.wider_of_possible (fun e hnil => ?_) fun e c hc => ?_
  · rw [Gates.alternatives_single] at hnil ⊢
    exact h.free hnil
  · rw [Gates.mem_possible, Gates.alternatives_single] at hc
    obtain ⟨wants, hwants⟩ : ∃ wants, c.demand = some wants :=
      Option.ne_none_iff_exists'.1 fun hno => by simp [Clause.demand_eq_none.1 hno] at hc
    obtain ⟨c', hc', hwants'⟩ := h.covers e wants ⟨c, hc.1, hwants⟩
    have hpossible : c'.isNever = false := by
      refine Bool.eq_false_iff.2 fun hn => ?_
      rw [Clause.demand_eq_none.2 hn] at hwants'
      cases hwants'
    refine ⟨c', Gates.mem_possible.2 ⟨?_, hpossible⟩, fun s hs => ?_⟩
    · rw [Gates.alternatives_single]
      exact hc'
    · rw [(h.tidy.normal hc.1).holds_iff, hwants] at hs
      rw [(h.tidy'.normal hc').holds_iff, hwants']
      exact hs

end layers

section runs

variable {v v' : Vocabulary} {b b' : Rulebook} {ts : List Token} {name : String}
  {s s' : Rulebook × CompileReport} {st : List Lexeme} {ss : List (List Lexeme)}

structure Rulebook.Eased (b b' : Rulebook) : Prop where
  scene : b.scene = b'.scene
  groups : b.groups = b'.groups
  layer : b.layer.Eased b'.layer

structure Vocabulary.Eased (v v' : Vocabulary) : Prop where
  topology : v.topology = v'.topology
  relaxes : Relaxes v.macros v.skips v'.macros v'.skips

theorem Rulebook.Eased.enter (h : b.Eased b') (t : Topology) (scene : SceneId) :
    (b.enter t scene).Eased (b'.enter t scene) :=
  ⟨rfl, h.groups, h.layer⟩

theorem Rulebook.Eased.defineGroup (h : b.Eased b') {b₁ b₁' : Rulebook}
    (h₁ : b.defineGroup name ts = .ok b₁) (h₁' : b'.defineGroup name ts = .ok b₁') : b₁.Eased b₁' := by
  obtain ⟨scene, ps, hscene, hps, rfl⟩ := defineGroup_eq_ok h₁
  obtain ⟨scene', ps', hscene', hps', rfl⟩ := defineGroup_eq_ok h₁'
  obtain rfl := Option.some.inj (hscene.symm.trans (h.scene.trans hscene'))
  obtain rfl := Except.ok.inj (hps.symm.trans hps')
  exact ⟨h.scene, congrArg (·.set (scene, name) ps) h.groups, h.layer⟩

theorem Rulebook.Eased.rule (h : b.Eased b') (hv : v.Eased v') {scene scene' : SceneId}
    {es es' : List Nat} {cs cs' : List Clause} (hrule : b.rule v ts = .ok (scene, es, cs))
    (hrule' : b'.rule v' ts = .ok (scene', es', cs')) :
    scene = scene' ∧ es = es' ∧ Covers cs' cs := by
  obtain ⟨r, hscene, hr, hes, rfl⟩ := rule_eq_ok hrule
  obtain ⟨r', hscene', hr', hes', rfl⟩ := rule_eq_ok hrule'
  obtain rfl := Option.some.inj (hscene.symm.trans (h.scene.trans hscene'))
  obtain ⟨arrow, colon, harrow, hcolon, hsource, htarget, htwoWay, hcs⟩ := Rule.ofTokens_eq_ok hr
  obtain ⟨arrow', colon', harrow', hcolon', hsource', htarget', htwoWay', hcs'⟩ :=
    Rule.ofTokens_eq_ok hr'
  obtain rfl := Option.some.inj (harrow.symm.trans harrow')
  obtain rfl := Option.some.inj (hcolon.symm.trans hcolon')
  have hedges : r.edges v.topology b.groups scene = r'.edges v'.topology b'.groups scene := by
    rw [Rule.edges, Rule.edges, Except.ok.inj (hsource.symm.trans hsource'),
      Except.ok.inj (htarget.symm.trans htarget'), htwoWay.trans htwoWay'.symm, hv.topology, h.groups]
  exact ⟨rfl, Except.ok.inj (hes.symm.trans (hedges.trans hes')),
    compileExpression_covers hv.relaxes hcs hcs'⟩

theorem Rulebook.Eased.addStatement (h : b.Eased b') (hv : v.Eased v')
    (hok : (b.addStatement v ts).2 = none) (hok' : (b'.addStatement v' ts).2 = none) :
    (b.addStatement v ts).1.Eased (b'.addStatement v' ts).1 := by
  revert hok hok'
  unfold Rulebook.addStatement
  split
  · intro _ _
    rw [hv.topology]
    exact h.enter v'.topology _
  · intro hok hok'
    split at hok
    · split at hok'
      · exact h.defineGroup ‹_› ‹_›
      · cases hok'
    · cases hok
  · rw [addRule, addRule]
    intro hok hok'
    split at hok
    · cases hok
    · split at hok'
      · cases hok'
      · rename_i hrule _ _ _ _ hrule'
        obtain ⟨rfl, rfl, hcovers⟩ := h.rule hv hrule hrule'
        exact ⟨h.scene, h.groups, h.layer.insertAll (rule_tidy hrule) (rule_tidy hrule') hcovers⟩

/-- Statements all of which succeed in both runs keep them alike, up to what was eased. -/
theorem foldl_eased (hv : v.Eased v') (h : s.1.Eased s'.1) (hss : successful v name s ss = ss)
    (hss' : successful v' name s' ss = ss) :
    (ss.foldl (compileStatement v name) s).1.Eased (ss.foldl (compileStatement v' name) s').1 := by
  induction ss generalizing s s' with
  | nil => exact h
  | cons st ss ih =>
    obtain ⟨hst, hss⟩ := successful_cons_eq_self hss
    obtain ⟨hst', hss'⟩ := successful_cons_eq_self hss'
    refine ih ?_ hss hss'
    rw [compileStatement_of_succeeds hst, compileStatement_of_succeeds hst']
    exact h.addStatement hv (Option.isNone_iff_eq_none.1 hst) (Option.isNone_iff_eq_none.1 hst')

theorem compileLayer_eased {text : String} (hv : v.Eased v')
    (h : (compileLayer v name text).report.skipped = 0)
    (h' : (compileLayer v' name text).report.skipped = 0) :
    (compileLayer v name text).layer.Eased (compileLayer v' name text).layer := by
  have hblank : (blankRulebook name).1.Eased (blankRulebook name).1 :=
    ⟨rfl, rfl, Layer.eased_empty name name⟩
  exact (foldl_eased hv hblank (successful_eq_self h) (successful_eq_self h')).layer

end runs

variable {s s' : Settings} {m : MacroTable} {name text : String}

def Settings.vocabulary (s : Settings) (t : Topology) (m : MacroTable) : Vocabulary :=
  ⟨t, s.bindMacros m, s.skipPredicate⟩

theorem vocabulary_eased (h : List.Forall₂ SkipSetting.Eases s.skips s'.skips)
    (hlit : KeepsLiterals m s.skipPredicate) (t : Topology) :
    (s.vocabulary t m).Eased (s'.vocabulary t m) :=
  ⟨rfl, relaxes_of_skips h hlit⟩

/-- Enabling skips never closes an edge. Under settings that enable what the others do, and maybe more,
a text all of whose statements compile lets pass wherever it did, and no edge turns false. -/
theorem enabled_skips_open (h : List.Forall₂ SkipSetting.Eases s.skips s'.skips)
    (hlit : KeepsLiterals m s.skipPredicate) (t : Topology)
    (hall : (compileLayer (s.vocabulary t m) name text).report.skipped = 0)
    (hall' : (compileLayer (s'.vocabulary t m) name text).report.skipped = 0) :
    let g : Gates := ⟨[(compileLayer (s.vocabulary t m) name text).layer]⟩
    let g' : Gates := ⟨[(compileLayer (s'.vocabulary t m) name text).layer]⟩
    (∀ e (states : States), g.canTraverse e states = true → g'.canTraverse e states = true) ∧
    ∀ e, g'.isFalse e = true → g.isFalse e = true := by
  have hwider := (compileLayer_eased (vocabulary_eased h hlit t) hall hall').wider
  exact ⟨fun _ _ => hwider.opens, fun _ => hwider.possible⟩

def climber (enabled : Bool) : Settings :=
  { skips := [⟨"Climb", enabled⟩, ⟨"fly", enabled⟩] }

def climbRules : String := "Scene 0\nKey -> Gate: Oil | Climb + Lamp | 2#Coin + fly"

theorem enabled_skips_open_twoRooms :
    let macros : MacroTable := ⟨⟨[("Climb", [.ident "Rope", .plus, .ident "Hook"])]⟩⟩
    let gates (enabled : Bool) : Gates :=
      ⟨[(compileLayer ((climber enabled).vocabulary twoRooms macros) "base" climbRules).layer]⟩
    let oil : States := ({} : States).acquire "Oil"
    let lamp : States := ({} : States).acquire "Lamp"
    List.Forall₂ SkipSetting.Eases (climber false).skips (climber true).skips ∧
    KeepsLiterals macros (climber false).skipPredicate ∧
    (∀ enabled, (compileLayer ((climber enabled).vocabulary twoRooms macros) "base"
      climbRules).report.skipped = 0) ∧
    (gates false).canTraverse 0 oil = true ∧ (gates true).canTraverse 0 oil = true ∧
    (gates false).canTraverse 0 lamp = false ∧ (gates true).canTraverse 0 lamp = true ∧
    ∀ e, (gates true).isFalse e = true → (gates false).isFalse e = true := by
  intro macros gates oil lamp
  have heases : List.Forall₂ SkipSetting.Eases (climber false).skips (climber true).skips :=
    List.Forall₂.cons ⟨rfl, nofun⟩ (List.Forall₂.cons ⟨rfl, nofun⟩ List.Forall₂.nil)
  have hlit : KeepsLiterals macros (climber false).skipPredicate := by
    intro value
    cases value <;> exact ⟨by cbv, by cbv⟩
  have hstatements : splitStatements (tokenize climbRules) = [roomHeader,
      [⟨.ident "Key", 2⟩, ⟨.arrow, 2⟩, ⟨.ident "Gate", 2⟩, ⟨.colon, 2⟩, ⟨.ident "Oil", 2⟩, ⟨.pipe, 2⟩,
        ⟨.ident "Climb", 2⟩, ⟨.plus, 2⟩, ⟨.ident "Lamp", 2⟩, ⟨.pipe, 2⟩, ⟨.int 2, 2⟩, ⟨.hash, 2⟩,
        ⟨.ident "Coin", 2⟩, ⟨.plus, 2⟩, ⟨.ident "fly", 2⟩]] := by
    decide +kernel
  have hcompiled (enabled : Bool) :
      let c := compileLayer ((climber enabled).vocabulary twoRooms macros) "base" climbRules
      (c.report.skipped, c.layer.get 0) = (0, .single "Oil" 1 ::
        if enabled then [.single "Lamp" 1, .single "Coin" 2] else []) := by
    rw [compileLayer, hstatements]
    cases enabled <;> cbv
  have hall (enabled : Bool) : (compileLayer ((climber enabled).vocabulary twoRooms macros) "base"
      climbRules).report.skipped = 0 := (Prod.mk.inj (hcompiled enabled)).1
  have hgate (enabled : Bool) : (gates enabled).alternatives 0 = .single "Oil" 1 ::
      if enabled then [.single "Lamp" 1, .single "Coin" 2] else [] :=
    (Gates.alternatives_single _ 0).trans (Prod.mk.inj (hcompiled enabled)).2
  obtain ⟨hopens, hpossible⟩ := enabled_skips_open heases hlit twoRooms (hall false) (hall true)
  have hoil : (gates false).canTraverse 0 oil = true := by
    rw [Gates.canTraverse, hgate]
    cbv
  have hlamp : (gates false).canTraverse 0 lamp = false := by
    rw [Gates.canTraverse, hgate]
    cbv
  have hlamp' : (gates true).canTraverse 0 lamp = true := by
    rw [Gates.canTraverse, hgate]
    cbv
  exact ⟨heases, hlit, hall, hoil, hopens 0 oil hoil, hlamp, hlamp', hpossible⟩

end WorldShuffle

import Mathlib
import WorldShuffle.Logic.Rulebook
import WorldShuffle.Proofs.Exchanges
import WorldShuffle.Proofs.Layers

namespace WorldShuffle

variable {v : Vocabulary} {name : String} {ts : List Token} {ss : List (List Lexeme)}

/-- A rule is read off the tokens before, between and behind its arrow and its colon. -/
theorem Rule.ofTokens_eq_ok {r : Rule} (h : Rule.ofTokens v ts = .ok r) :
    ∃ arrow colon, ts.findIdx? isArrow = some arrow ∧ ts.findIdx? (· == .colon) = some colon ∧
      Pattern.ofTokens (ts.take arrow) = .ok r.source ∧
      Pattern.ofTokens ((ts.take colon).drop (arrow + 1)) = .ok r.target ∧
      r.twoWay = (ts[arrow]? == some .twoWay) ∧
      compileExpression v.macros v.skips (ts.drop (colon + 1)) = .ok r.alternatives := by
  rw [Rule.ofTokens] at h
  split at h
  · split at h
    · split at h
      · cases h
      · obtain ⟨source, hsource, h⟩ := bind_eq_ok h
        obtain ⟨target, htarget, h⟩ := bind_eq_ok h
        dsimp only at h
        split at h
        · cases h
        · obtain ⟨alternatives, hcs, h⟩ := bind_eq_ok h
          obtain rfl := Except.ok.inj h
          exact ⟨_, _, ‹_›, ‹_›, mapError_eq_ok hsource, mapError_eq_ok htarget, rfl,
            mapError_eq_ok hcs⟩
    · cases h
  · cases h

theorem Rule.ofTokens_tidy {r : Rule} (h : Rule.ofTokens v ts = .ok r) : Tidy r.alternatives := by
  obtain ⟨arrow, colon, -, -, -, -, -, hcs⟩ := Rule.ofTokens_eq_ok h
  exact compileExpression_tidy hcs

namespace Rulebook

variable {b b' : Rulebook} {scene : SceneId} {edges : List Nat} {cs : List Clause}

theorem defineGroup_eq_ok {group : String} (h : b.defineGroup group ts = .ok b') :
    ∃ scene ps, b.scene = some scene ∧ groupPatterns group ts = .ok ps ∧
      b' = { b with groups := b.groups.set (scene, group) ps } := by
  rw [defineGroup] at h
  split at h
  · obtain ⟨ps, hps, h⟩ := bind_eq_ok h
    exact ⟨_, ps, ‹_›, hps, (Except.ok.inj h).symm⟩
  · cases h

theorem rule_eq_ok (h : b.rule v ts = .ok (scene, edges, cs)) :
    ∃ r, b.scene = some scene ∧ Rule.ofTokens v ts = .ok r ∧
      r.edges v.topology b.groups scene = .ok edges ∧ r.alternatives = cs := by
  rw [rule] at h
  split at h
  · obtain ⟨r, hr, h⟩ := bind_eq_ok h
    obtain ⟨es, hes, h⟩ := bind_eq_ok h
    cases h
    exact ⟨r, ‹_›, hr, hes, rfl⟩
  · cases h

theorem rule_tidy (h : b.rule v ts = .ok (scene, edges, cs)) : Tidy cs := by
  obtain ⟨r, -, hr, -, rfl⟩ := rule_eq_ok h
  exact Rule.ofTokens_tidy hr

/-- A statement fails and leaves all as it was, or succeeds without touching the layer, or is a rule. -/
theorem addStatement_cases (v : Vocabulary) (b : Rulebook) (ts : List Token) :
    (∃ e, b.addStatement v ts = (b, some e)) ∨
    (∃ b', b.addStatement v ts = (b', none) ∧ b'.layer = b.layer) ∨
    ∃ scene edges cs, b.rule v ts = .ok (scene, edges, cs) ∧
      b.addStatement v ts =
        ({ b with layer := (Layer.insertAll scene cs edges b.layer).1 },
          (Layer.insertAll scene cs edges b.layer).2.map .overflow) := by
  unfold addStatement
  split
  · exact Or.inr (Or.inl ⟨_, rfl, rfl⟩)
  · split
    · rename_i b' hb'
      obtain ⟨scene, ps, -, -, rfl⟩ := defineGroup_eq_ok hb'
      exact Or.inr (Or.inl ⟨_, rfl, rfl⟩)
    · exact Or.inl ⟨_, rfl⟩
  · rw [addRule]
    split
    · exact Or.inl ⟨_, rfl⟩
    · rename_i scene edges cs hrule
      exact Or.inr (Or.inr ⟨scene, edges, cs, hrule, rfl⟩)

theorem addStatement_tidy {P : Layer → Prop} (ts : List Token) (hb : b.layer.Tidy) (hP : P b.layer)
    (hput : ∀ scene edges cs, b.rule v ts = .ok (scene, edges, cs) →
      ∀ l e cs, e ∈ edges → P l → P (l.put scene e cs)) :
    (∃ e, b.addStatement v ts = (b, some e)) ∨
      ∃ b', b.addStatement v ts = (b', none) ∧ b'.layer.Tidy ∧ P b'.layer := by
  rcases b.addStatement_cases v ts with h | ⟨b', h, hl⟩ | ⟨scene, edges, cs, hrule, h⟩
  · exact Or.inl h
  · exact Or.inr ⟨b', h, hl ▸ hb, hl ▸ hP⟩
  · obtain ⟨l, hl, htidy, hPl⟩ := hb.insertAll (rule_tidy hrule) (hput scene edges cs hrule) hP
    rw [hl] at h
    exact Or.inr ⟨_, h, htidy, hPl⟩

theorem addStatement_fails_or (v : Vocabulary) (hb : b.layer.Tidy) (ts : List Token) :
    (∃ e, b.addStatement v ts = (b, some e)) ∨
      ∃ b', b.addStatement v ts = (b', none) ∧ b'.layer.Tidy := by
  rcases addStatement_tidy (v := v) (P := fun _ => True) ts hb trivial
    (fun _ _ _ _ _ _ _ _ _ => trivial) with h | ⟨b', h, htidy, -⟩
  · exact Or.inl h
  · exact Or.inr ⟨b', h, htidy⟩

def content (b : Rulebook) : Option SceneId × Groups × Layer := (b.scene, b.groups, b.layer)

/-- Rulebooks alike in content take a statement in the same way, and note the same of it. -/
theorem addStatement_alike (v : Vocabulary) (ts : List Token) (h : b.content = b'.content) :
    (b.addStatement v ts).1.content = (b'.addStatement v ts).1.content ∧
      (b.addStatement v ts).2 = (b'.addStatement v ts).2 ∧
      ∃ notes, (b.addStatement v ts).1.log = b.log ++ notes ∧
        (b'.addStatement v ts).1.log = b'.log ++ notes := by
  obtain ⟨scene, groups, layer, log⟩ := b
  obtain ⟨scene', groups', layer', log'⟩ := b'
  cases h
  have hnone : ∃ notes, log = log ++ notes ∧ log' = log' ++ notes :=
    ⟨[], (List.append_nil log).symm, (List.append_nil log').symm⟩
  unfold addStatement
  split
  · exact ⟨rfl, rfl, _, rfl, rfl⟩
  · rename_i name rest
    rw [defineGroup, defineGroup]
    cases scene with
    | none => exact ⟨rfl, rfl, hnone⟩
    | some scene => cases groupPatterns name rest <;> exact ⟨rfl, rfl, hnone⟩
  · have hrule : rule v ⟨scene, groups, layer, log⟩ ts = rule v ⟨scene, groups, layer, log'⟩ ts := rfl
    rw [addRule, addRule, hrule]
    cases rule v ⟨scene, groups, layer, log'⟩ ts <;> exact ⟨rfl, rfl, hnone⟩

theorem addStatement_content (v : Vocabulary) (ts : List Token) (h : b.content = b'.content) :
    (b.addStatement v ts).1.content = (b'.addStatement v ts).1.content ∧
      (b.addStatement v ts).2 = (b'.addStatement v ts).2 :=
  (addStatement_alike v ts h).imp_right And.left

end Rulebook

section runs

variable {s s' : Rulebook × CompileReport} {st : List Lexeme}

def blankRulebook (name : String) : Rulebook × CompileReport := ({ layer := { name } }, {})

def compileStatements (v : Vocabulary) (name : String) (ss : List (List Lexeme)) :
    Rulebook × CompileReport :=
  ss.foldl (compileStatement v name) (blankRulebook name)

def succeeds (v : Vocabulary) (b : Rulebook) (st : List Lexeme) : Bool :=
  (b.addStatement v (st.map Lexeme.token)).2.isNone

def successful (v : Vocabulary) (name : String) :
    Rulebook × CompileReport → List (List Lexeme) → List (List Lexeme)
  | _, [] => []
  | s, st :: ss =>
    let rest := successful v name (compileStatement v name s st) ss
    if succeeds v s.1 st then st :: rest else rest

theorem compileStatement_cases (name : String) (hs : s.1.layer.Tidy) (st : List Lexeme) :
    (compileStatement v name s st).1.layer.Tidy ∧
    ((succeeds v s.1 st = false ∧ (compileStatement v name s st).1.content = s.1.content ∧
        (compileStatement v name s st).2 =
          { s.2 with statements := s.2.statements + 1, skipped := s.2.skipped + 1 }) ∨
      succeeds v s.1 st = true ∧
        (compileStatement v name s st).1 = (s.1.addStatement v (st.map Lexeme.token)).1 ∧
        (compileStatement v name s st).2 =
          { s.2 with statements := s.2.statements + 1, compiled := s.2.compiled + 1 }) := by
  obtain ⟨b, report⟩ := s
  rcases Rulebook.addStatement_fails_or v hs (st.map Lexeme.token) with ⟨e, h⟩ | ⟨b', h, htidy⟩
  · dsimp only [compileStatement, succeeds]
    rw [h]
    exact ⟨hs, Or.inl ⟨rfl, rfl, rfl⟩⟩
  · dsimp only [compileStatement, succeeds]
    rw [h]
    exact ⟨htidy, Or.inr ⟨rfl, rfl, rfl⟩⟩

theorem compileStatement_of_succeeds (h : succeeds v s.1 st = true) :
    (compileStatement v name s st).1 = (s.1.addStatement v (st.map Lexeme.token)).1 := by
  obtain ⟨b, report⟩ := s
  dsimp only [compileStatement, succeeds] at h ⊢
  split
  · exact (congrArg Prod.fst ‹_›).symm
  · rename_i hfails
    rw [hfails] at h
    cases h

theorem foldl_compileStatement_keeps {P : Layer → Prop} (name : String) (ss : List (List Lexeme))
    (hput : ∀ b ts scene edges cs, Rulebook.rule v b ts = .ok (scene, edges, cs) →
      ∀ l e cs, e ∈ edges → P l → P (l.put scene e cs))
    (hs : s.1.layer.Tidy) (hP : P s.1.layer) :
    (ss.foldl (compileStatement v name) s).1.layer.Tidy ∧
      P (ss.foldl (compileStatement v name) s).1.layer := by
  induction ss generalizing s with
  | nil => exact ⟨hs, hP⟩
  | cons st ss ih =>
    obtain ⟨b, report⟩ := s
    obtain ⟨hnext, hPnext⟩ : (compileStatement v name (b, report) st).1.layer.Tidy ∧
        P (compileStatement v name (b, report) st).1.layer := by
      dsimp only [compileStatement]
      rcases Rulebook.addStatement_tidy (st.map Lexeme.token) hs hP
        (fun scene edges cs => hput b _ scene edges cs) with ⟨e, h⟩ | ⟨b', h, htidy, hPl⟩
      · rw [h]
        exact ⟨hs, hP⟩
      · rw [h]
        exact ⟨htidy, hPl⟩
    exact ih hnext hPnext

theorem compileStatements_keeps {P : Layer → Prop} (name : String) (ss : List (List Lexeme))
    (hput : ∀ b ts scene edges cs, Rulebook.rule v b ts = .ok (scene, edges, cs) →
      ∀ l e cs, e ∈ edges → P l → P (l.put scene e cs))
    (hP : P { name }) :
    (compileStatements v name ss).1.layer.Tidy ∧ P (compileStatements v name ss).1.layer :=
  foldl_compileStatement_keeps name ss hput (Layer.tidy_empty name) hP

theorem compileStatements_tidy (v : Vocabulary) (name : String) (ss : List (List Lexeme)) :
    (compileStatements v name ss).1.layer.Tidy :=
  (compileStatements_keeps (P := fun _ => True) name ss (fun _ _ _ _ _ _ _ _ _ _ _ => trivial)
    trivial).1

/-- Two runs from states alike in content, one of them over the successful statements alone. -/
theorem foldl_successful (v : Vocabulary) (name : String) (ss : List (List Lexeme))
    (hs : s.1.layer.Tidy) (hs' : s'.1.layer.Tidy) (h : s.1.content = s'.1.content) :
    let good := successful v name s ss
    (ss.foldl (compileStatement v name) s).1.content =
        (good.foldl (compileStatement v name) s').1.content ∧
      (good.foldl (compileStatement v name) s').2 =
        { s'.2 with
          statements := s'.2.statements + good.length
          compiled := s'.2.compiled + good.length } := by
  induction ss generalizing s s' with
  | nil => exact ⟨h, rfl⟩
  | cons st ss ih =>
    obtain ⟨hnext, hst⟩ := compileStatement_cases (v := v) name hs st
    obtain ⟨hnext', hst'⟩ := compileStatement_cases (v := v) name hs' st
    obtain ⟨hcontent, herror⟩ := Rulebook.addStatement_content v (st.map Lexeme.token) h
    rcases hst with ⟨hfails, hsame, -⟩ | ⟨hsucceeds, hb, -⟩
    · simp only [successful, hfails, Bool.false_eq_true, if_false, List.foldl_cons]
      exact ih hnext hs' (hsame.trans h)
    · have hsucceeds' : succeeds v s'.1 st = true := by
        rw [succeeds, ← herror]
        exact hsucceeds
      obtain ⟨hno, -⟩ | ⟨-, hb', hreport'⟩ := hst'
      · exact absurd (hno.symm.trans hsucceeds') (by decide)
      · simp only [successful, hsucceeds, if_true, List.foldl_cons, List.length_cons]
        rw [← hb, ← hb'] at hcontent
        obtain ⟨hrun, hcounts⟩ := ih hnext hnext' hcontent
        refine ⟨hrun, hcounts.trans ?_⟩
        rw [hreport']
        simp only [CompileReport.mk.injEq, and_true]
        omega

theorem report_foldl (v : Vocabulary) (name : String) (ss : List (List Lexeme))
    (hs : s.1.layer.Tidy) :
    let report := (ss.foldl (compileStatement v name) s).2
    report.statements = s.2.statements + ss.length ∧
      report.compiled = s.2.compiled + (successful v name s ss).length ∧
      report.compiled + report.skipped + s.2.statements =
        report.statements + s.2.compiled + s.2.skipped := by
  induction ss generalizing s with
  | nil =>
    refine ⟨rfl, rfl, ?_⟩
    dsimp only [List.foldl_nil]
    omega
  | cons st ss ih =>
    obtain ⟨hnext, hst⟩ := compileStatement_cases (v := v) name hs st
    obtain ⟨hstatements, hcompiled, htotal⟩ := ih hnext
    rw [List.foldl_cons, successful, List.length_cons]
    rcases hst with ⟨hst, -, hreport⟩ | ⟨hst, -, hreport⟩ <;>
      rw [hreport] at hstatements hcompiled htotal <;>
      simp only [hst, Bool.false_eq_true, if_true, if_false, List.length_cons] at * <;>
      omega

theorem successful_sublist (v : Vocabulary) (name : String) (s : Rulebook × CompileReport)
    (ss : List (List Lexeme)) : (successful v name s ss).Sublist ss := by
  induction ss generalizing s with
  | nil => exact List.Sublist.slnil
  | cons st ss ih =>
    rw [successful]
    split
    · exact (ih _).cons_cons st
    · exact (ih _).cons st

theorem successful_cons_eq_self (h : successful v name s (st :: ss) = st :: ss) :
    succeeds v s.1 st = true ∧ successful v name (compileStatement v name s st) ss = ss := by
  rw [successful] at h
  split at h
  · exact ⟨‹_›, (List.cons.inj h).2⟩
  · have hlength := (successful_sublist v name (compileStatement v name s st) ss).length_le
    rw [h, List.length_cons] at hlength
    omega

theorem successful_eq_self {text : String} (h : (compileLayer v name text).report.skipped = 0) :
    successful v name (blankRulebook name) (splitStatements (tokenize text)) =
      splitStatements (tokenize text) := by
  obtain ⟨hstatements, hcompiled, htotal⟩ :=
    report_foldl v name (splitStatements (tokenize text)) (s := blankRulebook name)
      (Layer.tidy_empty name)
  have hskipped : ((splitStatements (tokenize text)).foldl (compileStatement v name)
      (blankRulebook name)).2.skipped = 0 := h
  refine (successful_sublist v name _ _).eq_of_length ?_
  simp only [blankRulebook] at hstatements hcompiled htotal hskipped
  simp only [blankRulebook]
  omega

end runs

/-- A statement that fails, wherever in a run it stands, leaves the active scene, the groups and the
layer as they were. So a list of statements gives what its successful ones give alone, all of which
succeed then too, and each statement is counted either as compiled or as skipped. -/
theorem failed_statement_no_effect (v : Vocabulary) (name : String) :
    (∀ (ss : List (List Lexeme)) ts e,
      ((compileStatements v name ss).1.addStatement v ts).2 = some e →
      ((compileStatements v name ss).1.addStatement v ts).1 = (compileStatements v name ss).1) ∧
    (∀ ss : List (List Lexeme),
      let good := successful v name (blankRulebook name) ss
      let all := compileStatements v name ss
      all.1.content = (compileStatements v name good).1.content ∧
      (compileStatements v name good).2 = { statements := good.length, compiled := good.length } ∧
      all.2.statements = ss.length ∧ all.2.compiled = good.length ∧
      all.2.statements = all.2.compiled + all.2.skipped) ∧
    ∀ text : String,
      let ss := splitStatements (tokenize text)
      let good := successful v name (blankRulebook name) ss
      (compileLayer v name text).layer = (compileStatements v name good).1.layer ∧
      (compileLayer v name text).report.statements = ss.length ∧
      (compileLayer v name text).report.statements =
        (compileLayer v name text).report.compiled + (compileLayer v name text).report.skipped := by
  have hblank : (blankRulebook name).1.layer.Tidy := Layer.tidy_empty name
  have hruns (ss : List (List Lexeme)) :
      let good := successful v name (blankRulebook name) ss
      let all := compileStatements v name ss
      all.1.content = (compileStatements v name good).1.content ∧
      (compileStatements v name good).2 = { statements := good.length, compiled := good.length } ∧
      all.2.statements = ss.length ∧ all.2.compiled = good.length ∧
      all.2.statements = all.2.compiled + all.2.skipped := by
    obtain ⟨hcontent, hgood⟩ := foldl_successful v name ss hblank hblank rfl
    obtain ⟨hstatements, hcompiled, htotal⟩ := report_foldl v name ss hblank
    refine ⟨hcontent, ?_, ?_, ?_, ?_⟩
    · rw [compileStatements, hgood]
      simp [blankRulebook]
    · exact hstatements.trans (Nat.zero_add _)
    · exact hcompiled.trans (Nat.zero_add _)
    · exact htotal.symm
  refine ⟨fun ss ts e he => ?_, hruns, fun text => ?_⟩
  · rcases Rulebook.addStatement_fails_or v (compileStatements_tidy v name ss) ts with
      ⟨e', h⟩ | ⟨b', h, -⟩
    · rw [h]
    · rw [h] at he
      cases he
  · obtain ⟨hcontent, -, hstatements, -, htotal⟩ := hruns (splitStatements (tokenize text))
    exact ⟨congrArg (fun content => content.2.2) hcontent, hstatements, htotal⟩

def twoRoomsWords : Vocabulary := ⟨twoRooms, {}, noSkips⟩

def roomHeader : List Lexeme := [⟨.ident "Scene", 1⟩, ⟨.int 0, 1⟩]

def oilRule (line : Nat) (target : String) : List Lexeme :=
  [⟨.ident "Key", line⟩, ⟨.twoWay, line⟩, ⟨.ident target, line⟩, ⟨.colon, line⟩, ⟨.ident "Oil", line⟩]

theorem failed_statement_no_effect_twoRooms :
    let b := (compileStatements twoRoomsWords "base" [roomHeader, oilRule 2 "*"]).1
    let lost := oilRule 3 "Pit"
    (b.addStatement twoRoomsWords (lost.map Lexeme.token)).2 = some (.pattern (.noNode "Pit" 0)) ∧
    (b.addStatement twoRoomsWords (lost.map Lexeme.token)).1 = b ∧
    successful twoRoomsWords "base" (blankRulebook "base") [roomHeader, oilRule 2 "*", lost] =
      [roomHeader, oilRule 2 "*"] ∧
    (compileStatements twoRoomsWords "base" [roomHeader, oilRule 2 "*", lost]).1.content =
      b.content := by
  obtain ⟨hfails, hruns, -⟩ := failed_statement_no_effect twoRoomsWords "base"
  have hheader : succeeds twoRoomsWords (blankRulebook "base").1 roomHeader = true := by cbv
  have hrule : succeeds twoRoomsWords (compileStatements twoRoomsWords "base" [roomHeader]).1
      (oilRule 2 "*") = true := by cbv
  have hlost : ((compileStatements twoRoomsWords "base" [roomHeader, oilRule 2 "*"]).1.addStatement
      twoRoomsWords ((oilRule 3 "Pit").map Lexeme.token)).2 = some (.pattern (.noNode "Pit" 0)) := by
    cbv
  have hgood : successful twoRoomsWords "base" (blankRulebook "base")
      [roomHeader, oilRule 2 "*", oilRule 3 "Pit"] = [roomHeader, oilRule 2 "*"] := by
    have hlost' : succeeds twoRoomsWords
        (compileStatements twoRoomsWords "base" [roomHeader, oilRule 2 "*"]).1
        (oilRule 3 "Pit") = false := by
      rw [succeeds, hlost]
      rfl
    simp only [compileStatements, List.foldl_cons, List.foldl_nil] at hrule hlost'
    simp only [successful, hheader, hrule, hlost', if_true, Bool.false_eq_true, if_false]
  refine ⟨hlost, hfails _ _ _ hlost, hgood, ?_⟩
  have hcontent := (hruns [roomHeader, oilRule 2 "*", oilRule 3 "Pit"]).1
  rw [hgood] at hcontent
  exact hcontent

end WorldShuffle

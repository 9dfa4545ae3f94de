import WorldShuffle.Proofs.Splitting
import WorldShuffle.Proofs.Statements
import WorldShuffle.Proofs.TokenTexts

namespace WorldShuffle

variable {n : Nat} {cs : List Char} {ls line st st' : List Lexeme}
  {ss ss' lines : List (List Lexeme)}

def Token.Known (t : Token) : Prop := ∀ c, t ≠ .unknown c

instance : DecidablePred Token.Known := fun t =>
  match t with
  | .unknown c => isFalse fun hknown => hknown c rfl
  | .ident _ | .int _ | .group _ | .hash | .plus | .pipe | .openParen | .closeParen | .openBrace
  | .closeBrace | .comma | .colon | .bang | .arrow | .twoWay | .newline => isTrue nofun

def isComplete (st : List Lexeme) : Bool := bracketBalance st ≤ 0 && endsTerm st

/-- Statements that are not taken for one: each is complete, or the next one opens. -/
inductive Apart : List (List Lexeme) → Prop
  | nil : Apart []
  | cons {st : List Lexeme} {ss : List (List Lexeme)} (hst : st ≠ [])
      (hnext : ∀ st' ∈ ss.head?, isComplete st = true ∨ opensStatement st' = true)
      (hss : Apart ss) : Apart (st :: ss)

section apart

theorem bracketBalance_append (ls ls' : List Lexeme) :
    bracketBalance (ls ++ ls') = bracketBalance ls + bracketBalance ls' := by
  have hfold (ls : List Lexeme) (depth : Int32) :
      ls.foldl (fun depth l => depth + bracketStep l.token) depth = depth + bracketBalance ls := by
    induction ls generalizing depth with
    | nil => exact (Int32.add_zero depth).symm
    | cons l ls ih =>
      rw [bracketBalance, List.foldl_cons, List.foldl_cons, ih, ih, Int32.zero_add,
        Int32.add_assoc]
  rw [bracketBalance, List.foldl_append]
  exact hfold ls' _

/-- What opens a statement stands at its beginning, or is an arrow somewhere in it. -/
theorem opensStatement_append (h : opensStatement line = true) (ls : List Lexeme) :
    opensStatement (line ++ ls) = true := by
  unfold opensStatement at h ⊢
  rw [List.map_append, List.any_append]
  split at h
  · rename_i htokens
    rw [htokens]
    simp only [List.cons_append, Bool.or_eq_true] at h ⊢
    exact h.imp_right Or.inl
  · rename_i htokens
    rw [htokens]
    rfl
  · rw [h]
    split <;> simp

def GoesOn (pending : List Lexeme) (ss : List (List Lexeme)) : Prop :=
  Apart ss ∧ (pending ≠ [] → ∃ more rest, ss = (pending ++ more) :: rest)

theorem goesOn_settle (hst : st ≠ [])
    (h : ∀ pending, GoesOn pending (joinLines pending (bracketBalance pending) lines)) :
    GoesOn st (settle st (bracketBalance st) lines) := by
  rw [settle]
  split
  · rename_i hcomplete
    exact ⟨(h []).1.cons hst fun _ _ => Or.inl hcomplete,
      fun _ => ⟨[], _, by rw [List.append_nil]⟩⟩
  · exact h st

theorem goesOn_joinLines (pending : List Lexeme) (lines : List (List Lexeme)) :
    GoesOn pending (joinLines pending (bracketBalance pending) lines) := by
  induction lines generalizing pending with
  | nil =>
    rw [joinLines_nil]
    split
    · exact ⟨.nil, fun h => absurd ‹_› h⟩
    · exact ⟨.cons ‹_› nofun .nil, fun _ => ⟨[], [], by rw [List.append_nil]⟩⟩
  | cons line lines ih =>
    rcases line_cases pending line with rfl | ⟨hline, ⟨hpending, hopens⟩ | h⟩
    · rw [joinLines_empty]
      exact ih pending
    · rw [joinLines_opens hline hpending hopens]
      obtain ⟨hapart, hfirst⟩ := goesOn_settle hline ih
      obtain ⟨more, rest, hss⟩ := hfirst hline
      rw [hss] at hapart ⊢
      refine ⟨hapart.cons hpending ?_, fun _ => ⟨[], _, by rw [List.append_nil]⟩⟩
      -- the next statement may reach over further lines, but begins with the line that opens it
      rintro _ ⟨⟩
      exact Or.inr (opensStatement_append hopens more)
    · have hne : pending ++ line ≠ [] := List.append_ne_nil_of_right_ne_nil pending hline
      rw [joinLines_goesOn hline h, ← bracketBalance_append]
      obtain ⟨hapart, hfirst⟩ := goesOn_settle hne ih
      obtain ⟨more, rest, hss⟩ := hfirst hne
      exact ⟨hapart, fun _ => ⟨line ++ more, rest, by rw [hss, List.append_assoc]⟩⟩

theorem apart_splitStatements (ls : List Lexeme) : Apart (splitStatements ls) :=
  (goesOn_joinLines [] (lexemeLines ls)).1

/-- Statements that stand apart, each of them on one line, are split as they are. -/
theorem joinLines_apart (h : Apart ss) : joinLines [] 0 ss = ss := by
  induction h with
  | nil => rfl
  | @cons st ss hst hnext hss ih =>
    rw [joinLines_goesOn hst (Or.inl rfl), List.nil_append, Int32.zero_add, settle]
    split
    · rw [ih]
    · rename_i hcomplete
      cases hss with
      | nil => rw [joinLines_nil, if_neg hst]
      | @cons st' ss hst' _ _ =>
        have hopens := (hnext st' rfl).resolve_left hcomplete
        have hfirst : (st' :: ss).find? (!·.isEmpty) = some st' :=
          List.find?_cons_of_pos (by simpa using hst')
        rw [joinLines_opensFirst ⟨st', hfirst, hopens⟩ hst, ih]

end apart

section lines

def Lexeme.onLine (n : Nat) (l : Lexeme) : Lexeme := { l with line := n }

def onLines (n : Nat) : List (List Lexeme) → List (List Lexeme)
  | [] => []
  | st :: ss => st.map (Lexeme.onLine n) :: onLines (n + 1) ss

theorem token_onLine (n : Nat) (st : List Lexeme) :
    (st.map (Lexeme.onLine n)).map Lexeme.token = st.map Lexeme.token := by
  rw [List.map_map]
  rfl

theorem Apart.onLines (h : Apart ss) (n : Nat) : Apart (onLines n ss) := by
  induction h generalizing n with
  | nil => exact .nil
  | @cons st ss hst hnext hss ih =>
    refine .cons (mt List.map_eq_nil_iff.1 hst) ?_ (ih (n + 1))
    cases ss with
    | nil => exact nofun
    | cons st' ss =>
      rintro _ ⟨⟩
      rw [isComplete, bracketBalance_congr (token_onLine n st), endsTerm_congr (token_onLine n st),
        opensStatement_congr (token_onLine (n + 1) st')]
      exact hnext st' rfl

theorem lexemeLines_line (h : ∀ l ∈ ls, l.token ≠ .newline) : lexemeLines ls = [ls] := by
  rw [lexemeLines_eq]
  exact List.splitOnP_eq_singleton fun l hl => decide_eq_false (h l hl)

theorem newline_notMem (h : ∀ l ∈ tokenizeFrom n cs, l.token ≠ .newline) : '\n' ∉ cs := by
  intro hmem
  obtain ⟨before, after, rfl, -⟩ := List.eq_append_cons_of_mem hmem
  rw [tokenizeFrom_append] at h
  exact h _ (List.mem_append_right _ List.mem_cons_self) rfl

def LegibleStatement (st : List Lexeme) : Prop := ∀ l ∈ st, l.token.Legible

def printed (st : List Lexeme) : String := showTokens (st.map Lexeme.token)

theorem LegibleStatement.tokenizeFrom (h : LegibleStatement st) (n : Nat) :
    tokenizeFrom n (printed st).toList = st.map (Lexeme.onLine n) := by
  rw [printed, (spells_showTokens (List.forall_mem_map.2 h)).tokenizeFrom_eq, List.map_map]
  rfl

theorem LegibleStatement.no_newline (h : LegibleStatement st) (n : Nat) :
    ∀ l ∈ st.map (Lexeme.onLine n), l.token ≠ .newline := by
  intro l hl hbreak
  obtain ⟨l, hmem, rfl⟩ := List.mem_map.1 hl
  have hlegible := h l hmem
  rw [show l.token = .newline from hbreak] at hlegible
  exact hlegible

def printLines (ss : List (List Lexeme)) : String := "\n".intercalate (ss.map printed)

theorem printLines_singleton (st : List Lexeme) : printLines [st] = printed st :=
  String.intercalate_singleton ..

theorem toList_printLines_cons (st : List Lexeme) (hss : ss ≠ []) :
    (printLines (st :: ss)).toList = (printed st).toList ++ '\n' :: (printLines ss).toList := by
  cases ss with
  | nil => exact absurd rfl hss
  | cons st' ss => simp [printLines, String.toList_intercalate]

theorem lexemeLines_printLines (hss : ss ≠ []) (h : ∀ st ∈ ss, LegibleStatement st) (n : Nat) :
    lexemeLines (tokenizeFrom n (printLines ss).toList) = onLines n ss := by
  induction ss generalizing n with
  | nil => exact absurd rfl hss
  | cons st ss ih =>
    obtain ⟨hst, hrest⟩ := List.forall_mem_cons.1 h
    have hread := hst.tokenizeFrom n
    have hplain := hst.no_newline n
    by_cases hss : ss = []
    · rw [hss, printLines_singleton, hread, lexemeLines_line hplain]
      rfl
    · have hline : '\n' ∉ (printed st).toList := newline_notMem (hread ▸ hplain)
      rw [toList_printLines_cons st hss, tokenizeFrom_append, lexemeLines_append rfl, hread,
        lexemeLines_line hplain, List.count_eq_zero.2 hline, zero_add, ih hss hrest]
      rfl

theorem splitStatements_printLines (hss : Apart ss) (h : ∀ st ∈ ss, LegibleStatement st) :
    splitStatements (tokenize (printLines ss)) = onLines 1 ss := by
  by_cases hnil : ss = []
  · have hempty : (printLines []).toList = [] := rfl
    rw [hnil, tokenize, hempty, tokenizeFrom_nil]
    rfl
  · rw [splitStatements, tokenize, lexemeLines_printLines hnil h]
    exact joinLines_apart (hss.onLines 1)

theorem splitStatements_printed (hst : st ≠ []) (h : LegibleStatement st) :
    splitStatements (tokenize (printed st)) = [st.map (Lexeme.onLine 1)] := by
  rw [← printLines_singleton]
  exact splitStatements_printLines (.cons hst nofun .nil) (List.forall_mem_singleton.2 h)

end lines

section runs

variable {v : Vocabulary} {name : String} {s s' : Rulebook × CompileReport}

def failureNote (name : String) (line : Nat) (e : StatementError) : Message :=
  ⟨.warn, s!"{name}:{line}: skipping statement: {e.message}"⟩

inductive SameNote (name : String) : Message → Message → Prop
  | same (m : Message) : SameNote name m m
  | failure (line line' : Nat) (e : StatementError) :
    SameNote name (failureNote name line e) (failureNote name line' e)

theorem sameNotes (name : String) (notes : List Message) :
    List.Forall₂ (SameNote name) notes notes :=
  List.forall₂_same.2 fun m _ => .same m

structure SameRun (name : String) (s s' : Rulebook × CompileReport) : Prop where
  content : s.1.content = s'.1.content
  report : s.2 = s'.2
  log : List.Forall₂ (SameNote name) s.1.log s'.1.log

theorem SameRun.refl (name : String) (s : Rulebook × CompileReport) : SameRun name s s :=
  ⟨rfl, rfl, sameNotes name s.1.log⟩

theorem SameRun.statement (h : SameRun name s s')
    (hst : st.map Lexeme.token = st'.map Lexeme.token) :
    SameRun name (compileStatement v name s st) (compileStatement v name s' st') := by
  obtain ⟨b, report⟩ := s
  obtain ⟨b', report'⟩ := s'
  obtain rfl : report = report' := h.report
  obtain ⟨hcontent, herror, notes, hlog, hlog'⟩ :=
    Rulebook.addStatement_alike v (st.map Lexeme.token) h.content
  have hnotes : List.Forall₂ (SameNote name) (b.log ++ notes) (b'.log ++ notes) :=
    List.rel_append h.log (sameNotes name notes)
  rw [← hlog, ← hlog'] at hnotes
  dsimp only [compileStatement]
  rw [← hst]
  cases hb : b.addStatement v (st.map Lexeme.token) with
  | mk b₁ e =>
    cases hb' : b'.addStatement v (st.map Lexeme.token) with
    | mk b₁' e' =>
      rw [hb, hb'] at hcontent herror hnotes
      obtain rfl : e = e' := herror
      cases e with
      | none => exact ⟨hcontent, rfl, hnotes⟩
      | some e => exact ⟨hcontent, rfl, List.rel_append hnotes (.cons (.failure _ _ e) .nil)⟩

theorem SameRun.statements (h : SameRun name s s')
    (hss : List.Forall₂ (fun st st' => st.map Lexeme.token = st'.map Lexeme.token) ss ss') :
    SameRun name (ss.foldl (compileStatement v name) s)
      (ss'.foldl (compileStatement v name) s') := by
  induction hss generalizing s s' with
  | nil => exact h
  | cons hst _ ih => exact ih (h.statement hst)

theorem forall₂_onLines (n : Nat) (ss : List (List Lexeme)) :
    List.Forall₂ (fun st st' => st.map Lexeme.token = st'.map Lexeme.token) ss (onLines n ss) := by
  induction ss generalizing n with
  | nil => exact .nil
  | cons st ss ih => exact .cons (token_onLine n st).symm (ih (n + 1))

theorem compileLayer_sameRun {text text' : String}
    (h : List.Forall₂ (fun st st' => st.map Lexeme.token = st'.map Lexeme.token)
      (splitStatements (tokenize text)) (splitStatements (tokenize text'))) :
    let c := compileLayer v name text
    let c' := compileLayer v name text'
    c'.layer = c.layer ∧ c'.report = c.report ∧ List.Forall₂ (SameNote name) c.log c'.log := by
  obtain ⟨hcontent, hreport, hlog⟩ :=
    (SameRun.refl name ({ layer := { name } }, {})).statements (v := v) h
  have hlayer := congrArg (·.2.2) hcontent
  dsimp only [Rulebook.content] at hlayer
  dsimp only [compileLayer]
  refine ⟨hlayer.symm, ?_, ?_⟩
  · rw [hlayer, hreport]
  · rw [hlayer, hreport]
    exact List.rel_append hlog (sameNotes name _)

end runs

/-- A text without unknown characters can be printed and read again. Its tokens, separated by
blanks, are read as they are. Each of its statements is printed to a line that is that statement
again, and compiled to the same on top of any run, except that a failure is noted of another line.
So the text with its statements printed one on each line has the same statements, layer and
report. -/
theorem reprint_exact (v : Vocabulary) (name text : String)
    (h : ∀ l ∈ tokenize text, l.token.Known) :
    let ts := tokensOf text.toList
    let ss := splitStatements (tokenize text)
    tokenize (showTokens ts) = ts.map (Lexeme.mk · 1) ∧
    (∀ st ∈ ss, splitStatements (tokenize (printed st)) = [st.map (Lexeme.onLine 1)] ∧
      ∀ run, SameRun name (compileStatement v name run st)
        (compileStatement v name run (st.map (Lexeme.onLine 1)))) ∧
    splitStatements (tokenize (printLines ss)) = onLines 1 ss ∧
    let c := compileLayer v name text
    let c' := compileLayer v name (printLines ss)
    c'.layer = c.layer ∧ c'.report = c.report ∧ List.Forall₂ (SameNote name) c.log c'.log := by
  intro ts ss
  have hlegible : ∀ st ∈ ss, LegibleStatement st := by
    intro st hst l hl
    have hmem : l ∈ ss.flatten := List.mem_flatten.2 ⟨st, hst, hl⟩
    rw [flatten_splitStatements, List.mem_filter] at hmem
    exact legible_of_mem_tokenizeFrom hmem.1 (of_decide_eq_true hmem.2) (h l hmem.1)
  have hapart : Apart ss := apart_splitStatements (tokenize text)
  have hsplit : splitStatements (tokenize (printLines ss)) = onLines 1 ss :=
    splitStatements_printLines hapart hlegible
  refine ⟨?_, fun st hst => ⟨?_, fun run => ?_⟩, hsplit, ?_⟩
  · refine (spells_showTokens fun t ht => legible_of_mem_tokensOf ht ?_).tokenizeFrom_eq 1
    obtain ⟨l, hl, rfl⟩ := List.mem_map.1 (List.mem_filter.1 ht).1
    exact h l hl
  · exact splitStatements_printed (ne_nil_of_mem_joinLines [] 0 _ st hst) (hlegible st hst)
  · exact (SameRun.refl name run).statement (token_onLine 1 st).symm
  · exact compileLayer_sameRun (hsplit ▸ forall₂_onLines 1 ss)

def crampedRules : String :=
  "Scene 00 // rooms\n\nKey<->*: (Oil |\n 007#2nd.Coin)\n$Doors\x7bGate,\nKey\x7d\n" ++
    "Key->Gate: +\nScene 1"

theorem reprint_exact_cramped :
    let ss := splitStatements (tokenize crampedRules)
    (∀ l ∈ tokenize crampedRules, l.token.Known) ∧
      printLines ss = "Scene 0\nKey <-> * : ( Oil | 7 # 2nd.Coin )\n" ++
        "$Doors \x7b Gate , Key \x7d\nKey -> Gate : +\nScene 1" ∧
      splitStatements (tokenize (printLines ss)) = onLines 1 ss ∧
      (compileLayer twoRoomsWords "base" (printLines ss)).layer =
        (compileLayer twoRoomsWords "base" crampedRules).layer := by
  intro ss
  have hknown : ∀ l ∈ tokenize crampedRules, l.token.Known := by decide +kernel
  obtain ⟨-, -, hsplit, hlayer, -⟩ := reprint_exact twoRoomsWords "base" crampedRules hknown
  exact ⟨hknown, by decide +kernel, hsplit, hlayer⟩

end WorldShuffle

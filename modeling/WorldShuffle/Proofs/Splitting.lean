import WorldShuffle.Logic.Statement
import WorldShuffle.Proofs.Lexing

namespace WorldShuffle

variable {pending line statement : List Lexeme} {lines lines' : List (List Lexeme)} {depth : Int32}

theorem lexemeLines_eq (ls : List Lexeme) : lexemeLines ls = ls.splitOnP (·.token = .newline) := by
  induction ls with
  | nil => rfl
  | cons l ls ih =>
    rw [lexemeLines, ih, List.splitOnP_cons_eq_if_modifyHead]
    split
    · exact absurd ‹_› (List.splitOnP_ne_nil _ ls)
    · rw [‹List.splitOnP _ ls = _›]
      simp only [decide_eq_true_eq, List.modifyHead_cons]

theorem lexemeLines_append {l : Lexeme} (hl : l.token = .newline) (ls ls' : List Lexeme) :
    lexemeLines (ls ++ l :: ls') = lexemeLines ls ++ lexemeLines ls' := by
  simp only [lexemeLines_eq]
  exact List.splitOnP_append_cons ls ls' (decide_eq_true hl)

theorem flatten_lexemeLines (ls : List Lexeme) :
    (lexemeLines ls).flatten = ls.filter (·.token ≠ .newline) := by
  induction ls with
  | nil => rfl
  | cons l ls ih =>
    rw [lexemeLines]
    cases h : lexemeLines ls with
    | nil => exact absurd ((lexemeLines_eq ls).symm.trans h) (List.splitOnP_ne_nil _ ls)
    | cons line lines =>
      rw [h] at ih
      dsimp only
      split <;> rename_i hl
      · rw [List.filter_cons_of_neg (by simp [hl]), ← ih, List.flatten_cons, List.nil_append]
      · rw [List.filter_cons_of_pos (by simp [hl]), ← ih, List.flatten_cons, List.cons_append,
          List.flatten_cons]

def settle (statement : List Lexeme) (depth : Int32) (lines : List (List Lexeme)) :
    List (List Lexeme) :=
  if depth ≤ 0 && endsTerm statement then statement :: joinLines [] 0 lines
  else joinLines statement depth lines

theorem joinLines_nil (pending : List Lexeme) (depth : Int32) :
    joinLines pending depth [] = if pending = [] then [] else [pending] := by
  simp only [joinLines, List.isEmpty_iff]

theorem joinLines_empty (pending : List Lexeme) (depth : Int32) (lines : List (List Lexeme)) :
    joinLines pending depth ([] :: lines) = joinLines pending depth lines := by
  rw [joinLines, if_pos List.isEmpty_nil]

theorem joinLines_opens (hline : line ≠ []) (hpending : pending ≠ [])
    (h : opensStatement line = true) :
    joinLines pending depth (line :: lines) =
      pending :: settle line (bracketBalance line) lines := by
  rw [joinLines, if_neg (by simpa using hline), if_pos (by simp [hpending, h])]
  rfl

theorem joinLines_goesOn (hline : line ≠ []) (h : pending = [] ∨ opensStatement line = false) :
    joinLines pending depth (line :: lines) =
      settle (pending ++ line) (depth + bracketBalance line) lines := by
  rw [joinLines, if_neg (by simpa using hline), if_neg (by rcases h with h | h <;> simp [h])]
  rfl

/-- A line is empty, or it closes the pending statement, or it goes on with it. -/
theorem line_cases (pending line : List Lexeme) :
    line = [] ∨ line ≠ [] ∧ (pending ≠ [] ∧ opensStatement line = true ∨
      (pending = [] ∨ opensStatement line = false)) := by
  by_cases hline : line = []
  · exact Or.inl hline
  by_cases h : pending = [] ∨ opensStatement line = false
  · exact Or.inr ⟨hline, Or.inr h⟩
  · rw [not_or, Bool.not_eq_false] at h
    exact Or.inr ⟨hline, Or.inl h⟩

theorem flatten_settle
    (h : ∀ pending depth, (joinLines pending depth lines).flatten = pending ++ lines.flatten)
    (statement : List Lexeme) (depth : Int32) :
    (settle statement depth lines).flatten = statement ++ lines.flatten := by
  rw [settle]
  split
  · rw [List.flatten_cons, h, List.nil_append]
  · exact h statement depth

theorem flatten_joinLines (pending : List Lexeme) (depth : Int32) (lines : List (List Lexeme)) :
    (joinLines pending depth lines).flatten = pending ++ lines.flatten := by
  induction lines generalizing pending depth with
  | nil =>
    rw [joinLines_nil]
    split
    · simp [*]
    · rfl
  | cons line lines ih =>
    rcases line_cases pending line with rfl | ⟨hline, ⟨hpending, hopens⟩ | h⟩
    · rw [joinLines_empty, ih, List.flatten_cons, List.nil_append]
    · rw [joinLines_opens hline hpending hopens, List.flatten_cons, flatten_settle ih,
        List.flatten_cons]
    · rw [joinLines_goesOn hline h, flatten_settle ih, List.flatten_cons, List.append_assoc]

theorem ne_nil_of_mem_settle (hstatement : statement ≠ [])
    (h : ∀ pending depth, ∀ s ∈ joinLines pending depth lines, s ≠ []) :
    ∀ s ∈ settle statement depth lines, s ≠ [] := by
  rw [settle]
  split
  · exact List.forall_mem_cons.2 ⟨hstatement, h [] 0⟩
  · exact h statement depth

theorem ne_nil_of_mem_joinLines (pending : List Lexeme) (depth : Int32)
    (lines : List (List Lexeme)) : ∀ s ∈ joinLines pending depth lines, s ≠ [] := by
  induction lines generalizing pending depth with
  | nil =>
    rw [joinLines_nil]
    split
    · exact nofun
    · exact List.forall_mem_singleton.2 ‹_›
  | cons line lines ih =>
    rcases line_cases pending line with rfl | ⟨hline, ⟨hpending, hopens⟩ | h⟩
    · rw [joinLines_empty]
      exact ih pending depth
    · rw [joinLines_opens hline hpending hopens]
      exact List.forall_mem_cons.2 ⟨hpending, ne_nil_of_mem_settle hline ih⟩
    · rw [joinLines_goesOn hline h]
      exact ne_nil_of_mem_settle (List.append_ne_nil_of_right_ne_nil pending hline) ih

theorem flatten_splitStatements (ls : List Lexeme) :
    (splitStatements ls).flatten = ls.filter (·.token ≠ .newline) := by
  rw [splitStatements, flatten_joinLines, List.nil_append, flatten_lexemeLines]

def OpensFirst (lines : List (List Lexeme)) : Prop :=
  ∃ line, lines.find? (!·.isEmpty) = some line ∧ opensStatement line = true

theorem joinLines_opensFirst (h : OpensFirst lines) (hpending : pending ≠ []) :
    joinLines pending depth lines = pending :: joinLines [] 0 lines := by
  obtain ⟨opening, hfirst, hopens⟩ := h
  induction lines with
  | nil => cases hfirst
  | cons line lines ih =>
    by_cases hline : line = []
    · rw [hline] at hfirst ⊢
      rw [joinLines_empty, joinLines_empty]
      exact ih hfirst
    · rw [List.find?_cons_of_pos (by simpa using hline)] at hfirst
      obtain rfl := Option.some.inj hfirst
      rw [joinLines_opens hline hpending hopens, joinLines_goesOn hline (Or.inl rfl), List.nil_append,
        Int32.zero_add]

theorem settle_append (hstatement : statement ≠ [])
    (h : ∀ pending depth, (pending = [] → depth = 0) →
      joinLines pending depth (lines ++ lines') = joinLines pending depth lines ++ joinLines [] 0 lines') :
    settle statement depth (lines ++ lines') = settle statement depth lines ++ joinLines [] 0 lines' := by
  rw [settle, settle]
  split
  · rw [h [] 0 fun _ => rfl, List.cons_append]
  · exact h statement depth fun hnil => absurd hnil hstatement

/-- A depth other than zero belongs to a pending statement, and goes with it. -/
theorem joinLines_append (hopens : OpensFirst lines') (lines : List (List Lexeme))
    (hdepth : pending = [] → depth = 0) :
    joinLines pending depth (lines ++ lines') = joinLines pending depth lines ++ joinLines [] 0 lines' := by
  induction lines generalizing pending depth with
  | nil =>
    rw [List.nil_append, joinLines_nil]
    split
    · rename_i hpending
      rw [hpending, hdepth hpending, List.nil_append]
    · rw [joinLines_opensFirst hopens ‹_›, List.singleton_append]
  | cons line lines ih =>
    have ih' (pending depth) (hdepth : pending = [] → depth = 0) := @ih pending depth hdepth
    rw [List.cons_append]
    rcases line_cases pending line with rfl | ⟨hline, ⟨hpending, ho⟩ | h⟩
    · rw [joinLines_empty, joinLines_empty, ih hdepth]
    · rw [joinLines_opens hline hpending ho, joinLines_opens hline hpending ho, settle_append hline ih',
        List.cons_append]
    · rw [joinLines_goesOn hline h, joinLines_goesOn hline h,
        settle_append (List.append_ne_nil_of_right_ne_nil pending hline) ih']

section tokens

variable {line' : List Lexeme} (h : line.map Lexeme.token = line'.map Lexeme.token)

include h

theorem opensStatement_congr : opensStatement line = opensStatement line' := by
  have harrow (ls : List Lexeme) :
      (ls.map Lexeme.token).any isArrow = ls.any fun l => isArrow l.token := List.any_map
  unfold opensStatement
  rw [← harrow, ← harrow, h]

theorem bracketBalance_congr : bracketBalance line = bracketBalance line' := by
  have hfold (ls : List Lexeme) :
      (ls.map Lexeme.token).foldl (fun depth t => depth + bracketStep t) 0 = bracketBalance ls :=
    List.foldl_map
  rw [← hfold, ← hfold, h]

theorem endsTerm_congr : endsTerm line = endsTerm line' := by
  unfold endsTerm
  rw [← List.getLast?_map, ← List.getLast?_map, h]

end tokens

section numbering

variable (k : Nat)

theorem token_shift (line : List Lexeme) :
    (line.map (Lexeme.shift k)).map Lexeme.token = line.map Lexeme.token := by
  rw [List.map_map]
  rfl

theorem opensStatement_shift (line : List Lexeme) :
    opensStatement (line.map (Lexeme.shift k)) = opensStatement line :=
  opensStatement_congr (token_shift k line)

theorem bracketBalance_shift (line : List Lexeme) :
    bracketBalance (line.map (Lexeme.shift k)) = bracketBalance line :=
  bracketBalance_congr (token_shift k line)

theorem endsTerm_shift (line : List Lexeme) :
    endsTerm (line.map (Lexeme.shift k)) = endsTerm line :=
  endsTerm_congr (token_shift k line)

theorem settle_shift (h : ∀ pending depth,
      joinLines (pending.map (Lexeme.shift k)) depth (lines.map (List.map (Lexeme.shift k))) =
        (joinLines pending depth lines).map (List.map (Lexeme.shift k)))
    (statement : List Lexeme) (depth : Int32) :
    settle (statement.map (Lexeme.shift k)) depth (lines.map (List.map (Lexeme.shift k))) =
      (settle statement depth lines).map (List.map (Lexeme.shift k)) := by
  rw [settle, settle, endsTerm_shift]
  split
  · rw [List.map_cons, ← h [] 0, List.map_nil]
  · exact h statement depth

theorem joinLines_shift (pending : List Lexeme) (depth : Int32) (lines : List (List Lexeme)) :
    joinLines (pending.map (Lexeme.shift k)) depth (lines.map (List.map (Lexeme.shift k))) =
      (joinLines pending depth lines).map (List.map (Lexeme.shift k)) := by
  induction lines generalizing pending depth with
  | nil =>
    rw [List.map_nil, joinLines_nil, joinLines_nil]
    simp only [List.map_eq_nil_iff]
    split <;> rfl
  | cons line lines ih =>
    rw [List.map_cons]
    have hmapped : line ≠ [] → line.map (Lexeme.shift k) ≠ [] := mt List.map_eq_nil_iff.1
    rcases line_cases pending line with rfl | ⟨hline, ⟨hpending, hopens⟩ | h⟩
    · rw [List.map_nil, joinLines_empty, joinLines_empty, ih]
    · rw [joinLines_opens (hmapped hline) (mt List.map_eq_nil_iff.1 hpending)
          ((opensStatement_shift k line).trans hopens), bracketBalance_shift, settle_shift k ih,
        joinLines_opens hline hpending hopens, List.map_cons]
    · have h' : pending.map (Lexeme.shift k) = [] ∨
          opensStatement (line.map (Lexeme.shift k)) = false := by
        rwa [List.map_eq_nil_iff, opensStatement_shift]
      rw [joinLines_goesOn (hmapped hline) h', bracketBalance_shift, ← List.map_append,
        settle_shift k ih, joinLines_goesOn hline h]

theorem lexemeLines_shift (ls : List Lexeme) :
    lexemeLines (ls.map (Lexeme.shift k)) = (lexemeLines ls).map (List.map (Lexeme.shift k)) := by
  induction ls with
  | nil => rfl
  | cons l ls ih =>
    rw [List.map_cons, lexemeLines, ih, lexemeLines]
    have htoken : (l.shift k).token = l.token := rfl
    cases lexemeLines ls with
    | nil => rfl
    | cons line lines =>
      by_cases hl : l.token = .newline
      · simp only [List.map_cons, htoken, hl, if_true, List.map_nil]
      · simp only [List.map_cons, htoken, hl, if_false]

theorem OpensFirst.shift (h : OpensFirst lines) :
    OpensFirst (lines.map (List.map (Lexeme.shift k))) := by
  obtain ⟨line, hfirst, hopens⟩ := h
  refine ⟨line.map (Lexeme.shift k), ?_, (opensStatement_shift k line).trans hopens⟩
  have hempty : ((!List.isEmpty ·) ∘ List.map (Lexeme.shift k)) = (!List.isEmpty ·) := by
    funext line
    simp
  rw [List.find?_map, hempty, hfirst]
  rfl

end numbering

/-- Whatever stands in the first text, it cannot take in what follows on a line that opens a
statement. Of any text, the statements give back all tokens in their order, and each token knows how
many lines stand before it. -/
theorem splitStatements_compositional :
    (∀ a b : String, OpensFirst (lexemeLines (tokenize b)) →
      splitStatements (tokenize (a ++ "\n" ++ b)) = splitStatements (tokenize a) ++
        (splitStatements (tokenize b)).map
          (List.map (Lexeme.shift (splitLines a.toList).length))) ∧
    ∀ text : String,
      (∀ statement ∈ splitStatements (tokenize text), statement ≠ []) ∧
      (splitStatements (tokenize text)).flatten =
        (tokenize text).filter (·.token ≠ .newline) ∧
      (splitStatements (tokenize text)).flatten =
        ((splitLines text.toList).zipIdx 1).flatMap (fun (line, n) =>
          (tokensOf line).map (Lexeme.mk · n)) ∧
      ∀ before l after, tokenize text = before ++ l :: after →
        l.line = 1 + before.countP (·.token = .newline) := by
  refine ⟨fun a b hopens => ?_, fun text => ?_⟩
  · have htext : (a ++ "\n" ++ b).toList = a.toList ++ '\n' :: b.toList := by simp
    have hlines := length_splitLines a.toList
    simp only [splitStatements, tokenize, htext, tokenizeFrom_append] at hopens ⊢
    rw [← hlines, tokenizeFrom_shift, lexemeLines_append rfl, lexemeLines_shift]
    rw [joinLines_append (hopens.shift _) _ fun _ => rfl]
    exact congrArg _ (joinLines_shift _ [] 0 _)
  · have hflatten : (splitStatements (tokenize text)).flatten =
        (tokenize text).filter (·.token ≠ .newline) := flatten_splitStatements (tokenize text)
    refine ⟨ne_nil_of_mem_joinLines [] 0 _, hflatten, ?_, fun before l after h => ?_⟩
    · rw [hflatten]
      exact filter_tokenizeFrom 1 text.toList
    · exact line_tokenizeFrom h

/-- A bracket and an operator are left open above the line that names the next scene. -/
theorem splitStatements_compositional_unclosed :
    let a := "Scene 3\nA -> B: (X |"
    let b := "// the yard\nScene 4\nC -> D: Z"
    OpensFirst (lexemeLines (tokenize b)) ∧
    splitStatements (tokenize (a ++ "\n" ++ b)) = splitStatements (tokenize a) ++
      (splitStatements (tokenize b)).map (List.map (Lexeme.shift 2)) ∧
    (splitStatements (tokenize (a ++ "\n" ++ b))).map (·.head?.map Lexeme.line) =
      [some 1, some 2, some 4, some 5] := by
  intro a b
  have hopens : OpensFirst (lexemeLines (tokenize b)) :=
    ⟨[⟨.ident "Scene", 2⟩, ⟨.int 4, 2⟩], by decide +kernel, by decide +kernel⟩
  have hsplit := splitStatements_compositional.1 a b hopens
  have hlines : (splitLines a.toList).length = 2 := by decide +kernel
  rw [hlines] at hsplit
  exact ⟨hopens, hsplit, by decide +kernel⟩

end WorldShuffle

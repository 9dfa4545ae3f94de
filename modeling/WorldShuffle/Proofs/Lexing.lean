import Mathlib
import WorldShuffle.Logic.MacroTable

namespace WorldShuffle

variable {c : Char} {cs ds : List Char} {t : Token} {n : Nat}

theorem isDigit_of_mem_toDigits {k : Nat} (hc : c ∈ Nat.toDigits 10 k) : isDigit c = true := by
  have h := Nat.isDigit_of_mem_toDigits (by decide) (by decide) hc
  simp only [Char.isDigit, Bool.and_eq_true, decide_eq_true_eq] at h
  simp only [isDigit, Bool.and_eq_true, decide_eq_true_eq]
  exact h

theorem toList_toString (k : Nat) : (toString k).toList = Nat.toDigits 10 k := by
  rw [Nat.toString_eq_ofList_toDigits, String.toList_ofList]

theorem isWordChar_newline : isWordChar '\n' = false := by decide +kernel

section stops

variable {p : Char → Bool} {rest : List Char}

theorem takeWhile_stop (hds : ∀ c ∈ ds, p c = true)
    (hrest : ∀ c, rest.head? = some c → p c = false) :
    (ds ++ rest).takeWhile p = ds := by
  have hstop : rest.takeWhile p = [] := by
    cases rest with
    | nil => rfl
    | cons c cs => simp [hrest c rfl]
  rw [List.takeWhile_append_of_pos hds, hstop, List.append_nil]

theorem dropWhile_stop (hds : ∀ c ∈ ds, p c = true)
    (hrest : ∀ c, rest.head? = some c → p c = false) :
    (ds ++ rest).dropWhile p = rest := by
  have hstop : rest.dropWhile p = rest := by
    cases rest with
    | nil => rfl
    | cons c cs => simp [hrest c rfl]
  rw [List.dropWhile_append_of_pos hds, hstop]

theorem takeWhile_append_cons (hp : p c = false) (cs ds : List Char) :
    (cs ++ c :: ds).takeWhile p = cs.takeWhile p := by
  induction cs with
  | nil => rw [List.nil_append, List.takeWhile_cons_of_neg (by simp [hp]), List.takeWhile_nil]
  | cons d cs ih => rw [List.cons_append, List.takeWhile_cons, List.takeWhile_cons, ih]

theorem dropWhile_append_cons (hp : p c = false) (cs ds : List Char) :
    (cs ++ c :: ds).dropWhile p = cs.dropWhile p ++ c :: ds := by
  induction cs with
  | nil =>
    rw [List.nil_append, List.dropWhile_cons_of_neg (by simp [hp]), List.dropWhile_nil,
      List.nil_append]
  | cons d cs ih =>
    rw [List.cons_append, List.dropWhile_cons, List.dropWhile_cons, ih]
    split <;> rfl

theorem newline_notMem_takeWhile (hp : p '\n' = false) (cs : List Char) : '\n' ∉ cs.takeWhile p := by
  intro h
  rw [List.mem_takeWhile_imp h] at hp
  cases hp

end stops

theorem two_le_length (h : cs.take 2 = ['-', '>']) : 2 ≤ cs.length := by
  have hlength := congrArg List.length h
  rw [List.length_take] at hlength
  change min 2 cs.length = 2 at hlength
  omega

/-- A character with which no token goes on can only be taken up by a comment. -/
theorem readToken_append {stop : Char} (hword : isWordChar stop = false)
    (hsign : stop ∉ ['/', '>', '-']) (c : Char) (cs ds : List Char)
    (hcomment : c = '/' → cs.head? = some '/' → '\n' ∈ cs ∨ stop = '\n') :
    readToken c (cs ++ stop :: ds) = ((readToken c cs).1, (readToken c cs).2 ++ stop :: ds) := by
  simp only [List.mem_cons, List.not_mem_nil, or_false, not_or] at hsign
  obtain ⟨hne, hgt, hdash⟩ := hsign
  have hslash : (cs ++ stop :: ds).head? = some '/' ↔ cs.head? = some '/' := by
    cases cs <;> simp [hne]
  have hgreater : (cs ++ stop :: ds).head? = some '>' ↔ cs.head? = some '>' := by
    cases cs <;> simp [hgt]
  have htwo : (cs ++ stop :: ds).take 2 = ['-', '>'] ↔ cs.take 2 = ['-', '>'] := by
    match cs with
    | [] => simp [hdash]
    | [_] => simp [hgt]
    | _ :: _ :: _ => simp
  simp only [readToken, hslash, hgreater, htwo, takeWhile_append_cons hword,
    dropWhile_append_cons hword]
  split
  · rfl
  split
  · rename_i h
    rcases hcomment h.1 h.2 with hbreak | rfl
    · obtain ⟨comment, rest, rfl, hplain⟩ := List.eq_append_cons_of_mem hbreak
      have hdrop (rest : List Char) : (comment ++ '\n' :: rest).dropWhile (· ≠ '\n') = '\n' :: rest :=
        dropWhile_stop (fun c hc => decide_eq_true fun hn => hplain (hn ▸ hc)) (by rintro _ ⟨⟩; rfl)
      rw [List.append_assoc, List.cons_append, hdrop, hdrop]
      rfl
    · rw [dropWhile_append_cons rfl]
  split
  · rename_i h
    obtain ⟨cs, rfl⟩ := List.head?_eq_some_iff.1 h.2
    rfl
  split
  · rename_i h
    rw [List.drop_append_of_le_length (two_le_length h.2)]
  split
  · rfl
  split <;> rfl

theorem readToken_newline (c : Char) (cs ds : List Char) :
    readToken c (cs ++ '\n' :: ds) = ((readToken c cs).1, (readToken c cs).2 ++ '\n' :: ds) :=
  readToken_append isWordChar_newline (by decide) c cs ds fun _ _ => Or.inr rfl

theorem readToken_drops (c : Char) (cs : List Char) :
    ∃ read, cs = read ++ (readToken c cs).2 ∧ '\n' ∉ read := by
  unfold readToken
  split
  · exact ⟨[], rfl, List.not_mem_nil⟩
  split
  · exact ⟨_, List.takeWhile_append_dropWhile.symm, newline_notMem_takeWhile rfl cs⟩
  split
  · rename_i h
    obtain ⟨cs, rfl⟩ := List.head?_eq_some_iff.1 h.2
    exact ⟨['>'], rfl, by decide⟩
  split
  · rename_i h
    refine ⟨['-', '>'], ?_, by decide⟩
    rw [← h.2]
    exact (List.take_append_drop 2 cs).symm
  split
  · exact ⟨_, List.takeWhile_append_dropWhile.symm, newline_notMem_takeWhile isWordChar_newline cs⟩
  split
  · exact ⟨_, List.takeWhile_append_dropWhile.symm, newline_notMem_takeWhile isWordChar_newline cs⟩
  · exact ⟨[], rfl, List.not_mem_nil⟩

theorem count_readToken (c : Char) (cs : List Char) :
    (readToken c cs).2.count '\n' = cs.count '\n' := by
  obtain ⟨read, hcs, hread⟩ := readToken_drops c cs
  have h := congrArg (List.count '\n') hcs
  rw [List.count_append, List.count_eq_zero.2 hread, Nat.zero_add] at h
  exact h.symm

theorem readToken_ne_newline (h : (readToken c cs).1 = some t) (hc : c ≠ '\n') : t ≠ .newline := by
  unfold readToken at h
  split at h
  · cases h
  split at h
  · cases h
  split at h
  · cases h
    exact Token.noConfusion
  split at h
  · cases h
    exact Token.noConfusion
  split at h
  · cases h
    split <;> exact Token.noConfusion
  split at h
  · cases h
    unfold wordToken
    split
    · split <;> exact Token.noConfusion
    · exact Token.noConfusion
  · cases h
    unfold signToken
    split <;> exact Token.noConfusion

theorem tokenizeFrom_nil (n : Nat) : tokenizeFrom n [] = [] := by rw [tokenizeFrom]

theorem tokenizeFrom_newline (n : Nat) (cs : List Char) :
    tokenizeFrom n ('\n' :: cs) = ⟨.newline, n⟩ :: tokenizeFrom (n + 1) cs := by
  rw [tokenizeFrom, if_pos rfl]

theorem tokenizeFrom_cons (n : Nat) (cs : List Char) (hc : c ≠ '\n') :
    tokenizeFrom n (c :: cs) =
      ((readToken c cs).1.map (Lexeme.mk · n)).toList ++ tokenizeFrom n (readToken c cs).2 := by
  rw [tokenizeFrom, if_neg hc]
  cases h : (readToken c cs).1 <;> simp only [h] <;> rfl

/-- A text is read line break by line break and, within a line, from one token to the next. -/
theorem tokenizeFrom_induction {P : Nat → List Char → Prop} (hnil : ∀ n, P n [])
    (hnewline : ∀ n cs, P (n + 1) cs → P n ('\n' :: cs))
    (hread : ∀ n c cs, c ≠ '\n' → P n (readToken c cs).2 → P n (c :: cs)) (n : Nat)
    (cs : List Char) : P n cs := by
  induction n, cs using tokenizeFrom.induct with
  | case1 n => exact hnil n
  | case2 n cs ih => exact hnewline n cs ih
  | case3 n c cs hc _ _ ih => exact hread n c cs hc ih
  | case4 n c cs hc _ _ _ ih => exact hread n c cs hc ih

/-- A line break is a token of its own, and what stands before and behind it is read by itself. -/
theorem tokenizeFrom_append (n : Nat) (cs ds : List Char) :
    tokenizeFrom n (cs ++ '\n' :: ds) = tokenizeFrom n cs ++
      ⟨.newline, n + cs.count '\n'⟩ :: tokenizeFrom (n + (cs.count '\n' + 1)) ds := by
  induction n, cs using tokenizeFrom_induction with
  | hnil n => rw [List.nil_append, tokenizeFrom_newline, tokenizeFrom_nil]; rfl
  | hnewline n cs ih =>
    rw [List.cons_append, tokenizeFrom_newline, ih, tokenizeFrom_newline, List.count_cons_self,
      List.cons_append]
    simp only [Nat.add_assoc, Nat.add_comm 1]
  | hread n c cs hc ih =>
    rw [List.cons_append, tokenizeFrom_cons n _ hc, readToken_newline, ih, tokenizeFrom_cons n _ hc,
      List.append_assoc, List.count_cons_of_ne hc, count_readToken]

def Lexeme.shift (k : Nat) (l : Lexeme) : Lexeme := { l with line := l.line + k }

theorem tokenizeFrom_shift (k n : Nat) (cs : List Char) :
    tokenizeFrom (n + k) cs = (tokenizeFrom n cs).map (Lexeme.shift k) := by
  induction n, cs using tokenizeFrom_induction with
  | hnil n => rw [tokenizeFrom_nil, tokenizeFrom_nil, List.map_nil]
  | hnewline n cs ih =>
    rw [tokenizeFrom_newline, tokenizeFrom_newline, List.map_cons, ← ih, Nat.add_right_comm]
    rfl
  | hread n c cs hc ih =>
    rw [tokenizeFrom_cons _ _ hc, tokenizeFrom_cons _ _ hc, List.map_append, ih]
    cases (readToken c cs).1 <;> rfl

theorem line_tokenizeFrom {l : Lexeme} {before after : List Lexeme}
    (h : tokenizeFrom n cs = before ++ l :: after) :
    l.line = n + before.countP (·.token = .newline) := by
  induction n, cs using tokenizeFrom_induction generalizing before with
  | hnil n =>
    rw [tokenizeFrom_nil] at h
    exact absurd h.symm (by simp)
  | hnewline n cs ih =>
    rw [tokenizeFrom_newline] at h
    cases before with
    | nil =>
      obtain ⟨rfl, -⟩ := List.cons.inj h
      rfl
    | cons b before =>
      obtain ⟨rfl, htail⟩ := List.cons.inj h
      rw [ih htail, List.countP_cons_of_pos rfl]
      omega
  | hread n c cs hc ih =>
    rw [tokenizeFrom_cons _ _ hc] at h
    cases ht : (readToken c cs).1 with
    | none =>
      rw [ht] at h
      exact ih h
    | some t =>
      rw [ht] at h
      cases before with
      | nil =>
        obtain ⟨rfl, -⟩ := List.cons.inj h
        rfl
      | cons b before =>
        obtain ⟨rfl, htail⟩ := List.cons.inj h
        rw [ih htail, List.countP_cons_of_neg]
        simpa using readToken_ne_newline ht hc

theorem tokenizeFrom_token (n : Nat) (cs : List Char) :
    (tokenizeFrom n cs).map Lexeme.token = (tokenizeFrom 1 cs).map Lexeme.token := by
  have hshift (k : Nat) : (tokenizeFrom (0 + k) cs).map Lexeme.token =
      (tokenizeFrom 0 cs).map Lexeme.token := by
    rw [tokenizeFrom_shift, List.map_map]
    rfl
  rw [← Nat.zero_add n, ← Nat.zero_add 1, hshift, hshift]

section lines

variable {P : List Char → Prop}

theorem splitLines_eq (cs : List Char) : splitLines cs = cs.splitOnP (· == '\n') := by
  induction cs with
  | nil => rfl
  | cons c cs ih =>
    rw [splitLines, ih, List.splitOnP_cons_eq_if_modifyHead]
    split
    · exact absurd ‹_› (List.splitOnP_ne_nil _ cs)
    · rw [‹List.splitOnP _ cs = _›]
      simp only [beq_iff_eq, List.modifyHead_cons]

theorem splitLines_append (cs ds : List Char) :
    splitLines (cs ++ '\n' :: ds) = splitLines cs ++ splitLines ds := by
  simp only [splitLines_eq]
  exact List.splitOnP_append_cons cs ds (beq_self_eq_true '\n')

theorem splitLines_line (h : '\n' ∉ cs) : splitLines cs = [cs] := by
  rw [splitLines_eq]
  exact List.splitOnP_eq_singleton fun c hc => beq_false_of_ne fun hn => h (hn ▸ hc)

theorem lines_induction (hline : ∀ cs, '\n' ∉ cs → P cs)
    (hbreak : ∀ cs ds, '\n' ∉ cs → P ds → P (cs ++ '\n' :: ds)) (cs : List Char) : P cs := by
  induction h : cs.count '\n' generalizing cs with
  | zero => exact hline cs (List.count_eq_zero.1 h)
  | succ k ih =>
    have hmem : '\n' ∈ cs := List.count_pos_iff.1 (by omega)
    obtain ⟨line, ds, rfl, hline⟩ := List.eq_append_cons_of_mem hmem
    refine hbreak line ds hline (ih ds ?_)
    rw [List.count_append, List.count_cons_self, List.count_eq_zero.2 hline] at h
    omega

theorem length_splitLines (cs : List Char) : (splitLines cs).length = cs.count '\n' + 1 := by
  induction cs using lines_induction with
  | hline cs h => rw [splitLines_line h, List.count_eq_zero.2 h]; rfl
  | hbreak cs ds h ih =>
    rw [splitLines_append, List.length_append, ih, splitLines_line h, List.count_append,
      List.count_cons_self, List.count_eq_zero.2 h, List.length_singleton]
    omega

end lines

theorem tokenizeFrom_plain (n : Nat) (h : '\n' ∉ cs) :
    ∀ l ∈ tokenizeFrom n cs, l.line = n ∧ l.token ≠ .newline := by
  induction n, cs using tokenizeFrom_induction with
  | hnil n =>
    rw [tokenizeFrom_nil]
    exact nofun
  | hnewline n cs ih => exact absurd List.mem_cons_self h
  | hread n c cs hc ih =>
    have hrest : '\n' ∉ (readToken c cs).2 := by
      rw [← List.count_eq_zero, count_readToken, List.count_eq_zero]
      exact fun hmem => h (List.mem_cons_of_mem c hmem)
    rw [tokenizeFrom_cons n cs hc]
    refine fun l hl => (List.mem_append.1 hl).elim (fun hl => ?_) (ih hrest l)
    obtain ⟨t, ht, rfl⟩ := Option.map_eq_some_iff.1 (Option.mem_toList.1 hl)
    exact ⟨rfl, readToken_ne_newline ht hc⟩

theorem filter_tokenizeFrom_plain (n : Nat) (h : '\n' ∉ cs) :
    (tokenizeFrom n cs).filter (·.token ≠ .newline) = (tokensOf cs).map (Lexeme.mk · n) := by
  have hplain (k : Nat) := tokenizeFrom_plain k h
  have htokens : tokensOf cs = (tokenizeFrom n cs).map Lexeme.token := by
    rw [tokensOf, ← tokenizeFrom_token n, List.filter_eq_self]
    intro t ht
    obtain ⟨l, hl, rfl⟩ := List.mem_map.1 ht
    exact decide_eq_true (hplain n l hl).2
  rw [htokens, List.map_map, List.filter_eq_self.2 fun l hl => decide_eq_true (hplain n l hl).2]
  refine (List.map_id _).symm.trans (List.map_congr_left fun l hl => ?_)
  exact congrArg (Lexeme.mk l.token) (hplain n l hl).1

theorem filter_tokenizeFrom (n : Nat) (cs : List Char) :
    (tokenizeFrom n cs).filter (·.token ≠ .newline) =
      ((splitLines cs).zipIdx n).flatMap fun (line, k) => (tokensOf line).map (Lexeme.mk · k) := by
  induction cs using lines_induction generalizing n with
  | hline cs h =>
    rw [filter_tokenizeFrom_plain n h, splitLines_line h]
    exact (List.append_nil _).symm
  | hbreak cs ds h ih =>
    rw [tokenizeFrom_append, List.filter_append, filter_tokenizeFrom_plain n h,
      List.filter_cons_of_neg (by simp), ih, splitLines_append, splitLines_line h, List.zipIdx_append,
      List.flatMap_append, List.count_eq_zero.2 h]
    simp

end WorldShuffle

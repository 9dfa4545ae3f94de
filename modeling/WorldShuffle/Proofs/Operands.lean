import Mathlib
import WorldShuffle.Proofs.Parentheses

namespace WorldShuffle

variable {m : MacroTable} {skips : Skips} {name : String} {c : Char} {t : Token}
  {ts us vs inner body : List Token} {x : Expr} {as ds out : List Clause} {k : Nat} {s : States}

section texts

/-- No comment is open behind the text: what follows it after a blank is read for itself. -/
def ReadApart (cs : List Char) : Prop :=
  ∀ rest, tokensOf (cs ++ ' ' :: rest) = tokensOf cs ++ tokensOf rest

theorem tokensOf_space (rest : List Char) : tokensOf (' ' :: rest) = tokensOf rest := by
  rw [tokensOf, tokenizeFrom_space, tokensOf]

theorem isWordChar_closeParen : isWordChar ')' = false := by decide +kernel

theorem isWordChar_space : isWordChar ' ' = false := by decide +kernel

/-- Behind a text a parenthesis is closed, or it belongs to a comment. -/
theorem tokenizeFrom_closeParen (n : Nat) (cs : List Char) :
    (∃ line, tokenizeFrom n (cs ++ [')']) = tokenizeFrom n cs ++ [⟨.closeParen, line⟩]) ∨
      tokenizeFrom n (cs ++ [')']) = tokenizeFrom n cs := by
  induction n, cs using tokenizeFrom_induction with
  | hnil n =>
    have hread : readToken ')' [] = (some .closeParen, []) :=
      readToken_sign (by decide) isWordChar_closeParen (by decide) []
    rw [List.nil_append, tokenizeFrom_cons n [] (by decide), hread, tokenizeFrom_nil]
    exact Or.inl ⟨n, rfl⟩
  | hnewline n cs ih =>
    rw [List.cons_append, tokenizeFrom_newline, tokenizeFrom_newline]
    rcases ih with ⟨line, h⟩ | h
    · exact Or.inl ⟨line, by rw [h, List.cons_append]⟩
    · exact Or.inr (by rw [h])
  | hread n c cs hc ih =>
    rw [List.cons_append, tokenizeFrom_cons n _ hc, tokenizeFrom_cons n _ hc]
    by_cases hcomment : c = '/' → cs.head? = some '/' → '\n' ∈ cs ∨ ')' = '\n'
    · rw [readToken_append isWordChar_closeParen (by decide) c cs [] hcomment]
      rcases ih with ⟨line, h⟩ | h
      · exact Or.inl ⟨line, by rw [h, List.append_assoc]⟩
      · exact Or.inr (by rw [h])
    · -- a comment is open, and the parenthesis goes with it
      simp only [Classical.not_imp, not_or] at hcomment
      obtain ⟨rfl, hslash, hplain, -⟩ := hcomment
      obtain ⟨cs, rfl⟩ := List.head?_eq_some_iff.1 hslash
      have hall : ∀ c ∈ '/' :: cs, decide (c ≠ '\n') = true := fun c hc =>
        decide_eq_true fun hn => hplain (hn ▸ hc)
      have hdrop {rest : List Char} (h : ∀ c ∈ rest, decide (c ≠ '\n') = true) :
          rest.dropWhile (· ≠ '\n') = [] := List.dropWhile_eq_nil_iff.2 h
      have hblank : isBlank '/' = false := by decide
      have hread (rest : List Char) :
          readToken '/' ('/' :: rest) = (none, ('/' :: rest).dropWhile (· ≠ '\n')) := by
        simp [readToken, hblank]
      refine Or.inr ?_
      rw [List.cons_append, hread, hread, hdrop hall, ← List.cons_append,
        hdrop (List.forall_mem_append.2 ⟨hall, List.forall_mem_singleton.2 rfl⟩)]

theorem tokensOf_closeParen (cs : List Char) :
    tokensOf (cs ++ [')']) = tokensOf cs ++ [.closeParen] ∨ tokensOf (cs ++ [')']) = tokensOf cs := by
  rcases tokenizeFrom_closeParen 1 cs with ⟨line, h⟩ | h
  · left
    rw [tokensOf, h, List.map_append, List.filter_append, tokensOf]
    rfl
  · right
    rw [tokensOf, h, tokensOf]

theorem tokensOf_sum (hname : ReadApart name.toList) (e : String) :
    tokensOf (name ++ " + (" ++ e ++ ")").toList =
      tokensOf name.toList ++ .plus :: .openParen :: tokensOf (e.toList ++ [')']) := by
  have htext : (name ++ " + (" ++ e ++ ")").toList =
      name.toList ++ ' ' :: (['+'] ++ ' ' :: (['('] ++ (e.toList ++ [')']))) := by
    simp [String.toList_append]
  rw [htext, hname, separates_plus.tokensOf_append nofun, tokensOf_space,
    separates_openParen.tokensOf_append nofun]
  rfl

theorem spells_nat (n : Nat) :
    n < UInt32.size ∧ Spells (toString n).toList [.int (UInt32.ofNat n)] ∨
      ∃ c, Spells (toString n).toList [.unknown c] := by
  by_cases hn : n < UInt32.size
  · have hspells := spells_int (UInt32.ofNat n)
    rw [UInt32.toNat_ofNat_of_lt' hn] at hspells
    exact Or.inl ⟨hn, hspells⟩
  · have hdigits : (Nat.toDigits 10 n).all isDigit = true :=
      List.all_eq_true.2 fun c => isDigit_of_mem_toDigits
    have hvalue : digitsValue (Nat.toDigits 10 n) = n := Nat.ofDigitChars_ten_toDigits
    obtain ⟨first, rest, hcons⟩ := List.exists_cons_of_ne_nil (Nat.toDigits_ne_nil (b := 10) (n := n))
    refine Or.inr ⟨first, spells_digits n fun c hc => ?_⟩
    rw [hcons] at hc
    rw [wordToken, if_pos hdigits, hvalue, if_neg hn, Option.some.inj hc]

theorem tokensOf_product {n : Nat} (h : Spells (toString n).toList [t]) (ht : t ≠ .newline)
    (name : String) : tokensOf (s!"{n}#{name}").toList = t :: .hash :: tokensOf name.toList := by
  have htext : (s!"{n}#{name}").toList = (toString n).toList ++ (['#'] ++ name.toList) := by
    change (toString n ++ "#" ++ name).toList = _
    simp [String.toList_append]
  rw [htext, h.tokensOf_append (fun hn => ht (List.mem_singleton.1 hn).symm) (separates_hash.ends _),
    separates_hash.tokensOf_append nofun]
  rfl

theorem readApart_word (h : tokensOf name.toList = [.ident name]) : ReadApart name.toList := by
  intro rest
  have hname : IsName name.toList :=
    legible_of_mem_tokensOf (t := .ident name) (h ▸ List.mem_singleton_self _) nofun
  rw [hname.spells.tokensOf_append nofun (endsWord_cons isWordChar_space rest), tokensOf_space, h]

end texts

section names

structure IsMacroName (name : String) : Prop where
  ne_empty : name ≠ ""
  chars : ∀ c ∈ name.toList, isMacroNameChar c = true

namespace MacroTable

theorem readLine_eq_some {m' : MacroTable} {number : Nat} {line : List Char}
    (h : m.readLine number line = .ok (some m')) :
    ∃ name body, IsMacroName name ∧ m.define name body = .ok m' := by
  unfold readLine at h
  dsimp only at h
  split at h
  · cases h
  split at h
  · cases h
  split at h
  · cases h
  rename_i hchars
  simp only [Bool.or_eq_true, not_or, Bool.not_eq_true, Bool.not_eq_false', List.isEmpty_eq_false_iff,
    List.all_eq_true] at hchars
  split at h
  · obtain rfl := Option.some.inj (Except.ok.inj h)
    refine ⟨_, _, ⟨fun hempty => hchars.1 (String.ofList_eq_empty_iff.1 hempty), ?_⟩, ‹_›⟩
    rw [String.toList_ofList]
    exact hchars.2
  · cases h

theorem isMacroName_of_readLines (number count : Nat) (lines : List (List Char))
    (hm : ∀ name body, m.get? name = some body → IsMacroName name)
    (h : (m.readLines number count lines).1.get? name = some body) : IsMacroName name := by
  induction lines generalizing m number count with
  | nil => exact hm name body h
  | cons line lines ih =>
    rw [readLines] at h
    split at h
    · exact ih _ _ hm h
    · rename_i m' hline
      obtain ⟨defined, text, hname, hdefine⟩ := readLine_eq_some hline
      obtain ⟨rfl, -⟩ := define_eq_ok hdefine
      refine ih _ _ (fun other ts hother => ?_) h
      rw [get?, Table.get?_set] at hother
      split at hother
      · exact ‹other = defined› ▸ hname
      · exact hm other ts hother
    · exact hm name body h

theorem isMacroName_of_parse {text : String}
    (h : (MacroTable.parse {} text).1.get? name = some body) : IsMacroName name :=
  isMacroName_of_readLines 1 0 _ (by rintro _ _ ⟨⟩) h

end MacroTable

theorem isMacroNameChar_cases (h : isMacroNameChar c = true) :
    isDigit c = true ∨ (0x61 ≤ c.toNat ∧ c.toNat ≤ 0x7a) ∨ (0x41 ≤ c.toNat ∧ c.toNat ≤ 0x5a) ∨
      c = '_' := by
  simp only [isMacroNameChar, Bool.or_eq_true, Bool.and_eq_true, decide_eq_true_eq, beq_iff_eq,
    Char.le_def, UInt32.le_iff_toNat_le] at h
  rcases h with ((h | h) | h) | h
  · exact Or.inl h
  · exact Or.inr (Or.inl h)
  · exact Or.inr (Or.inr (Or.inl h))
  · exact Or.inr (Or.inr (Or.inr h))

theorem isWordChar_of_isMacroNameChar (h : isMacroNameChar c = true) : isWordChar c = true := by
  have hletter (hlow : 0x41 ≤ c.toNat) (h : c.toNat ≤ 0x5a ∨ 0x61 ≤ c.toNat ∧ c.toNat ≤ 0x7a) :
      isAlphanumeric c = true := by
    have hin (ranges : List (Nat × Nat)) :
        inRanges c.toNat ((0x30, 0x39) :: (0x41, 0x5a) :: (0x61, 0x7a) :: ranges) = true := by
      simp only [inRanges, Bool.and_eq_true, Bool.or_eq_true, decide_eq_true_eq]
      omega
    exact hin _
  rcases isMacroNameChar_cases h with h | h | h | rfl
  · exact isWordChar_of_isDigit h
  · simp only [isWordChar, hletter (by omega) (Or.inr h), Bool.true_or]
  · simp only [isWordChar, hletter h.1 (Or.inl h.2), Bool.true_or]
  · decide +kernel

theorem isBlank_of_isMacroNameChar (h : isMacroNameChar c = true) : isBlank c = false := by
  have hletter (hlow : 0x41 ≤ c.toNat) (hhigh : c.toNat ≤ 0x7a) : isBlank c = false := by
    simp only [isBlank, Bool.or_eq_false_iff, Bool.and_eq_false_iff, decide_eq_false_iff_not,
      beq_eq_false_iff_ne]
    omega
  rcases isMacroNameChar_cases h with h | h | h | rfl
  · exact isBlank_of_isDigit h
  · exact hletter (by omega) h.2
  · exact hletter h.1 (by omega)
  · rfl

theorem Infix.isMacroToken (h : Infix k ts x) : ∀ t ∈ ts, isMacroToken t = true := by
  induction h with
  | term k name => exact List.forall_mem_singleton.2 rfl
  | int k n => exact List.forall_mem_singleton.2 rfl
  | paren k _ ih =>
    exact List.forall_mem_cons.2 ⟨rfl, List.forall_mem_append.2 ⟨ih, List.forall_mem_singleton.2 rfl⟩⟩
  | @op _ t _ _ _ _ _ ht _ _ _ ihl ihr =>
    refine List.forall_mem_append.2 ⟨ihl, List.forall_mem_cons.2 ⟨?_, ihr⟩⟩
    cases t <;> first | rfl | cases ht

theorem unknown_notMem (h : compileExpression m skips ts = .ok as) (c : Char) : .unknown c ∉ ts := by
  intro hc
  obtain ⟨us, x, hus, hx, -⟩ := compileExpression_iff.1 h
  obtain ⟨parts, hparts, rfl⟩ := expand_eq_ok hus
  obtain ⟨part, hpart, hexpand⟩ := (mapM_eq_ok hparts).2 _ hc
  have hsettled : (Token.unknown c).Settled m skips := trivial
  rw [expandToken_settled hsettled] at hexpand
  obtain rfl := Except.ok.inj hexpand
  have hmacro := hx.isMacroToken _ (List.mem_flatten.2 ⟨_, hpart, List.mem_singleton_self _⟩)
  cases hmacro

theorem compileExpression_int_ne (n : UInt32) : compileExpression m skips [.int n] ≠ .ok as := by
  intro h
  obtain ⟨us, x, hus, hx, hv⟩ := compileExpression_iff.1 h
  have hsettled : (Token.int n).Settled m skips := trivial
  rw [expand_settled (List.forall_mem_singleton.2 hsettled)] at hus
  obtain rfl := Except.ok.inj hus
  rw [hx.unique (Infix.int 1 n)] at hv
  cases hv

/-- A macro name that compiles is read as one word; one of digits alone would be read as a
number. -/
theorem IsMacroName.tokensOf_eq (h : IsMacroName name)
    (has : compileExpression m skips (tokensOf name.toList) = .ok as) :
    tokensOf name.toList = [.ident name] := by
  have hne : name.toList ≠ [] := fun hnil => h.ne_empty (String.toList_eq_nil_iff.1 hnil)
  have hword : ∀ c ∈ name.toList, isWordChar c = true := fun c hc =>
    isWordChar_of_isMacroNameChar (h.chars c hc)
  have hhead : ∀ c, name.toList.head? = some c → isBlank c = false := fun c hc =>
    isBlank_of_isMacroNameChar (h.chars c (List.mem_of_mem_head? hc))
  by_cases hdigits : name.toList.all isDigit = true
  · obtain ⟨first, word, hcons⟩ := List.exists_cons_of_ne_nil hne
    have hspells : Spells name.toList [wordToken first name.toList] := by
      refine spells_word hne hword hhead fun c hc => ?_
      rw [hcons] at hc
      rw [Option.some.inj hc]
    rw [wordToken, if_pos hdigits] at hspells
    split at hspells
    · rw [hspells.tokensOf_eq (by simp)] at has
      exact absurd has (compileExpression_int_ne _)
    · rw [hspells.tokensOf_eq (by simp)] at has
      exact absurd (List.mem_singleton_self _) (unknown_notMem has first)
  · have hname : IsName name.toList := ⟨hword, hhead, Bool.eq_false_iff.2 hdigits⟩
    exact hname.spells.tokensOf_eq (by simp)

end names

section operators

theorem expand_append (hts : expand m skips ts = .ok us) (hbody : expand m skips body = .ok vs) :
    expand m skips (ts ++ body) = .ok (us ++ vs) := by
  obtain ⟨parts, hparts, rfl⟩ := expand_eq_ok hts
  obtain ⟨more, hmore, rfl⟩ := expand_eq_ok hbody
  rw [expand, List.mapM_append, hparts, ← List.flatten_append]
  change (body.mapM (expandToken m skips maxNesting) >>= _).map List.flatten = _
  rw [hmore]
  rfl

theorem expand_cons (ht : t.Settled m skips) (hts : expand m skips ts = .ok us) :
    expand m skips (t :: ts) = .ok (t :: us) :=
  expand_append (expand_settled (List.forall_mem_singleton.2 ht)) hts

theorem expand_singleton (h : expand m skips [t] = .ok us) :
    expandToken m skips maxNesting t = .ok us := by
  obtain ⟨parts, hparts, rfl⟩ := expand_eq_ok h
  rw [List.mapM_cons, List.mapM_nil] at hparts
  obtain ⟨part, hpart, hparts⟩ := bind_eq_ok hparts
  obtain rfl := Except.ok.inj hparts
  rw [hpart, List.flatten_singleton]

theorem expandToken_enclosed (hbody : m.get? name = some body)
    (h : expandToken m skips k (.ident name) = .ok us) : ∃ inner, us = enclosed inner := by
  cases k with
  | zero =>
    simp only [expandToken, hbody] at h
    cases h
  | succ k =>
    rw [expandToken_body hbody] at h
    obtain ⟨parts, -, rfl⟩ := map_eq_ok h
    exact ⟨parts.flatten, rfl⟩

theorem operand_iff (h : Infix 1 (enclosed inner) x) :
    (∀ k, Infix k (enclosed inner) x) ↔ Contained inner :=
  ⟨fun hall => (hall 4).contained, fun hinner k => .paren k (h.of_enclosed hinner)⟩

theorem Infix.value_eq (hx : Infix 1 us x) (hus : expand m skips ts = .ok us)
    (has : compileExpression m skips ts = .ok as) : x.value = .ok (.alternatives as) := by
  obtain ⟨us', x', hus', hx', hv⟩ := compileExpression_iff.1 has
  obtain rfl := Except.ok.inj (hus.symm.trans hus')
  rwa [hx.unique hx']

/-- An operand and a text in parentheses compile to what they compile to together. -/
theorem bothOf_of_compile {es : List Token} (hus : expand m skips ts = .ok us)
    (hx : ∀ k, Infix k us x) (hv : x.value = .ok (.alternatives as))
    (hds : compileExpression m skips es = .ok ds)
    (hout : compileExpression m skips (ts ++ .plus :: .openParen :: (es ++ [.closeParen])) = .ok out) :
    bothOf as ds = .ok out := by
  obtain ⟨vs, y, hvs, hy, hw⟩ := compileExpression_iff.1 hds
  have hopen : Token.openParen.Settled m skips := trivial
  have hplus : Token.plus.Settled m skips := trivial
  have hclose : expand m skips [.closeParen] = .ok [.closeParen] :=
    expand_settled (List.forall_mem_singleton.2 trivial)
  have hexpand := expand_append hus (expand_cons hplus (expand_cons hopen (expand_append hvs hclose)))
  have htree : Infix 1 (us ++ .plus :: enclosed vs) (.op .both x y) :=
    .op rfl (by decide) (hx _) (.paren _ hy)
  have hvalue := htree.value_eq hexpand hout
  rw [Expr.value_op hv hw] at hvalue
  obtain ⟨out', hboth, heq⟩ := map_eq_ok hvalue
  cases heq
  exact hboth

theorem compileExpression_open_ne {es : List Token} (hus : expand m skips ts = .ok us)
    (hx : Infix k us x) (hds : compileExpression m skips es = .ok ds) :
    compileExpression m skips (ts ++ .plus :: .openParen :: es) ≠ .ok out := by
  intro hout
  obtain ⟨vs, y, hvs, hy, -⟩ := compileExpression_iff.1 hds
  have hopen : Token.openParen.Settled m skips := trivial
  have hplus : Token.plus.Settled m skips := trivial
  obtain ⟨us', e, hus', he, -⟩ := compileExpression_iff.1 hout
  rw [expand_append hus (expand_cons hplus (expand_cons hopen hvs))] at hus'
  obtain rfl := Except.ok.inj hus'
  have hclosed := he.balanced.closed
  rw [opened_append, opened_cons, opened_cons, hx.balanced.closed, hy.balanced.closed] at hclosed
  exact absurd hclosed (by decide)

theorem scaleAll_of_compile {n : UInt32} (hus : expand m skips ts = .ok us)
    (hx : ∀ k, Infix k us x) (hv : x.value = .ok (.alternatives as))
    (hout : compileExpression m skips (.int n :: .hash :: ts) = .ok out) : scaleAll n as = .ok out := by
  have hint : (Token.int n).Settled m skips := trivial
  have hhash : Token.hash.Settled m skips := trivial
  have htree : Infix 1 ([.int n] ++ .hash :: us) (.op .times (.int n) x) :=
    .op rfl (by decide) (.int _ n) (hx _)
  have hvalue := htree.value_eq (expand_cons hint (expand_cons hhash hus)) hout
  rw [Expr.value_op (l := .int n) rfl hv] at hvalue
  obtain ⟨out', hscaled, heq⟩ := map_eq_ok hvalue
  cases heq
  exact hscaled

theorem holds_bothOf (has : Tidy as) (hds : Tidy ds) (h : bothOf as ds = .ok out) :
    (∃ c ∈ out, c.holds s = true) ↔ ∃ a ∈ as, ∃ d ∈ ds, (a.demand.add d.demand).Met s := by
  have hmem {d : Demand} : (d ∈ (as.map Clause.demand).flatMap fun d => (ds.map Clause.demand).map d.add) ↔
      ∃ a ∈ as, ∃ d' ∈ ds, a.demand.add d'.demand = d := by
    simp only [List.mem_flatMap, List.mem_map, exists_exists_and_eq_and]
  rw [(has.represents.both hds.represents h).holds_iff]
  constructor
  · rintro ⟨_, hsum, hmet⟩
    obtain ⟨a, ha, d, hd, rfl⟩ := hmem.1 hsum
    exact ⟨a, ha, d, hd, hmet⟩
  · rintro ⟨a, ha, d, hd, hmet⟩
    exact ⟨_, hmem.2 ⟨a, ha, d, hd, rfl⟩, hmet⟩

theorem holds_scaleAll {n : UInt32} (has : Tidy as) (h : scaleAll n as = .ok out) :
    (∃ c ∈ out, c.holds s = true) ↔ ∃ a ∈ as, (a.demand.times n.toNat).Met s := by
  rw [(has.represents.times h).holds_iff]
  simp only [List.mem_map, exists_exists_and_eq_and]

end operators

section operands

variable (hus : expand m skips (tokensOf name.toList) = .ok us) (hx : ∀ k, Infix k us x)
  (has : compileExpression m skips (tokensOf name.toList) = .ok as)

include hus hx has

theorem holds_sum (hname : ReadApart name.toList) {e : String}
    (hds : compileExpression m skips (tokensOf e.toList) = .ok ds)
    (hout : compileExpression m skips (tokensOf (name ++ " + (" ++ e ++ ")").toList) = .ok out) :
    (∃ c ∈ out, c.holds s = true) ↔ ∃ a ∈ as, ∃ d ∈ ds, (a.demand.add d.demand).Met s := by
  rw [tokensOf_sum hname] at hout
  rcases tokensOf_closeParen e.toList with hclose | hcomment
  · rw [hclose] at hout
    have hv := (hx 1).value_eq hus has
    exact holds_bothOf (compileExpression_tidy has) (compileExpression_tidy hds)
      (bothOf_of_compile hus hx hv hds hout)
  · rw [hcomment] at hout
    exact absurd hout (compileExpression_open_ne hus (hx 1) hds)

theorem holds_product {n : Nat}
    (hout : compileExpression m skips (tokensOf (s!"{n}#{name}").toList) = .ok out) :
    (∃ c ∈ out, c.holds s = true) ↔ ∃ a ∈ as, (a.demand.times n).Met s := by
  rcases spells_nat n with ⟨hn, hspells⟩ | ⟨c, hspells⟩
  · rw [tokensOf_product hspells nofun] at hout
    have hv := (hx 1).value_eq hus has
    have h := holds_scaleAll (s := s) (compileExpression_tidy has) (scaleAll_of_compile hus hx hv hout)
    rwa [UInt32.toNat_ofNat_of_lt' hn] at h
  · rw [tokensOf_product hspells nofun] at hout
    exact absurd List.mem_cons_self (unknown_notMem hout c)

end operands

/-- A macro is one operand unless its body closes the parenthesis in which it is put. Its name, read as
a word, stands for the body in parentheses, however deep it stands; they belong together in every
expansion of balanced bodies, and then the tree of any text around them is that of the text with a name
in their place. What an operand asks for is added and multiplied whole. -/
theorem MacroTable.operand_exact (m : MacroTable) (skips : Skips) {name : String} {body : List Token}
    {as : List Clause} (hbody : m.get? name = some body)
    (has : compileExpression m skips (tokensOf name.toList) = .ok as) :
    ∃ us x, expand m skips (tokensOf name.toList) = .ok us ∧ Infix 1 us x ∧
      x.value = .ok (.alternatives as) ∧
      (IsMacroName name ∨ tokensOf name.toList = [.ident name] →
        ReadApart name.toList ∧ ∃ inner, us = enclosed inner ∧
          (∀ levels vs, expandToken m skips levels (.ident name) = .ok vs → vs = us) ∧
          ((∀ k, Infix k us x) ↔ Contained inner) ∧
          ((∀ other ts, m.get? other = some ts → Balanced ts) → Contained inner) ∧
          (Contained inner → ∀ before after q e, Infix 1 (before ++ (us ++ after)) e →
            .ident q ∉ before → .ident q ∉ after →
            ∃ e', Infix 1 (before ++ .ident q :: after) e' ∧ e = e'.subst q x)) ∧
      ((∀ k, Infix k us x) →
        (ReadApart name.toList → ∀ (e : String) (ds out : List Clause),
          compileExpression m skips (tokensOf e.toList) = .ok ds →
          compileExpression m skips (tokensOf (name ++ " + (" ++ e ++ ")").toList) = .ok out →
          ∀ s : States, (∃ c ∈ out, c.holds s = true) ↔
            ∃ a ∈ as, ∃ d ∈ ds, (a.demand.add d.demand).Met s) ∧
        ∀ (n : Nat) (out : List Clause),
          compileExpression m skips (tokensOf (s!"{n}#{name}").toList) = .ok out →
          ∀ s : States, (∃ c ∈ out, c.holds s = true) ↔ ∃ a ∈ as, (a.demand.times n).Met s) := by
  obtain ⟨us, x, hus, hx, hv⟩ := compileExpression_iff.1 has
  refine ⟨us, x, hus, hx, hv, fun hname => ?_, fun hoperand => ⟨fun hapart e ds out hds hout s => ?_,
    fun n out hout s => ?_⟩⟩
  · -- a name of digits alone is read as a number, which does not compile
    have hword : tokensOf name.toList = [.ident name] := hname.elim (·.tokensOf_eq has) id
    rw [hword] at hus
    have hexpand := expand_singleton hus
    obtain ⟨inner, rfl⟩ := expandToken_enclosed hbody hexpand
    refine ⟨readApart_word hword, inner, rfl, fun levels vs hvs => expandToken_unique hvs hexpand,
      operand_iff hx, fun hall => (balanced_inner hall hexpand).contained,
      fun hinner before after q e he hbefore hafter => ?_⟩
    exact (hx.of_enclosed hinner).subst he rfl hbefore hafter
  · exact holds_sum hus hoperand has hapart hds hout
  · exact holds_product hus hoperand has hout

theorem MacroTable.operand_exact_dash :
    let m := (MacroTable.parse {} "CanDash = Dash | Boots").1
    let as : List Clause := [.single "Dash" 1, .single "Boots" 1]
    let sums : List Clause := [⟨[⟨"Dash", 1⟩, ⟨"Oil", 1⟩]⟩, ⟨[⟨"Boots", 1⟩, ⟨"Oil", 1⟩]⟩]
    let products : List Clause := [.single "Dash" 2, .single "Boots" 2]
    m.Built ∧ m.get? "CanDash" = some [.ident "Dash", .pipe, .ident "Boots"] ∧
      compileExpression m noSkips (tokensOf "CanDash".toList) = .ok as ∧
      compileExpression m noSkips (tokensOf "CanDash + (Oil)".toList) = .ok sums ∧
      compileExpression m noSkips (tokensOf "2#CanDash".toList) = .ok products ∧
      ∀ s : States,
        ((∃ c ∈ sums, c.holds s = true) ↔
          ∃ a ∈ as, ∃ d ∈ [Clause.single "Oil" 1], (a.demand.add d.demand).Met s) ∧
        ((∃ c ∈ products, c.holds s = true) ↔ ∃ a ∈ as, (a.demand.times 2).Met s) := by
  intro m as sums products
  have hentries : m.bodies.entries = [("CanDash", [.ident "Dash", .pipe, .ident "Boots"])] := by
    decide +kernel
  have hmacros : m = ⟨⟨_⟩⟩ := congrArg (fun es => MacroTable.mk ⟨es⟩) hentries
  have hbody : m.get? "CanDash" = some [.ident "Dash", .pipe, .ident "Boots"] := by
    rw [hmacros]
    rfl
  have hword : tokensOf "CanDash".toList = [.ident "CanDash"] := by decide +kernel
  have hoil : tokensOf "Oil".toList = [.ident "Oil"] := by decide +kernel
  have hsum : tokensOf "CanDash + (Oil)".toList =
      [.ident "CanDash", .plus, .openParen, .ident "Oil", .closeParen] := by decide +kernel
  have hproduct : tokensOf "2#CanDash".toList = [.int 2, .hash, .ident "CanDash"] := by
    decide +kernel
  have has : compileExpression m noSkips (tokensOf "CanDash".toList) = .ok as := by
    rw [hword, hmacros]
    cbv
  have hds : compileExpression m noSkips (tokensOf "Oil".toList) = .ok [.single "Oil" 1] := by
    rw [hoil, hmacros]
    cbv
  have hsums : compileExpression m noSkips (tokensOf "CanDash + (Oil)".toList) = .ok sums := by
    rw [hsum, hmacros]
    cbv
  have hproducts : compileExpression m noSkips (tokensOf "2#CanDash".toList) = .ok products := by
    rw [hproduct, hmacros]
    cbv
  have hall (other : String) (ts : List Token) (hts : m.get? other = some ts) : Balanced ts := by
    have htree : Infix 1 ([.ident "Dash"] ++ .pipe :: [.ident "Boots"])
        (.op .either (.term "Dash") (.term "Boots")) := .op rfl le_rfl (.term _ _) (.term _ _)
    rw [MacroTable.get?, Table.get?, hentries, List.lookup_cons] at hts
    split at hts
    · obtain rfl := Option.some.inj hts
      exact htree.balanced
    · cases hts
  obtain ⟨us, x, -, -, -, hname, hmeaning⟩ := MacroTable.operand_exact m noSkips hbody has
  obtain ⟨hapart, inner, -, -, hoperand, hcontained, -⟩ := hname (Or.inl (isMacroName_of_parse hbody))
  obtain ⟨hadd, htimes⟩ := hmeaning (hoperand.2 (hcontained hall))
  exact ⟨MacroTable.Built.empty.parse _, hbody, has, hsums, hproducts, fun s =>
    ⟨hadd hapart "Oil" _ _ hds hsums s, htimes 2 _ hproducts s⟩⟩

/-- A body may close the parenthesis in which it is put and open another one. Then what stands
beside the name is added to a part of the body. -/
theorem MacroTable.operand_torn :
    let m := (MacroTable.parse {} "Door = Key) | (Lamp").1
    let as : List Clause := [.single "Key" 1, .single "Lamp" 1]
    let out : List Clause := [.single "Key" 1, ⟨[⟨"Lamp", 1⟩, ⟨"Oil", 1⟩]⟩]
    let s := States.ofList [("Key", 1)]
    m.Built ∧ m.get? "Door" = some [.ident "Key", .closeParen, .pipe, .openParen, .ident "Lamp"] ∧
      compileExpression m noSkips (tokensOf "Door".toList) = .ok as ∧
      compileExpression m noSkips (tokensOf "Oil".toList) = .ok [.single "Oil" 1] ∧
      compileExpression m noSkips (tokensOf "Door + (Oil)".toList) = .ok out ∧
      (∃ c ∈ out, c.holds s = true) ∧
      ¬∃ a ∈ as, ∃ d ∈ [Clause.single "Oil" 1], (a.demand.add d.demand).Met s := by
  intro m as out s
  have hentries : m.bodies.entries =
      [("Door", [.ident "Key", .closeParen, .pipe, .openParen, .ident "Lamp"])] := by decide +kernel
  have hmacros : m = ⟨⟨_⟩⟩ := congrArg (fun es => MacroTable.mk ⟨es⟩) hentries
  have hdoor : tokensOf "Door".toList = [.ident "Door"] := by decide +kernel
  have hoil : tokensOf "Oil".toList = [.ident "Oil"] := by decide +kernel
  have hsum : tokensOf "Door + (Oil)".toList =
      [.ident "Door", .plus, .openParen, .ident "Oil", .closeParen] := by decide +kernel
  refine ⟨MacroTable.Built.empty.parse _, ?_, ?_, ?_, ?_, ?_, ?_⟩
  · rw [hmacros]
    rfl
  · rw [hdoor, hmacros]
    cbv
  · rw [hoil, hmacros]
    cbv
  · rw [hsum, hmacros]
    cbv
  · exact ⟨_, List.mem_cons_self, by decide +kernel⟩
  · rintro ⟨a, ha, d, hd, hmet⟩
    obtain rfl := List.mem_singleton.1 hd
    rcases List.mem_pair.1 ha with rfl | rfl
    · exact absurd (hmet "Oil") (by decide +kernel)
    · exact absurd (hmet "Oil") (by decide +kernel)

end WorldShuffle

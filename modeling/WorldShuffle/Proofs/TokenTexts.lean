import WorldShuffle.Proofs.Lexing

namespace WorldShuffle

variable {c : Char} {cs ds word rest : List Char} {t : Token} {ts us : List Token} {n : Nat}

def EndsWord (rest : List Char) : Prop := ∀ c, rest.head? = some c → isWordChar c = false

theorem endsWord_nil : EndsWord [] := by
  rintro c ⟨⟩

theorem endsWord_cons (h : isWordChar c = false) (cs : List Char) : EndsWord (c :: cs) := by
  rintro _ ⟨⟩
  exact h

structure IsName (cs : List Char) : Prop where
  word : ∀ c ∈ cs, isWordChar c = true
  head : ∀ c, cs.head? = some c → isBlank c = false
  named : cs.all isDigit = false

def Token.Legible : Token → Prop
  | .ident name => IsName name.toList
  | .group name => name.toList ≠ [] ∧ ∀ c ∈ name.toList, isWordChar c = true
  | .newline | .unknown _ => False
  | .int _ => True
  | _ => True

theorem legible_wordToken (hc : isWordChar c = true) (hblank : isBlank c = false)
    (hword : ∀ d ∈ word, isWordChar d = true)
    (hknown : wordToken c (c :: word) ≠ .unknown c) : (wordToken c (c :: word)).Legible := by
  unfold wordToken at hknown ⊢
  split at hknown
  · rw [if_pos ‹_›]
    split at hknown
    · rw [if_pos ‹_›]
      trivial
    · exact absurd rfl hknown
  · rw [if_neg ‹_›]
    refine ⟨?_, ?_, ?_⟩
    · rw [String.toList_ofList]
      exact List.forall_mem_cons.2 ⟨hc, hword⟩
    · rw [String.toList_ofList]
      rintro _ ⟨⟩
      exact hblank
    · rw [String.toList_ofList]
      exact Bool.eq_false_iff.2 ‹_›

theorem legible_readToken (h : (readToken c cs).1 = some t) (hc : c ≠ '\n')
    (hknown : ∀ d, t ≠ .unknown d) : t.Legible := by
  unfold readToken at h
  split at h
  · cases h
  split at h
  · cases h
  split at h
  · cases h
    trivial
  split at h
  · cases h
    trivial
  split at h
  · cases h
    split at hknown
    · exact absurd rfl (hknown c)
    · rw [if_neg ‹_›]
      refine ⟨?_, fun c hc => ?_⟩
      · rwa [String.toList_ofList]
      · rw [String.toList_ofList] at hc
        exact List.mem_takeWhile_imp hc
  split at h
  · cases h
    exact legible_wordToken ‹_› (Bool.eq_false_iff.2 ‹_›) (fun d hd => List.mem_takeWhile_imp hd)
      (hknown c)
  · cases h
    unfold signToken at hknown ⊢
    split at hknown <;> first | trivial | exact absurd rfl (hknown _)

theorem legible_of_mem_tokenizeFrom {l : Lexeme} (hl : l ∈ tokenizeFrom n cs)
    (hbreak : l.token ≠ .newline) (hknown : ∀ c, l.token ≠ .unknown c) : l.token.Legible := by
  induction n, cs using tokenizeFrom_induction with
  | hnil n =>
    rw [tokenizeFrom_nil] at hl
    cases hl
  | hnewline n cs ih =>
    rw [tokenizeFrom_newline, List.mem_cons] at hl
    refine hl.elim (fun hl => ?_) ih
    exact absurd (congrArg Lexeme.token hl) hbreak
  | hread n c cs hc ih =>
    rw [tokenizeFrom_cons n cs hc] at hl
    refine (List.mem_append.1 hl).elim (fun hl => ?_) ih
    obtain ⟨t, ht, rfl⟩ := Option.map_eq_some_iff.1 (Option.mem_toList.1 hl)
    exact legible_readToken ht hc hknown

theorem legible_of_mem_tokensOf (ht : t ∈ tokensOf cs) (hknown : ∀ c, t ≠ .unknown c) :
    t.Legible := by
  obtain ⟨ht, hbreak⟩ := List.mem_filter.1 ht
  obtain ⟨l, hl, rfl⟩ := List.mem_map.1 ht
  exact legible_of_mem_tokenizeFrom hl (of_decide_eq_true hbreak) hknown

/-- The text is read as these tokens if nothing behind it goes on with its last word. -/
def Spells (cs : List Char) (ts : List Token) : Prop :=
  ∀ n rest, EndsWord rest →
    tokenizeFrom n (cs ++ rest) = ts.map (Lexeme.mk · n) ++ tokenizeFrom n rest

structure Separates (cs : List Char) (ts : List Token) : Prop where
  ends (rest : List Char) : EndsWord (cs ++ rest)
  read (n : Nat) (rest : List Char) :
    tokenizeFrom n (cs ++ rest) = ts.map (Lexeme.mk · n) ++ tokenizeFrom n rest

theorem tokensOf_append (hbreak : .newline ∉ ts)
    (h : tokenizeFrom 1 (cs ++ rest) = ts.map (Lexeme.mk · 1) ++ tokenizeFrom 1 rest) :
    tokensOf (cs ++ rest) = ts ++ tokensOf rest := by
  have htoken : Lexeme.token ∘ (Lexeme.mk · 1) = id := rfl
  have hkept : ts.filter (· ≠ .newline) = ts :=
    List.filter_eq_self.2 fun t ht => decide_eq_true fun hn => hbreak (hn ▸ ht)
  rw [tokensOf, h, List.map_append, List.filter_append, List.map_map, htoken, List.map_id, hkept,
    tokensOf]

theorem Spells.tokensOf_append (h : Spells cs ts) (hbreak : .newline ∉ ts) (hrest : EndsWord rest) :
    tokensOf (cs ++ rest) = ts ++ tokensOf rest :=
  WorldShuffle.tokensOf_append hbreak (h 1 rest hrest)

theorem Separates.tokensOf_append (h : Separates cs ts) (hbreak : .newline ∉ ts) (rest : List Char) :
    tokensOf (cs ++ rest) = ts ++ tokensOf rest :=
  WorldShuffle.tokensOf_append hbreak (h.read 1 rest)

theorem tokensOf_nil : tokensOf [] = [] := by
  rw [tokensOf, tokenizeFrom_nil]
  rfl

theorem Spells.tokensOf_eq (h : Spells cs ts) (hbreak : .newline ∉ ts) : tokensOf cs = ts := by
  have hread := h.tokensOf_append hbreak endsWord_nil
  rwa [List.append_nil, tokensOf_nil, List.append_nil] at hread

theorem Spells.tokenizeFrom_eq (h : Spells cs ts) (n : Nat) :
    tokenizeFrom n cs = ts.map (Lexeme.mk · n) := by
  have hread := h n [] endsWord_nil
  rwa [List.append_nil, tokenizeFrom_nil, List.append_nil] at hread

theorem Spells.nil : Spells [] [] := fun _ _ _ => rfl

theorem Spells.between {sep : List Char} {ms : List Token} (h : Spells cs ts)
    (hsep : Separates sep ms) (h' : Spells ds us) : Spells (cs ++ (sep ++ ds)) (ts ++ (ms ++ us)) := by
  intro n rest hrest
  rw [List.append_assoc, List.append_assoc, h n _ (hsep.ends _), hsep.read, h' n rest hrest]
  simp only [List.map_append, List.append_assoc]

theorem Spells.intercalate {α : Type} {f : α → List Char} {g : α → List Token} {sep : List Char}
    {ms : List Token} (hsep : Separates sep ms) {xs : List α} (h : ∀ x ∈ xs, Spells (f x) (g x)) :
    Spells (sep.intercalate (xs.map f)) (ms.intercalate (xs.map g)) := by
  induction xs with
  | nil => exact Spells.nil
  | cons x xs ih =>
    obtain ⟨hx, hxs⟩ := List.forall_mem_cons.1 h
    cases xs with
    | nil =>
      simp only [List.map_cons, List.map_nil, List.intercalate_singleton]
      exact hx
    | cons y ys =>
      simp only [List.map_cons, List.intercalate_cons_cons, List.append_assoc]
      exact hx.between hsep (ih hxs)

theorem tokenizeFrom_space (n : Nat) (rest : List Char) :
    tokenizeFrom n (' ' :: rest) = tokenizeFrom n rest := by
  have hread : readToken ' ' rest = (none, rest) := rfl
  rw [tokenizeFrom_cons n rest (by decide), hread]
  rfl

theorem separates_space : Separates [' '] [] where
  ends rest := endsWord_cons (by decide +kernel) rest
  read n rest := tokenizeFrom_space n rest

theorem readToken_sign (hblank : isBlank c = false) (hword : isWordChar c = false)
    (hc : c ∉ ['/', '-', '<', '$']) (cs : List Char) : readToken c cs = (some (signToken c), cs) := by
  simp only [List.mem_cons, List.not_mem_nil, or_false, not_or] at hc
  simp [readToken, hblank, hword, hc]

theorem readToken_word (hc : isWordChar c = true) (hblank : isBlank c = false)
    (hword : ∀ d ∈ word, isWordChar d = true) (hrest : EndsWord rest) :
    readToken c (word ++ rest) = (some (wordToken c (c :: word)), rest) := by
  have hne (d : Char) (hd : isWordChar d = false) : c ≠ d := by
    rintro rfl
    rw [hc] at hd
    cases hd
  have hslash : c ≠ '/' := hne '/' (by decide +kernel)
  have hdash : c ≠ '-' := hne '-' (by decide +kernel)
  have hless : c ≠ '<' := hne '<' (by decide +kernel)
  have hdollar : c ≠ '$' := hne '$' (by decide +kernel)
  simp [readToken, hblank, hc, hslash, hdash, hless, hdollar, takeWhile_stop hword hrest,
    dropWhile_stop hword hrest]

theorem readToken_group (hne : word ≠ []) (hword : ∀ d ∈ word, isWordChar d = true)
    (hrest : EndsWord rest) :
    readToken '$' (word ++ rest) = (some (.group (String.ofList word)), rest) := by
  have hblank : isBlank '$' = false := by decide
  simp [readToken, hblank, hne, takeWhile_stop hword hrest, dropWhile_stop hword hrest]

theorem isWordChar_of_isDigit (h : isDigit c = true) : isWordChar c = true := by
  simp only [isDigit, Bool.and_eq_true, decide_eq_true_eq, Char.le_def, UInt32.le_iff_toNat_le] at h
  have hin (ranges : List (Nat × Nat)) : inRanges c.toNat ((0x30, 0x39) :: ranges) = true := by
    simp only [inRanges, Bool.and_eq_true, Bool.or_eq_true, decide_eq_true_eq]
    exact ⟨h.1, Or.inl h.2⟩
  have halphanumeric : isAlphanumeric c = true := hin _
  simp only [isWordChar, halphanumeric, Bool.true_or]

theorem isBlank_of_isDigit (h : isDigit c = true) : isBlank c = false := by
  simp only [isDigit, Bool.and_eq_true, decide_eq_true_eq, Char.le_def, UInt32.le_iff_toNat_le] at h
  have hlow : 48 ≤ c.toNat := h.1
  have hhigh : c.toNat ≤ 57 := h.2
  simp only [isBlank, Bool.or_eq_false_iff, Bool.and_eq_false_iff, decide_eq_false_iff_not,
    beq_eq_false_iff_ne]
  omega

theorem wordToken_toDigits (k : UInt32) : wordToken c (Nat.toDigits 10 k.toNat) = .int k := by
  have hdigits : (Nat.toDigits 10 k.toNat).all isDigit = true :=
    List.all_eq_true.2 fun c => isDigit_of_mem_toDigits
  have hvalue : digitsValue (Nat.toDigits 10 k.toNat) = k.toNat := Nat.ofDigitChars_ten_toDigits
  rw [wordToken, if_pos hdigits, hvalue, if_pos k.toNat_lt, UInt32.ofNat_toNat]

theorem spells_of_readToken (hc : c ≠ '\n')
    (h : ∀ rest, EndsWord rest → readToken c (cs ++ rest) = (some t, rest)) :
    Spells (c :: cs) [t] := by
  intro n rest hrest
  rw [List.cons_append, tokenizeFrom_cons n _ hc, h rest hrest]
  rfl

theorem spells_sign (hblank : isBlank c = false) (hword : isWordChar c = false)
    (hc : c ∉ ['/', '-', '<', '$']) : Spells [c] [signToken c] :=
  spells_of_readToken (by rintro rfl; cases hblank) fun rest _ => readToken_sign hblank hword hc rest

theorem spells_word (hne : word ≠ []) (hword : ∀ c ∈ word, isWordChar c = true)
    (hhead : ∀ c, word.head? = some c → isBlank c = false)
    (ht : ∀ c, word.head? = some c → wordToken c word = t) :
    Spells word [t] := by
  cases word with
  | nil => exact absurd rfl hne
  | cons c word =>
    obtain ⟨hc, hword⟩ := List.forall_mem_cons.1 hword
    have hblank := hhead c rfl
    refine spells_of_readToken (by rintro rfl; cases hblank) fun rest hrest => ?_
    rw [readToken_word hc hblank hword hrest, ht c rfl]

theorem IsName.spells {name : String} (h : IsName name.toList) :
    Spells name.toList [.ident name] := by
  refine spells_word ?_ h.word h.head fun c _ => ?_
  · intro hnil
    have hnamed := h.named
    rw [hnil] at hnamed
    cases hnamed
  · rw [wordToken, if_neg (Bool.eq_false_iff.1 h.named), String.ofList_toList]

theorem spells_digits (k : Nat)
    (ht : ∀ c, (Nat.toDigits 10 k).head? = some c → wordToken c (Nat.toDigits 10 k) = t) :
    Spells (toString k).toList [t] := by
  have hdigits : ∀ c ∈ Nat.toDigits 10 k, isDigit c = true := fun c => isDigit_of_mem_toDigits
  rw [toList_toString]
  refine spells_word Nat.toDigits_ne_nil (fun c hc => isWordChar_of_isDigit (hdigits c hc)) ?_ ht
  exact fun c hc => isBlank_of_isDigit (hdigits c (List.mem_of_mem_head? hc))

theorem spells_int (k : UInt32) : Spells (toString k.toNat).toList [.int k] :=
  spells_digits k.toNat fun _ _ => wordToken_toDigits k

theorem spells_text (h : t.Legible) : Spells t.text.toList [t] := by
  cases t with
  | ident name => exact IsName.spells h
  | int k => exact spells_int k
  | group name =>
    have htext : ("$" ++ name).toList = '$' :: name.toList := by simp
    rw [Token.text, htext]
    refine spells_of_readToken (by decide) fun rest hrest => ?_
    rw [readToken_group h.1 h.2 hrest, String.ofList_toList]
  | newline => cases h
  | unknown c => cases h
  | arrow => exact spells_of_readToken (by decide) fun rest _ => rfl
  | twoWay => exact spells_of_readToken (by decide) fun rest _ => rfl
  | _ => exact spells_sign (by decide) (by decide +kernel) (by decide)

theorem intercalate_singletons (ts : List Token) :
    [].intercalate (ts.map fun t => [t]) = ts := by
  induction ts with
  | nil => rfl
  | cons t ts ih =>
    cases ts with
    | nil => exact List.intercalate_singleton ..
    | cons u us =>
      rw [List.map_cons] at ih
      rw [List.map_cons, List.map_cons, List.intercalate_cons_cons, ih]
      rfl

theorem spells_showTokens (h : ∀ t ∈ ts, t.Legible) : Spells (showTokens ts).toList ts := by
  have hspells : Spells ([' '].intercalate (ts.map fun t => t.text.toList))
      ([].intercalate (ts.map fun t => [t])) :=
    Spells.intercalate separates_space fun t ht => spells_text (h t ht)
  rw [intercalate_singletons] at hspells
  rw [showTokens, String.toList_intercalate, List.map_map]
  exact hspells

end WorldShuffle

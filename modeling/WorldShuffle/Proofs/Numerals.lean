import Mathlib
import WorldShuffle.Json.Decoder
import WorldShuffle.Json.Printer
import WorldShuffle.Proofs.Lexing

namespace WorldShuffle

variable {cs ds rest : List Char} {c : Char} {n : Numeral}

def isNumberChar (c : Char) : Bool :=
  isDigit c || c == '.' || c == 'e' || c == 'E' || c == '+' || c == '-'

def EndsNumber (rest : List Char) : Prop := ∀ c, rest.head? = some c → isNumberChar c = false

theorem endsNumber_nil : EndsNumber [] := by
  rintro c ⟨⟩

theorem endsNumber_cons (h : isNumberChar c = false) (cs : List Char) : EndsNumber (c :: cs) := by
  rintro _ ⟨⟩
  exact h

theorem EndsNumber.head (h : EndsNumber rest) {d : Char} (hd : isNumberChar d = true) :
    (rest.head? == some d) = false := by
  apply beq_false_of_ne
  intro hhead
  rw [h d hhead] at hd
  cases hd

theorem EndsNumber.isDigit (h : EndsNumber rest) (hc : rest.head? = some c) :
    isDigit c = false := by
  have hend := h c hc
  simp only [isNumberChar, Bool.or_eq_false_iff] at hend
  tauto

namespace Numeral

def fractionChars (n : Numeral) : List Char := (n.fraction.map ('.' :: ·)).getD []

def exponentChars (n : Numeral) : List Char :=
  (n.exponent.map fun (sign, ds) => 'e' :: (sign.toList ++ ds)).getD []

theorem toList_text (n : Numeral) : n.text.toList =
    (if n.negative then ['-'] else []) ++ (n.whole ++ (n.fractionChars ++ n.exponentChars)) := by
  obtain ⟨_ | _, whole, _ | fraction, _ | ⟨sign, exponent⟩⟩ := n <;>
    simp [text, signText, fractionChars, exponentChars]

def scanFraction (whole cs : List Char) : Option (List Char) × List Char :=
  if cs.head? == some '.' && !whole.isEmpty then
    (some ((cs.drop 1).takeWhile isDigit), (cs.drop 1).dropWhile isDigit)
  else (none, cs)

def scanExponent (whole : List Char) (fraction : Option (List Char)) (cs : List Char) :
    Option (Option Char × List Char) × List Char :=
  if (cs.head? == some 'e' || cs.head? == some 'E') && !whole.isEmpty && fraction != some [] then
    let sign := (cs.drop 1).head?.filter fun c => c == '+' || c == '-'
    let cs := if sign.isSome then (cs.drop 1).drop 1 else cs.drop 1
    (some (sign, cs.takeWhile isDigit), cs.dropWhile isDigit)
  else (none, cs)

theorem ofChars_eq (cs : List Char) :
    ofChars cs =
      let unsigned := if cs.head? == some '-' then cs.drop 1 else cs
      let whole := unsigned.takeWhile isDigit
      let fraction := scanFraction whole (unsigned.dropWhile isDigit)
      let exponent := scanExponent whole fraction.1 fraction.2
      (⟨cs.head? == some '-', whole, fraction.1, exponent.1⟩, exponent.2) := by
  dsimp only [ofChars, scanFraction, scanExponent]
  split_ifs <;> rfl

theorem scanFraction_point {whole : List Char} (hwhole : whole ≠ [])
    (hds : ∀ c ∈ ds, isDigit c = true) (hrest : ∀ c, rest.head? = some c → isDigit c = false) :
    scanFraction whole ('.' :: (ds ++ rest)) = (some ds, rest) := by
  have hpoint : (('.' :: (ds ++ rest)).head? == some '.' && !whole.isEmpty) = true := by
    simp [hwhole]
  rw [scanFraction, if_pos hpoint, List.drop_one, List.tail_cons, takeWhile_stop hds hrest,
    dropWhile_stop hds hrest]

theorem scanFraction_none (whole : List Char) (h : cs.head? ≠ some '.') :
    scanFraction whole cs = (none, cs) := by
  rw [scanFraction, if_neg]
  simp [h]

theorem scanExponent_none (whole : List Char) (fraction : Option (List Char))
    (h : cs.head? ≠ some 'e') (h' : cs.head? ≠ some 'E') :
    scanExponent whole fraction cs = (none, cs) := by
  rw [scanExponent, if_neg]
  simp [h, h']

theorem scanExponent_e {whole : List Char} {fraction : Option (List Char)} {sign : Option Char}
    (hwhole : whole ≠ []) (hfraction : fraction ≠ some [])
    (hsign : ∀ c, sign = some c → c = '+' ∨ c = '-') (hds : ∀ c ∈ ds, isDigit c = true)
    (hrest : EndsNumber rest) :
    scanExponent whole fraction ('e' :: (sign.toList ++ (ds ++ rest))) = (some (sign, ds), rest) := by
  have hscaled : ((('e' :: (sign.toList ++ (ds ++ rest))).head? == some 'e' ||
      ('e' :: (sign.toList ++ (ds ++ rest))).head? == some 'E') && !whole.isEmpty &&
      fraction != some []) = true := by
    simp [hwhole, hfraction]
  have hfound : ((sign.toList ++ (ds ++ rest)).head?.filter fun c => c == '+' || c == '-') =
      sign := by
    cases sign with
    | some c =>
      rw [Option.toList_some, List.cons_append, List.head?_cons, Option.filter_some]
      exact if_pos (by simpa using hsign c rfl)
    | none =>
      rw [Option.toList_none, List.nil_append, Option.filter_eq_none_iff]
      intro c hc
      cases ds with
      | nil =>
        have := hrest c hc
        simp only [isNumberChar, Bool.or_eq_false_iff] at this
        simp [this]
      | cons d ds =>
        obtain rfl := Option.some.inj hc
        have hd := hds d List.mem_cons_self
        have hplus : d ≠ '+' := fun he => absurd (he ▸ hd) (by decide)
        have hminus : d ≠ '-' := fun he => absurd (he ▸ hd) (by decide)
        simp [hplus, hminus]
  rw [scanExponent, if_pos hscaled, List.drop_one, List.tail_cons, hfound]
  cases sign with
  | some c =>
    simp [takeWhile_stop hds fun _ => hrest.isDigit, dropWhile_stop hds fun _ => hrest.isDigit]
  | none =>
    simp [takeWhile_stop hds fun _ => hrest.isDigit, dropWhile_stop hds fun _ => hrest.isDigit]

structure Scanned (n : Numeral) : Prop where
  whole : ∀ c ∈ n.whole, isDigit c = true
  fraction {ds : List Char} : n.fraction = some ds → n.whole ≠ [] ∧ ∀ c ∈ ds, isDigit c = true
  exponent {sign : Option Char} {ds : List Char} : n.exponent = some (sign, ds) →
    n.whole ≠ [] ∧ n.fraction ≠ some [] ∧ (∀ c, sign = some c → c = '+' ∨ c = '-') ∧
      ∀ c ∈ ds, isDigit c = true

theorem scanFraction_digits {whole : List Char} (h : (scanFraction whole cs).1 = some ds) :
    whole ≠ [] ∧ ∀ c ∈ ds, isDigit c = true := by
  rw [scanFraction] at h
  split at h
  · rename_i hpoint
    obtain rfl := Option.some.inj h
    exact ⟨by simpa using (Bool.and_eq_true_iff.1 hpoint).2, fun c => List.mem_takeWhile_imp⟩
  · cases h

theorem scanExponent_digits {whole : List Char} {fraction : Option (List Char)}
    {sign : Option Char} (h : (scanExponent whole fraction cs).1 = some (sign, ds)) :
    whole ≠ [] ∧ fraction ≠ some [] ∧ (∀ c, sign = some c → c = '+' ∨ c = '-') ∧
      ∀ c ∈ ds, isDigit c = true := by
  rw [scanExponent] at h
  split at h
  · rename_i hscaled
    obtain ⟨rfl, rfl⟩ := Prod.mk.inj (Option.some.inj h)
    rw [Bool.and_eq_true_iff, Bool.and_eq_true_iff] at hscaled
    refine ⟨by simpa using hscaled.1.2, by simpa using hscaled.2, fun c hc => ?_,
      fun c => List.mem_takeWhile_imp⟩
    simpa using (Option.filter_eq_some_iff.1 hc).2
  · cases h

theorem scanned_ofChars (cs : List Char) : (ofChars cs).1.Scanned := by
  rw [ofChars_eq]
  exact ⟨fun c => List.mem_takeWhile_imp, scanFraction_digits, scanExponent_digits⟩

theorem scanExponent_exponentChars (h : n.Scanned) (hrest : EndsNumber rest) :
    scanExponent n.whole n.fraction (n.exponentChars ++ rest) = (n.exponent, rest) := by
  rw [exponentChars]
  cases hexponent : n.exponent with
  | none =>
    exact scanExponent_none _ _ (fun hc => absurd (hrest _ hc) (by decide))
      fun hc => absurd (hrest _ hc) (by decide)
  | some e =>
    obtain ⟨sign, ds⟩ := e
    obtain ⟨hwhole, hfraction, hsign, hds⟩ := h.exponent hexponent
    have hscan := scanExponent_e hwhole hfraction hsign hds hrest
    rwa [← List.append_assoc] at hscan

theorem head?_exponentChars (hrest : EndsNumber rest)
    (hc : (n.exponentChars ++ rest).head? = some c) : isDigit c = false ∧ c ≠ '.' ∧ c ≠ '-' := by
  rw [exponentChars] at hc
  cases hexponent : n.exponent with
  | none =>
    rw [hexponent] at hc
    refine ⟨hrest.isDigit hc, ?_, ?_⟩ <;> rintro rfl <;> exact absurd (hrest _ hc) (by decide)
  | some e =>
    rw [hexponent] at hc
    obtain rfl := Option.some.inj hc
    decide

theorem scanFraction_fractionChars (h : n.Scanned) (hrest : EndsNumber rest) :
    scanFraction n.whole (n.fractionChars ++ (n.exponentChars ++ rest)) =
      (n.fraction, n.exponentChars ++ rest) := by
  rw [fractionChars]
  cases hfraction : n.fraction with
  | none => exact scanFraction_none _ fun hc => (head?_exponentChars hrest hc).2.1 rfl
  | some ds =>
    obtain ⟨hwhole, hds⟩ := h.fraction hfraction
    exact scanFraction_point hwhole hds fun c hc => (head?_exponentChars hrest hc).1

theorem head?_fractionChars (hrest : EndsNumber rest)
    (hc : (n.fractionChars ++ (n.exponentChars ++ rest)).head? = some c) :
    isDigit c = false ∧ c ≠ '-' := by
  rw [fractionChars] at hc
  cases hfraction : n.fraction with
  | none =>
    rw [hfraction] at hc
    obtain ⟨hdigit, -, hminus⟩ := head?_exponentChars hrest hc
    exact ⟨hdigit, hminus⟩
  | some ds =>
    rw [hfraction] at hc
    obtain rfl := Option.some.inj hc
    decide

/-- A number is read back from its text, up to where the text cannot go on. -/
theorem ofChars_text (h : n.Scanned) (hrest : EndsNumber rest) :
    ofChars (n.text.toList ++ rest) = (n, rest) := by
  have hstop (c : Char) (hc : (n.fractionChars ++ (n.exponentChars ++ rest)).head? = some c) :
      isDigit c = false := (head?_fractionChars hrest hc).1
  have hunsigned : (n.whole ++ (n.fractionChars ++ (n.exponentChars ++ rest))).head? ≠
      some '-' := by
    cases hwhole : n.whole with
    | nil => exact fun hc => (head?_fractionChars hrest hc).2 rfl
    | cons d ds =>
      have hd := h.whole d (by simp [hwhole])
      intro hc
      obtain rfl := Option.some.inj hc
      exact absurd hd (by decide)
  have hsign : ((n.text.toList ++ rest).head? == some '-') = n.negative ∧
      (if n.negative then (n.text.toList ++ rest).drop 1 else n.text.toList ++ rest) =
        n.whole ++ (n.fractionChars ++ (n.exponentChars ++ rest)) := by
    rw [toList_text]
    cases n.negative with
    | true => simp
    | false => simpa using hunsigned
  rw [ofChars_eq]
  dsimp only
  rw [hsign.1, hsign.2, takeWhile_stop h.whole hstop, dropWhile_stop h.whole hstop,
    scanFraction_fractionChars h hrest]
  dsimp only
  rw [scanExponent_exponentChars h hrest]

structure Whole (n : Numeral) : Prop extends n.Scanned where
  unbroken (rest : List Char) : n.break? rest = none

theorem Scanned.whole_of_break? (h : n.Scanned) (hbreak : n.break? rest = none) : n.Whole := by
  refine ⟨h, fun rest' => ?_⟩
  rw [break?] at hbreak ⊢
  split at hbreak
  · cases hbreak
  · rw [if_neg ‹_›]
    split at hbreak
    · split at hbreak <;> cases hbreak
    · rw [if_neg ‹_›]

theorem Whole.whole_ne_nil (h : n.Whole) : n.whole ≠ [] := by
  intro hwhole
  have hbreak := h.unbroken []
  simp [break?, hwhole] at hbreak

theorem Scanned.opens (h : n.Scanned) (hwhole : n.whole ≠ []) :
    ∃ c cs, n.text.toList = c :: cs ∧ (isDigit c = true ∨ c = '-') := by
  rw [toList_text]
  cases n.negative with
  | true => exact ⟨_, _, rfl, Or.inr rfl⟩
  | false =>
    obtain ⟨d, ds, hds⟩ := List.exists_cons_of_ne_nil hwhole
    rw [hds]
    exact ⟨d, _, rfl, Or.inl (h.whole d (by simp [hds]))⟩

theorem Whole.opens (h : n.Whole) :
    ∃ c cs, n.text.toList = c :: cs ∧ (isDigit c = true ∨ c = '-') :=
  h.toScanned.opens h.whole_ne_nil

end Numeral

theorem head?_toDigits {k : Nat} (h : 0 < k) : (Nat.toDigits 10 k).head? ≠ some '0' := by
  induction k using Nat.strong_induction_on with
  | h k ih =>
    by_cases hk : k < 10
    · rw [Nat.toDigits_of_lt_base hk]
      interval_cases k <;> decide
    · rw [Nat.toDigits_of_base_le (by decide) (Nat.le_of_not_lt hk), List.head?_append]
      have hrest := ih (k / 10) (by omega) (by omega)
      cases hhead : (Nat.toDigits 10 (k / 10)).head? with
      | none => exact absurd (List.head?_eq_none_iff.1 hhead) Nat.toDigits_ne_nil
      | some d =>
        rw [hhead] at hrest
        exact hrest

theorem whole_digits (negative : Bool) (k : Nat) :
    (⟨negative, (toString k).toList, none, none⟩ : Numeral).Whole := by
  rw [toList_toString]
  refine ⟨⟨fun c hc => isDigit_of_mem_toDigits hc, nofun, nofun⟩, fun rest => ?_⟩
  rw [Numeral.break?, if_neg, if_neg]
  · simp [Nat.toDigits_ne_nil]
  · rintro ⟨hzero, hlong⟩
    dsimp only at hzero hlong
    obtain rfl : k = 0 := by
      by_contra hk
      exact head?_toDigits (Nat.pos_of_ne_zero hk) hzero
    exact absurd hlong (by decide)

theorem le_ofDigitChars (cs : List Char) (k : Nat) : k ≤ Nat.ofDigitChars 10 cs k := by
  rw [Nat.ofDigitChars_eq_ofDigitChars_zero]
  exact (Nat.le_mul_of_pos_left k (Nat.pow_pos (by decide))).trans (Nat.le_add_right _ _)

theorem takeDigits_eq {k : Nat} (h : Nat.ofDigitChars 10 cs k ≤ maxSignificand) :
    takeDigits k cs = (Nat.ofDigitChars 10 cs k, 0) := by
  induction cs generalizing k with
  | nil => rfl
  | cons c cs ih =>
    rw [Nat.ofDigitChars_cons] at h ⊢
    rw [takeDigits, if_pos ((le_ofDigitChars cs _).trans h)]
    exact ih h

theorem takeDigits_toDigits {k : Nat} (h : k < UInt64.size) :
    takeDigits 0 (Nat.toDigits 10 k) = (k, 0) := by
  have hk : Nat.ofDigitChars 10 (Nat.toDigits 10 k) 0 = k := Nat.ofDigitChars_ten_toDigits
  rw [takeDigits_eq, hk]
  rw [hk]
  exact Nat.le_pred_of_lt h

theorem Json.nat_eq_int (k : Nat) : Json.nat k = Json.int k := by
  simp [Json.nat, Json.int]

theorem value?_natural {k : Nat} (h : k < UInt64.size) :
    (⟨false, (toString k).toList, none, none⟩ : Numeral).value? = some (.whole k.toUInt64) := by
  rw [Numeral.value?, toList_toString, takeDigits_toDigits h]
  rfl

theorem value?_negative {k : Nat} (hpos : 0 < k) (h : k ≤ 0x8000000000000000) :
    (⟨true, (toString k).toList, none, none⟩ : Numeral).value? = some (.negative k.toUInt64) := by
  have hk : k < UInt64.size := Nat.lt_of_le_of_lt h (by decide)
  simp [Numeral.value?, takeDigits_toDigits hk, hpos, h]

theorem found_int {k : Int} (hlow : -0x8000000000000000 ≤ k) (hhigh : k < UInt64.size) :
    ∃ x, (⟨decide (k < 0), (toString k.natAbs).toList, none, none⟩ : Numeral).value? = some x ∧
      x.found = .integer k := by
  have hsize : (UInt64.size : Int) = 0x10000000000000000 := rfl
  have hfits : k.natAbs < UInt64.size := by omega
  by_cases hk : k < 0
  · refine ⟨.negative k.natAbs.toUInt64, ?_, ?_⟩
    · rw [decide_eq_true hk, value?_negative (by omega) (by omega)]
    · rw [Number.found, Nat.toUInt64_eq, UInt64.toNat_ofNat_of_lt' hfits]
      congr 1
      omega
  · refine ⟨.whole k.natAbs.toUInt64, ?_, ?_⟩
    · rw [decide_eq_false hk, value?_natural hfits]
    · rw [Number.found, Nat.toUInt64_eq, UInt64.toNat_ofNat_of_lt' hfits]
      congr 1
      omega

theorem decodeInteger_int {wanted : String} {least greatest k : Int} (hleast : least ≤ k)
    (hgreatest : k ≤ greatest) (hlow : -0x8000000000000000 ≤ k) (hhigh : k < UInt64.size) :
    decodeInteger wanted least greatest (.int k) = .ok k := by
  obtain ⟨x, hx, hfound⟩ := found_int hlow hhigh
  have hnumber : decodeNumber wanted (.int k) = .ok x := by simp only [decodeNumber, Json.int, hx]
  simp only [decodeInteger, hnumber, bind, Except.bind, hfound]
  exact if_pos ⟨hleast, hgreatest⟩

end WorldShuffle

import WorldShuffle.Proofs.Numerals

namespace WorldShuffle

theorem eq_of_toBits_eq {x y : Float} (h : x.toBits = y.toBits) : x = y := by
  obtain ⟨⟨bits, valid⟩⟩ := x
  obtain ⟨⟨bits', valid'⟩⟩ := y
  obtain rfl : bits = bits' := h
  rfl

theorem beq_zero_of_toBits {x : Float} (h : x.toBits = 0 ∨ x.toBits = 0x8000000000000000) :
    (x == 0) = true := by
  have hpositive : (Float.ofBits 0).toBits = 0 ∧ (Float.ofBits 0 == 0) = true := by decide +kernel
  have hnegative : (Float.ofBits 0x8000000000000000).toBits = 0x8000000000000000 ∧
      (Float.ofBits 0x8000000000000000 == 0) = true := by decide +kernel
  rcases h with h | h
  · rw [eq_of_toBits_eq (h.trans hpositive.1.symm)]
    exact hpositive.2
  · rw [eq_of_toBits_eq (h.trans hnegative.1.symm)]
    exact hnegative.2

theorem Dyadic.m_ofFloat_pos {x : Float} (h : (x == 0) = false) : 0 < (Dyadic.ofFloat x).m := by
  by_contra hm
  have hlt := x.toBits.toNat_lt
  have hbits : x.toBits.toNat = 0 ∨ x.toBits.toNat = 0x8000000000000000 := by
    rw [ofFloat, ofFields] at hm
    rw [Nat.shiftRight_eq_div_pow] at hm
    split at hm
    · dsimp only at hm
      omega
    · dsimp only at hm
      simp at hm
  have hzero : (x == 0) = true := beq_zero_of_toBits <|
    hbits.imp (fun h => UInt64.toNat_inj.1 h) fun h => UInt64.toNat_inj.1 h
  rw [h] at hzero
  cases hzero

theorem Dyadic.onGrid?_pos {tie : Tie} {d : Dyadic} {k : Int} {n : Nat}
    (h : d.onGrid? tie k = some n) : 0 < n := by
  rw [onGrid?] at h
  dsimp only at h
  split at h
  · rename_i hbelow _
    have hne := (Bool.and_eq_true_iff.1 hbelow).2
    split at h
    · obtain rfl := Option.some.inj h
      exact Nat.pos_of_ne_zero (by simpa using hne)
    · obtain rfl := Option.some.inj h
      exact Nat.succ_pos _
  · rename_i hbelow _
    have hne := (Bool.and_eq_true_iff.1 hbelow).2
    obtain rfl := Option.some.inj h
    exact Nat.pos_of_ne_zero (by simpa using hne)
  · obtain rfl := Option.some.inj h
    exact Nat.succ_pos _
  · cases h

theorem Dyadic.digits_firstGrid_pos {tie : Tie} {d : Dyadic} (hm : 0 < d.m) (fuel : Nat) (k : Int) :
    0 < (d.firstGrid tie fuel k).digits := by
  induction fuel generalizing k with
  | zero => exact hm
  | succ fuel ih =>
    rw [firstGrid]
    split
    · exact onGrid?_pos ‹_›
    · exact ih (k - 1)

theorem Dyadic.digits_shortest_pos {tie : Tie} {d : Dyadic} (hm : 0 < d.m) :
    0 < (d.shortest tie).digits := digits_firstGrid_pos hm _ _

theorem significantDigits_eq (k : Nat) :
    significantDigits k = (Nat.toDigits 10 k).rdropWhile (· == '0') := by
  rw [significantDigits, toList_toString]
  rfl

structure Leading (ds : List Char) : Prop where
  ne_nil : ds ≠ []
  digits : ∀ c ∈ ds, isDigit c = true
  head : ds.head? ≠ some '0'

theorem leading_significantDigits {k : Nat} (hk : 0 < k) : Leading (significantDigits k) := by
  have hhead := head?_toDigits hk
  have hinit : significantDigits k <+: Nat.toDigits 10 k := by
    rw [significantDigits_eq]
    exact List.rdropWhile_prefix _ _
  have hne : significantDigits k ≠ [] := by
    rw [significantDigits_eq, Ne, List.rdropWhile_eq_nil_iff]
    intro hzeros
    obtain ⟨d, ds, hds⟩ := List.exists_cons_of_ne_nil (Nat.toDigits_ne_nil (b := 10) (n := k))
    rw [hds] at hhead hzeros
    exact hhead (congrArg some (eq_of_beq (hzeros d List.mem_cons_self)))
  refine ⟨hne, fun c hc => isDigit_of_mem_toDigits (hinit.subset hc), ?_⟩
  obtain ⟨d, ds, hds⟩ := List.exists_cons_of_ne_nil hne
  obtain ⟨after, hafter⟩ := hinit
  rw [← hafter, hds] at hhead
  rwa [hds]

def IsUnsigned (s : String) : Prop := ∃ n : Numeral, n.Whole ∧ n.negative = false ∧ n.text = s

theorem Numeral.whole_of_parts {n : Numeral} (hwhole : n.whole ≠ [])
    (hdigits : ∀ c ∈ n.whole, isDigit c = true) (hzero : n.whole.head? = some '0' → n.whole.length = 1)
    (hfraction : ∀ ds, n.fraction = some ds → ds ≠ [] ∧ ∀ c ∈ ds, isDigit c = true)
    (hexponent : ∀ sign ds, n.exponent = some (sign, ds) → (∀ c, sign = some c → c = '+' ∨ c = '-') ∧
      ds ≠ [] ∧ ∀ c ∈ ds, isDigit c = true) : n.Whole := by
  refine ⟨⟨hdigits, fun {ds} hds => ⟨hwhole, (hfraction ds hds).2⟩, fun {sign ds} hds => ?_⟩,
    fun rest => ?_⟩
  · obtain ⟨hsign, -, hds⟩ := hexponent sign ds hds
    exact ⟨hwhole, fun hnil => (hfraction [] hnil).1 rfl, hsign, hds⟩
  · rw [break?, if_neg, if_neg]
    · simp only [Bool.or_eq_true, List.isEmpty_iff, beq_iff_eq, Option.any_eq_true, not_or, not_exists,
        not_and]
      refine ⟨⟨hwhole, fun hnil => (hfraction [] hnil).1 rfl⟩, fun e he hnil => ?_⟩
      exact (hexponent e.1 e.2 he).2.1 hnil
    · rintro ⟨hhead, hlong⟩
      have := hzero hhead
      omega

theorem isDigit_replicate (k : Nat) : ∀ c ∈ List.replicate k '0', isDigit c = true := by
  intro c hc
  rw [List.eq_of_mem_replicate hc]
  decide

theorem Layout.isUnsigned_positional {l : Layout} (hl : l.keepFraction = true) {ds : List Char}
    (h : Leading ds) (exponent : Int) : IsUnsigned (l.positional ds exponent) := by
  rw [positional, hl]
  split
  · refine ⟨⟨false, ['0'], some (List.replicate (-exponent - 1).toNat '0' ++ ds), none⟩, ?_, rfl, ?_⟩
    · refine Numeral.whole_of_parts (by simp) (by simp; decide) (by simp) ?_ (by simp)
      rintro _ ⟨rfl⟩
      refine ⟨by simp [h.ne_nil], fun c hc => ?_⟩
      exact (List.mem_append.1 hc).elim (isDigit_replicate _ c) (h.digits c)
    · simp [Numeral.text, signText, zeros, ← String.toList_inj]
  · split
    · refine ⟨⟨false, ds ++ List.replicate (exponent.toNat + 1 - ds.length) '0', some ['0'], none⟩,
        ?_, rfl, ?_⟩
      · refine Numeral.whole_of_parts (by simp [h.ne_nil]) ?_ ?_ (by simp; decide) (by simp)
        · intro c hc
          exact (List.mem_append.1 hc).elim (h.digits c) (isDigit_replicate _ c)
        · intro hhead
          rw [List.head?_append_of_ne_nil _ h.ne_nil] at hhead
          exact absurd hhead h.head
      · simp [Numeral.text, signText, zeros]
    · rename_i hlong
      refine ⟨⟨false, ds.take (exponent.toNat + 1), some (ds.drop (exponent.toNat + 1)), none⟩,
        ?_, rfl, ?_⟩
      · refine Numeral.whole_of_parts (by simp [h.ne_nil]) ?_ ?_ ?_ (by simp)
        · exact fun c hc => h.digits c (List.mem_of_mem_take hc)
        · intro hhead
          rw [List.head?_take, if_neg (Nat.succ_ne_zero _)] at hhead
          exact absurd hhead h.head
        · rintro _ ⟨rfl⟩
          refine ⟨?_, fun c hc => h.digits c (List.mem_of_mem_drop hc)⟩
          rw [Ne, List.drop_eq_nil_iff]
          exact hlong
      · simp [Numeral.text, signText, ← String.toList_inj]

theorem isUnsigned_scientific {ds : List Char} (h : Leading ds) (exponent : Int) :
    IsUnsigned (scientific ds exponent) := by
  refine ⟨⟨false, ds.take 1, if ds.length ≤ 1 then none else some (ds.drop 1),
    some (some (if exponent < 0 then '-' else '+'), (toString exponent.natAbs).toList)⟩, ?_, rfl, ?_⟩
  · refine Numeral.whole_of_parts (by simp [h.ne_nil]) ?_ ?_ ?_ ?_
    · exact fun c hc => h.digits c (List.mem_of_mem_take hc)
    · intro hhead
      rw [List.head?_take, if_neg Nat.one_ne_zero] at hhead
      exact absurd hhead h.head
    · intro fs hfs
      dsimp only at hfs
      split at hfs
      · cases hfs
      · obtain rfl := Option.some.inj hfs
        refine ⟨?_, fun c hc => h.digits c (List.mem_of_mem_drop hc)⟩
        rw [Ne, List.drop_eq_nil_iff]
        assumption
    · rintro sign es ⟨rfl, rfl⟩
      rw [toList_toString]
      refine ⟨?_, Nat.toDigits_ne_nil, fun c hc => isDigit_of_mem_toDigits hc⟩
      rintro c ⟨rfl⟩
      split
      · exact .inr rfl
      · exact .inl rfl
  · rw [scientific, Numeral.text]
    split <;> split <;> simp [signText, ← String.toList_inj]

theorem Layout.isUnsigned_write {l : Layout} (hl : l.keepFraction = true) {d : Decimal}
    (hd : 0 < d.digits) : IsUnsigned (l.write d) := by
  have hleading := leading_significantDigits hd
  rw [write]
  split
  · exact isUnsigned_positional hl hleading _
  · exact isUnsigned_scientific hleading _

theorem IsUnsigned.whole_ofText {s : String} (h : IsUnsigned s) (negative : Bool) :
    (Numeral.ofText (signText negative ++ s)).Whole := by
  obtain ⟨⟨_, whole, fraction, exponent⟩, hwhole, rfl, rfl⟩ := h
  have hsigned : (⟨negative, whole, fraction, exponent⟩ : Numeral).Whole :=
    ⟨⟨hwhole.whole, hwhole.fraction, hwhole.exponent⟩, hwhole.unbroken⟩
  have htext : signText negative ++ (⟨false, whole, fraction, exponent⟩ : Numeral).text =
      (⟨negative, whole, fraction, exponent⟩ : Numeral).text := by
    simp [Numeral.text, signText, String.append_assoc]
  have hread := Numeral.ofChars_text hsigned.toScanned endsNumber_nil
  rw [List.append_nil] at hread
  rw [htext, Numeral.ofText, hread]
  exact hsigned

/-- Each number is written as a number, also one that is none of the finite ones. -/
theorem Number.whole_numeral (x : Number) : x.numeral.Whole := by
  cases x with
  | whole n => exact whole_digits false n.toNat
  | negative n => exact whole_digits true n.toNat
  | float x =>
    rw [numeral, Layout.float]
    apply IsUnsigned.whole_ofText
    split
    · refine ⟨⟨false, ['0'], some ['0'], none⟩, ?_, rfl, rfl⟩
      exact Numeral.whole_of_parts (by simp) (by simp; decide) (by simp) (by simp; decide) (by simp)
    · rename_i hzero
      rw [Bool.not_eq_true] at hzero
      exact Layout.isUnsigned_write rfl (Dyadic.digits_shortest_pos (Dyadic.m_ofFloat_pos hzero))

end WorldShuffle

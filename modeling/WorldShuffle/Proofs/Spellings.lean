import WorldShuffle.Proofs.Numerals

namespace WorldShuffle

variable {cs rest acc : List Char} {c : Char} {j : Json}

theorem readString_plain {s : StringSoFar} (hquote : c ≠ '"') (hslash : c ≠ '\\') (hspace : ¬c < ' ') :
    readString s (c :: cs) = readString (s.push c) cs := by
  rw [readString.eq_def]
  split <;> simp_all

theorem readString_escaped {s : StringSoFar} {d : Char} (h : escapedChar? c = some d) :
    readString s ('\\' :: c :: cs) = readString (s.push d) cs := by
  have hu : c ≠ 'u' := by
    rintro rfl
    cases h
  rw [readString, h]
  exact hu

theorem readString_unit {s : StringSoFar} {x₁ x₂ x₃ x₄ : Char} {n : Nat}
    (h : hexUnit [x₁, x₂, x₃, x₄] = .ok n) :
    readString s ('\\' :: 'u' :: x₁ :: x₂ :: x₃ :: x₄ :: cs) = readString (s.pushUnit n) cs := by
  have hunit : hexUnit (x₁ :: x₂ :: x₃ :: x₄ :: cs) = .ok n := h
  rw [readString, hunit]

theorem exists_hexUnit {k : Nat} (h : k < 0x20) : ∃ x y : Char, hexUnit ['0', '0', x, y] = .ok k ∧
    ((if k < 0x10 then "\\u000" ++ hexDigits k else "\\u00" ++ hexDigits k).toList =
      ['\\', 'u', '0', '0', x, y]) := by
  interval_cases k <;> exact ⟨_, _, rfl, rfl⟩

theorem pushUnit_control {k : Nat} (h : k < 0x20) :
    (⟨acc, none, false⟩ : StringSoFar).pushUnit k = ⟨Char.ofNat k :: acc, none, false⟩ := by
  have hlead : isLeadUnit k = false := by simp [isLeadUnit]; omega
  have htrail : isTrailUnit k = false := by simp [isTrailUnit]; omega
  simp [StringSoFar.pushUnit, hlead, htrail, StringSoFar.push]

theorem readString_escapeChar (c : Char) (acc cs : List Char) :
    readString ⟨acc, none, false⟩ ((escapeChar c).toList ++ cs) =
      readString ⟨c :: acc, none, false⟩ cs := by
  have control (h : c.toNat < 0x20) : readString ⟨acc, none, false⟩
      ((if c.toNat < 0x10 then "\\u000" ++ hexDigits c.toNat
        else "\\u00" ++ hexDigits c.toNat).toList ++ cs) =
        readString ⟨c :: acc, none, false⟩ cs := by
    obtain ⟨x, y, hunit, htext⟩ := exists_hexUnit h
    rw [htext]
    refine (readString_unit hunit).trans ?_
    rw [pushUnit_control h, Char.ofNat_toNat]
    rfl
  rw [escapeChar]
  split_ifs with h₁ h₂ h₃ h₄ h₅ h₆ h₇ h₈ h₉
  · exact readString_escaped (by rw [h₁]; rfl)
  · exact readString_escaped (by rw [h₂]; rfl)
  · exact readString_escaped (by rw [h₃]; rfl)
  · exact readString_escaped (by rw [h₄]; rfl)
  · exact readString_escaped (by rw [h₅]; rfl)
  · exact readString_escaped (by rw [h₆]; rfl)
  · exact readString_escaped (by rw [h₇]; rfl)
  · simpa [h₈] using control (by omega)
  · simpa [h₈] using control h₉
  · have hplain : c.toString.toList ++ cs = c :: cs := by simp
    rw [hplain]
    exact readString_plain h₁ h₂ fun h => h₉ h

theorem readString_escapes (ds acc cs : List Char) :
    readString ⟨acc, none, false⟩ ((String.join (ds.map escapeChar)).toList ++ '"' :: cs) =
      .ok (some (String.ofList (acc.reverse ++ ds)), cs) := by
  induction ds generalizing acc with
  | nil =>
    rw [List.append_nil]
    rfl
  | cons d ds ih =>
    rw [List.map_cons, String.join_cons, String.toList_append, List.append_assoc,
      readString_escapeChar, ih, List.reverse_cons, List.append_assoc]
    rfl

def escapedTail (s : String) : List Char := (String.join (s.toList.map escapeChar)).toList ++ ['"']

theorem toList_escaped (s : String) : (escaped s).toList = '"' :: escapedTail s := by
  simp [escaped, escapedTail]

theorem readString_escapedTail (s : String) (cs : List Char) :
    readString {} (escapedTail s ++ cs) = .ok (some s, cs) := by
  have hread := readString_escapes s.toList [] cs
  rw [List.reverse_nil, List.nil_append, String.ofList_toList] at hread
  rw [escapedTail, List.append_assoc]
  exact hread

def Blank (ws : List Char) : Prop := ∀ c ∈ ws, isJsonSpace c = true

theorem skipSpace_blank {ws : List Char} (h : Blank ws) (cs : List Char) :
    skipSpace (ws ++ cs) = skipSpace cs :=
  List.dropWhile_append_of_pos h

theorem skipSpace_cons (h : isJsonSpace c = false) (cs : List Char) :
    skipSpace (c :: cs) = c :: cs := by
  rw [skipSpace, List.dropWhile_cons_of_neg]
  simp [h]

theorem skipSpace_skipSpace (cs : List Char) : skipSpace (skipSpace cs) = skipSpace cs :=
  List.dropWhile_idempotent _ _

theorem parseValue_skipSpace (fuel : Nat) (cs : List Char) :
    parseValue fuel (skipSpace cs) = parseValue fuel cs := by
  cases fuel with
  | zero => rfl
  | succ fuel => rw [parseValue, parseValue, skipSpace_skipSpace]

theorem parseItems_skipSpace (fuel : Nat) (cs : List Char) :
    parseItems fuel (skipSpace cs) = parseItems fuel cs := by
  cases fuel with
  | zero => rfl
  | succ fuel => rw [parseItems, parseItems, parseValue_skipSpace]

structure SpelledMember where
  blank : List Char
  name : String
  value : Json
  text : List Char

def SpelledMember.chars (m : SpelledMember) : List Char :=
  m.blank ++ '"' :: (escapedTail m.name ++ ':' :: m.text)

/-- The ways to write a value: there may be blanks before a value, before the name of a member and
before a closing bracket. -/
inductive Json.Spelled : Json → List Char → Prop
  | blank {j : Json} {ws cs : List Char} : Blank ws → Spelled j cs → Spelled j (ws ++ cs)
  | null : Spelled .null "null".toList
  | bool (b : Bool) : Spelled (.bool b) (if b then "true" else "false").toList
  | num {n : Numeral} : n.Whole → Spelled (.num n) n.text.toList
  | string (s : String) : Spelled (.string s) (escaped s).toList
  | list {items : List (Json × List Char)} {ws : List Char} : Blank ws →
      (∀ i ∈ items, Spelled i.1 i.2) →
      Spelled (.list (items.map Prod.fst))
        ('[' :: ([','].intercalate (items.map Prod.snd) ++ (ws ++ [']'])))
  | object {members : List SpelledMember} {ws : List Char} : Blank ws →
      (∀ m ∈ members, Blank m.blank) → (∀ m ∈ members, Spelled m.value m.text) →
      Spelled (.object (members.map fun m => (m.name, m.value)))
        ('\x7b' :: ([','].intercalate (members.map SpelledMember.chars) ++ (ws ++ ['\x7d'])))

theorem intercalate_cons (x : List Char) (xs : List (List Char)) :
    [','].intercalate (x :: xs) = x ++ xs.flatMap (',' :: ·) := by
  induction xs generalizing x with
  | nil => simp
  | cons y ys ih => simp [List.intercalate_cons_cons, ih]

theorem not_isJsonSpace (h : isDigit c = true ∨ c = '-') : isJsonSpace c = false := by
  apply Bool.eq_false_iff.2
  intro hspace
  simp only [isJsonSpace, Bool.or_eq_true, beq_iff_eq] at hspace
  obtain ((rfl | rfl) | rfl) | rfl := hspace <;> revert h <;> decide

theorem parseValue_number (h : isDigit c = true ∨ c = '-') (fuel : Nat) (cs : List Char) :
    parseValue (fuel + 1) (c :: cs) = parsedNumber (c :: cs) := by
  rw [parseValue, skipSpace_cons (not_isJsonSpace h)]
  split
  case h_8 heq =>
    obtain ⟨rfl, rfl⟩ := List.cons.inj heq
    exact if_pos (by simpa using h)
  case h_1 heq => cases heq
  all_goals
    rename_i heq
    obtain ⟨rfl, -⟩ := List.cons.inj heq
    exact absurd h (by decide)

theorem Json.Spelled.opens (h : j.Spelled cs) (rest : List Char) :
    ∃ c cs', skipSpace (cs ++ rest) = c :: cs' ∧ c ≠ ']' := by
  induction h with
  | blank hws h ih =>
    rw [List.append_assoc, skipSpace_blank hws]
    exact ih
  | null => exact ⟨_, _, rfl, by decide⟩
  | bool b => cases b <;> exact ⟨_, _, rfl, by decide⟩
  | num h =>
    obtain ⟨c, cs, htext, hc⟩ := h.opens
    rw [htext, List.cons_append, skipSpace_cons (not_isJsonSpace hc)]
    refine ⟨c, _, rfl, ?_⟩
    rintro rfl
    exact absurd hc (by decide)
  | string s =>
    rw [toList_escaped]
    exact ⟨_, _, rfl, by decide⟩
  | list => exact ⟨_, _, rfl, by decide⟩
  | object => exact ⟨_, _, rfl, by decide⟩

/-- What is read back where nothing that goes on with a number follows, with two units of fuel for each
character. -/
def Json.ReadsBack (j : Json) (cs : List Char) : Prop :=
  ∀ (fuel : Nat) (rest : List Char), 2 * cs.length ≤ fuel → EndsNumber rest →
    parseValue fuel (cs ++ rest) = (j, some rest)

theorem endsNumber_blank {ws : List Char} (h : Blank ws) (hc : isNumberChar c = false) :
    EndsNumber (ws ++ c :: cs) := by
  cases ws with
  | nil => exact endsNumber_cons hc cs
  | cons w ws =>
    refine endsNumber_cons ?_ _
    have hw := h w List.mem_cons_self
    simp only [isJsonSpace, Bool.or_eq_true, beq_iff_eq] at hw
    obtain ((rfl | rfl) | rfl) | rfl := hw <;> decide

theorem parseItems_last {fuel : Nat} {cs₁ : List Char} (hvalue : parseValue fuel cs = (j, some cs₁))
    (hend : skipSpace cs₁ = ']' :: rest) : parseItems (fuel + 1) cs = ([j], none, some rest) := by
  simp only [parseItems, hvalue, hend]

theorem parseItems_more {fuel : Nat} {cs₁ cs₂ : List Char} {js : List Json}
    (hvalue : parseValue fuel cs = (j, some cs₁)) (hcomma : skipSpace cs₁ = ',' :: cs₂)
    (hnext : ∃ c cs₃, skipSpace cs₂ = c :: cs₃ ∧ c ≠ ']')
    (hitems : parseItems fuel cs₂ = (js, none, some rest)) :
    parseItems (fuel + 1) cs = (j :: js, none, some rest) := by
  obtain ⟨c, cs₃, hnext, hc⟩ := hnext
  rw [← parseItems_skipSpace, hnext] at hitems
  simp only [parseItems, hvalue, hcomma, hnext]
  split
  · cases ‹c :: cs₃ = []›
  · exact absurd (List.cons.inj ‹c :: cs₃ = _›).1 hc
  · rw [hitems]

theorem parseMembers_last {fuel : Nat} {name : Option String} {cs₁ cs₂ : List Char}
    (hname : readString {} cs = .ok (name, ':' :: cs₁))
    (hvalue : parseValue fuel cs₁ = (j, some cs₂)) (hend : skipSpace cs₂ = '\x7d' :: rest) :
    parseMembers (fuel + 1) cs = ([(name, j)], none, some rest) := by
  simp (disch := decide) only [parseMembers, hname, skipSpace_cons, hvalue, hend]

theorem parseMembers_more {fuel : Nat} {name : Option String} {cs₁ cs₂ cs₃ cs₄ : List Char}
    {ms : List (Option String × Json)} (hname : readString {} cs = .ok (name, ':' :: cs₁))
    (hvalue : parseValue fuel cs₁ = (j, some cs₂)) (hcomma : skipSpace cs₂ = ',' :: cs₃)
    (hnext : skipSpace cs₃ = '"' :: cs₄) (hmembers : parseMembers fuel cs₄ = (ms, none, some rest)) :
    parseMembers (fuel + 1) cs = ((name, j) :: ms, none, some rest) := by
  simp (disch := decide) only [parseMembers, hname, skipSpace_cons, hvalue, hcomma, hnext, hmembers,
    Option.map_none]

theorem parseItems_spelled {ws : List Char} (hws : Blank ws) (i : Json × List Char)
    (items : List (Json × List Char)) (hi : i.1.ReadsBack i.2)
    (hitems : ∀ i ∈ items, i.1.Spelled i.2 ∧ i.1.ReadsBack i.2) {fuel : Nat}
    (hfuel : 2 * (i.2 ++ items.flatMap (',' :: ·.2)).length < fuel) :
    parseItems fuel (i.2 ++ (items.flatMap (',' :: ·.2) ++ (ws ++ ']' :: rest))) =
      ((i :: items).map Prod.fst, none, some rest) := by
  obtain ⟨fuel, rfl⟩ := Nat.exists_eq_add_one_of_ne_zero (Nat.ne_zero_of_lt hfuel)
  induction items generalizing i fuel with
  | nil =>
    rw [List.flatMap_nil, List.append_nil] at hfuel
    rw [List.flatMap_nil, List.nil_append]
    apply parseItems_last (hi fuel _ (by omega) (endsNumber_blank hws (by decide)))
    rw [skipSpace_blank hws, skipSpace_cons (by decide)]
  | cons i' items ih =>
    obtain ⟨hspelled, hback⟩ := hitems i' List.mem_cons_self
    rw [List.length_append, List.flatMap_cons, List.length_append, List.length_cons] at hfuel
    obtain ⟨fuel, rfl⟩ : ∃ k, fuel = k + 1 := Nat.exists_eq_add_one_of_ne_zero (by omega)
    rw [List.flatMap_cons, List.append_assoc, List.cons_append]
    apply parseItems_more (hi _ _ (by omega) (endsNumber_cons (by decide) _))
      (skipSpace_cons (by decide) _)
    · exact hspelled.opens _
    · apply ih i' hback fun i h => hitems i (List.mem_cons_of_mem i' h)
      rw [List.length_append]
      omega

theorem SpelledMember.length_chars (m : SpelledMember) : m.text.length + 2 ≤ m.chars.length := by
  simp only [chars, List.length_append, List.length_cons]
  omega

theorem SpelledMember.chars_append (m : SpelledMember) (cs : List Char) : m.chars ++ cs =
    m.blank ++ '"' :: (escapedTail m.name ++ ':' :: (m.text ++ cs)) := by
  simp [chars]

theorem parseMembers_spelled {ws : List Char} (hws : Blank ws) (m : SpelledMember)
    (members : List SpelledMember) (hm : m.value.ReadsBack m.text)
    (hmembers : ∀ m ∈ members, Blank m.blank ∧ m.value.ReadsBack m.text) {fuel : Nat}
    (hfuel : 2 * (m.chars ++ members.flatMap fun m => ',' :: m.chars).length < fuel) :
    parseMembers fuel (escapedTail m.name ++ ':' :: (m.text ++
      ((members.flatMap fun m => ',' :: m.chars) ++ (ws ++ '\x7d' :: rest)))) =
      ((m :: members).map fun m => (some m.name, m.value), none, some rest) := by
  obtain ⟨fuel, rfl⟩ := Nat.exists_eq_add_one_of_ne_zero (Nat.ne_zero_of_lt hfuel)
  have hlength := m.length_chars
  induction members generalizing m fuel with
  | nil =>
    rw [List.flatMap_nil, List.append_nil] at hfuel
    rw [List.flatMap_nil, List.nil_append]
    apply parseMembers_last (readString_escapedTail m.name _)
      (hm fuel _ (by omega) (endsNumber_blank hws (by decide)))
    rw [skipSpace_blank hws, skipSpace_cons (by decide)]
  | cons m' members ih =>
    obtain ⟨hblank, hback⟩ := hmembers m' List.mem_cons_self
    rw [List.length_append, List.flatMap_cons, List.length_append, List.length_cons] at hfuel
    obtain ⟨fuel, rfl⟩ : ∃ k, fuel = k + 1 := Nat.exists_eq_add_one_of_ne_zero (by omega)
    rw [List.flatMap_cons, List.append_assoc, List.cons_append, m'.chars_append]
    apply parseMembers_more (readString_escapedTail m.name _)
      (hm _ _ (by omega) (endsNumber_cons (by decide) _)) (skipSpace_cons (by decide) _)
    · rw [skipSpace_blank hblank]
      exact skipSpace_cons (by decide) _
    · apply ih m' hback (fun m h => hmembers m (List.mem_cons_of_mem m' h)) _ _ m'.length_chars
      rw [List.length_append]
      omega

theorem parseValue_list {fuel : Nat} {js : List Json}
    (hnext : ∃ c cs', skipSpace cs = c :: cs' ∧ c ≠ ']')
    (hitems : parseItems fuel cs = (js, none, some rest)) :
    parseValue (fuel + 1) ('[' :: cs) = (.list js, some rest) := by
  obtain ⟨c, cs', hnext, hc⟩ := hnext
  rw [← parseItems_skipSpace, hnext] at hitems
  simp (disch := decide) only [parseValue, skipSpace_cons, hnext]
  split
  · cases ‹c :: cs' = []›
  · exact absurd (List.cons.inj ‹c :: cs' = _›).1 hc
  · rw [hitems, Json.list]

theorem parseValue_object {fuel : Nat} {cs' : List Char} {ms : List (Option String × Json)}
    (hnext : skipSpace cs = '"' :: cs') (hmembers : parseMembers fuel cs' = (ms, none, some rest)) :
    parseValue (fuel + 1) ('\x7b' :: cs) = (.obj ms none, some rest) := by
  simp (disch := decide) only [parseValue, skipSpace_cons, hnext, hmembers]

theorem Json.readsBack_of_succ (hcs : cs ≠ [])
    (h : ∀ fuel rest, 2 * cs.length ≤ fuel + 1 → EndsNumber rest →
      parseValue (fuel + 1) (cs ++ rest) = (j, some rest)) : j.ReadsBack cs := by
  intro fuel rest hfuel hrest
  have hpos := List.length_pos_iff.2 hcs
  obtain ⟨fuel, rfl⟩ : ∃ k, fuel = k + 1 := Nat.exists_eq_add_one_of_ne_zero (by omega)
  exact h fuel rest hfuel hrest

theorem Numeral.Scanned.parseValue {n : Numeral} (h : n.Scanned) (hwhole : n.whole ≠ []) (fuel : Nat)
    (hrest : EndsNumber rest) : parseValue (fuel + 1) (n.text.toList ++ rest) =
      (n.break? rest).elim (.num n, some rest) fun b => (.broken b, none) := by
  obtain ⟨c, cs, htext, hc⟩ := h.opens hwhole
  have hscan := Numeral.ofChars_text h hrest
  rw [htext, List.cons_append] at hscan ⊢
  rw [parseValue_number hc]
  -- Lean evaluates the scan when it derives the equation of this definition.
  delta parsedNumber
  rw [hscan]
  cases hbreak : n.break? rest <;> simp [hbreak]

theorem Numeral.Whole.readsBack {n : Numeral} (h : n.Whole) : (Json.num n).ReadsBack n.text.toList := by
  obtain ⟨c, cs, htext, -⟩ := h.opens
  apply Json.readsBack_of_succ (by simp [htext])
  intro fuel rest _ hrest
  rw [h.toScanned.parseValue h.whole_ne_nil fuel hrest, h.unbroken, Option.elim_none]

theorem Json.readsBack_string (s : String) : (Json.string s).ReadsBack (escaped s).toList := by
  rw [toList_escaped]
  apply Json.readsBack_of_succ (List.cons_ne_nil _ _)
  intro fuel rest _ _
  simp (disch := decide) only [List.cons_append, parseValue, skipSpace_cons, readString_escapedTail,
    Json.string]

theorem Json.readsBack_list {items : List (Json × List Char)} {ws : List Char} (hws : Blank ws)
    (hitems : ∀ i ∈ items, i.1.Spelled i.2 ∧ i.1.ReadsBack i.2) :
    (Json.list (items.map Prod.fst)).ReadsBack
      ('[' :: ([','].intercalate (items.map Prod.snd) ++ (ws ++ [']']))) := by
  apply Json.readsBack_of_succ (List.cons_ne_nil _ _)
  intro fuel rest hfuel _
  rw [List.length_cons, List.length_append, List.length_append] at hfuel
  rw [List.cons_append, List.append_assoc, List.append_assoc, List.singleton_append]
  cases items with
  | nil =>
    simp (disch := decide) only [List.map_nil, List.intercalate_nil, List.nil_append, parseValue,
      skipSpace_cons, skipSpace_blank hws, Json.list]
  | cons i items =>
    obtain ⟨hspelled, hback⟩ := hitems i List.mem_cons_self
    rw [List.map_cons, intercalate_cons, List.flatMap_map] at hfuel ⊢
    rw [List.append_assoc]
    apply parseValue_list (hspelled.opens _)
    apply parseItems_spelled hws i items hback fun i' h => hitems i' (List.mem_cons_of_mem i h)
    omega

theorem Json.readsBack_object {members : List SpelledMember} {ws : List Char} (hws : Blank ws)
    (hmembers : ∀ m ∈ members, Blank m.blank ∧ m.value.ReadsBack m.text) :
    (Json.object (members.map fun m => (m.name, m.value))).ReadsBack
      ('\x7b' :: ([','].intercalate (members.map SpelledMember.chars) ++ (ws ++ ['\x7d']))) := by
  apply Json.readsBack_of_succ (List.cons_ne_nil _ _)
  intro fuel rest hfuel _
  rw [List.length_cons, List.length_append, List.length_append] at hfuel
  rw [List.cons_append, List.append_assoc, List.append_assoc, List.singleton_append]
  cases members with
  | nil =>
    simp (disch := decide) only [List.map_nil, List.intercalate_nil, List.nil_append, parseValue,
      skipSpace_cons, skipSpace_blank hws, Json.object]
  | cons m members =>
    obtain ⟨hblank, hback⟩ := hmembers m List.mem_cons_self
    rw [List.map_cons, intercalate_cons, List.flatMap_map] at hfuel ⊢
    rw [List.append_assoc, m.chars_append, Json.object, List.map_map]
    apply parseValue_object
    · rw [skipSpace_blank hblank]
      exact skipSpace_cons (by decide) _
    · apply parseMembers_spelled hws m members hback fun m' h => hmembers m' (List.mem_cons_of_mem m h)
      omega

theorem Json.Spelled.readsBack (h : j.Spelled cs) : j.ReadsBack cs := by
  induction h with
  | blank hws h ih =>
    intro fuel rest hfuel hrest
    rw [List.length_append] at hfuel
    rw [← parseValue_skipSpace, List.append_assoc, skipSpace_blank hws, parseValue_skipSpace]
    exact ih fuel rest (by omega) hrest
  | null => exact Json.readsBack_of_succ (by decide) fun fuel rest _ _ => rfl
  | bool b => cases b <;> exact Json.readsBack_of_succ (by decide) fun fuel rest _ _ => rfl
  | num h => exact h.readsBack
  | string s => exact Json.readsBack_string s
  | list hws hitems ih => exact Json.readsBack_list hws fun i hi => ⟨hitems i hi, ih i hi⟩
  | object hws hblank hmembers ih => exact Json.readsBack_object hws fun m hm => ⟨hblank m hm, ih m hm⟩

theorem Json.Spelled.parsePrefix {text : String} (h : j.Spelled text.toList) :
    Json.parsePrefix text = (j, some []) := by
  have hread := h.readsBack (2 * text.length + 2) [] (by rw [String.length_toList]; omega)
    endsNumber_nil
  rwa [List.append_nil] at hread

/-- A scanned number that is read as some value is a number of its own. -/
theorem Numeral.Scanned.whole_of_parsePrefix {n : Numeral} (h : n.Scanned)
    (hparse : ∀ b, (Json.parsePrefix n.text).1 ≠ .broken b) : n.Whole := by
  by_cases hwhole : n.whole = []
  · obtain ⟨negative, whole, fraction, exponent⟩ := n
    obtain rfl : whole = [] := hwhole
    obtain rfl : fraction = none :=
      Option.eq_none_iff_forall_ne_some.2 fun ds hds => (h.fraction hds).1 rfl
    obtain rfl : exponent = none :=
      Option.eq_none_iff_forall_ne_some.2 fun e he => (h.exponent he).1 rfl
    cases negative <;> exact absurd rfl (hparse _)
  · have hread := h.parseValue hwhole (2 * n.text.length + 1) endsNumber_nil
    rw [List.append_nil] at hread
    cases hbreak : n.break? [] with
    | none => exact h.whole_of_break? hbreak
    | some b =>
      rw [hbreak] at hread
      exact absurd (congrArg Prod.fst hread) (hparse b)

def Json.Written (j : Json) : Prop := j.Spelled j.text.toList

theorem Json.Written.decodeText {α : Type} (h : j.Written) (decode : Decoder α) :
    decodeText decode j.text = decode j := by
  rw [WorldShuffle.decodeText, Json.Spelled.parsePrefix h]

theorem itemTexts_eq (js : List Json) : itemTexts js = js.map Json.text := by
  induction js with
  | nil => rfl
  | cons j js ih => rw [itemTexts, ih, List.map_cons]

theorem memberTexts_eq (ms : List (Option String × Json)) :
    memberTexts ms = ms.map fun m => escaped (m.1.getD "") ++ ":" ++ m.2.text := by
  induction ms with
  | nil => rfl
  | cons m ms ih => rw [memberTexts, ih, List.map_cons]

namespace Json

theorem written_null : Json.null.Written := .null

theorem written_bool (b : Bool) : (Json.bool b).Written := by
  rw [Written, text]
  exact .bool b

theorem written_string (s : String) : (Json.string s).Written := by
  rw [Written, string, text]
  exact .string s

theorem written_num {n : Numeral} (h : n.Whole) : (Json.num n).Written := by
  rw [Written, text]
  exact .num h

theorem written_int (k : Int) : (Json.int k).Written := written_num (whole_digits _ _)

theorem written_nat (k : Nat) : (Json.nat k).Written := written_num (whole_digits _ _)

theorem written_optional {α : Type} {write : α → Json} {o : Option α}
    (h : ∀ a ∈ o, (write a).Written) : (Json.optional write o).Written := by
  cases o with
  | none => exact written_null
  | some a => exact h a rfl

theorem written_list {js : List Json} (h : ∀ j ∈ js, j.Written) : (Json.list js).Written := by
  let items := js.map fun j => (j, j.text.toList)
  have hspelled : (Json.list (items.map Prod.fst)).Spelled
      ('[' :: ([','].intercalate (items.map Prod.snd) ++ ([] ++ [']']))) :=
    .list nofun (List.forall_mem_map.2 h)
  have hjs : items.map Prod.fst = js := by
    rw [List.map_map]
    exact List.map_id js
  have htext : '[' :: ([','].intercalate (items.map Prod.snd) ++ ([] ++ [']'])) =
      (Json.list js).text.toList := by
    simp [items, list, text, itemTexts_eq, Function.comp_def]
  rwa [hjs, htext] at hspelled

theorem written_object {ms : List (String × Json)} (h : ∀ m ∈ ms, m.2.Written) :
    (Json.object ms).Written := by
  let members : List SpelledMember := ms.map fun m => ⟨[], m.1, m.2, m.2.text.toList⟩
  have hspelled : (Json.object (members.map fun m => (m.name, m.value))).Spelled
      ('\x7b' :: ([','].intercalate (members.map SpelledMember.chars) ++ ([] ++ ['\x7d']))) :=
    .object nofun (List.forall_mem_map.2 fun _ _ => nofun) (List.forall_mem_map.2 h)
  have hms : (members.map fun m => (m.name, m.value)) = ms := by simp [members, Function.comp_def]
  have htext : '\x7b' :: ([','].intercalate (members.map SpelledMember.chars) ++ ([] ++ ['\x7d'])) =
      (Json.object ms).text.toList := by
    simp [members, object, text, memberTexts_eq, Function.comp_def, SpelledMember.chars, toList_escaped]
  rwa [hms, htext] at hspelled

end Json

end WorldShuffle

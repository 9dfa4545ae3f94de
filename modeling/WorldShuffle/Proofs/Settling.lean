import WorldShuffle.Json.Settled
import WorldShuffle.Proofs.Except
import WorldShuffle.Proofs.FloatTexts
import WorldShuffle.Proofs.Lists
import WorldShuffle.Proofs.Spellings

namespace WorldShuffle

variable {name other : String} {j j' : Json} {ms out : List (Option String × Json)} {depth : Nat}

theorem mem_setMember {m : Option String × Json} (h : m ∈ setMember name j ms) :
    m = (some name, j) ∨ m ∈ ms := by
  induction ms with
  | nil => exact .inl (List.mem_singleton.1 h)
  | cons k ms ih =>
    rw [setMember] at h
    split at h
    · exact (List.mem_cons.1 h).imp_right (List.mem_cons_of_mem k)
    · split at h
      · exact List.mem_cons.1 h
      · rcases List.mem_cons.1 h with rfl | h
        · exact .inr List.mem_cons_self
        · exact (ih h).imp_right (List.mem_cons_of_mem k)

theorem find?_setMember (name : String) (j : Json) (ms : List (Option String × Json)) :
    (setMember name j ms).find? (·.1 = some name) = some (some name, j) := by
  induction ms with
  | nil => simp [setMember]
  | cons k ms ih =>
    rw [setMember]
    split
    · simp
    · split
      · simp
      · rename_i hk _
        rw [List.find?_cons_of_neg (by simpa using hk)]
        exact ih

theorem find?_setMember_of_ne (h : other ≠ name) (j : Json) (ms : List (Option String × Json)) :
    (setMember name j ms).find? (·.1 = some other) = ms.find? (·.1 = some other) := by
  have hset (j : Json) (ms : List (Option String × Json)) :
      ((some name, j) :: ms).find? (·.1 = some other) = ms.find? (·.1 = some other) :=
    List.find?_cons_of_neg (by simpa using Ne.symm h)
  induction ms with
  | nil => exact hset j []
  | cons k ms ih =>
    obtain ⟨key, value⟩ := k
    rw [setMember]
    split
    · rename_i hk
      rw [hk, hset, hset]
    · split
      · exact hset j _
      · rw [List.find?_cons, List.find?_cons, ih]

def sortMembers (ms : List (String × Json)) : List (Option String × Json) :=
  ms.foldl (fun out m => setMember m.1 m.2 out) []

theorem sortMembers_append (ms : List (String × Json)) (m : String × Json) :
    sortMembers (ms ++ [m]) = setMember m.1 m.2 (sortMembers ms) := by
  rw [sortMembers, List.foldl_append]
  rfl

theorem find?_sortMembers (name : String) (ms : List (String × Json)) :
    (sortMembers ms).find? (·.1 = some name) =
      (ms.reverse.find? (·.1 = name)).map fun m => (some m.1, m.2) := by
  induction ms using List.reverseRecOn with
  | nil => rfl
  | append_singleton ms m ih =>
    rw [sortMembers_append, List.reverse_append, List.reverse_singleton, List.singleton_append]
    by_cases h : m.1 = name
    · subst h
      rw [find?_setMember, List.find?_cons_of_pos (by simp)]
      rfl
    · rw [find?_setMember_of_ne (Ne.symm h), List.find?_cons_of_neg (by simpa using h), ih]

theorem settleItems_eq_ok {js js' : List Json} : settleItems depth js = .ok js' ↔
    List.Forall₂ (fun j j' => j.settle depth = .ok j') js js' := by
  induction js generalizing js' with
  | nil => simp [settleItems, eq_comm]
  | cons j js ih =>
    rw [settleItems, List.forall₂_cons_left_iff]
    constructor
    · intro h
      obtain ⟨i, hi, h⟩ := bind_eq_ok h
      obtain ⟨is, his, h⟩ := bind_eq_ok h
      obtain rfl := Except.ok.inj h
      exact ⟨i, is, hi, ih.1 his, rfl⟩
    · rintro ⟨i, is, hi, his, rfl⟩
      simp only [hi, ih.2 his, bind, Except.bind, pure, Except.pure]

def SettlesMember (depth : Nat) (m : Option String × Json) (m' : String × Json) : Prop :=
  m.1 = some m'.1 ∧ m.2.settle depth = .ok m'.2

theorem settleMembers_eq_ok {js out' : List (Option String × Json)} :
    settleMembers depth out js = .ok out' ↔ ∃ ms, List.Forall₂ (SettlesMember depth) js ms ∧
      out' = ms.foldl (fun out m => setMember m.1 m.2 out) out := by
  induction js generalizing out with
  | nil => simp [settleMembers, eq_comm]
  | cons m js ih =>
    obtain ⟨_ | name, j⟩ := m
    · refine iff_of_false nofun ?_
      rintro ⟨_, hms, -⟩
      obtain ⟨m', ms, ⟨hname, -⟩, -⟩ := List.forall₂_cons_left_iff.1 hms
      cases hname
    · rw [settleMembers]
      constructor
      · intro h
        obtain ⟨j', hj, h⟩ := bind_eq_ok h
        obtain ⟨ms, hms, rfl⟩ := ih.1 h
        exact ⟨(name, j') :: ms, .cons ⟨rfl, hj⟩ hms, rfl⟩
      · rintro ⟨_, hms, rfl⟩
        obtain ⟨⟨name', j'⟩, ms, ⟨hname, hj⟩, hrest, rfl⟩ := List.forall₂_cons_left_iff.1 hms
        obtain rfl := Option.some.inj hname
        simp only [hj, bind, Except.bind]
        exact ih.2 ⟨ms, hrest, rfl⟩

def lastValue? (name : String) (members : List (Option String × Json)) : Option Json :=
  (members.reverse.find? (·.1 = some name)).map Prod.snd

/-- The value of a name is what the last value of that name is read as. -/
theorem lastValue?_settled {ms : List (String × Json)} {raw : List (Option String × Json)}
    (h : List.Forall₂ (SettlesMember depth) raw ms) (name : String) :
    Option.Rel (fun j j' => j.settle depth = .ok j') (lastValue? name raw)
      (((sortMembers ms).find? (·.1 = some name)).map Prod.snd) := by
  have hnames (m : Option String × Json) (m' : String × Json) (hm : SettlesMember depth m m') :
      decide (m.1 = some name) = decide (m'.1 = name) := by
    rw [hm.1]
    simp
  have hvalue {a : Option (Option String × Json)} {b : Option (String × Json)}
      (h : Option.Rel (SettlesMember depth) a b) :
      Option.Rel (fun j j' => j.settle depth = .ok j') (a.map Prod.snd) (b.map Prod.snd) := by
    cases h with
    | none => exact .none
    | some hm => exact .some hm.2
  rw [find?_sortMembers, Option.map_map]
  exact hvalue (List.find?_related (List.forall₂_reverse_iff.2 h) hnames)

theorem Json.settle_arr_eq_ok {items : List Json} {stop : Option Break} :
    (Json.arr items stop).settle depth = .ok j' ↔ ∃ d js, depth = d + 2 ∧ stop = none ∧
      List.Forall₂ (fun j j' => j.settle (d + 1) = .ok j') items js ∧ j' = .list js := by
  match depth with
  | 0 => simp [settle]
  | 1 => simp [settle]
  | d + 2 =>
    rw [settle, if_neg (Nat.succ_ne_zero d)]
    constructor
    · intro h
      obtain ⟨js, hjs, h⟩ := bind_eq_ok h
      cases stop with
      | some b => cases h
      | none => exact ⟨d, js, rfl, rfl, settleItems_eq_ok.1 hjs, (Except.ok.inj h).symm⟩
    · rintro ⟨_, js, ⟨rfl⟩, rfl, hjs, rfl⟩
      simp only [settleItems_eq_ok.2 hjs, bind, Except.bind]
      rfl

theorem Json.settle_obj_eq_ok {members : List (Option String × Json)} {stop : Option Break} :
    (Json.obj members stop).settle depth = .ok j' ↔ ∃ d ms, depth = d + 2 ∧ stop = none ∧
      List.Forall₂ (SettlesMember (d + 1)) members ms ∧ j' = .obj (sortMembers ms) none := by
  match depth with
  | 0 => simp [settle]
  | 1 => simp [settle]
  | d + 2 =>
    rw [settle, if_neg (Nat.succ_ne_zero d)]
    constructor
    · intro h
      obtain ⟨js, hjs, h⟩ := bind_eq_ok h
      obtain ⟨ms, hms, rfl⟩ := settleMembers_eq_ok.1 hjs
      cases stop with
      | some b => cases h
      | none => exact ⟨d, ms, rfl, rfl, hms, (Except.ok.inj h).symm⟩
    · rintro ⟨_, ms, ⟨rfl⟩, rfl, hms, rfl⟩
      have hsorted : settleMembers (d + 1) [] members = .ok (sortMembers ms) :=
        settleMembers_eq_ok.2 ⟨ms, hms, rfl⟩
      simp only [hsorted, bind, Except.bind]

inductive Json.Settles : Nat → Json → Json → Prop
  | null {d : Nat} : Settles d .null .null
  | bool {d : Nat} (b : Bool) : Settles d (.bool b) (.bool b)
  | num {d : Nat} {n : Numeral} {x : Number} : n.value? = some x → Settles d (.num n) (.num x.numeral)
  | string {d : Nat} (s : String) : Settles d (.string s) (.string s)
  | list {d : Nat} {js js' : List Json} :
      List.Forall₂ (fun j j' => j.settle (d + 1) = .ok j') js js' →
      Settles (d + 2) (.list js) (.list js')
  | object {d : Nat} {members : List (Option String × Json)} {ms : List (String × Json)} :
      List.Forall₂ (SettlesMember (d + 1)) members ms →
      Settles (d + 2) (.obj members none) (.obj (sortMembers ms) none)

theorem Json.settles (h : j.settle depth = .ok j') : Settles depth j j' := by
  cases j with
  | null =>
    rw [settle] at h
    exact Except.ok.inj h ▸ .null
  | bool b =>
    rw [settle] at h
    exact Except.ok.inj h ▸ .bool b
  | num n =>
    rw [settle] at h
    split at h
    · rename_i x hx
      exact Except.ok.inj h ▸ .num hx
    · cases h
  | str s =>
    cases s with
    | none =>
      rw [settle] at h
      cases h
    | some s =>
      rw [settle] at h
      exact Except.ok.inj h ▸ .string s
  | broken b =>
    rw [settle] at h
    cases h
  | arr items stop =>
    obtain ⟨d, js, rfl, rfl, hjs, rfl⟩ := settle_arr_eq_ok.1 h
    exact .list hjs
  | obj members stop =>
    obtain ⟨d, ms, rfl, rfl, hms, rfl⟩ := settle_obj_eq_ok.1 h
    exact .object hms

theorem Json.settle_eq_bool {b : Bool} : j.settle depth = .ok (.bool b) ↔ j = .bool b := by
  constructor
  · intro h
    cases settles h
    rfl
  · rintro rfl
    rw [settle]

theorem any_settled {raw : List (Option String × Json)} {ms : List (String × Json)}
    (h : List.Forall₂ (SettlesMember depth) raw ms) (hnone : lastValue? name raw = none) :
    (sortMembers ms).any (·.1 = some name) = false := by
  have hvalue := lastValue?_settled h name
  rw [hnone] at hvalue
  cases hfind : (sortMembers ms).find? (·.1 = some name) with
  | none => exact List.any_eq_false.2 (List.find?_eq_none.1 hfind)
  | some m =>
    rw [hfind] at hvalue
    cases hvalue

theorem settled_eq_bool {b : Bool} {raw : List (Option String × Json)} {ms : List (String × Json)}
    (h : List.Forall₂ (SettlesMember depth) raw ms) :
    ((sortMembers ms).find? (·.1 = some name)).map Prod.snd = some (.bool b) ↔
      lastValue? name raw = some (.bool b) := by
  have hvalue := lastValue?_settled h name
  revert hvalue
  generalize ((sortMembers ms).find? (·.1 = some name)).map Prod.snd = settled
  generalize lastValue? name raw = last
  intro hvalue
  cases hvalue with
  | none => exact iff_of_false nofun nofun
  | @some j j' hsettle =>
    have hbool : j.settle depth = .ok (.bool b) ↔ j = .bool b := Json.settle_eq_bool
    rw [Option.some.injEq, Option.some.injEq, ← hbool, hsettle, Except.ok.injEq]

theorem Json.settle_eq_obj {members : List (Option String × Json)} {stop : Option Break}
    (h : j.settle depth = .ok (.obj members stop)) : ∃ raw ms, j = .obj raw none ∧
      List.Forall₂ (SettlesMember (depth - 1)) raw ms ∧ members = sortMembers ms := by
  cases settles h with
  | object hms => exact ⟨_, _, rfl, hms, rfl⟩

def WrittenMembers (ms : List (Option String × Json)) : Prop :=
  ∀ m ∈ ms, (∃ name, m.1 = some name) ∧ m.2.Written

theorem WrittenMembers.set (h : WrittenMembers ms) (hj : j.Written) :
    WrittenMembers (setMember name j ms) := by
  intro m hm
  rcases mem_setMember hm with rfl | hm
  · exact ⟨⟨name, rfl⟩, hj⟩
  · exact h m hm

theorem writtenMembers_sortMembers {ms : List (String × Json)} (h : ∀ m ∈ ms, m.2.Written) :
    WrittenMembers (sortMembers ms) := by
  induction ms using List.reverseRecOn with
  | nil => nofun
  | append_singleton ms m ih =>
    rw [sortMembers_append]
    exact (ih fun k hk => h k (List.mem_append_left _ hk)).set
      (h m (List.mem_append_right _ (List.mem_singleton_self m)))

theorem WrittenMembers.written (h : WrittenMembers ms) : (Json.obj ms none).Written := by
  have hnames : ((ms.map fun m => (m.1.getD "", m.2)).map fun m => (some m.1, m.2)) = ms := by
    rw [List.map_map]
    refine (List.map_congr_left fun m hm => ?_).trans (List.map_id ms)
    obtain ⟨⟨name, hname⟩, -⟩ := h m hm
    exact Prod.ext (by simp [hname]) rfl
  have hwritten : (Json.object (ms.map fun m => (m.1.getD "", m.2))).Written :=
    Json.written_object (List.forall_mem_map.2 fun m hm => (h m hm).2)
  rwa [Json.object, hnames] at hwritten

theorem writtenMembers_settled {raw : List (Option String × Json)} {ms : List (String × Json)}
    (h : List.Forall₂ (SettlesMember depth) raw ms)
    (hwritten : ∀ j j' : Json, j.settle depth = .ok j' → j'.Written) :
    WrittenMembers (sortMembers ms) := by
  refine writtenMembers_sortMembers fun m hm => ?_
  obtain ⟨k, -, hk⟩ := List.exists_of_forall₂ h hm
  exact hwritten k.2 m.2 hk.2

/-- What a text is read as, when it is read as a whole, can be written. -/
theorem Json.settle_written (h : j.settle depth = .ok j') : j'.Written := by
  induction depth using Nat.strong_induction_on generalizing j j' with
  | h depth ih =>
    cases settles h with
    | null => exact written_null
    | bool b => exact written_bool b
    | num _ => exact written_num (Number.whole_numeral _)
    | string s => exact written_string s
    | list hjs =>
      refine written_list fun i hi => ?_
      obtain ⟨k, -, hk⟩ := List.exists_of_forall₂ hjs hi
      exact ih _ (by omega) hk
    | object hms => exact (writtenMembers_settled hms fun _ _ h => ih _ (by omega) h).written

theorem Json.parse_eq_ok {text : String} (h : Json.parse text = .ok j) :
    (Json.parsePrefix text).1.settle maxJsonDepth = .ok j := by
  obtain ⟨j', hsettle, h⟩ := bind_eq_ok h
  split at h
  · split at h
    · exact Except.ok.inj h ▸ hsettle
    · cases h
  · cases h

theorem Json.Spelled.parse {text : String} (h : j.Spelled text.toList) :
    Json.parse text = j.settle maxJsonDepth := by
  rw [Json.parse, h.parsePrefix]
  cases hsettle : j.settle maxJsonDepth <;> simp only [hsettle] <;> rfl

end WorldShuffle

import Mathlib.Data.List.Perm.Basic
import WorldShuffle.Chance.Trial
import WorldShuffle.Chance.WeightedSet
import WorldShuffle.Proofs.Except

namespace WorldShuffle

namespace Trial

variable {ε φ α β ω : Type} [Weight ω]

def Yields (x : Trial ε α) (a : α) : Prop := ∃ tape tape', x.run tape = .ok a tape'

theorem yields_of_run' {x : Trial ε α} {a : α} {tape : Tape} (h : x.run' tape = some a) :
    x.Yields a := by
  delta EStateM.run' at h
  split at h
  · rename_i r tape' hok
    exact ⟨tape, tape', Option.some.inj h ▸ hok⟩
  · cases h

theorem run_bind_eq_ok {x : Trial ε α} {f : α → Trial ε β} {b : β} {tape tape' : Tape}
    (h : (x >>= f).run tape = .ok b tape') :
    ∃ a tape₁, x.run tape = .ok a tape₁ ∧ (f a).run tape₁ = .ok b tape' := by
  change EStateM.bind x f tape = _ at h
  rw [EStateM.bind] at h
  split at h
  · exact ⟨_, _, ‹_›, h⟩
  · simp at h

theorem run_bind {x : Trial ε α} {f : α → Trial ε β} {a : α} {tape tape₁ : Tape}
    (h : x.run tape = .ok a tape₁) : (x >>= f).run tape = (f a).run tape₁ := by
  change x tape = _ at h
  change EStateM.bind x f tape = _
  rw [EStateM.bind, h]
  rfl

theorem yields_bind {x : Trial ε α} {f : α → Trial ε β} {b : β} (h : (x >>= f).Yields b) :
    ∃ a, x.Yields a ∧ (f a).Yields b := by
  obtain ⟨tape, tape', h⟩ := h
  obtain ⟨a, tape₁, hx, hf⟩ := run_bind_eq_ok h
  exact ⟨a, ⟨tape, tape₁, hx⟩, tape₁, tape', hf⟩

theorem yields_pure {a b : α} (h : (pure a : Trial ε α).Yields b) : b = a := by
  obtain ⟨tape, tape', h⟩ := h
  cases h
  rfl

/-- Whatever the tape, a trial ends in a value, and the value is as asked for. -/
def Surely (x : Trial ε α) (P : α → Prop) : Prop :=
  ∀ tape, ∃ a tape', x.run tape = .ok a tape' ∧ P a

theorem surely_pure {P : α → Prop} {a : α} (h : P a) : (pure a : Trial ε α).Surely P :=
  fun tape => ⟨a, tape, rfl, h⟩

theorem Surely.mono {P Q : α → Prop} {x : Trial ε α} (hx : x.Surely P) (h : ∀ a, P a → Q a) :
    x.Surely Q := by
  intro tape
  obtain ⟨a, tape', ha, hP⟩ := hx tape
  exact ⟨a, tape', ha, h a hP⟩

theorem surely_bind {P : α → Prop} {Q : β → Prop} {x : Trial ε α} {f : α → Trial ε β}
    (hx : x.Surely P) (hf : ∀ a, P a → (f a).Surely Q) : (x >>= f).Surely Q := by
  intro tape
  obtain ⟨a, tape₁, ha, hP⟩ := hx tape
  obtain ⟨b, tape₂, hb, hQ⟩ := hf a hP tape₁
  exact ⟨b, tape₂, (run_bind ha).trans hb, hQ⟩

theorem surely_report (level : Level) (text : String) :
    (report level text : Trial (Fall φ) Unit).Surely fun _ => True :=
  fun _ => ⟨(), _, rfl, trivial⟩

theorem surely_orDefect {P : α → Prop} {r : Except Defect α} {a : α} (hr : r = .ok a) (h : P a) :
    (orDefect r : Trial (Fall φ) α).Surely P := by
  rw [hr]
  exact surely_pure h

def Fails (x : Trial ε α) (e : ε) : Prop := ∃ tape tape', x.run tape = .error e tape'

theorem yields_or_fails (x : Trial ε α) (tape : Tape) :
    (∃ a tape', x.run tape = .ok a tape') ∨ ∃ e tape', x.run tape = .error e tape' := by
  cases x.run tape with
  | ok a tape' => exact Or.inl ⟨a, tape', rfl⟩
  | error e tape' => exact Or.inr ⟨e, tape', rfl⟩

theorem fails_bind {x : Trial ε α} {f : α → Trial ε β} {e : ε} (h : (x >>= f).Fails e) :
    x.Fails e ∨ ∃ a, x.Yields a ∧ (f a).Fails e := by
  obtain ⟨tape, tape', h⟩ := h
  change EStateM.bind x f tape = _ at h
  rw [EStateM.bind] at h
  split at h
  · exact Or.inr ⟨_, ⟨tape, _, ‹_›⟩, _, tape', h⟩
  · obtain ⟨rfl, rfl⟩ := EStateM.Result.error.inj h
    exact Or.inl ⟨tape, _, ‹_›⟩

theorem Surely.not_fails {P : α → Prop} {x : Trial ε α} {e : ε} (h : x.Surely P) :
    ¬x.Fails e := by
  rintro ⟨tape, tape', he⟩
  obtain ⟨a, tape'', ha, -⟩ := h tape
  rw [ha] at he
  cases he

theorem not_fails_pure {a : α} {e : ε} : ¬(pure a : Trial ε α).Fails e :=
  (surely_pure (P := fun _ => True) trivial).not_fails

theorem not_fails_report {level : Level} {text : String} {e : Fall φ} :
    ¬(report level text : Trial (Fall φ) Unit).Fails e :=
  (surely_report level text).not_fails

theorem not_fails_fraction {e : Fall φ} : ¬(fraction : Trial (Fall φ) ω).Fails e := by
  rintro ⟨tape, tape', h⟩
  cases h

theorem fails_throw {e e' : ε} (h : (throw e : Trial ε α).Fails e') : e' = e := by
  obtain ⟨tape, tape', h⟩ := h
  cases h
  rfl

theorem fails_fail {f : φ} {e : Fall φ} (h : (Trial.fail f : Trial (Fall φ) α).Fails e) :
    e = .failure f :=
  fails_throw h

theorem fails_orDefect {r : Except Defect α} {e : Fall φ}
    (h : (orDefect r : Trial (Fall φ) α).Fails e) : ∃ d, r = .error d ∧ e = .defect d := by
  cases r with
  | ok a => exact absurd h not_fails_pure
  | error d => exact ⟨d, rfl, fails_throw h⟩

theorem not_yields_throw {e : ε} {a : α} : ¬(throw e : Trial ε α).Yields a := by
  rintro ⟨tape, tape', h⟩
  cases h

theorem not_yields_fail {f : φ} {a : α} : ¬(Trial.fail f : Trial (Fall φ) α).Yields a :=
  not_yields_throw

theorem not_yields_fail_bind {f : φ} {k : α → Trial (Fall φ) β} {b : β} :
    ¬(Trial.fail f >>= k).Yields b := by
  intro h
  obtain ⟨a, ha, -⟩ := yields_bind h
  exact not_yields_fail ha

theorem yields_orDefect {r : Except Defect α} {a : α}
    (h : (orDefect r : Trial (Fall φ) α).Yields a) : r = .ok a := by
  cases r with
  | ok b => rw [yields_pure h]
  | error d => exact absurd h not_yields_throw

end Trial

namespace Stream

variable {n : Nat}

theorem belowWithin_lt (hn : 0 < n) (zone draws : Nat) (s : Stream) (h : s.MeetsZero draws) :
    (s.belowWithin n zone draws h).1 < n := by
  induction draws generalizing s with
  | zero => exact absurd h s.not_meetsZero_none
  | succ draws ih =>
    rw [belowWithin]
    split
    · rw [Nat.div_lt_iff_lt_mul (by decide), Nat.mul_comm]
      exact Nat.mul_lt_mul_of_pos_left s.next.1.toNat_lt hn
    · exact ih _ _

theorem belowWithin_congr (zone draws draws' : Nat) (s : Stream) (h : s.MeetsZero draws)
    (h' : s.MeetsZero draws') : s.belowWithin n zone draws h = s.belowWithin n zone draws' h' := by
  induction draws generalizing draws' s with
  | zero => exact absurd h s.not_meetsZero_none
  | succ draws ih =>
    cases draws' with
    | zero => exact absurd h' s.not_meetsZero_none
    | succ draws' =>
      rw [belowWithin, belowWithin]
      split
      · rfl
      · exact ih _ _ _ _

/-- Words are drawn for as long as they miss the zone; the bound on the draws plays no part. -/
theorem below_eq (n : Nat) (s : Stream) : s.below n =
    if s.next.1.toNat * n % UInt64.size ≤ evenZone n then
      (s.next.1.toNat * n / UInt64.size, s.next.2)
    else s.next.2.below n := by
  obtain ⟨k, hk, hzero⟩ := s.meetsZero
  have hmore : s.MeetsZero (1 <<< 126 + 1) := ⟨k, Nat.lt_succ_of_lt hk, hzero⟩
  rw [below, belowWithin_congr _ _ _ s _ hmore, belowWithin]
  split
  · rfl
  · rfl

theorem below_lt (hn : 0 < n) (s : Stream) : (s.below n).1 < n :=
  belowWithin_lt hn (evenZone n) _ s _

end Stream

theorem Stream.index_lt {n i : Nat} {s s' : Stream} (h : s.index 0 n = .ok (i, s')) : i < n := by
  by_cases hn : 0 < n
  · rw [Stream.index, if_pos hn] at h
    have hlt := Stream.below_lt (n := n - 0) hn s
    generalize s.below (n - 0) = r at h hlt
    obtain ⟨k, s₁⟩ := r
    obtain ⟨rfl, -⟩ := Prod.mk.inj (Except.ok.inj h)
    simpa using hlt
  · rw [Stream.index, if_neg hn] at h
    exact absurd h (by simp)

theorem Trial.yields_index {φ : Type} {n i : Nat} (h : (index n : Trial (Fall φ) Nat).Yields i) :
    i < n := by
  obtain ⟨tape, -, h⟩ := yields_bind h
  obtain ⟨⟨j, s⟩, hj, h⟩ := yields_bind h
  obtain ⟨-, -, h⟩ := yields_bind h
  obtain rfl := yields_pure h
  exact Stream.index_lt (yields_orDefect hj)

theorem Stream.index_eq_ok {n : Nat} (hn : 0 < n) (s : Stream) :
    ∃ i s', s.index 0 n = .ok (i, s') := by
  -- the draw is named before the equation is opened, for it would be run otherwise
  obtain ⟨i, s', hbelow⟩ : ∃ i s', s.below (n - 0) = (i, s') := ⟨_, _, (Prod.eta _).symm⟩
  refine ⟨0 + i, s', ?_⟩
  rw [Stream.index, if_pos hn, hbelow]

theorem Trial.surely_index {φ : Type} {n : Nat} (hn : 0 < n) :
    (index n : Trial (Fall φ) Nat).Surely (· < n) := by
  refine surely_bind (P := fun _ => True) (fun tape => ⟨tape, tape, rfl, trivial⟩) fun tape _ => ?_
  obtain ⟨i, s', hdraw⟩ := Stream.index_eq_ok hn tape.stream
  refine surely_bind (surely_orDefect (P := (· = (i, s'))) hdraw rfl) fun _ hi => ?_
  obtain rfl := hi
  refine surely_bind (P := fun _ => True) (fun _ => ⟨(), _, rfl, trivial⟩) fun _ _ => ?_
  exact surely_pure (Stream.index_lt hdraw)

theorem exists_takeEntry {α : Type} {xs : List α} {i : Nat} (hi : i < xs.length) :
    ∃ x rest, takeEntry xs i = .ok (x, rest) :=
  ⟨xs[i], xs.eraseIdx i, by rw [takeEntry, List.getElem?_eq_getElem hi]⟩

theorem takeEntry_eq_ok {α : Type} {xs rest : List α} {i : Nat} {x : α}
    (h : takeEntry xs i = .ok (x, rest)) :
    i < xs.length ∧ rest = xs.eraseIdx i ∧ (x :: rest).Perm xs := by
  rw [takeEntry] at h
  split at h
  · rename_i y hy
    obtain ⟨rfl, rfl⟩ := Prod.mk.inj (Except.ok.inj h)
    obtain ⟨hi, rfl⟩ := List.getElem?_eq_some_iff.1 hy
    exact ⟨hi, rfl, List.getElem_cons_eraseIdx_perm hi⟩
  · cases h

namespace WeightedSet

variable {ω α : Type} [Weight ω]

structure Sized (s : WeightedSet ω α) : Prop where
  weights : s.weights.length = s.items.length
  sums : s.sums.length = s.items.length

omit [Weight ω] in
theorem sized_empty : ({} : WeightedSet ω α).Sized := ⟨rfl, rfl⟩

theorem items_add {s s' : WeightedSet ω α} {w : ω} {item : α} (h : s.add w item = .ok s') :
    s'.items = s.items ++ [item] := by
  rw [add] at h
  split at h
  · rw [← Except.ok.inj h]
  · simp at h

theorem Sized.add {s s' : WeightedSet ω α} {w : ω} {item : α} (hs : s.Sized)
    (h : s.add w item = .ok s') : s'.Sized := by
  rw [WeightedSet.add] at h
  split at h
  · obtain rfl := Except.ok.inj h
    exact ⟨by simp [hs.weights], by simp [hs.sums]⟩
  · simp at h

theorem length_runningSums (total : ω) (ws : List ω) :
    (runningSums total ws).length = ws.length := by
  induction ws generalizing total with
  | nil => rfl
  | cons w ws ih => simp [runningSums, ih]

theorem Sized.removeAt {s : WeightedSet ω α} (hs : s.Sized) {i : Nat} (hi : i < s.items.length) :
    (s.removeAt i).Sized := by
  have hw := hs.weights
  have hsum := hs.sums
  constructor
  · simp [WeightedSet.removeAt, List.length_eraseIdx, hw]
  · simp only [WeightedSet.removeAt, List.length_append, List.length_take, length_runningSums,
      List.length_drop, List.length_eraseIdx, hw, if_pos hi]
    omega

theorem pickIndex?_lt {s : WeightedSet ω α} (hs : s.Sized) {u : ω} {i : Nat}
    (h : s.pickIndex? u = some i) : i < s.items.length := by
  rw [pickIndex?] at h
  split at h
  · simp at h
  · rename_i hne
    have hpos : 0 < s.items.length := by
      simpa [List.length_pos_iff] using hne
    obtain rfl := Option.some.inj h
    cases hf : s.sums.findIdx? (Weight.reaches · (u * s.total)) with
    | none => simp only [Option.getD_none]; omega
    | some j =>
      obtain ⟨hj, -⟩ := List.findIdx?_eq_some_iff_getElem.1 hf
      exact hs.sums ▸ hj

theorem exists_takeAt (s : WeightedSet ω α) {i : Nat} (hi : i < s.items.length) :
    ∃ item s', s.takeAt i = .ok (item, s') := by
  obtain ⟨item, items, htake⟩ := exists_takeEntry hi
  exact ⟨item, s.removeAt i, by rw [takeAt, htake]; rfl⟩

theorem Sized.takeAt {s s' : WeightedSet ω α} (hs : s.Sized) {i : Nat} {item : α}
    (h : s.takeAt i = .ok (item, s')) : (item :: s'.items).Perm s.items ∧ s'.Sized := by
  obtain ⟨⟨x, items⟩, htake, h⟩ := bind_eq_ok h
  obtain ⟨rfl, rfl⟩ := Prod.mk.inj (Except.ok.inj h)
  obtain ⟨hi, rfl, hperm⟩ := takeEntry_eq_ok htake
  exact ⟨hperm, hs.removeAt hi⟩

theorem pickIndex?_eq_none {s : WeightedSet ω α} {u : ω} (h : s.pickIndex? u = none) :
    s.items = [] := by
  rw [pickIndex?] at h
  split at h
  · simpa using ‹s.items.isEmpty = true›
  · simp at h

theorem pick?_eq_some {s : WeightedSet ω α} (hs : s.Sized) (hne : s.items ≠ []) (u : ω) :
    ∃ item ∈ s.items, s.pick? u = some item := by
  cases hp : s.pickIndex? u with
  | none => exact absurd (pickIndex?_eq_none hp) hne
  | some i =>
    have hi := pickIndex?_lt hs hp
    refine ⟨s.items[i], List.getElem_mem hi, ?_⟩
    rw [pick?, hp]
    exact List.getElem?_eq_getElem hi

theorem sized_foldlM {f : WeightedSet ω α → α → Except Defect (WeightedSet ω α)} {xs : List α}
    (hf : ∀ s x s', x ∈ xs → f s x = .ok s' → ∃ w, s.add w x = .ok s')
    {s s' : WeightedSet ω α} (hs : s.Sized) (h : xs.foldlM f s = .ok s') :
    s'.Sized ∧ s'.items = s.items ++ xs := by
  induction xs generalizing s with
  | nil =>
    obtain rfl := Except.ok.inj h
    exact ⟨hs, (List.append_nil _).symm⟩
  | cons x xs ih =>
    obtain ⟨s₁, hx, hxs⟩ := foldlM_cons_eq_ok h
    obtain ⟨w, hw⟩ := hf s x s₁ List.mem_cons_self hx
    obtain ⟨hsized, hitems⟩ :=
      ih (fun s y s' hy => hf s y s' (List.mem_cons_of_mem x hy)) (hs.add hw) hxs
    refine ⟨hsized, ?_⟩
    rw [hitems, items_add hw, List.append_assoc, List.singleton_append]

end WeightedSet

end WorldShuffle

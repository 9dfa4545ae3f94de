import Mathlib.Algebra.BigOperators.Ring.List
import Mathlib.Algebra.Ring.Nat
import WorldShuffle.Proofs.Grants

namespace WorldShuffle

inductive Acquisition
  | acquire (state : String)
  | acquireN (state : String) (count : UInt32)
  | ensure (state : String)
  deriving DecidableEq

namespace Acquisition

def state : Acquisition → String
  | .acquire q | .acquireN q _ | .ensure q => q

def amount : Acquisition → Nat
  | .acquire _ => 1
  | .acquireN _ n => n.toNat
  | .ensure _ => 0

/-- After the call the state is held with a count, if it was not held before. -/
def gives (q : String) (a : Acquisition) : Bool :=
  a.state = q && (a = .ensure q || a.amount ≠ 0)

end Acquisition

def gained (q : String) (as : List Acquisition) : Nat :=
  ((as.filter (·.state = q)).map Acquisition.amount).sum

def EnsuredFirst (q : String) (as : List Acquisition) : Prop :=
  as.find? (·.gives q) = some (.ensure q)

instance (q : String) (as : List Acquisition) : Decidable (EnsuredFirst q as) :=
  inferInstanceAs (Decidable (_ = _))

theorem gained_cons (q : String) (a : Acquisition) (as : List Acquisition) :
    gained q (a :: as) = (if a.state = q then a.amount else 0) + gained q as := by
  by_cases h : a.state = q <;> simp [gained, h]

theorem gained_perm {q : String} {as bs : List Acquisition} (h : as.Perm bs) :
    gained q as = gained q bs :=
  ((h.filter _).map _).sum_eq

namespace States

def gain (s : States) : Acquisition → States
  | .acquire q => s.acquire q
  | .acquireN q n => s.acquireN q n
  | .ensure q => s.ensure q

def gainAll (s : States) (as : List Acquisition) : States := as.foldl gain s

def overlooks (q : String) (s : States) : List Acquisition → Bool
  | [] => false
  | a :: as => (a = .ensure q && s.has q && s.amount q = 0) || overlooks q (s.gain a) as

variable {s : States} {q : String} {as bs : List Acquisition}

theorem has_gain (s : States) (a : Acquisition) (q : String) :
    (s.gain a).has q = (decide (q = a.state) || s.has q) := by
  cases a with
  | acquire p => exact s.has_acquire p q
  | acquireN p n => exact s.has_acquireN p q n
  | ensure p => exact s.has_ensure p q

theorem has_gainAll (s : States) (as : List Acquisition) (q : String) :
    (s.gainAll as).has q = (s.has q || as.any fun a => decide (q = a.state)) := by
  induction as generalizing s with
  | nil => simp [gainAll]
  | cons a as ih =>
    change ((s.gain a).gainAll as).has q = _
    rw [ih, has_gain, List.any_cons, Bool.or_comm (decide _), Bool.or_assoc]

/-- A call adds its amount, and one if it ensures a state that is not held. -/
theorem amount_gain (s : States) (a : Acquisition) (q : String) :
    (s.gain a).amount q =
      min (s.amount q + (if a.state = q then a.amount else 0) +
        if a = .ensure q ∧ s.has q = false then 1 else 0) 0xffffffff := by
  have hle := s.amount_le q
  cases a with
  | acquire p =>
    simp only [gain, amount_acquire, Acquisition.state, Acquisition.amount, eq_comm (a := p)]
    split
    · simp
    · simp; omega
  | acquireN p n =>
    simp only [gain, amount_acquireN, Acquisition.state, Acquisition.amount, eq_comm (a := p)]
    split
    · simp
    · simp; omega
  | ensure p =>
    simp only [gain, amount_ensure, Acquisition.state, Acquisition.amount, Acquisition.ensure.injEq,
      eq_comm (a := p)]
    split
    · rename_i h
      rw [amount_eq_zero_of_not_has h.2]
      simp
    · simp
      omega

theorem gives_ensure (q : String) : (Acquisition.ensure q).gives q = true := by
  simp [Acquisition.gives, Acquisition.state]

theorem ensuredFirst_of_gives {a : Acquisition} (h : a.gives q = true) :
    EnsuredFirst q (a :: as) ↔ a = .ensure q := by
  rw [EnsuredFirst, List.find?_cons_of_pos h, Option.some_inj]

theorem ensuredFirst_of_not_gives {a : Acquisition} (h : ¬a.gives q = true) :
    EnsuredFirst q (a :: as) ↔ EnsuredFirst q as := by
  rw [EnsuredFirst, List.find?_cons_of_neg h, EnsuredFirst]

/-- A state that is not held and ensured first comes to have one more than is acquired. -/
def extra (s : States) (q : String) (as : List Acquisition) : Nat :=
  if s.amount q = 0 ∧ EnsuredFirst q as then 1 else 0

theorem extra_cons {a : Acquisition} (h : s.overlooks q (a :: as) = false) :
    s.extra q (a :: as) =
      (if a = .ensure q ∧ s.has q = false then 1 else 0) + (s.gain a).extra q as := by
  rw [overlooks, Bool.or_eq_false_iff] at h
  have hgain := s.amount_gain a q
  by_cases hens : a = .ensure q
  · subst hens
    have hgives := gives_ensure q
    have hstate : (Acquisition.ensure q).amount = 0 := rfl
    by_cases hhas : s.has q = true
    · have hpos : s.amount q ≠ 0 := by simpa [hhas] using h.1
      simp [extra, hpos, hgain, hhas, hstate]
    · have hhas : s.has q = false := by simpa using hhas
      have hzero := amount_eq_zero_of_not_has hhas
      simp [extra, ensuredFirst_of_gives hgives, hzero, hgain, hhas, hstate]
  · by_cases hgives : a.gives q = true
    · obtain ⟨hstate, hamount⟩ : a.state = q ∧ a.amount ≠ 0 := by
        simpa [Acquisition.gives, hens] using hgives
      simp [extra, ensuredFirst_of_gives hgives, hens, hgain, hstate, hamount]
    · have hnone : (if a.state = q then a.amount else 0) = 0 := by
        have : a.state = q → a.amount = 0 := by simpa [Acquisition.gives, hens] using hgives
        split
        · exact this ‹_›
        · rfl
      have hsame : (s.gain a).amount q = s.amount q := by
        have := s.amount_le q
        rw [hgain, hnone, if_neg fun h => hens h.1]
        omega
      simp [extra, ensuredFirst_of_not_gives hgives, hens, hsame]

/-- The counts of the calls add up, as far as counts go; a state that is not held comes to one more
if it is ensured first. -/
theorem amount_gainAll (h : s.overlooks q as = false) :
    (s.gainAll as).amount q = min (s.amount q + gained q as + s.extra q as) 0xffffffff := by
  induction as generalizing s with
  | nil =>
    have hle := s.amount_le q
    simp [gainAll, gained, extra, EnsuredFirst]
    omega
  | cons a as ih =>
    change ((s.gain a).gainAll as).amount q = _
    have hrest : (s.gain a).overlooks q as = false := by
      rw [overlooks, Bool.or_eq_false_iff] at h
      exact h.2
    rw [ih hrest, amount_gain, extra_cons h, gained_cons]
    omega

theorem count_eq_of_amount {s' : States} (h : s.amount q = s'.amount q) :
    s.count q = s'.count q := by
  rw [← UInt32.toNat_inj, toNat_count, toNat_count, h]

theorem ensuredFirst_iff (h : gained q as = 0) : EnsuredFirst q as ↔ .ensure q ∈ as := by
  constructor
  · exact List.mem_of_find?_eq_some
  · intro hmem
    induction as with
    | nil => cases hmem
    | cons a as ih =>
      rw [gained_cons, Nat.add_eq_zero_iff] at h
      by_cases hens : a = .ensure q
      · subst hens
        exact (ensuredFirst_of_gives (gives_ensure q)).2 rfl
      · have hgives : ¬a.gives q = true := by simpa [Acquisition.gives, hens] using h.1
        rw [ensuredFirst_of_not_gives hgives]
        exact ih h.2 ((List.mem_cons.1 hmem).resolve_left (Ne.symm hens))

/-- In whatever order states are acquired and ensured, the same ones are held in the end, and the
count of each is the same if it was held before, if the calls do not both ensure and acquire it, or
if both orders begin to give it in the same way. Of a state that was not held and is ensured first
in one order and acquired first in the other, the first order ends with one more, as far as counts
go. Calls that ensure a state and find it held with a count of zero are left out. -/
theorem acquisitions_commute (s : States) (h : as.Perm bs) (ha : s.overlooks q as = false)
    (hb : s.overlooks q bs = false) :
    (s.gainAll as).has q = (s.gainAll bs).has q ∧
    (s.amount q ≠ 0 ∨ .ensure q ∉ as ∨ gained q as = 0 ∨ (EnsuredFirst q as ↔ EnsuredFirst q bs) →
      (s.gainAll as).amount q = (s.gainAll bs).amount q ∧
        (s.gainAll as).count q = (s.gainAll bs).count q) ∧
    (s.amount q = 0 → EnsuredFirst q as → ¬EnsuredFirst q bs →
      (s.gainAll as).amount q = min ((s.gainAll bs).amount q + 1) 0xffffffff) := by
  have hsum : gained q as = gained q bs := gained_perm h
  refine ⟨?_, fun hsame => ?_, fun hzero hfirst hlater => ?_⟩
  · rw [has_gainAll, has_gainAll, h.any_eq]
  · have hextra : s.extra q as = s.extra q bs := by
      refine if_congr (and_congr_right fun hzero => ?_) rfl rfl
      rcases hsame with hheld | hnever | hnone | hfirst
      · exact absurd hzero hheld
      · have hnever' : .ensure q ∉ bs := mt h.mem_iff.2 hnever
        exact iff_of_false (mt List.mem_of_find?_eq_some hnever)
          (mt List.mem_of_find?_eq_some hnever')
      · rw [ensuredFirst_iff hnone, ensuredFirst_iff (hsum ▸ hnone), h.mem_iff]
      · exact hfirst
    have hamount : (s.gainAll as).amount q = (s.gainAll bs).amount q := by
      rw [amount_gainAll ha, amount_gainAll hb, hsum, hextra]
    exact ⟨hamount, count_eq_of_amount hamount⟩
  · rw [amount_gainAll ha, amount_gainAll hb, hsum, extra, extra, if_pos ⟨hzero, hfirst⟩,
      if_neg fun h => hlater h.2]
    omega

theorem acquisitions_commute_gate :
    let as : List Acquisition := [.acquire "Key", .ensure "Gate", .acquireN "Gate" 2]
    let bs : List Acquisition := [.acquireN "Gate" 2, .acquire "Key", .ensure "Gate"]
    let s := ({} : States).gainAll as
    let s' := ({} : States).gainAll bs
    as.Perm bs ∧ s.count "Key" = s'.count "Key" ∧ s'.amount "Gate" = 2 ∧
      s.amount "Gate" = min (s'.amount "Gate" + 1) 0xffffffff := by
  intro as bs s s'
  have hperm : as.Perm bs := by decide
  obtain ⟨-, hkey, -⟩ := acquisitions_commute {} hperm (q := "Key") (by decide) (by decide)
  obtain ⟨-, -, hgate⟩ := acquisitions_commute {} hperm (q := "Gate") (by decide) (by decide)
  obtain ⟨-, hcount⟩ := hkey (Or.inr (Or.inl (by decide)))
  exact ⟨hperm, hcount, by decide, hgate (by decide) (by decide) (by decide)⟩

/-- A door's state that is also acquired counts once or twice. -/
theorem acquisitions_conflict :
    let as : List Acquisition := [.ensure "Key", .acquire "Key"]
    let bs : List Acquisition := [.acquire "Key", .ensure "Key"]
    as.Perm bs ∧ (({} : States).gainAll as).count "Key" = 2 ∧
      (({} : States).gainAll bs).count "Key" = 1 := by
  decide

end States

end WorldShuffle

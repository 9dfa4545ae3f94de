import Mathlib.Data.List.MinMax
import Mathlib.Data.Prod.Lex
import WorldShuffle.Logic.Gates
import WorldShuffle.Proofs.NormalClauses
import WorldShuffle.Proofs.Tables

namespace WorldShuffle

theorem toNat_addCount (a b : UInt32) :
    (addCount a b).toNat = min (a.toNat + b.toNat) (0xffffffff) := by
  have ha := a.toNat_lt
  have hb := b.toNat_lt
  rw [addCount, addCount?, UInt32.size]
  split
  · simp only [Option.getD_some, UInt32.toNat_add]
    omega
  · simp only [Option.getD_none]
    change (4294967295 : Nat) = _
    omega

inductive Grant
  | acquire (state : String)
  | ensure (state : String)
  deriving DecidableEq

namespace States

variable {s s' : States} {q : String}

/-- How often a state has been acquired; unlike `count` it makes no exception of `true`. -/
def amount (s : States) (q : String) : Nat := ((s.counts.get? q).getD 0).toNat

def Below (s s' : States) : Prop := ∀ q, s.count q ≤ s'.count q

def take (s : States) : Grant → States
  | .acquire q => s.acquire q
  | .ensure q => s.ensure q

def grant (s : States) (gs : List Grant) : States := gs.foldl take s

theorem grant_append (s : States) (gs hs : List Grant) :
    s.grant (gs ++ hs) = (s.grant gs).grant hs :=
  List.foldl_append

theorem amount_le (s : States) (q : String) : s.amount q ≤ 0xffffffff := by
  have := ((s.counts.get? q).getD 0).toNat_lt
  rw [amount]
  omega

theorem toNat_count (s : States) (q : String) :
    (s.count q).toNat = if q = trueState then 1 else s.amount q := by
  rw [count, amount]
  split <;> rfl

theorem Below.refl (s : States) : s.Below s := fun _ => UInt32.le_refl _

theorem below_of_amount_le (h : ∀ q, s.amount q ≤ s'.amount q) : s.Below s' := by
  intro q
  rw [UInt32.le_iff_toNat_le, toNat_count, toNat_count]
  split
  · exact Nat.le_refl 1
  · exact h q

theorem amount_acquireN (s : States) (p q : String) (n : UInt32) :
    (s.acquireN p n).amount q =
      if q = p then min (s.amount q + n.toNat) 0xffffffff else s.amount q := by
  have hn := n.toNat_lt
  rw [acquireN]
  cases hp : s.counts.get? p with
  | none =>
    by_cases h : q = p
    · subst h
      simp [amount, hp]
      omega
    · simp [amount, h]
  | some held =>
    by_cases h : q = p
    · subst h
      simp [amount, hp, toNat_addCount]
    · simp [amount, h]

theorem amount_acquire (s : States) (p q : String) :
    (s.acquire p).amount q = if q = p then min (s.amount q + 1) (0xffffffff) else s.amount q :=
  s.amount_acquireN p q 1

theorem has_acquireN (s : States) (p q : String) (n : UInt32) :
    (s.acquireN p n).has q = (decide (q = p) || s.has q) := by
  rw [acquireN, has]
  split <;> exact Table.has_set _ _ _ _

theorem has_acquire (s : States) (p q : String) :
    (s.acquire p).has q = (decide (q = p) || s.has q) := s.has_acquireN p q 1

theorem amount_eq_zero_of_not_has (h : s.has q = false) : s.amount q = 0 := by
  have hn : s.counts.get? q = none := by simpa [has, Table.has] using h
  simp [amount, hn]

theorem amount_ensure (s : States) (p q : String) :
    (s.ensure p).amount q = if q = p ∧ s.has q = false then 1 else s.amount q := by
  rw [ensure]
  by_cases hp : s.has p = true
  · by_cases h : q = p
    · simp [h, hp]
    · simp [hp, h]
  · rw [if_neg hp, amount_acquire]
    have hp' : s.has p = false := by simpa using hp
    by_cases h : q = p
    · subst h
      simp [hp', amount_eq_zero_of_not_has hp']
    · simp [h]

theorem has_ensure (s : States) (p q : String) :
    (s.ensure p).has q = (decide (q = p) || s.has q) := by
  rw [ensure]
  by_cases hp : s.has p = true
  · by_cases h : q = p
    · simp [h, hp]
    · simp [hp, h]
  · rw [if_neg hp, has_acquire]

/-- Acquired states add up, in whatever order, as long as nothing ensures them. -/
theorem amount_grant {gs : List Grant} (s : States) (h : .ensure q ∉ gs) :
    (s.grant gs).amount q = min (s.amount q + gs.count (.acquire q)) (0xffffffff) := by
  induction gs generalizing s with
  | nil =>
    have := s.amount_le q
    simp only [grant, List.foldl_nil, List.count_nil]
    omega
  | cons g gs ih =>
    simp only [List.mem_cons, not_or] at h
    change ((s.take g).grant gs).amount q = _
    rw [ih (s.take g) h.2]
    cases g with
    | acquire p =>
      simp only [take, amount_acquire, List.count_cons, beq_iff_eq, Grant.acquire.injEq]
      by_cases hp : q = p
      · simp only [hp, if_true]
        omega
      · simp [hp, Ne.symm hp]
    | ensure p =>
      have hp : ¬q = p := fun hp => h.1 (by rw [hp])
      simp [take, amount_ensure, hp]

theorem amount_grant_ensured {gs : List Grant} (s : States) (h : .acquire q ∉ gs) :
    (s.grant gs).amount q =
      if .ensure q ∈ gs ∧ s.has q = false then 1 else s.amount q := by
  induction gs generalizing s with
  | nil => simp [grant]
  | cons g gs ih =>
    simp only [List.mem_cons, not_or] at h
    change ((s.take g).grant gs).amount q = _
    rw [ih (s.take g) h.2]
    cases g with
    | acquire p =>
      have hp : ¬q = p := fun hp => h.1 (by rw [hp])
      simp [take, amount_acquire, has_acquire, hp]
    | ensure p =>
      by_cases hp : q = p
      · subst hp
        simp [take, amount_ensure, has_ensure]
      · simp [take, amount_ensure, has_ensure, hp]

theorem Below.trans {s'' : States} (h : s.Below s') (h' : s'.Below s'') : s.Below s'' :=
  fun q => UInt32.le_trans (h q) (h' q)

theorem amount_le_take (s : States) (g : Grant) (q : String) : s.amount q ≤ (s.take g).amount q := by
  have hle := s.amount_le q
  cases g with
  | acquire p =>
    simp only [take, amount_acquire]
    split <;> omega
  | ensure p =>
    simp only [take, amount_ensure]
    split
    · rename_i h
      rw [amount_eq_zero_of_not_has h.2]
      omega
    · exact Nat.le_refl _

theorem amount_le_grant (s : States) (gs : List Grant) (q : String) :
    s.amount q ≤ (s.grant gs).amount q := by
  induction gs generalizing s with
  | nil => exact Nat.le_refl _
  | cons g gs ih => exact Nat.le_trans (s.amount_le_take g q) (ih (s.take g))

theorem below_grant (s : States) (gs : List Grant) : s.Below (s.grant gs) :=
  below_of_amount_le (s.amount_le_grant gs)

/-- More grants hold at least as much, whatever the order, if no state is both ensured and acquired. -/
theorem grant_below {gs hs : List Grant} (s : States)
    (hacq : ∀ q, gs.count (.acquire q) ≤ hs.count (.acquire q))
    (hens : ∀ q, .ensure q ∈ gs → .ensure q ∈ hs)
    (hsep : ∀ q, .ensure q ∈ hs → .acquire q ∉ hs) : (s.grant gs).Below (s.grant hs) := by
  refine below_of_amount_le fun q => ?_
  have hq := hacq q
  by_cases he : .ensure q ∈ hs
  · have ha : .acquire q ∉ gs := by
      rw [List.count_eq_zero_of_not_mem (hsep q he)] at hq
      exact List.count_eq_zero.1 (Nat.le_zero.1 hq)
    rw [amount_grant_ensured s ha, amount_grant_ensured s (hsep q he)]
    by_cases hh : s.has q = true
    · simp [hh]
    · have hh : s.has q = false := by simpa using hh
      simp only [hh, he, and_self, and_true, if_true, amount_eq_zero_of_not_has hh]
      split <;> omega
  · rw [amount_grant s (fun h => he (hens q h)), amount_grant s he]
    omega

end States

theorem Clause.holds_mono {c : Clause} {s s' : States} (h : s.Below s') (hc : c.holds s = true) :
    c.holds s' = true := by
  simp only [Clause.holds, Bool.and_eq_true, Bool.not_eq_true', List.all_eq_true,
    decide_eq_true_eq] at hc ⊢
  exact ⟨hc.1, fun d hd => UInt32.le_trans (hc.2 d hd) (h d.state)⟩

theorem Clause.missing_pos {c : Clause} {s : States} {m : Condition} (h : m ∈ c.missing s) :
    0 < m.count.toNat := by
  obtain ⟨d, -, h⟩ := List.mem_filterMap.1 h
  dsimp only at h
  split at h
  · simp at h
  · rename_i hlt
    obtain rfl := Option.some.inj h
    rw [UInt32.le_iff_toNat_le] at hlt
    rw [UInt32.toNat_sub_of_le _ _ (UInt32.le_iff_toNat_le.2 (by omega))]
    omega

theorem Clause.missing_eq_nil {c : Clause} {s : States} (hc : c.isNever = false) :
    c.missing s = [] ↔ c.holds s = true := by
  simp [missing, List.filterMap_eq_nil_iff, holds, hc]

def distance (ms : List Condition) : Nat ×ₗ Nat := toLex (ms.length, (totalCount ms).toNat)

theorem isCloser_iff {ms ns : List Condition} :
    isCloser ms ns = true ↔ distance ms < distance ns := by
  simp [isCloser, distance, Prod.Lex.toLex_lt_toLex, UInt32.lt_iff_toNat_lt]

namespace Gates

variable {g : Gates} {e : Nat} {s s' : States}

def possible (g : Gates) (e : Nat) : List Clause := (g.alternatives e).filter (!·.isNever)

theorem mem_possible {c : Clause} :
    c ∈ g.possible e ↔ c ∈ g.alternatives e ∧ c.isNever = false := by
  simp [possible]

def nearest? (g : Gates) (e : Nat) (s : States) : Option Clause :=
  (g.possible e).argmin fun c => distance (c.missing s)

theorem mem_of_nearest? {c : Clause} (h : g.nearest? e s = some c) : c ∈ g.possible e :=
  List.argmin_mem h

theorem nearest?_eq_none : g.nearest? e s = none ↔ g.possible e = [] := List.argmin_eq_none

theorem missing?_eq (g : Gates) (e : Nat) (s : States) :
    g.missing? e s =
      if (g.alternatives e).isEmpty then some [] else (g.nearest? e s).map (·.missing s) := by
  have step (best : Option Clause) (c : Clause) :
      some (closest (best.map (·.missing s)) (c.missing s)) =
        (List.argAux (fun b c => distance (b.missing s) < distance (c.missing s)) best c).map
          (·.missing s) := by
    cases best with
    | none => rfl
    | some b =>
      simp only [closest, Option.map_some, isCloser_iff, List.argAux]
      by_cases h : distance (c.missing s) < distance (b.missing s)
      · rw [if_pos h, if_pos h, Option.map_some]
      · rw [if_neg h, if_neg h, Option.map_some]
  have fold (best : Option Clause) (cs : List Clause) :
      cs.foldl (fun best c => some (closest best (c.missing s))) (best.map (·.missing s)) =
        (cs.foldl (List.argAux fun b c => distance (b.missing s) < distance (c.missing s))
          best).map (·.missing s) :=
    List.foldl_hom (Option.map (Clause.missing · s)) step
  rw [missing?, nearest?, List.argmin, ← fold none]
  rfl

theorem missing?_mem {ms : List Condition} (h : g.missing? e s = some ms) :
    ms = [] ∨ ∃ c ∈ g.possible e, ms = c.missing s := by
  rw [missing?_eq] at h
  split at h
  · exact Or.inl (Option.some.inj h).symm
  · obtain ⟨c, hc, rfl⟩ := Option.map_eq_some_iff.1 h
    exact Or.inr ⟨c, mem_of_nearest? hc, rfl⟩

theorem missing?_pos {ms : List Condition} {m : Condition} (h : g.missing? e s = some ms)
    (hm : m ∈ ms) : 0 < m.count.toNat := by
  rcases missing?_mem h with rfl | ⟨c, -, rfl⟩
  · simp at hm
  · exact Clause.missing_pos hm

theorem canTraverse_mono (h : s.Below s') (hc : g.canTraverse e s = true) :
    g.canTraverse e s' = true := by
  simp only [canTraverse, Bool.or_eq_true, List.any_eq_true] at hc ⊢
  exact hc.imp id fun ⟨c, hm, hh⟩ => ⟨c, hm, Clause.holds_mono h hh⟩

theorem canTraverse_eq_false_of_isFalse (h : g.isFalse e = true) : g.canTraverse e s = false := by
  simp only [isFalse, Bool.and_eq_true, Bool.not_eq_true', List.all_eq_true] at h
  simp only [canTraverse, h.1, Bool.false_or, List.any_eq_false, Clause.holds, Bool.and_eq_true]
  intro c hc hh
  simp [h.2 c hc] at hh

end Gates

end WorldShuffle

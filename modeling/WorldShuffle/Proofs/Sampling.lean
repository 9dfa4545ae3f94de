import Mathlib.Algebra.BigOperators.Group.List.Basic
import Mathlib.Algebra.Order.Field.Basic
import Mathlib.Algebra.Order.Field.Rat
import Mathlib.Order.Bounds.Defs
import Mathlib.Tactic.NormNum
import WorldShuffle.Proofs.Trials

namespace WorldShuffle

namespace WeightedSet

variable {ω α : Type} [Weight ω] {ps : List (α × ω)} {us vs ws : List ω} {w total : ω} {i : Nat}

theorem runningSums_append (total : ω) (us vs : List ω) : runningSums total (us ++ vs) =
    runningSums total us ++ runningSums ((runningSums total us).getLast?.getD total) vs := by
  induction us generalizing total with
  | nil => rfl
  | cons u us ih =>
    rw [List.cons_append, runningSums, runningSums, ih, List.getLast?_cons, Option.getD_some]
    rfl

theorem take_runningSums (total : ω) (ws : List ω) (i : Nat) :
    (runningSums total ws).take i = runningSums total (ws.take i) := by
  induction ws generalizing total i with
  | nil => simp [runningSums]
  | cons w ws ih =>
    cases i with
    | zero => rfl
    | succ i => rw [runningSums, List.take_succ_cons, List.take_succ_cons, runningSums, ih]

def ofPairs (ps : List (α × ω)) : WeightedSet ω α where
  items := ps.map Prod.fst
  weights := ps.map Prod.snd
  sums := runningSums (Weight.ofNat 0) (ps.map Prod.snd)

theorem add_ofPairs {p : α × ω} (hp : Weight.isPositive p.2 = true) :
    (ofPairs ps).add p.2 p.1 = .ok (ofPairs (ps ++ [p])) := by
  rw [add, if_pos hp, ofPairs, ofPairs, List.map_append, List.map_append, runningSums_append]
  rfl

theorem removeAt_ofPairs (ps : List (α × ω)) (i : Nat) :
    (ofPairs ps).removeAt i = ofPairs (ps.eraseIdx i) := by
  have htake : ((ps.map Prod.snd).eraseIdx i).take i = (ps.map Prod.snd).take i :=
    List.take_eraseIdx_eq_take_of_le _ _ _ (Nat.le_refl i)
  rw [removeAt, ofPairs, ofPairs, ← List.eraseIdx_map, ← List.eraseIdx_map]
  congr 1
  rw [take_runningSums, ← htake, ← runningSums_append, List.take_append_drop]

variable [DecidableEq α]

theorem remove_ofPairs (ps : List (α × ω)) (item : α) :
    ((ofPairs ps).remove item).1 = ofPairs (ps.eraseP (·.1 = item)) := by
  have hindex : (ofPairs ps).indexOf? item = ps.findIdx? (·.1 = item) := List.findIdx?_map
  rw [remove, hindex, List.eraseP_eq_eraseIdx]
  cases ps.findIdx? (·.1 = item) with
  | none => rfl
  | some i => exact removeAt_ofPairs ps i

inductive Change (ω α : Type)
  | add (weight : ω) (item : α)
  | remove (item : α)
  | removeAt (i : Nat)

def apply (s : WeightedSet ω α) : Change ω α → Except Defect (WeightedSet ω α)
  | .add weight item => s.add weight item
  | .remove item => .ok (s.remove item).1
  | .removeAt i => .ok (s.removeAt i)

def Change.survivors (ps : List (α × ω)) : Change ω α → List (α × ω)
  | .add weight item => ps ++ [(item, weight)]
  | .remove item => ps.eraseP (·.1 = item)
  | .removeAt i => ps.eraseIdx i

def Change.Fits (ps : List (α × ω)) : Change ω α → Prop
  | .add weight _ => Weight.isPositive weight = true
  | .remove _ => True
  | .removeAt i => i < ps.length

def FitAll : List (α × ω) → List (Change ω α) → Prop
  | _, [] => True
  | ps, c :: cs => c.Fits ps ∧ FitAll (c.survivors ps) cs

theorem apply_ofPairs {c : Change ω α} (h : c.Fits ps) :
    (ofPairs ps).apply c = .ok (ofPairs (c.survivors ps)) := by
  cases c with
  | add weight item => exact add_ofPairs (p := (item, weight)) h
  | remove item => exact congrArg Except.ok (remove_ofPairs ps item)
  | removeAt i => exact congrArg Except.ok (removeAt_ofPairs ps i)

theorem positive_survivors {c : Change ω α} (h : c.Fits ps)
    (hps : ∀ p ∈ ps, Weight.isPositive p.2 = true) :
    ∀ p ∈ c.survivors ps, Weight.isPositive p.2 = true := by
  intro p hp
  cases c with
  | add weight item =>
    rcases List.mem_append.1 hp with hp | hp
    · exact hps p hp
    · obtain rfl := List.mem_singleton.1 hp
      exact h
  | remove item => exact hps p (List.mem_of_mem_eraseP hp)
  | removeAt i => exact hps p (List.mem_of_mem_eraseIdx hp)

theorem run_ofPairs {cs : List (Change ω α)} (h : FitAll ps cs)
    (hps : ∀ p ∈ ps, Weight.isPositive p.2 = true) :
    cs.foldlM apply (ofPairs ps) = .ok (ofPairs (cs.foldl Change.survivors ps)) ∧
      ∀ p ∈ cs.foldl Change.survivors ps, Weight.isPositive p.2 = true := by
  induction cs generalizing ps with
  | nil => exact ⟨rfl, hps⟩
  | cons c cs ih =>
    obtain ⟨hc, hcs⟩ := h
    rw [List.foldlM_cons, apply_ofPairs hc]
    exact ih hcs (positive_survivors hc hps)

omit [DecidableEq α] in
theorem foldlM_add_ofPairs (ps : List (α × ω)) {qs : List (α × ω)}
    (hqs : ∀ p ∈ qs, Weight.isPositive p.2 = true) :
    qs.foldlM (fun s p => s.add p.2 p.1) (ofPairs ps) = .ok (ofPairs (ps ++ qs)) := by
  induction qs generalizing ps with
  | nil => rw [List.append_nil]; rfl
  | cons q qs ih =>
    obtain ⟨hq, hqs⟩ := List.forall_mem_cons.1 hqs
    rw [List.foldlM_cons, add_ofPairs hq]
    exact (ih (ps ++ [q]) hqs).trans (by rw [List.append_assoc, List.singleton_append])

def surviving (cs : List (Change ω α)) : List (α × ω) := cs.foldl Change.survivors []

def fresh (ps : List (α × ω)) : Except Defect (WeightedSet ω α) :=
  ps.foldlM (fun s p => s.add p.2 p.1) {}

omit [DecidableEq α] in
theorem fresh_eq (hps : ∀ p ∈ ps, Weight.isPositive p.2 = true) : fresh ps = .ok (ofPairs ps) :=
  foldlM_add_ofPairs [] hps

section exact

variable {ps : List (α × ℚ)} {p : α × ℚ} {i j : Nat} {t : ℚ}

def weightBefore (ps : List (α × ℚ)) (i : Nat) : ℚ := ((ps.map Prod.snd).take i).sum

omit [DecidableEq α]

theorem getElem?_runningSums (total : ℚ) {ws : List ℚ} {i : Nat} (hi : i < ws.length) :
    (runningSums total ws)[i]? = some (total + (ws.take (i + 1)).sum) := by
  induction ws generalizing total i with
  | nil => cases hi
  | cons w ws ih =>
    cases i with
    | zero => simp [runningSums]
    | succ i =>
      rw [runningSums, List.getElem?_cons_succ, ih _ (Nat.lt_of_succ_lt_succ hi), List.take_succ_cons,
        List.sum_cons, add_assoc]

theorem getElem?_sums (hi : i < ps.length) :
    (ofPairs ps).sums[i]? = some (weightBefore ps (i + 1)) := by
  rw [ofPairs, getElem?_runningSums _ (by simpa using hi), weightBefore]
  exact congrArg some (zero_add _)

theorem length_sums (ps : List (α × ℚ)) : (ofPairs ps).sums.length = ps.length := by
  rw [ofPairs, length_runningSums, List.length_map]

theorem weightBefore_zero (ps : List (α × ℚ)) : weightBefore ps 0 = 0 := by
  rw [weightBefore, List.take_zero, List.sum_nil]

theorem weightBefore_succ (hp : ps[i]? = some p) :
    weightBefore ps (i + 1) = weightBefore ps i + p.2 := by
  obtain ⟨hi, rfl⟩ := List.getElem?_eq_some_iff.1 hp
  rw [weightBefore, List.sum_take_succ _ i (by simpa using hi), List.getElem_map, weightBefore]

theorem total_ofPairs (ps : List (α × ℚ)) : (ofPairs ps).total = weightBefore ps ps.length := by
  rw [total, List.getLast?_eq_getElem?, length_sums]
  cases hn : ps.length with
  | zero =>
    rw [List.length_eq_zero_iff.1 hn]
    rfl
  | succ n => rw [Nat.succ_sub_one, getElem?_sums (by omega), Option.getD_some]

variable (hps : ∀ p ∈ ps, 0 < p.2)
include hps

theorem weightBefore_lt (hij : i < j) (hj : j ≤ ps.length) : weightBefore ps i < weightBefore ps j := by
  induction j, hij using Nat.le_induction with
  | base =>
    have hp := List.getElem?_eq_getElem hj
    rw [weightBefore_succ hp]
    exact lt_add_of_pos_right _ (hps _ (List.getElem_mem hj))
  | succ j hij ih =>
    have hp := List.getElem?_eq_getElem hj
    rw [weightBefore_succ hp]
    exact (ih (Nat.le_of_succ_le hj)).trans (lt_add_of_pos_right _ (hps _ (List.getElem_mem hj)))

theorem weightBefore_le (hij : i ≤ j) (hj : j ≤ ps.length) : weightBefore ps i ≤ weightBefore ps j := by
  rcases Nat.eq_or_lt_of_le hij with rfl | hij
  · exact le_refl _
  · exact (weightBefore_lt hps hij hj).le

omit hps in
theorem findIdx?_sums {x : ℚ} :
    (ofPairs ps).sums.findIdx? (Weight.reaches · x) = some i ↔
      IsLeast {i | i < ps.length ∧ x ≤ weightBefore ps (i + 1)} i := by
  have hsum {j : Nat} (hj : j < ps.length) (hj' : j < (ofPairs ps).sums.length) :
      Weight.reaches (ofPairs ps).sums[j] x = true ↔ x ≤ weightBefore ps (j + 1) := by
    have hget := getElem?_sums hj
    rw [List.getElem?_eq_getElem hj'] at hget
    rw [Option.some.inj hget]
    exact decide_eq_true_iff
  rw [List.findIdx?_eq_some_iff_getElem]
  constructor
  · rintro ⟨hi, hreached, hfirst⟩
    have hlt : i < ps.length := length_sums ps ▸ hi
    refine ⟨⟨hlt, (hsum hlt hi).1 hreached⟩, fun j ⟨hj, hle⟩ => ?_⟩
    by_contra hji
    exact hfirst j (Nat.lt_of_not_le hji) ((hsum hj (by omega)).2 hle)
  · rintro ⟨⟨hlt, hle⟩, hleast⟩
    have hi : i < (ofPairs ps).sums.length := (length_sums ps).symm ▸ hlt
    refine ⟨hi, (hsum hlt hi).2 hle, fun j hj hreached => ?_⟩
    have hij := hleast ⟨hj.trans hlt, (hsum (hj.trans hlt) (hj.trans hi)).1 hreached⟩
    omega

/-- The last sum is the total, so that some sum reaches any share of it. -/
theorem exists_findIdx? (hne : ps ≠ []) (ht : t < 1) : ∃ i, (ofPairs ps).sums.findIdx?
    (Weight.reaches · (t * (ofPairs ps).total)) = some i := by
  classical
  have hpos : 0 < ps.length := List.length_pos_iff.2 hne
  have htotal : 0 < weightBefore ps ps.length :=
    weightBefore_zero ps ▸ weightBefore_lt hps hpos (Nat.le_refl _)
  have hreached : ∃ i, i < ps.length ∧ t * (ofPairs ps).total ≤ weightBefore ps (i + 1) := by
    refine ⟨ps.length - 1, by omega, ?_⟩
    rw [total_ofPairs, Nat.sub_add_cancel hpos]
    exact mul_le_of_le_one_left htotal.le ht.le
  exact ⟨Nat.find hreached, findIdx?_sums.2 ⟨Nat.find_spec hreached,
    fun j hj => Nat.find_min' hreached hj⟩⟩

theorem pickIndex?_iff (hne : ps ≠ []) (ht : t < 1) : (ofPairs ps).pickIndex? t = some i ↔
    IsLeast {i | i < ps.length ∧ t * weightBefore ps ps.length ≤ weightBefore ps (i + 1)} i := by
  obtain ⟨k, hk⟩ := exists_findIdx? hps hne ht
  have hitems : (ofPairs ps).items.isEmpty = false := by simpa [ofPairs] using hne
  rw [pickIndex?, hitems, if_neg Bool.false_ne_true, hk, Option.getD_some, ← hk, findIdx?_sums,
    total_ofPairs]

/-- An item is picked for the shares behind those of the items before it. -/
theorem pickIndex?_share (hi : i < ps.length) (ht : t < 1) : (ofPairs ps).pickIndex? t = some i ↔
    (i = 0 ∨ weightBefore ps i / weightBefore ps ps.length < t) ∧
      t ≤ weightBefore ps (i + 1) / weightBefore ps ps.length := by
  have hpos : 0 < ps.length := Nat.zero_lt_of_lt hi
  have htotal : 0 < weightBefore ps ps.length :=
    weightBefore_zero ps ▸ weightBefore_lt hps hpos (Nat.le_refl _)
  rw [pickIndex?_iff hps (List.length_pos_iff.1 hpos) ht, div_lt_iff₀ htotal, le_div_iff₀ htotal]
  constructor
  · rintro ⟨⟨-, hle⟩, hleast⟩
    refine ⟨?_, hle⟩
    cases i with
    | zero => exact Or.inl rfl
    | succ i =>
      refine Or.inr (lt_of_not_ge fun hge => ?_)
      have := hleast ⟨Nat.lt_of_succ_lt hi, hge⟩
      omega
  · rintro ⟨hlt, hle⟩
    refine ⟨⟨hi, hle⟩, fun j ⟨hj, hjle⟩ => ?_⟩
    by_contra hji
    have hji : j < i := Nat.lt_of_not_le hji
    rcases hlt with rfl | hlt
    · exact Nat.not_lt_zero j hji
    · exact absurd (hjle.trans (weightBefore_le hps hji hi.le)) (not_le_of_gt hlt)

omit hps in
theorem weightBefore_div_succ_sub (hp : ps[i]? = some p) (total : ℚ) :
    weightBefore ps (i + 1) / total - weightBefore ps i / total = p.2 / total := by
  rw [weightBefore_succ hp, ← sub_div, add_sub_cancel_left]

/-- The shares of the items lie one behind the other between 0 and 1, and none is empty. -/
theorem share_bounds (hi : i < ps.length) :
    0 ≤ weightBefore ps i / weightBefore ps ps.length ∧
      weightBefore ps i / weightBefore ps ps.length
        < weightBefore ps (i + 1) / weightBefore ps ps.length ∧
      weightBefore ps (i + 1) / weightBefore ps ps.length ≤ 1 := by
  have hbefore : 0 ≤ weightBefore ps i :=
    weightBefore_zero ps ▸ weightBefore_le hps (Nat.zero_le i) hi.le
  have htotal : 0 < weightBefore ps ps.length :=
    lt_of_le_of_lt hbefore (weightBefore_lt hps hi (Nat.le_refl _))
  refine ⟨div_nonneg hbefore htotal.le, ?_, ?_⟩
  · exact div_lt_div_of_pos_right (weightBefore_lt hps (Nat.lt_succ_self i) hi) htotal
  · exact (div_le_one htotal).2 (weightBefore_le hps hi (Nat.le_refl _))

theorem exists_pick? (hp : ps[i]? = some p) :
    ∃ t, 0 ≤ t ∧ t < 1 ∧ (ofPairs ps).pick? t = some p.1 := by
  obtain ⟨hi, -⟩ := List.getElem?_eq_some_iff.1 hp
  obtain ⟨hfirst, hlt, hlast⟩ := share_bounds hps hi
  obtain ⟨t, hfirst', hlast'⟩ := exists_between hlt
  have ht : t < 1 := hlast'.trans_le hlast
  have hpick : (ofPairs ps).pickIndex? t = some i :=
    (pickIndex?_share hps hi ht).2 ⟨Or.inr hfirst', hlast'.le⟩
  refine ⟨t, hfirst.trans hfirst'.le, ht, ?_⟩
  rw [pick?, hpick, Option.bind_some, ofPairs, List.getElem?_map, hp, Option.map_some]

end exact

/-- Whatever has been added and removed, and however weights are added up, the set is the one of what
has survived. With exact weights a pick finds the first item whose sum reaches the share asked for,
and each item has the share of its weight. -/
theorem survivors_sampled {α : Type} [DecidableEq α] :
    (∀ {ω : Type} [Weight ω] (cs : List (Change ω α)), FitAll [] cs →
      ∃ s, cs.foldlM apply ({} : WeightedSet ω α) = .ok s ∧ fresh (surviving cs) = .ok s ∧
        s.items = (surviving cs).map Prod.fst ∧ s.weights = (surviving cs).map Prod.snd) ∧
    ∀ cs : List (Change ℚ α), FitAll [] cs → ∀ s, cs.foldlM apply ({} : WeightedSet ℚ α) = .ok s →
      let ps := surviving cs
      let total := weightBefore ps ps.length
      (ps ≠ [] → ∀ t, 0 ≤ t → t < 1 → ∃ i, s.pickIndex? t = some i ∧
        s.sums.findIdx? (Weight.reaches · (t * s.total)) = some i ∧
        IsLeast {i | i < ps.length ∧ t * total ≤ weightBefore ps (i + 1)} i) ∧
      ∀ i p, ps[i]? = some p →
        let first := weightBefore ps i / total
        let last := weightBefore ps (i + 1) / total
        last - first = p.2 / total ∧ 0 ≤ first ∧ first < last ∧ last ≤ 1 ∧
        (∀ t, 0 ≤ t → t < 1 → (s.pickIndex? t = some i ↔ (i = 0 ∨ first < t) ∧ t ≤ last)) ∧
        ∃ t, 0 ≤ t ∧ t < 1 ∧ s.pick? t = some p.1 := by
  have hrun {ω : Type} [Weight ω] {cs : List (Change ω α)} (h : FitAll [] cs) :
      cs.foldlM apply ({} : WeightedSet ω α) = .ok (ofPairs (surviving cs)) ∧
        ∀ p ∈ surviving cs, Weight.isPositive p.2 = true :=
    run_ofPairs h fun _ hp => absurd hp List.not_mem_nil
  refine ⟨fun {ω} _ cs h => ?_, fun cs h s hs => ?_⟩
  · obtain ⟨hok, hpositive⟩ := hrun h
    exact ⟨_, hok, fresh_eq hpositive, rfl, rfl⟩
  · intro ps total
    obtain ⟨hok, hpositive⟩ := hrun h
    obtain rfl := Except.ok.inj (hok.symm.trans hs)
    have hps : ∀ p ∈ ps, 0 < p.2 := fun p hp => of_decide_eq_true (hpositive p hp)
    refine ⟨fun hne t _ ht => ?_, fun i p hp => ?_⟩
    · obtain ⟨i, hi⟩ := exists_findIdx? hps hne ht
      have hleast := findIdx?_sums.1 hi
      rw [total_ofPairs] at hleast
      exact ⟨i, (pickIndex?_iff hps hne ht).2 hleast, hi, hleast⟩
    · obtain ⟨hi, -⟩ := List.getElem?_eq_some_iff.1 hp
      obtain ⟨hfirst, hlt, hlast⟩ := share_bounds hps hi
      exact ⟨weightBefore_div_succ_sub hp total, hfirst, hlt, hlast,
        fun t _ ht => pickIndex?_share hps hi ht, exists_pick? hps hp⟩

theorem survivors_sampled_letters :
    let cs := [Change.add (1 : ℚ) 'a', .add 2 'b', .remove 'b', .add 3 'c', .add 2 'b', .removeAt 0]
    FitAll [] cs ∧ surviving cs = [('c', 3), ('b', 2)] ∧
      ∃ s, cs.foldlM apply {} = .ok s ∧ fresh [('c', 3), ('b', 2)] = .ok s ∧
        ∀ t, 0 ≤ t → t < 1 → (s.pickIndex? t = some 1 ↔ 3 / 5 < t ∧ t ≤ 1) := by
  intro cs
  have hfit : FitAll [] cs := by
    simp [cs, FitAll, Change.Fits, Change.survivors, Weight.isPositive]
  have hleft : surviving cs = [('c', 3), ('b', 2)] := rfl
  obtain ⟨s, hok, hfresh, -⟩ := survivors_sampled.1 cs hfit
  obtain ⟨-, -, -, -, hpick, -⟩ := (survivors_sampled.2 cs hfit s hok).2 1 ('b', 2) rfl
  refine ⟨hfit, hleft, s, hok, hleft ▸ hfresh, fun t ht ht' => ?_⟩
  rw [hpick t ht ht', hleft]
  norm_num [weightBefore]

end WeightedSet

end WorldShuffle

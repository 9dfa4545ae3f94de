import WorldShuffle.Proofs.Progress
import WorldShuffle.Proofs.SafeDeals

namespace WorldShuffle

/-- The life of an explorer whose visits hand out the states of both sides of each door, while other
states are acquired between its explorations. The indexes are these acquisitions, in order, and what
the explorer and the states have become. -/
inductive Explorer.Driven (t : Topology) (g : Gates) :
    List (String × UInt32) → Explorer → States → Prop
  | new : Driven t g [] (Explorer.new t) {}
  | addRoot {as x s} (h : Driven t g as x s) (n : Nat) : Driven t g as (x.addRoot n) s
  | acquire {as x s} (h : Driven t g as x s) (q : String) (k : UInt32) :
      Driven t g (as ++ [(q, k)]) x (s.acquireN q k)
  | explore {as x s} (h : Driven t g as x s) {visit : Visit} {base : Nat → List Grant}
      (hv : visit.Hands base) (hdoors : ∀ n, doorGrants t n ⊆ base n) :
      Driven t g as (x.explore t g visit s).explorer (x.explore t g visit s).states

def Explorer.Sees (t : Topology) (x : Explorer) (q : String) : Prop :=
  ∃ n near far, x.visited.isSet n = true ∧ t.doorStates? n = some (near, far) ∧ (q = near ∨ q = far)

def OnlyZero (as : List (String × UInt32)) (q : String) : Prop :=
  (q, 0) ∈ as ∧ ∀ k, (q, k) ∈ as → k = 0

variable {t : Topology} {g : Gates} {as bs : List (String × UInt32)} {x : Explorer} {s : States}
  {p q : String} {k : UInt32} {n : Nat}

theorem toNat_pos (h : k ≠ 0) : 1 ≤ k.toNat := by
  refine Nat.one_le_iff_ne_zero.2 fun h0 => h (UInt32.toNat_inj.1 h0)

theorem States.one_le_count (h : 1 ≤ s.amount q) : 1 ≤ s.count q := by
  rw [UInt32.le_iff_toNat_le, States.toNat_count]
  split
  · exact Nat.le_refl 1
  · exact h

/-- A state that is held with a count of zero was so before it was granted. -/
theorem States.has_of_has_take {gr : Grant} (h : (s.take gr).has q = true)
    (h0 : (s.take gr).amount q = 0) : s.has q = true := by
  by_contra hnot
  rw [Bool.not_eq_true] at hnot
  have hq := amount_eq_zero_of_not_has hnot
  cases gr with
  | acquire p =>
    rw [take, has_acquire, hnot, Bool.or_false, decide_eq_true_eq] at h
    rw [take, amount_acquire, if_pos h, hq] at h0
    cases h0
  | ensure p =>
    rw [take, has_ensure, hnot, Bool.or_false, decide_eq_true_eq] at h
    rw [take, amount_ensure, if_pos ⟨h, hnot⟩] at h0
    cases h0

theorem States.has_grant (h : s.has q = true) (gs : List Grant) : (s.grant gs).has q = true := by
  induction gs generalizing s with
  | nil => exact h
  | cons gr gs ih =>
    refine ih (s := s.take gr) ?_
    cases gr with
    | acquire p => rw [take, has_acquire, h, Bool.or_true]
    | ensure p => rw [take, has_ensure, h, Bool.or_true]

theorem States.has_grant_of_ensure {gs : List Grant} (h : .ensure q ∈ gs) :
    (s.grant gs).has q = true := by
  obtain ⟨before, after, rfl⟩ := List.append_of_mem h
  rw [grant_append]
  refine has_grant (s := (s.grant before).take (.ensure q)) ?_ after
  rw [take, has_ensure, decide_eq_true rfl, Bool.true_or]

theorem States.one_le_amount_grant {gs : List Grant} (h : .acquire q ∈ gs) :
    1 ≤ (s.grant gs).amount q := by
  obtain ⟨before, after, rfl⟩ := List.append_of_mem h
  rw [grant_append]
  refine Nat.le_trans ?_ (amount_le_grant ((s.grant before).take (.acquire q)) after q)
  rw [take, amount_acquire, if_pos rfl]
  omega

/-- The acquisitions account for the states: a state held with a count of zero has been acquired so,
and one that has been acquired otherwise is held with a count. -/
structure Acquired (as : List (String × UInt32)) (s : States) : Prop where
  held {q : String} {k : UInt32} : (q, k) ∈ as → s.has q = true
  zero {q : String} : s.has q = true → s.amount q = 0 → (q, 0) ∈ as
  positive {q : String} {k : UInt32} : (q, k) ∈ as → k ≠ 0 → 1 ≤ s.amount q

theorem Acquired.nil : Acquired [] {} where
  held h := nomatch h
  zero h := nomatch h
  positive h := nomatch h

theorem Acquired.acquireN (h : Acquired as s) (p : String) (k : UInt32) :
    Acquired (as ++ [(p, k)]) (s.acquireN p k) where
  held {q j} hj := by
    rw [States.has_acquireN]
    rcases List.mem_append.1 hj with hj | hj
    · rw [h.held hj, Bool.or_true]
    · obtain ⟨rfl, -⟩ := Prod.mk.inj (List.mem_singleton.1 hj)
      rw [decide_eq_true rfl, Bool.true_or]
  zero {q} hq h0 := by
    rw [States.has_acquireN] at hq
    rw [States.amount_acquireN] at h0
    by_cases hp : q = p
    · subst hp
      rw [if_pos rfl] at h0
      have hk : k.toNat = 0 := by omega
      rw [UInt32.toNat_inj.1 (hk.trans UInt32.toNat_zero.symm)]
      exact List.mem_append_right _ (List.mem_singleton_self _)
    · rw [if_neg hp] at h0
      rw [decide_eq_false hp, Bool.false_or] at hq
      exact List.mem_append_left _ (h.zero hq h0)
  positive {q j} hj hne := by
    have hpos := toNat_pos hne
    rw [States.amount_acquireN]
    rcases List.mem_append.1 hj with hj | hj
    · have hheld := h.positive hj hne
      split <;> omega
    · obtain ⟨rfl, rfl⟩ := Prod.mk.inj (List.mem_singleton.1 hj)
      rw [if_pos rfl]
      omega

theorem Acquired.grant (h : Acquired as s) (gs : List Grant) : Acquired as (s.grant gs) := by
  induction gs generalizing s with
  | nil => exact h
  | cons gr gs ih =>
    refine ih (s := s.take gr) ⟨fun {q k} hk => ?_, fun {q} hq h0 => ?_, fun {q k} hk hne => ?_⟩
    · exact States.has_grant (h.held hk) [gr]
    · have hle := s.amount_le_take gr q
      exact h.zero (States.has_of_has_take hq h0) (by omega)
    · exact (h.positive hk hne).trans (s.amount_le_take gr q)

theorem Acquired.one_le_amount (h : Acquired as s) (hq : s.has q = true) (hnot : ¬OnlyZero as q) :
    1 ≤ s.amount q := by
  by_contra h0
  refine hnot ⟨h.zero hq (by omega), fun k hk => ?_⟩
  by_contra hne
  exact h0 (h.positive hk hne)

namespace Explorer.Driven

theorem acquireAll (h : Driven t g as x s) (bs : List (String × UInt32)) :
    Driven t g (as ++ bs) x (bs.foldl (fun s b => s.acquireN b.1 b.2) s) := by
  induction bs generalizing as s with
  | nil => rwa [List.append_nil]
  | cons b bs ih =>
    rw [List.append_cons]
    exact ih (h.acquire b.1 b.2)

theorem ofList (t : Topology) (g : Gates) (items : List (String × UInt32)) :
    Driven t g items (Explorer.new t) (States.ofList items) :=
  new.acquireAll items

theorem acquired (h : Driven t g as x s) : Acquired as s := by
  induction h with
  | new => exact .nil
  | addRoot h n ih => exact ih
  | acquire h q k ih => exact ih.acquireN q k
  | @explore as x s h visit base hv hdoors ih =>
    rw [Explorer.explore, Walk.states_explore _ rfl, hv.foldl_visit]
    exact ih.grant _

/-- The states of both sides of a visited door are there, if with a count of zero. -/
theorem tracks (h : Driven t g as x s) : ∃ vs,
    ({ explorer := x, states := s } : Walk).Tracks vs ∧
      ∀ n ∈ vs, ∀ q, .ensure q ∈ doorGrants t n → s.has q = true := by
  induction h with
  | new => exact ⟨[], ⟨(Walk.tracks_fresh t {}).visited_iff, List.nodup_nil⟩, nofun⟩
  | addRoot h n ih =>
    obtain ⟨vs, htracks, hheld⟩ := ih
    exact ⟨vs, ⟨htracks.visited_iff, htracks.nodup⟩, hheld⟩
  | acquire h p k ih =>
    obtain ⟨vs, htracks, hheld⟩ := ih
    refine ⟨vs, ⟨htracks.visited_iff, htracks.nodup⟩, fun n hn q hq => ?_⟩
    rw [States.has_acquireN, hheld n hn q hq, Bool.or_true]
  | @explore as x s h visit base hv hdoors ih =>
    obtain ⟨vs, htracks, hheld⟩ := ih
    have hw : (x.explore t g visit s).Tracks vs := htracks.explore
    have hs : (x.explore t g visit s).states =
        s.grant ((x.explore t g visit s).order.flatMap base) := by
      rw [← hv.foldl_visit]
      exact Walk.states_explore _ rfl
    refine ⟨vs ++ (x.explore t g visit s).order, ⟨?_, ?_⟩, fun n hn q hq => ?_⟩
    · simpa using hw.visited_iff
    · simpa using hw.nodup
    · rw [hs]
      rcases List.mem_append.1 hn with hn | hn
      · exact States.has_grant (hheld n hn q hq) _
      · exact States.has_grant_of_ensure (List.mem_flatMap.2 ⟨n, hn, hdoors n hq⟩)

theorem has (h : Driven t g as x s) (hq : x.Sees t q) : s.has q = true := by
  obtain ⟨n, near, far, hn, hdoor, hq⟩ := hq
  obtain ⟨vs, htracks, hheld⟩ := h.tracks
  refine hheld n (by simpa using (htracks.visited_iff n).1 hn) q ?_
  rw [doorGrants, hdoor]
  rcases hq with rfl | rfl
  · exact List.mem_cons_self
  · exact List.mem_cons_of_mem _ (List.mem_singleton_self _)

theorem one_le_count (h : Driven t g as x s) (hq : x.Sees t q) (hnot : ¬OnlyZero as q) :
    1 ≤ s.count q :=
  States.one_le_count (h.acquired.one_le_amount (h.has hq) hnot)

end Explorer.Driven

theorem doorGrants_of_isCheckNode (h : isCheckNode t n = true) : doorGrants t n = [] := by
  obtain ⟨c, hc⟩ := Option.isSome_iff_exists.1 h
  obtain ⟨node, hnode, hc⟩ := Option.bind_eq_some_iff.1 hc
  have hdoor : node.door? = none := by
    obtain ⟨name, scene, position, c | d⟩ := node
    · rfl
    · cases hc
  rw [doorGrants, Topology.doorStates?, hnode, Option.bind_some, Node.doorStates?, hdoor]
  rfl

theorem doorGrants_subset_mappedGrants (t : Topology) (m : Mapping) (n : Nat) :
    doorGrants t n ⊆ mappedGrants t m n := by
  rw [mappedGrants]
  split
  · rw [doorGrants_of_isCheckNode ‹_›]
    exact List.nil_subset _
  · exact List.Subset.refl _

theorem doorGrants_subset_dealtGrants (d : Dealer) (n : Nat) :
    doorGrants d.topology n ⊆ dealtGrants d n := by
  rw [dealtGrants]
  split
  · rw [doorGrants_of_isCheckNode ‹_›]
    exact List.nil_subset _
  · exact List.Subset.refl _

theorem driven_replayWalk (t : Topology) (g : Gates) (m : Mapping) (items : List (String × UInt32)) :
    Explorer.Driven t g items (replayWalk t g m (States.ofList items)).explorer
      (replayWalk t g m (States.ofList items)).states :=
  ((Explorer.Driven.ofList t g items).addRoot t.start).explore (visitMapped_gives t m).toHands
    (doorGrants_subset_mappedGrants t m)

theorem stateName_ne_trueState (scene : SceneId) (name : String) : stateName scene name ≠ trueState := by
  intro h
  have hhead := congrArg (fun s : String => s.toList.head?) h
  simp [stateName, trueState, toString] at hhead

theorem Explorer.Sees.ne_trueState (h : x.Sees t q) : q ≠ trueState := by
  obtain ⟨n, near, far, -, hdoor, hq⟩ := h
  obtain ⟨node, d, -, -, rfl, rfl⟩ := Topology.doorStates?_eq_some.1 hdoor
  rcases hq with rfl | rfl
  · exact stateName_ne_trueState _ _
  · exact stateName_ne_trueState _ _

theorem States.amount_foldl_acquireN {bs : List (String × UInt32)} (h : ∀ k, (q, k) ∈ bs → k = 0) :
    (bs.foldl (fun s b => s.acquireN b.1 b.2) s).amount q = s.amount q := by
  induction bs generalizing s with
  | nil => rfl
  | cons b bs ih =>
    have hle := s.amount_le q
    rw [List.foldl_cons, ih fun k hk => h k (List.mem_cons_of_mem b hk), amount_acquireN]
    split
    · rename_i hq
      obtain rfl := hq
      rw [h b.2 List.mem_cons_self, UInt32.toNat_zero]
      omega
    · rfl

/-- What a replay starts with decides, unless a check it comes to grants the state. -/
theorem one_le_count_replayWalk {m : Mapping}
    (hq : (replayWalk t g m (States.ofList as)).explorer.Sees t q) :
    1 ≤ (replayWalk t g m (States.ofList as)).states.count q ↔ (OnlyZero as q →
      ∃ v ∈ (replayWalk t g m (States.ofList as)).order, .acquire q ∈ mappedGrants t m v) := by
  have hdriven := driven_replayWalk t g m as
  have hstates : (replayWalk t g m (States.ofList as)).states = (States.ofList as).grant
      ((replayWalk t g m (States.ofList as)).order.flatMap (mappedGrants t m)) :=
    Walk.states_fresh (visitMapped_gives t m) _
  constructor
  · intro hone hzero
    by_contra hnone
    have hnot : Grant.acquire q ∉
        (replayWalk t g m (States.ofList as)).order.flatMap (mappedGrants t m) :=
      fun hmem => hnone (List.mem_flatMap.1 hmem)
    have hhas : (States.ofList as).has q = true :=
      (Explorer.Driven.ofList t g as).acquired.held hzero.1
    have hstart : (States.ofList as).amount q = 0 := States.amount_foldl_acquireN hzero.2
    rw [UInt32.le_iff_toNat_le, States.toNat_count, if_neg hq.ne_trueState, hstates,
      States.amount_grant_ensured _ hnot, hhas, hstart] at hone
    simp at hone
  · intro hacquired
    by_cases hzero : OnlyZero as q
    · obtain ⟨v, hv, hmem⟩ := hacquired hzero
      apply States.one_le_count
      rw [hstates]
      exact States.one_le_amount_grant (List.mem_flatMap.2 ⟨v, hv, hmem⟩)
    · exact hdriven.one_le_count hq hzero

namespace Attempt

variable {ω : Type} [Weight ω] {d : Dealer} {a : Attempt ω} {number : Nat}

/-- Beside the starting items, an attempt acquires one of what it places at a time. -/
theorem LeadsTo.driven (h : (d.start number).LeadsTo d a) : ∃ fills : List Nat,
    Explorer.Driven d.topology d.gates (d.settings.startingItems.map (fun i => (i.state, i.count)) ++
      fills.map fun i => (d.topology.state i, 1)) a.explorer a.states := by
  refine h.keeps (P := fun a => ∃ fills : List Nat, Explorer.Driven d.topology d.gates
    (d.settings.startingItems.map (fun i => (i.state, i.count)) ++
      fills.map fun i => (d.topology.state i, 1)) a.explorer a.states) ?_ ?_
  · rintro a a' hchange ⟨fills, hdriven⟩
    cases hchange with
    | explore =>
      obtain ⟨locations, discovered, frontierRound, he⟩ := a.walked_eq d
      rw [walked] at he
      rw [he]
      exact ⟨fills, hdriven.explore (visit_gives d).toHands (doorGrants_subset_dealtGrants d)⟩
    | reserve => exact ⟨fills, hdriven⟩
    | @place _ _ item pool hl hpool hok =>
      obtain ⟨m, -, hok⟩ := bind_eq_ok hok
      obtain rfl := Except.ok.inj hok
      refine ⟨fills ++ [item], ?_⟩
      rw [List.map_append, ← List.append_assoc]
      exact hdriven.acquire _ 1
    | penalize l =>
      obtain ⟨penalty, he⟩ := a.penalizeAround_eq d.topology l
      rw [he]
      exact ⟨fills, hdriven⟩
    | note => exact ⟨fills, hdriven⟩
  · refine ⟨[], ?_⟩
    rw [List.map_nil, List.append_nil]
    exact (Explorer.Driven.ofList _ _ _).addRoot _

end Attempt

theorem OnlyZero.of_append (h : OnlyZero (as ++ bs) q) (hbs : ∀ b ∈ bs, b.2 ≠ 0) : OnlyZero as q :=
  ⟨(List.mem_append.1 h.1).resolve_right fun h0 => hbs _ h0 rfl,
    fun k hk => h.2 k (List.mem_append_left _ hk)⟩

/-- The states of the sides of a visited door are held with a count, whatever grants them and in
whatever order, unless they have been acquired with counts of zero alone. -/
theorem doorStates_held (t : Topology) (g : Gates) :
    (∀ as x s, Explorer.Driven t g as x s → ∀ q, x.Sees t q → ¬OnlyZero as q → 1 ≤ s.count q) ∧
    (∀ items m, let w := replayWalk t g m (States.ofList items)
      ∀ q, w.explorer.Sees t q → (1 ≤ w.states.count q ↔
        (OnlyZero items q → ∃ v ∈ w.order, .acquire q ∈ mappedGrants t m v))) ∧
    ∀ (ω : Type) [Weight ω] settings save number (a : Attempt ω),
      let d := Dealer.new t g settings save
      a.Played d number → ∀ q, (a.walked d).explorer.Sees t q →
        ¬OnlyZero (settings.startingItems.map fun i => (i.state, i.count)) q →
          1 ≤ (a.walked d).states.count q := by
  refine ⟨fun as x s h q hq => h.one_le_count hq, ?_, ?_⟩
  · intro items m w q hq
    exact one_le_count_replayWalk hq
  · intro ω _ settings save number a d hplayed q hq hnot
    have hleads := (hplayed.leadsTo (Dealer.fair_new t g settings save)).trans
      (Attempt.Change.explore a).leadsTo
    obtain ⟨fills, hdriven⟩ := hleads.driven
    refine hdriven.one_le_count hq fun hzero => hnot (hzero.of_append fun b hb => ?_)
    obtain ⟨i, -, rfl⟩ := List.mem_map.1 hb
    exact (of_decide_eq_true rfl : (1 : UInt32) ≠ 0)

def gatelessWalk : Walk := replayWalk twoRooms ⟨[]⟩ {} (States.ofList [("Scene0.Gate", 0)])

theorem doorStates_held_porch :
    gatelessWalk.explorer.Sees twoRooms "Scene1.Porch" ∧
      ¬OnlyZero [("Scene0.Gate", 0)] "Scene1.Porch" ∧
      1 ≤ gatelessWalk.states.count "Scene1.Porch" := by
  have hseen : gatelessWalk.explorer.Sees twoRooms "Scene1.Porch" :=
    ⟨1, "Scene0.Gate", "Scene1.Porch", by cbv, by cbv, .inr rfl⟩
  have hnot : ¬OnlyZero [("Scene0.Gate", 0)] "Scene1.Porch" := fun h => by simpa using h.1
  obtain ⟨-, hreplay, -⟩ := doorStates_held twoRooms ⟨[]⟩
  exact ⟨hseen, hnot, (hreplay _ _ _ hseen).2 fun h => absurd h hnot⟩

/-- The starting item with a count of zero keeps the gate that it names from being held. -/
theorem gate_not_held :
    twoRooms.finalize = .ok twoRooms ∧ gatelessWalk.explorer.visited.isSet 1 = true ∧
      twoRooms.doorStates? 1 = some ("Scene0.Gate", "Scene1.Porch") ∧
      gatelessWalk.states.count "Scene0.Gate" = 0 := by
  refine ⟨?_, ?_, ?_, ?_⟩ <;> cbv

end WorldShuffle

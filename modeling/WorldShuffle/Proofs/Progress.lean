import WorldShuffle.Proofs.Winnable

namespace WorldShuffle

variable {ω : Type} {d : Dealer} {a a' : Attempt ω} {e n : Nat}

theorem Visit.Gives.below {visit : Visit} {base : Nat → List Grant} (hv : visit.Gives base)
    (n : Nat) (s : States) : s.Below (visit n s).1 := by
  rw [hv.states]
  exact s.below_grant (base n)

namespace Attempt

theorem states_walk (d : Dealer) (a : Attempt ω) : a.states.Below (a.walk d).states := by
  rw [walk, Explorer.explore, Walk.states_explore _ rfl, (visit_gives d).foldl_visit]
  exact a.states.below_grant _

theorem locationAt_foldl_discover (ns : List Nat) (a : Attempt ω) (n : Nat) :
    (ns.foldl discover a).locationAt n = a.locationAt n ∨ a.locationAt n = .unplaced ∧
      (ns.foldl discover a).locationAt n = .discovered a.round := by
  induction ns generalizing a with
  | nil => exact Or.inl rfl
  | cons k ns ih =>
    rw [List.foldl_cons]
    have hk : (a.discover k).round = a.round ∧ ((a.discover k).locationAt n = a.locationAt n ∨
        a.locationAt n = .unplaced ∧ (a.discover k).locationAt n = .discovered a.round) := by
      rw [discover]
      split
      · rename_i hnew
        refine ⟨rfl, ?_⟩
        change (a.setLocation k _).locationAt n = _ ∨ _ ∧ (a.setLocation k _).locationAt n = _
        rw [locationAt_setLocation]
        split
        · rename_i h
          exact Or.inr ⟨h.1 ▸ hnew, rfl⟩
        · exact Or.inl rfl
      · exact ⟨rfl, Or.inl rfl⟩
    obtain ⟨hround, hk⟩ := hk
    have hns := ih (a.discover k)
    rw [hround] at hns
    rcases hk with hk | ⟨hnew, hk⟩
    · rwa [hk] at hns
    · rw [hk] at hns
      exact Or.inr ⟨hnew, hns.elim id fun h => absurd h.1 (by simp)⟩

theorem locationAt_walked (d : Dealer) (a : Attempt ω) (n : Nat) :
    (a.walked d).locationAt n = a.locationAt n ∨ a.locationAt n = .unplaced ∧
      (a.walked d).locationAt n = .discovered (a.round + 1) := by
  obtain ⟨frontierRound, he⟩ := explore_eq_discover d { a with round := a.round + 1 }
  rw [walked, he]
  exact locationAt_foldl_discover _ _ n

theorem walked_eq (d : Dealer) (a : Attempt ω) : ∃ locations discovered frontierRound,
    a.walked d = { a with
      round := a.round + 1, explorer := (a.walk d).explorer, states := (a.walk d).states
      locations, discovered, frontierRound } :=
  explore_eq_walk d { a with round := a.round + 1 }

variable [Weight ω]

namespace LeadsTo

theorem keeps {P : Attempt ω → Prop} (hP : ∀ a a', a.Change d a' → P a → P a')
    (h : a.LeadsTo d a') (ha : P a) : P a' := by
  induction h with
  | refl => exact ha
  | tail _ hchange ih => exact hP _ _ hchange ih

end LeadsTo

namespace Change

/-- A change of the books moves each location one stage on, if at all. -/
theorem location (h : a.Change d a') (n : Nat) :
    a'.locationAt n = a.locationAt n ∨ (a.locationAt n).Moves (a'.locationAt n) := by
  cases h with
  | explore =>
    rcases locationAt_walked d a n with h | ⟨hnew, h⟩
    · exact Or.inl h
    · refine Or.inr ?_
      rw [hnew]
      exact h ▸ LocationState.Moves.discover (a.round + 1)
  | @reserve l h =>
    obtain ⟨depth, hloc⟩ := isDiscovered_iff.1 h
    rw [locationAt_setLocation]
    split
    · rename_i hn
      rw [hn.1, hloc]
      exact Or.inr (LocationState.Moves.reserve depth)
    · exact Or.inl rfl
  | @place _ l item pool hl hpool hok =>
    obtain ⟨mapping, -, hok⟩ := bind_eq_ok hok
    obtain rfl := Except.ok.inj hok
    change (a.setLocation l .placed).locationAt n = _ ∨
      (a.locationAt n).Moves ((a.setLocation l .placed).locationAt n)
    rw [locationAt_setLocation]
    split
    · rename_i hn
      rw [hn.1]
      refine Or.inr ?_
      rcases hl with hl | hl
      · rw [hl]
        exact LocationState.Moves.fill
      · obtain ⟨depth, hloc⟩ := isDiscovered_iff.1 hl
        rw [hloc]
        exact LocationState.Moves.fillAtWill depth
    · exact Or.inl rfl
  | penalize l =>
    obtain ⟨penalty, he⟩ := a.penalizeAround_eq d.topology l
    rw [he]
    exact Or.inl rfl
  | note => exact Or.inl rfl

theorem states_below (h : a.Change d a') : a.states.Below a'.states := by
  cases h with
  | explore =>
    obtain ⟨locations, discovered, frontierRound, he⟩ := a.walked_eq d
    change a.states.Below (a.walked d).states
    rw [he]
    exact a.states_walk d
  | reserve => exact States.Below.refl _
  | place hl hpool hok =>
    obtain ⟨hfills, -⟩ := fills_place hok
    rw [hfills.states]
    exact a.states.below_grant _
  | penalize l =>
    obtain ⟨penalty, he⟩ := a.penalizeAround_eq d.topology l
    rw [he]
    exact States.Below.refl _
  | note => exact States.Below.refl _

/-- Only a walk touches what the explorer knows and when the edges of its frontier were met. -/
theorem walks_or_stays (h : a.Change d a') : a' = a.walked d ∨ a'.explorer = a.explorer ∧
    a'.round = a.round ∧ a'.frontierRound = a.frontierRound := by
  cases h with
  | explore => exact Or.inl rfl
  | reserve => exact Or.inr ⟨rfl, rfl, rfl⟩
  | place hl hpool hok =>
    obtain ⟨mapping, -, hok⟩ := bind_eq_ok hok
    obtain rfl := Except.ok.inj hok
    exact Or.inr ⟨rfl, rfl, rfl⟩
  | penalize l =>
    obtain ⟨penalty, he⟩ := a.penalizeAround_eq d.topology l
    rw [he]
    exact Or.inr ⟨rfl, rfl, rfl⟩
  | note => exact Or.inr ⟨rfl, rfl, rfl⟩

end Change

theorem LeadsTo.states_below (h : a.LeadsTo d a') : a.states.Below a'.states :=
  h.keeps (P := fun a'' => a.states.Below a''.states)
    (fun _ _ hchange hbelow => hbelow.trans hchange.states_below) (States.Below.refl _)

theorem LeadsTo.stage_le (h : a.LeadsTo d a') (n : Nat) :
    (a.locationAt n).stage ≤ (a'.locationAt n).stage := by
  refine h.keeps (P := fun a'' => (a.locationAt n).stage ≤ (a''.locationAt n).stage)
    (fun a₁ a₂ hchange hle => ?_) (Nat.le_refl _)
  rcases hchange.location n with hsame | hmove
  · exact hsame ▸ hle
  · exact Nat.le_trans hle (Nat.le_of_lt hmove.stage_lt)

theorem LeadsTo.explored_size (h : a.LeadsTo d a') :
    a'.explorer.explored.size = a.explorer.explored.size := by
  refine h.keeps (P := fun a'' => a''.explorer.explored.size = a.explorer.explored.size)
    (fun a₁ a₂ hchange hsize => ?_) rfl
  rcases hchange.walks_or_stays with rfl | ⟨hx, -, -⟩
  · obtain ⟨locations, discovered, frontierRound, he⟩ := a₁.walked_eq d
    rw [he]
    exact (Walk.size_explored_explore _).trans hsize
  · rw [hx, hsize]

structure Opened (d : Dealer) (e : Nat) (a : Attempt ω) : Prop where
  size : e < a.explorer.explored.size
  isOpen : d.gates.canTraverse e a.states = true
  reached : a.explorer.explored.isSet e = true ∨ e ∈ a.explorer.frontier

omit [Weight ω] in
theorem Opened.explored (h : a.Opened d e) : (a.walked d).explorer.explored.isSet e = true := by
  obtain ⟨locations, discovered, frontierRound, he⟩ := a.walked_eq d
  rw [he]
  rcases h.reached with hset | hwaits
  · exact Walk.explored_explore hset
  · exact Walk.explore_crosses (visit_gives d).below hwaits h.isOpen h.size

theorem Opened.change (h : a.Opened d e) (hchange : a.Change d a') : a'.Opened d e := by
  have hopen := Gates.canTraverse_mono hchange.states_below h.isOpen
  rcases hchange.walks_or_stays with rfl | ⟨hx, -, -⟩
  · have hset := h.explored
    refine ⟨?_, hopen, Or.inl hset⟩
    obtain ⟨hlt, -⟩ := Array.getElem?_eq_some_iff.1 (Marks.isSet_iff.1 hset)
    exact hlt
  · exact ⟨hx ▸ h.size, hopen, hx ▸ h.reached⟩

/-- An open edge of the frontier stays open, and is explored by whatever walk comes next. -/
theorem Opened.leadsTo (h : a.Opened d e) (hleads : a.LeadsTo d a') : a'.Opened d e :=
  hleads.keeps (P := Opened d e) (fun _ _ hchange hopened => hopened.change hchange) h

end Attempt

end WorldShuffle

import WorldShuffle.Proofs.Nearest
import WorldShuffle.Proofs.Winnable

namespace WorldShuffle

variable {ω : Type} {d : Dealer} {a a' : Attempt ω} {g : Gates} {e : Nat} {s : States} {c : Clause}

/-- What is missing at an edge that is closed, though not for ever, is missing of its nearest
alternative, and is not nothing. -/
theorem Gates.missing?_closed (hclosed : g.canTraverse e s = false) (hfalse : g.isFalse e = false) :
    ∃ c m ms, g.nearest? e s = some c ∧ c.missing s = m :: ms ∧
      g.missing? e s = some (m :: ms) := by
  simp only [canTraverse, Bool.or_eq_false_iff, List.any_eq_false] at hclosed
  obtain ⟨hsome, hnone⟩ := hclosed
  have hpossible : g.possible e ≠ [] := by
    simpa [isFalse, hsome, possible, List.filter_eq_nil_iff] using hfalse
  obtain ⟨c, hc⟩ := Option.ne_none_iff_exists'.1 (mt nearest?_eq_none.1 hpossible)
  obtain ⟨hmem, hnever⟩ := mem_possible.1 (mem_of_nearest? hc)
  obtain ⟨m, ms, hm⟩ := List.exists_cons_of_ne_nil fun h =>
    hnone c hmem ((Clause.missing_eq_nil hnever).1 h)
  refine ⟨c, m, ms, hc, hm, ?_⟩
  rw [missing?_eq, hsome, hc]
  exact congrArg some hm

namespace Attempt

/-- Some unmet condition of the clause asks for more copies of its state, beyond those held, than there
are items left in the pool that grant it. -/
def OutOfReach (d : Dealer) (a : Attempt ω) (c : Clause) : Prop :=
  ∃ m ∈ c.unmet a.states, a.pool.countP (d.topology.state · = m.state) <
    m.count.toNat - (a.states.count m.state).toNat

theorem outOfReach_of_canUnlock (h : a.canUnlock d (c.missing a.states) = false) :
    a.OutOfReach d c := by
  rw [canUnlock, Clause.missing_eq_map_unmet, List.all_map, List.all_eq_false] at h
  obtain ⟨m, hm, hlt⟩ := h
  have hheld : a.states.count m.state < m.count := by simpa using (List.mem_filter.1 hm).2
  refine ⟨m, hm, ?_⟩
  rw [← UInt32.toNat_sub_of_le _ _ (UInt32.le_of_lt hheld)]
  exact Nat.lt_of_not_le (of_decide_eq_false (Bool.not_eq_true _ ▸ hlt))

theorem walked_closed (h : e ∈ (a.walked d).explorer.frontier) :
    d.gates.canTraverse e (a.walked d).states = false ∧ d.gates.isFalse e = false := by
  obtain ⟨locations, discovered, frontierRound, hwalked⟩ :=
    explore_eq_walk d { a with round := a.round + 1 }
  rw [walked, hwalked] at h ⊢
  exact ⟨Walk.explore_blocked (visit_gives d).honest _ e h, Walk.explore_possible _ e h⟩

variable [Weight ω]

theorem exists_mem_frontier {m : Condition} {ms : List Condition} (he : e ∈ a.explorer.frontier)
    (hm : d.gates.missing? e a.states = some (m :: ms)) :
    ∃ f ∈ a.frontier d, f.edge = e ∧ f.canUnlock = a.canUnlock d (m :: ms) := by
  have hdemand : (e, m :: ms) ∈ a.demands d := List.mem_filterMap.2 ⟨e, he, by rw [hm]⟩
  exact ⟨_, List.mem_map_of_mem hdemand, rfl, rfl⟩

def GivesUp (d : Dealer) (a : Attempt ω) : Prop :=
  ∃ edges, unlockable ((a.walked d).frontier d) = .ok edges ∧ edges.items = []

theorem givesUp_iff :
    a.GivesUp d ↔ ∀ f ∈ (a.walked d).frontier d, f.canUnlock = false := by
  constructor
  · rintro ⟨edges, hedges, hnil⟩
    exact (items_unlockable_eq_nil hedges).1 hnil
  · intro h
    have hnil : ((a.walked d).frontier d).filter (·.canUnlock) = [] := by
      simpa [List.filter_eq_nil_iff] using h
    exact ⟨{}, by rw [unlockable, hnil]; rfl, rfl⟩

theorem eq_false_iff_givesUp {b : Bool} (hok : (a.playRound d).Yields (a', b)) :
    b = false ↔ a.GivesUp d := by
  rw [givesUp_iff]
  rcases playRound_yields hok with ⟨rfl, f, hf, hcan, -⟩ | ⟨rfl, hnone, -⟩
  · simp only [Bool.true_eq_false, false_iff]
    intro hnone
    rw [hnone f hf] at hcan
    cases hcan
  · exact iff_of_true rfl hnone

end Attempt

variable [Weight ω]

/-- Filling at will is a last resort as far as nearest alternatives go. A round ends with no edge
unlocked just if it gives up, and when it gives up, whatever has been done before, the pool is too poor
for the nearest alternative of each edge that waits at the frontier. Which one is nearest is judged by
deficits that are summed in 32 bits; where they all fit, it is the one that is nearest in truth. -/
theorem fill_last_resort (d : Dealer) (a : Attempt ω) :
    (∀ a' b, (a.playRound d).Yields (a', b) → (b = false ↔ a.GivesUp d)) ∧
    (a.GivesUp d → ∀ e ∈ (a.walked d).explorer.frontier,
      ∃ c, FirstLeast (·.gap32 (a.walked d).states) (d.gates.alternatives e) c ∧
        ((∀ b ∈ d.gates.alternatives e, b.isNever = false →
            b.deficit (a.walked d).states < UInt32.size) →
          FirstLeast (·.gap (a.walked d).states) (d.gates.alternatives e) c) ∧
        (a.walked d).OutOfReach d c) := by
  refine ⟨fun a' b => Attempt.eq_false_iff_givesUp, fun hgives e he => ?_⟩
  obtain ⟨hclosed, hfalse⟩ := Attempt.walked_closed he
  obtain ⟨c, m, ms, hnearest, hmissing, hm⟩ := Gates.missing?_closed hclosed hfalse
  -- the round asks of the pool what this alternative lacks, and nothing of the others
  obtain ⟨f, hf, -, hcan⟩ := Attempt.exists_mem_frontier he hm
  rw [Attempt.givesUp_iff.1 hgives f hf, ← hmissing] at hcan
  have hfirst := Gates.firstLeast_of_nearest? hnearest
  exact ⟨c, hfirst, fun hfits => hfirst.congr fun b hb hb' => Clause.gap32_eq (hfits b hb hb'),
    Attempt.outOfReach_of_canUnlock hcan.symm⟩

def lampOrKey : Gates :=
  ⟨[{ name := "locks", logic := ⟨[(0, [.single "Lamp" 1, .single "Key" 1])]⟩ }]⟩

theorem playRound_lampOrKey :
    let d := Dealer.new twoRooms lampOrKey {} none
    ∃ a', ((d.start 1 : Attempt Rat).playRound d).Yields (a', false) := by
  intro d
  have h : (match ((d.start 1 : Attempt Rat).playRound d).run { stream := ⟨"", 1, rfl⟩ } with
      | .ok (_, goesOn) _ => goesOn
      | .error _ _ => true) = false := by cbv
  split at h
  · rename_i a' goesOn tape hrun
    exact ⟨a', _, tape, h ▸ hrun⟩
  · cases h

theorem fill_last_resort_twoRooms :
    let d := Dealer.new twoRooms lampOrKey {} none
    let a : Attempt Rat := d.start 1
    (∃ a', (a.playRound d).Yields (a', false)) ∧ a.GivesUp d ∧
      (a.walked d).explorer.frontier = [0] ∧ (a.walked d).OutOfReach d (.single "Lamp" 1) := by
  intro d a
  obtain ⟨a', hok⟩ := playRound_lampOrKey
  obtain ⟨hround, hresort⟩ := fill_last_resort d a
  have hgives := (hround a' false hok).1 rfl
  have hfrontier : (a.walked d).explorer.frontier = [0] := by cbv
  obtain ⟨c, hc, -, hout⟩ := hresort hgives 0 (by rw [hfrontier]; exact List.mem_singleton_self 0)
  have hlamp : d.gates.nearest? 0 (a.walked d).states = some (.single "Lamp" 1) := by cbv
  obtain rfl := hc.unique (Gates.firstLeast_of_nearest? hlamp)
  exact ⟨⟨a', hok⟩, hgives, hfrontier, hout⟩

/-- Of equally near alternatives only the first counts: the attempt gives up before the gate that it
could open with the key it still has. -/
theorem fill_despite_key :
    let d := Dealer.new twoRooms lampOrKey {} none
    let a : Attempt Rat := d.start 1
    a.Played d 1 ∧ a.pool ≠ [] ∧ (∃ a', (a.playRound d).Yields (a', false)) ∧
      ¬∀ e ∈ (a.walked d).explorer.frontier, ∀ c ∈ d.gates.alternatives e, c.isNever = false →
        (a.walked d).OutOfReach d c := by
  intro d a
  refine ⟨.start, by cbv; simp, playRound_lampOrKey, fun h => ?_⟩
  have hfrontier : (a.walked d).explorer.frontier = [0] := by cbv
  have hkey : d.gates.alternatives 0 = [.single "Lamp" 1, .single "Key" 1] := by cbv
  have hunmet : (Clause.single "Key" 1).unmet (a.walked d).states = [⟨"Key", 1⟩] := by cbv
  have hheld : (a.walked d).states.count "Key" = 0 := by cbv
  have hcount : (a.walked d).pool.countP (d.topology.state · = "Key") = 1 := by cbv
  obtain ⟨m, hm, hlt⟩ := h 0 (by rw [hfrontier]; exact List.mem_singleton_self 0)
    (.single "Key" 1) (by rw [hkey]; simp) (by cbv)
  rw [hunmet, List.mem_singleton] at hm
  subst hm
  rw [hcount, hheld] at hlt
  exact absurd hlt (by decide)

end WorldShuffle

import WorldShuffle.Proofs.Shortfalls
import WorldShuffle.Proofs.Winnable

namespace WorldShuffle

namespace Trial

variable {ε φ α β γ δ : Type}

/-- Where the first trial ends in a value, on a tape with the same stream the second ends in the image
of that value, with the same stream left. -/
def Echoes (f : α → β) (x : Trial ε α) (y : Trial ε β) : Prop :=
  ∀ a tape tape', x.run tape = .ok a tape' → ∀ other : Tape, other.stream = tape.stream →
    ∃ other', y.run other = .ok (f a) other' ∧ other'.stream = tape'.stream

variable {f : α → β} {g : γ → δ} {x : Trial ε α} {y : Trial ε β}

theorem echoes_pure (a : α) : Echoes f (pure a : Trial ε α) (pure (f a)) := by
  intro b tape tape' hrun other hstream
  obtain ⟨rfl, rfl⟩ := EStateM.Result.ok.inj hrun
  exact ⟨other, rfl, hstream⟩

theorem echoes_bind {k : α → Trial ε γ} {k' : β → Trial ε δ} (hx : Echoes f x y)
    (hk : ∀ a, Echoes g (k a) (k' (f a))) : Echoes g (x >>= k) (y >>= k') := by
  intro c tape tape' hrun other hstream
  obtain ⟨a, tape₁, ha, hc⟩ := run_bind_eq_ok hrun
  obtain ⟨other₁, hb, hstream₁⟩ := hx a tape tape₁ ha other hstream
  obtain ⟨other', hd, hstream'⟩ := hk a c tape₁ tape' hc other₁ hstream₁
  exact ⟨other', (Trial.run_bind hb).trans hd, hstream'⟩

theorem echoes_throw {e : ε} : Echoes f (throw e : Trial ε α) y := by
  intro a tape tape' hrun
  cases hrun

theorem echoes_fail {e : φ} {y : Trial (Fall φ) β} : Echoes f (Trial.fail e) y := echoes_throw

theorem echoes_ite {c : Prop} [Decidable c] {x' : Trial ε α} {y' : Trial ε β} (h : Echoes f x y)
    (h' : Echoes f x' y') : Echoes f (if c then x else x') (if c then y else y') := by
  by_cases hc : c
  · rwa [if_pos hc, if_pos hc]
  · rwa [if_neg hc, if_neg hc]

theorem echoes_report (level level' : Level) (text text' : String) :
    Echoes id (report level text : Trial (Fall φ) Unit) (report level' text') := by
  intro a tape tape' hrun other hstream
  obtain ⟨rfl, rfl⟩ := EStateM.Result.ok.inj hrun
  exact ⟨_, rfl, hstream⟩

theorem run_fraction {ω : Type} [Weight ω] (tape : Tape) :
    (fraction : Trial (Fall φ) ω).run tape =
      .ok (Weight.fraction tape.stream.next.1) { tape with stream := tape.stream.next.2 } := rfl

theorem echoes_fraction {ω : Type} [Weight ω] :
    Echoes id (fraction : Trial (Fall φ) ω) fraction := by
  intro u tape tape' hrun other hstream
  rw [run_fraction] at hrun
  obtain ⟨rfl, rfl⟩ := EStateM.Result.ok.inj hrun
  exact ⟨{ other with stream := tape.stream.next.2 }, by rw [run_fraction, hstream]; rfl, rfl⟩

theorem echoes_orDefect {r : Except Defect α} {r' : Except Defect β}
    (h : ∀ a, r = .ok a → r' = .ok (f a)) :
    Echoes f (orDefect r : Trial (Fall φ) α) (orDefect r') := by
  cases r with
  | error d => exact echoes_throw
  | ok a =>
    rw [h a rfl]
    exact echoes_pure a

theorem echoes_get {k : Tape → Trial ε α} {k' : Tape → Trial ε β}
    (hk : ∀ tape other : Tape, other.stream = tape.stream → Echoes f (k tape) (k' other)) :
    Echoes f (get >>= k) (get >>= k') :=
  fun a tape tape' hrun other hstream => hk tape other hstream a tape tape' hrun other hstream

theorem echoes_index (n : Nat) : Echoes id (index n : Trial (Fall φ) Nat) (index n) := by
  refine echoes_get fun tape other hstream => ?_
  rw [hstream]
  refine echoes_bind (f := id) (echoes_orDefect fun r hr => hr) fun r => ?_
  refine echoes_bind (f := id) ?_ fun _ => echoes_pure _
  intro u tape₁ tape₂ hrun other₁ hstream₁
  obtain ⟨rfl, rfl⟩ := EStateM.Result.ok.inj hrun
  exact ⟨_, rfl, rfl⟩

end Trial

namespace Attempt

variable {ω : Type} {d : Dealer} {m : Nat}

def numbered (m : Nat) (a : Attempt ω) : Attempt ω := { a with number := m }

theorem discover_numbered (a : Attempt ω) (n : Nat) :
    (a.numbered m).discover n = (a.discover n).numbered m := by
  rw [discover, discover]
  by_cases h : a.locationAt n = .unplaced
  · rw [if_pos h]
    exact if_pos h
  · rw [if_neg h]
    exact if_neg h

theorem explore_numbered (d : Dealer) (a : Attempt ω) :
    (a.numbered m).explore d = (a.explore d).numbered m := by
  have hfinds (a : Attempt ω) (ns : List Nat) :
      ns.foldl discover (a.numbered m) = (ns.foldl discover a).numbered m :=
    List.foldl_hom (numbered m) fun a n => (discover_numbered a n)
  have hmeets (a : Attempt ω) (es : List Nat) :
      es.foldl meetEdge (a.numbered m) = (es.foldl meetEdge a).numbered m :=
    List.foldl_hom (numbered m) fun a e => rfl
  let b : Attempt ω := { a with explorer := (a.walk d).explorer, states := (a.walk d).states }
  have hexplore : (a.numbered m).explore d =
      ((a.finds d).foldl discover (b.numbered m)).explorer.frontier.foldl meetEdge
        ((a.finds d).foldl discover (b.numbered m)) := rfl
  rw [hexplore, hfinds]
  exact hmeets _ _

theorem place_numbered {a a' : Attempt ω} {l item : Nat} (h : place d a l item = .ok a') :
    place d (a.numbered m) l item = .ok (a'.numbered m) := by
  obtain ⟨mapping, hm, h⟩ := bind_eq_ok h
  obtain rfl := Except.ok.inj h
  rw [place]
  change (a.mapping.insert l (.check item) >>= _) = _
  rw [hm]
  rfl

variable [Weight ω]

theorem penalizeFrom_numbered (t : Topology) (seen penalized layer : List Nat) (hops : Nat)
    (a : Attempt ω) : (a.numbered m).penalizeFrom t seen penalized layer hops =
      (a.penalizeFrom t seen penalized layer hops).numbered m := by
  induction hops generalizing seen penalized layer a with
  | zero => rfl
  | succ hops ih =>
    rw [penalizeFrom, penalizeFrom]
    exact ih _ _ _ { a with penalty := _ }

open Trial

theorem echoes_reserve (c : Condition) (k : Nat) (set : WeightedSet ω Nat) (a : Attempt ω) :
    Echoes (Prod.map (numbered m) id) (reserve c k set a) (reserve c k set (a.numbered m)) := by
  induction k generalizing set a with
  | zero => exact echoes_pure (f := Prod.map (numbered m) id) (a, [])
  | succ k ih =>
    refine echoes_bind (f := id) echoes_fraction fun u => ?_
    dsimp only [id]
    split
    · refine echoes_bind (f := id) (echoes_orDefect fun _ htake => htake) fun drawn => ?_
      refine echoes_bind (ih drawn.2 _) fun r => ?_
      exact echoes_pure _
    · exact echoes_fail

theorem echoes_placeGranting (q : String) (a : Attempt ω) (l : Nat) :
    Echoes (Prod.map (numbered m) id) (a.placeGranting d q l)
      ((a.numbered m).placeGranting d q l) := by
  rw [placeGranting, placeGranting]
  dsimp only [numbered]
  split
  · rename_i item hitem
    refine echoes_bind (f := numbered m) (echoes_orDefect fun a' ha' => place_numbered ha') fun a' => ?_
    rw [penalizeAround, penalizeAround, penalizeFrom_numbered]
    exact echoes_pure (f := Prod.map (numbered m) id) _
  · exact echoes_fail

theorem echoes_placeAll (q : String) (ls : List Nat) (a : Attempt ω) :
    Echoes (Prod.map (numbered m) id) (placeAll d q ls a) (placeAll d q ls (a.numbered m)) := by
  induction ls generalizing a with
  | nil => exact echoes_pure (f := Prod.map (numbered m) id) (a, [])
  | cons l ls ih =>
    refine echoes_bind (echoes_placeGranting q a l) fun r => ?_
    refine echoes_bind (ih r.1) fun s => ?_
    exact echoes_pure _

theorem echoes_supply (c : Condition) (a : Attempt ω) :
    Echoes (Prod.map (numbered m) id) (a.supply d c) ((a.numbered m).supply d c) := by
  refine echoes_bind (f := id) (echoes_orDefect fun set hset => hset) fun set => ?_
  dsimp only [id]
  split
  · exact echoes_bind (f := id) echoes_fail fun _ => echoes_bind (echoes_reserve c _ set a) fun r =>
      echoes_placeAll c.state r.2 r.1
  · exact echoes_bind (echoes_reserve c _ set a) fun r => echoes_placeAll c.state r.2 r.1

theorem echoes_unlock (cs : List Condition) (a : Attempt ω) :
    Echoes (Prod.map (numbered m) id) (unlock d cs a) (unlock d cs (a.numbered m)) := by
  induction cs generalizing a with
  | nil => exact echoes_pure (f := Prod.map (numbered m) id) (a, [])
  | cons c cs ih =>
    refine echoes_bind (echoes_supply c a) fun r => ?_
    refine echoes_bind (ih r.1) fun s => ?_
    exact echoes_pure _

theorem echoes_fill (k : Nat) (set : WeightedSet ω Nat) (a : Attempt ω) :
    Echoes (numbered m) (fill d set k a) (fill d set k (a.numbered m)) := by
  induction k generalizing set a with
  | zero => exact echoes_pure a
  | succ k ih =>
    rw [fill, fill]
    dsimp only [numbered]
    refine echoes_ite (echoes_pure a) (echoes_bind (f := id) echoes_fraction fun u => ?_)
    dsimp only [id]
    split
    · exact echoes_pure a
    · refine echoes_bind (f := id) (echoes_orDefect fun _ htake => htake) fun drawn => ?_
      refine echoes_bind (f := id) (echoes_index _) fun j => ?_
      refine echoes_bind (f := id) (echoes_orDefect fun _ htake => htake) fun pulled => ?_
      refine echoes_bind (f := numbered m) (echoes_orDefect fun a' ha' => place_numbered ha')
        fun a' => ?_
      exact ih _ _

theorem echoes_playRound (a : Attempt ω) :
    Echoes (Prod.map (numbered m) id) (a.playRound d) ((a.numbered m).playRound d) := by
  have hwalked : ({ a.numbered m with round := (a.numbered m).round + 1 } : Attempt ω).explore d =
      (a.walked d).numbered m := explore_numbered d { a with round := a.round + 1 }
  rw [playRound, playRound, hwalked]
  change Echoes _ (_ >>= fun edges => _) (_ >>= fun edges => _)
  refine echoes_bind (f := id) (echoes_orDefect fun edges hedges => hedges) fun edges => ?_
  refine echoes_ite ?_ ?_
  · refine echoes_bind (f := id) (echoes_report _ _ _ _) fun _ => ?_
    refine echoes_bind (f := id) (echoes_orDefect fun set hset => hset) fun set => ?_
    refine echoes_bind (echoes_fill _ set (a.walked d)) fun a' => ?_
    exact echoes_pure _
  · refine echoes_bind (f := id) echoes_fraction fun u => ?_
    dsimp only [id]
    split
    · exact echoes_pure _
    · rename_i chosen hchosen
      refine echoes_bind (echoes_unlock chosen.missing (a.walked d)) fun r => ?_
      refine echoes_bind (f := id) (echoes_report _ _ _ _) fun _ => ?_
      exact echoes_pure _

theorem echoes_playRounds (k : Nat) (a : Attempt ω) :
    Echoes (numbered m) (playRounds d k a) (playRounds d k (a.numbered m)) := by
  induction k generalizing a with
  | zero => exact echoes_pure a
  | succ k ih =>
    rw [playRounds, playRounds]
    refine echoes_ite (echoes_pure a) (echoes_bind (echoes_playRound a) fun r => ?_)
    exact echoes_ite (ih r.1) (echoes_pure r.1)

omit [Weight ω] in
theorem echoes_finish (a : Attempt ω) :
    Echoes id (a.finish d) ((a.numbered m).finish d) := by
  have filled : Echoes id
      (orDefect (fillRest 0 (d.topology.nodeIndexes.filter (· ∈ d.pool)) a.mapping) >>= fun mapping =>
        (pure { mapping, rounds := a.rounds, fillAtWill := a.fillAtWill, leftover := a.pool } :
          Trial (Fall Failure) Placement))
      (orDefect (fillRest 0 (d.topology.nodeIndexes.filter (· ∈ d.pool)) a.mapping) >>= fun mapping =>
        pure { mapping, rounds := a.rounds, fillAtWill := a.fillAtWill, leftover := a.pool }) :=
    echoes_bind (f := id) (echoes_orDefect fun mapping hm => hm) fun mapping => echoes_pure _
  rw [finish, finish]
  refine echoes_ite (echoes_bind (f := id) echoes_fail fun _ => ?_) ?_
  · exact echoes_ite (echoes_bind (f := id) (echoes_report _ _ _ _) fun _ => filled) filled
  · exact echoes_ite (echoes_bind (f := id) (echoes_report _ _ _ _) fun _ => filled) filled

end Attempt

open Trial

theorem Dealer.echoes_deal (ω : Type) [Weight ω] (d : Dealer) (number m : Nat) :
    Echoes id (d.deal ω number) (d.deal ω m) := by
  refine echoes_bind (f := Attempt.numbered m) ?_ fun a => a.echoes_finish
  refine echoes_get fun tape other hstream => ?_
  refine echoes_bind (f := id) (echoes_report _ _ _ _) fun _ => ?_
  exact Attempt.echoes_playRounds d.pool.length (d.start number)

namespace DoorShuffle

variable {g : Gates}

theorem echoes_chooseFrom (ns : List Nat) :
    Echoes id (chooseFrom ns : Trial (Fall Failure) Nat) (chooseFrom ns) :=
  echoes_bind (f := id) (echoes_index _) fun _ => echoes_pure _

theorem echoes_swapOnce (s : DoorShuffle) :
    Echoes id (s.swapOnce g : Trial (Fall Failure) DoorShuffle) (s.swapOnce g) := by
  refine echoes_bind (f := id) (echoes_chooseFrom _) fun x => ?_
  dsimp only [id]
  split
  · exact echoes_pure _
  · rename_i fx hfx
    refine echoes_ite (echoes_pure s) ?_
    refine echoes_bind (f := id) (echoes_chooseFrom _) fun y => ?_
    refine echoes_bind (f := id) (echoes_report _ _ _ _) fun _ => ?_
    exact echoes_bind (f := id) (echoes_orDefect fun swaps hs => hs) fun swaps => echoes_pure _

theorem echoes_swapMany (n : Nat) (s : DoorShuffle) :
    Echoes id (swapMany g n s : Trial (Fall Failure) DoorShuffle) (swapMany g n s) := by
  induction n generalizing s with
  | zero => exact echoes_pure s
  | succ n ih =>
    rw [swapMany]
    exact echoes_ite (echoes_pure s) (echoes_bind (f := id) (echoes_swapOnce s) fun s' => ih s')

end DoorShuffle

theorem echoes_shuffleDoors (g : Gates) (tries number m : Nat) (t : Topology) :
    Echoes id (shuffleDoors g tries number t : Trial (Fall Failure) DoorShuffle)
      (shuffleDoors g tries m t) := by
  refine echoes_bind (f := id) (echoes_report _ _ _ _) fun _ => ?_
  refine echoes_bind (f := id) (DoorShuffle.echoes_swapMany tries _) fun s => ?_
  exact echoes_bind (f := id) (echoes_report _ _ _ _) fun _ => echoes_pure s

theorem runTrial_echoes {α : Type} {stream : Stream} {x y : Trial (Fall Failure) α} {a : α}
    (h : Echoes id x y) (hx : (runTrial stream x).1 = .ok a) : (runTrial stream y).1 = .ok a := by
  rw [runTrial] at hx
  split at hx
  · rename_i b tape hrun
    obtain rfl := Except.ok.inj hx
    obtain ⟨other, hy, -⟩ := h b _ tape hrun { stream } rfl
    rw [runTrial, hy]
    rfl
  · cases hx

def Outcome.numbered (m : Nat) (o : Outcome) : Outcome :=
  { o with attempt := m, spoiler := { o.spoiler with attempt := m } }

namespace Session

variable {s : Session} {number m : Nat} {seed : String} {o : Outcome}

theorem shuffled_eq_ok {stream : Stream} {r : Topology × Swaps}
    (h : (s.shuffled number stream).1 = .ok r) : (s.shuffled m stream).1 = .ok r := by
  rw [shuffled] at h ⊢
  split at h
  · exact h
  · obtain ⟨shuffle, hs, rfl⟩ := map_eq_ok h
    have hs' := runTrial_echoes (echoes_shuffleDoors s.gates _ number m s.topology) hs
    exact congrArg (Except.map _) hs'

/-- An attempt depends on its seed alone; its number is only written down. -/
theorem attemptOnce_numbered (h : (s.attemptOnce number seed).1 = .ok o) :
    o.seed = seed ∧ o.attempt = number ∧ (s.attemptOnce m seed).1 = .ok (o.numbered m) := by
  rw [attemptOnce] at h
  dsimp only at h
  split at h
  · cases h
  · rename_i t swaps log hshuffled
    obtain ⟨p, hdealt, h⟩ := bind_eq_ok h
    split at h
    · obtain rfl := Except.ok.inj h
      refine ⟨rfl, rfl, attemptOnce_eq_ok (shuffled_eq_ok (congrArg Prod.fst hshuffled)) ?_ ?_⟩
      · exact runTrial_echoes ((s.dealer t).echoes_deal Float number m) hdealt
      · exact List.isEmpty_iff.1 ‹_›
    · cases h

def attempt (s : Session) (seed : String) (k : Nat) : Except (Fall Failure) Outcome :=
  (s.attemptOnce k (attemptSeed seed k)).1

def GivesUp (s : Session) (seed : String) (k : Nat) : Prop :=
  ∃ f, s.attempt seed k = .error (.failure f)

theorem attempts_givesUp {left : Nat} (h : s.GivesUp seed number) :
    (s.attempts seed number (left + 1)).1 = (s.attempts seed (number + 1) left).1 := by
  obtain ⟨f, hf⟩ := h
  obtain ⟨log, hlog⟩ : ∃ log, s.attemptOnce number (attemptSeed seed number) =
    (.error (.failure f), log) := ⟨_, Prod.ext hf rfl⟩
  rw [attempts]
  dsimp only
  rw [hlog]

theorem attempts_ends {left : Nat} (h : ¬s.GivesUp seed number) :
    (s.attempts seed number (left + 1)).1 = s.attempt seed number := by
  rw [attempts]
  dsimp only
  split
  · rename_i f log hfail
    exact absurd ⟨f, congrArg Prod.fst hfail⟩ h
  · rename_i result log _ hend
    exact (congrArg Prod.fst hend).symm

/-- Attempts from a number on end like the first of them that does not give up. -/
theorem attempts_cases (s : Session) (seed : String) (number left : Nat) :
    (∃ k, number ≤ k ∧ k < number + left ∧ (∀ j, number ≤ j → j < k → s.GivesUp seed j) ∧
      ¬s.GivesUp seed k ∧ (s.attempts seed number left).1 = s.attempt seed k) ∨
    ((∀ j, number ≤ j → j < number + left → s.GivesUp seed j) ∧
      (s.attempts seed number left).1 = .error (.failure .exhausted)) := by
  induction left generalizing number with
  | zero => exact Or.inr ⟨fun j h h' => by omega, rfl⟩
  | succ left ih =>
    by_cases h : s.GivesUp seed number
    · have hfrom {b : Nat} (hb : ∀ j, number + 1 ≤ j → j < b → s.GivesUp seed j) (j : Nat)
          (hj : number ≤ j) (hjb : j < b) : s.GivesUp seed j := by
        obtain rfl | hlt := Nat.eq_or_lt_of_le hj
        · exact h
        · exact hb j hlt hjb
      rw [attempts_givesUp h]
      obtain ⟨k, hk, hlt, hbefore, hend⟩ | ⟨hall, hend⟩ := ih (number + 1)
      · exact Or.inl ⟨k, by omega, by omega, hfrom hbefore, hend⟩
      · exact Or.inr ⟨hfrom (by rwa [← Nat.add_assoc, Nat.add_right_comm]), hend⟩
    · exact Or.inl ⟨number, Nat.le_refl _, by omega, fun j hj hlt => by omega, h, attempts_ends h⟩

/-- What a session ends in, other than giving up, is how its first attempt ends that does not. -/
theorem randomize_eq_iff {r : Except (Fall Failure) Outcome} (hr : ∀ f, r ≠ .error (.failure f)) :
    (s.randomize seed).1 = r ↔ ∃ k, 1 ≤ k ∧ k ≤ s.settings.maxAttempts ∧ s.attempt seed k = r ∧
      ∀ j, 1 ≤ j → j < k → s.GivesUp seed j := by
  have hcases := s.attempts_cases seed 1 s.settings.maxAttempts
  constructor
  · intro h
    obtain ⟨k, hk, hlt, hbefore, -, hend⟩ | ⟨-, hend⟩ := hcases
    · exact ⟨k, hk, by omega, hend.symm.trans h, hbefore⟩
    · exact absurd (h.symm.trans hend) (hr _)
  · rintro ⟨k, hk, hle, hend, hbefore⟩
    have hends : ¬s.GivesUp seed k := fun ⟨f, hf⟩ => hr f (hend.symm.trans hf)
    obtain ⟨k', hk', -, hbefore', hends', hend'⟩ | ⟨hall, -⟩ := hcases
    · obtain hlt | rfl | hlt := Nat.lt_trichotomy k k'
      · exact absurd (hbefore' k hk hlt) hends
      · exact hend'.trans hend
      · exact absurd (hbefore k' hk' hlt) hends'
    · exact absurd (hall k hk (by omega)) hends

theorem randomize_eq_failure_iff {f : Failure} :
    (s.randomize seed).1 = .error (.failure f) ↔
      f = .exhausted ∧ ∀ k, 1 ≤ k → k ≤ s.settings.maxAttempts → s.GivesUp seed k := by
  obtain ⟨k, hk, hlt, -, hends, hend⟩ | ⟨hall, hend⟩ :=
    s.attempts_cases seed 1 s.settings.maxAttempts
  · constructor
    · exact fun h => absurd ⟨f, hend.symm.trans h⟩ hends
    · exact fun h => absurd (h.2 k hk (by omega)) hends
  · rw [randomize, hend]
    constructor
    · intro h
      obtain rfl := Fall.failure.inj (Except.error.inj h)
      exact ⟨rfl, fun k hk hle => hall k hk (by omega)⟩
    · rintro ⟨rfl, -⟩
      rfl

end Session

/-- A session ends like the first of its attempts that does not give up, and a seed that it reports
brings the same outcome back at the first attempt. -/
theorem final_seed_reproduces (s : Session) (seed : String) :
    (∀ o, (s.randomize seed).1 = .ok o ↔
      ∃ k, 1 ≤ k ∧ k ≤ s.settings.maxAttempts ∧ s.attempt seed k = .ok o ∧
        ∀ j, 1 ≤ j → j < k → s.GivesUp seed j) ∧
    (∀ f, (s.randomize seed).1 = .error (.failure f) ↔
      f = .exhausted ∧ ∀ k, 1 ≤ k → k ≤ s.settings.maxAttempts → s.GivesUp seed k) ∧
    (∀ x, (s.randomize seed).1 = .error (.defect x) ↔
      ∃ k, 1 ≤ k ∧ k ≤ s.settings.maxAttempts ∧ s.attempt seed k = .error (.defect x) ∧
        ∀ j, 1 ≤ j → j < k → s.GivesUp seed j) ∧
    ∀ o, (s.randomize seed).1 = .ok o →
      o.seed = attemptSeed seed o.attempt ∧ (s.randomize o.seed).1 = .ok (o.numbered 1) := by
  refine ⟨fun o => Session.randomize_eq_iff (by simp), fun f => Session.randomize_eq_failure_iff,
    fun x => Session.randomize_eq_iff (by simp), fun o h => ?_⟩
  obtain ⟨k, hk, hle, hend, -⟩ := (Session.randomize_eq_iff (by simp)).1 h
  obtain ⟨hseed, hattempt, hagain⟩ := Session.attemptOnce_numbered hend (m := 1)
  refine ⟨by rw [hseed, hattempt], (Session.randomize_eq_iff (by simp)).2
    ⟨1, Nat.le_refl 1, hk.trans hle, ?_, fun j hj hlt => by omega⟩⟩
  rw [Session.attempt, attemptSeed, if_pos rfl, hseed]
  exact hagain

/-- Two doors lead from a yard, and behind one of them a wall keeps a chest from whoever has no lamp. -/
def walledYard : Topology where
  nodes := #[
    { name := "Left", scene := 0, kind := .door { farScene := 1, farName := "Porch" } },
    { name := "Right", scene := 0, kind := .door { farScene := 2, farName := "Stair" } },
    { name := "Porch", scene := 1, kind := .door { farScene := 0, farName := "Left" } },
    { name := "Stair", scene := 2, kind := .door { farScene := 0, farName := "Right" } },
    { name := "Chest", scene := 2, kind := .check { kind := .item, id := 0, saveId := "chest" } }]
  edges := #[
    { scene := 0, source := 0, target := 1 },
    { scene := 0, source := 1, target := 0 },
    { scene := 2, source := 3, target := 4 },
    { scene := 0, source := 0, target := 2, kind := .link },
    { scene := 0, source := 1, target := 3, kind := .link },
    { scene := 1, source := 2, target := 0, kind := .link },
    { scene := 2, source := 3, target := 1, kind := .link }]
  start := 0
  names := .ofKeys [(0, "Left"), (0, "Right"), (1, "Porch"), (2, "Stair"), (2, "Chest")]
  byScene := ⟨[(0, [0, 1]), (1, [2]), (2, [3, 4])]⟩
  incoming := #[[1, 5], [0, 6], [3], [4], [2]]
  outgoing := #[[0, 3], [1, 4], [5], [2, 6], []]

theorem loaded_walledYard : walledYard.Loaded :=
  .finalize (by cbv : walledYard.finalize = .ok walledYard)

def walledSession : Session where
  settings := { transitions := { mode := .randomized, swapAttempts := 5 } }
  topology := walledYard
  gates := ⟨[{ name := "walls", logic := ⟨[(2, [.single "Lamp" 1])]⟩ }]⟩

theorem shuffled_walledSession :
    (walledSession.shuffled 1 (.ofSeed "oil")).1 = .ok (walledYard.exchange 0 1, ⟨[(0, 1)]⟩) := by
  have hstream : (Stream.ofSeed "oil").derive "transitions" =
      ⟨"oil:transitions", 149437993995858253148825192345403099811, rfl⟩ := by decide +kernel
  rw [Session.shuffled, hstream]
  cbv

def walledDealer : Dealer := walledSession.dealer (walledYard.exchange 0 1)

theorem stranded_walledDealer (ω : Type) [Weight ω] :
    (walledDealer.start 1 : Attempt ω).Stranded walledDealer :=
  ⟨by cbv, by cbv⟩

theorem attempt_walledSession : ∃ o, walledSession.attempt "oil" 1 = .ok o ∧
    o.seed = "oil" ∧ o.swaps.pairs = [(0, 1)] ∧ o.mapping.toList = [(4, .filler 0)] := by
  obtain ⟨p, tape, hdeal, hrest⟩ := (stranded_walledDealer Float).surely_deal (by cbv; simp)
    (by cbv) { stream := (Stream.ofSeed "oil").derive "checks" }
  have hfillers : Attempt.fillRest 0
      (walledDealer.topology.nodeIndexes.filter (· ∈ walledDealer.pool)) {} =
        .ok ⟨⟨[(4, .filler 0)]⟩⟩ := by cbv
  have hmapping := Except.ok.inj (hrest.symm.trans hfillers)
  have hcomplete : (replay (walledYard.exchange 0 1) walledSession.gates p.mapping
      walledSession.settings.startingStates).isComplete = true := by
    rw [hmapping]
    cbv
  have hshuffled := shuffled_walledSession
  rw [Session.attempt, attemptSeed, if_pos rfl, Session.attemptOnce]
  generalize walledSession.shuffled 1 (Stream.ofSeed "oil") = r at hshuffled
  obtain ⟨result, log⟩ := r
  subst hshuffled
  refine ⟨p.outcome 1 "oil" (walledYard.exchange 0 1) ⟨[(0, 1)]⟩, ?_, rfl, rfl, ?_⟩
  · have hrun : (runTrial ((Stream.ofSeed "oil").derive "checks")
        (walledDealer.deal Float 1)).1 = .ok p := by rw [runTrial, hdeal]
    rw [walledDealer] at hrun
    dsimp only
    rw [hrun]
    change (if _ then _ else _) = _
    rw [if_pos hcomplete]
    rfl
  · change p.mapping.toList = _
    rw [hmapping]
    rfl

theorem final_seed_reproduces_walledYard : walledYard.Loaded ∧
    ∃ o, (walledSession.randomize "oil").1 = .ok o ∧ o.seed = "oil" ∧ o.swaps.pairs = [(0, 1)] ∧
      o.mapping.toList = [(4, .filler 0)] ∧ (walledSession.randomize o.seed).1 = .ok (o.numbered 1) := by
  obtain ⟨o, ho, hseed, hswaps, hmapping⟩ := attempt_walledSession
  have hend : (walledSession.randomize "oil").1 = .ok o := (Session.randomize_eq_iff (by simp)).2
    ⟨1, Nat.le_refl 1, by decide, ho, fun j hj hlt => absurd hlt (Nat.not_lt.2 hj)⟩
  obtain ⟨-, -, -, hreproduces⟩ := final_seed_reproduces walledSession "oil"
  exact ⟨loaded_walledYard, o, hend, hseed, hswaps, hmapping, (hreproduces o hend).2⟩

end WorldShuffle

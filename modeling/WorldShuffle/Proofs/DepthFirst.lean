import Mathlib.Data.List.Dedup
import WorldShuffle.Proofs.Exploration

namespace WorldShuffle

structure Search where
  visited : Array Bool
  explored : Array Bool
  frontier : List Nat
  states : States
  calls : List (Nat × States)
  acquired : Bool

def Search.visit (s : Search) (visit : Visit) (n : Nat) : Search :=
  { s with
    visited := s.visited.setIfInBounds n true
    states := (visit n s.states).1
    calls := s.calls ++ [(n, s.states)]
    acquired := s.acquired || (visit n s.states).2 }

/-- The recursive procedure on a list of edges. Each edge is dealt with in turn, and the edges of a
node that is visited on the way are searched before the next edge of the list. -/
inductive Searches (t : Topology) (g : Gates) (visit : Visit) : List Nat → Search → Search → Prop
  | done (s : Search) : Searches t g visit [] s s
  | skip {e : Nat} {es : List Nat} {s s' : Search}
      (hskip : s.explored[e]? = some true ∨ g.isFalse e = true)
      (hrest : Searches t g visit es s s') : Searches t g visit (e :: es) s s'
  | enter {e n : Nat} {es : List Nat} {s r s' : Search}
      (hnew : ¬ (s.explored[e]? = some true ∨ g.isFalse e = true))
      (hopen : g.canTraverse e s.states = true)
      (htarget : t.target? e = some n) (hunseen : s.visited[n]? = some false)
      (hdeep : Searches t g visit (t.out n)
        (Search.visit { s with explored := s.explored.setIfInBounds e true } visit n) r)
      (hrest : Searches t g visit es r s') : Searches t g visit (e :: es) s s'
  | cross {e : Nat} {es : List Nat} {s s' : Search}
      (hnew : ¬ (s.explored[e]? = some true ∨ g.isFalse e = true))
      (hopen : g.canTraverse e s.states = true)
      (hseen : ∀ n, t.target? e = some n → s.visited[n]? ≠ some false)
      (hrest : Searches t g visit es { s with explored := s.explored.setIfInBounds e true } s') :
      Searches t g visit (e :: es) s s'
  | wait {e : Nat} {es : List Nat} {s s' : Search}
      (hnew : ¬ (s.explored[e]? = some true ∨ g.isFalse e = true))
      (hclosed : ¬ g.canTraverse e s.states = true)
      (hrest : Searches t g visit es
        { s with frontier := if e ∈ s.frontier then s.frontier else s.frontier ++ [e] } s') :
      Searches t g visit (e :: es) s s'

section recursion

variable {t : Topology} {g : Gates} {visit : Visit}

theorem count_visit (visit : Visit) (s : Search) (e : Nat) {n : Nat}
    (h : s.visited[n]? = some false) :
    (Search.visit { s with explored := s.explored.setIfInBounds e true } visit n).visited.count
      false + 1 = s.visited.count false :=
  Marks.left_mark (by simpa [Marks.isOpen] using h)

theorem Searches.visited_le {es : List Nat} {s s' : Search} (h : Searches t g visit es s s') :
    s'.visited.count false ≤ s.visited.count false := by
  induction h with
  | done => exact Nat.le_refl _
  | skip _ _ ih | cross _ _ _ _ ih | wait _ _ _ ih => exact ih
  | @enter e n es s r s' _ _ _ hunseen _ _ ihdeep ih =>
    have := count_visit visit s e hunseen
    omega

/-- A search ends: each visit leaves fewer nodes to visit, and between visits the list gets
shorter. -/
theorem exists_searches (t : Topology) (g : Gates) (visit : Visit) (es : List Nat) (s : Search) :
    ∃ s', Searches t g visit es s s' := by
  induction hleft : s.visited.count false using Nat.strong_induction_on generalizing es s with
  | h left deeper =>
    induction es generalizing s with
    | nil => exact ⟨s, .done s⟩
    | cons e es rest =>
      by_cases hskip : s.explored[e]? = some true ∨ g.isFalse e = true
      · obtain ⟨s', hs'⟩ := rest s hleft
        exact ⟨s', .skip hskip hs'⟩
      by_cases hopen : g.canTraverse e s.states = true
      · by_cases hunseen : ∃ n, t.target? e = some n ∧ s.visited[n]? = some false
        · obtain ⟨n, htarget, hunseen⟩ := hunseen
          have hlt := count_visit visit s e hunseen
          obtain ⟨r, hr⟩ := deeper _ (by omega) (t.out n)
            (Search.visit { s with explored := s.explored.setIfInBounds e true } visit n) rfl
          have hle := hr.visited_le
          obtain ⟨s', hs'⟩ := deeper _ (by omega) es r rfl
          exact ⟨s', .enter hskip hopen htarget hunseen hr hs'⟩
        · obtain ⟨s', hs'⟩ := rest { s with explored := s.explored.setIfInBounds e true } hleft
          exact ⟨s', .cross hskip hopen (fun n hn hv => hunseen ⟨n, hn, hv⟩) hs'⟩
      · obtain ⟨s', hs'⟩ := rest
          { s with frontier := if e ∈ s.frontier then s.frontier else s.frontier ++ [e] } hleft
        exact ⟨s', .wait hskip hopen hs'⟩

theorem Searches.unique {es : List Nat} {s r r' : Search} (h : Searches t g visit es s r)
    (h' : Searches t g visit es s r') : r' = r := by
  induction h generalizing r' with
  | done => cases h'; rfl
  | skip hskip _ ih =>
    cases h' with
    | skip _ h' => exact ih h'
    | enter hnew | cross hnew | wait hnew => exact absurd hskip hnew
  | enter hnew hopen htarget hunseen _ _ ihdeep ih =>
    cases h' with
    | skip hskip => exact absurd hskip hnew
    | enter _ _ htarget' _ hdeep h' =>
      obtain rfl := Option.some.inj (htarget.symm.trans htarget')
      obtain rfl := ihdeep hdeep
      exact ih h'
    | cross _ _ hseen => exact absurd hunseen (hseen _ htarget)
    | wait _ hclosed => exact absurd hopen hclosed
  | cross hnew hopen hseen _ ih =>
    cases h' with
    | skip hskip => exact absurd hskip hnew
    | enter _ _ htarget hunseen => exact absurd hunseen (hseen _ htarget)
    | cross _ _ _ h' => exact ih h'
    | wait _ hclosed => exact absurd hopen hclosed
  | wait hnew hclosed _ ih =>
    cases h' with
    | skip hskip => exact absurd hskip hnew
    | enter _ hopen | cross _ hopen => exact absurd hopen hclosed
    | wait _ _ h' => exact ih h'

end recursion

def Visit.calls (visit : Visit) (s : States) : List Nat → List (Nat × States)
  | [] => []
  | n :: ns => (n, s) :: calls visit (visit n s).1 ns

def Visit.after (visit : Visit) (s : States) (ns : List Nat) : States :=
  ns.foldl (fun s n => (visit n s).1) s

theorem Visit.after_append (visit : Visit) (s : States) (ns : List Nat) (n : Nat) :
    visit.after s (ns ++ [n]) = (visit n (visit.after s ns)).1 :=
  List.foldl_append

theorem Visit.calls_append (visit : Visit) (s : States) (ns : List Nat) (n : Nat) :
    visit.calls s (ns ++ [n]) = visit.calls s ns ++ [(n, visit.after s ns)] := by
  induction ns generalizing s with
  | nil => rfl
  | cons m ns ih => exact congrArg ((m, s) :: ·) (ih (visit m s).1)

namespace Search

structure Threads (visit : Visit) (s₀ : States) (s : Search) : Prop where
  calls : s.calls = visit.calls s₀ (s.calls.map Prod.fst)
  states : s.states = visit.after s₀ (s.calls.map Prod.fst)
  acquired : s.acquired = s.calls.any fun c => (visit c.1 c.2).2

theorem Threads.visit {visit : Visit} {s₀ : States} {s : Search} (h : s.Threads visit s₀) (n : Nat) :
    (s.visit visit n).Threads visit s₀ where
  calls := by
    rw [Search.visit, List.map_append, List.map_cons, List.map_nil, Visit.calls_append, ← h.calls,
      ← h.states]
  states := by
    rw [Search.visit, List.map_append, List.map_cons, List.map_nil, Visit.after_append, ← h.states]
  acquired := by simp [Search.visit, h.acquired]

end Search

variable {t : Topology} {g : Gates} {visit : Visit}

theorem Searches.threads {s₀ : States} {es : List Nat} {s s' : Search}
    (h : Searches t g visit es s s') (hs : s.Threads visit s₀) : s'.Threads visit s₀ := by
  induction h with
  | done => exact hs
  | skip _ _ ih => exact ih hs
  | cross _ _ _ _ ih | wait _ _ _ ih => exact ih ⟨hs.calls, hs.states, hs.acquired⟩
  | @enter e n es s r s' _ _ _ _ _ _ ihdeep ih =>
    have hmark : ({ s with explored := s.explored.setIfInBounds e true } : Search).Threads visit s₀ :=
      ⟨hs.calls, hs.states, hs.acquired⟩
    exact ih (ihdeep (hmark.visit n))

namespace Walk

/-- The walk that a search shows, with the nodes of `order` visited before it. -/
def ofSearch (order : List Nat) (s : Search) : Walk where
  explorer := { visited := s.visited, explored := s.explored, frontier := s.frontier, roots := [] }
  states := s.states
  order := order ++ s.calls.map Prod.fst
  acquired := s.acquired

theorem arrive_ofSearch (visit : Visit) (order : List Nat) (s : Search) (n : Nat) :
    (ofSearch order s).arrive visit n = ofSearch order (s.visit visit n) := by
  simp [arrive, ofSearch, Search.visit, Marks.mark]

theorem cross_ofSearch (order : List Nat) (s : Search) (e : Nat) :
    (ofSearch order s).cross e =
      ofSearch order { s with explored := s.explored.setIfInBounds e true } :=
  rfl

theorem defer_ofSearch (order : List Nat) (s : Search) (e : Nat) :
    (ofSearch order s).defer e = ofSearch order
      { s with frontier := if e ∈ s.frontier then s.frontier else s.frontier ++ [e] } := by
  by_cases he : e ∈ s.frontier <;> simp [defer, ofSearch, he]

/-- The stack holds what the recursion has still to come back to: once the edges on top have been
searched, the walk goes on with the ones below them. -/
theorem follow_ofSearch {es : List Nat} {s s' : Search} (h : Searches t g visit es s s')
    (order stack : List Nat) :
    follow t g visit (es ++ stack) (ofSearch order s) =
      follow t g visit stack (ofSearch order s') := by
  induction h generalizing stack with
  | done => rfl
  | skip hskip _ ih =>
    rw [List.cons_append, follow, if_pos (by simpa [ofSearch, Marks.isSet] using hskip), ih]
  | enter hnew hopen htarget hunseen _ _ ihdeep ih =>
    rw [List.cons_append, follow, if_neg (by simpa [ofSearch, Marks.isSet] using hnew),
      if_pos (by simpa [ofSearch] using hopen), htarget]
    simp only
    rw [if_pos (by simpa [isNew, cross, ofSearch, Marks.isOpen] using hunseen), cross_ofSearch,
      arrive_ofSearch, ihdeep, ih]
  | @cross e es s s' hnew hopen hseen _ ih =>
    rw [List.cons_append, follow, if_neg (by simpa [ofSearch, Marks.isSet] using hnew),
      if_pos (by simpa [ofSearch] using hopen), cross_ofSearch, ih]
    cases htarget : t.target? e with
    | none => rfl
    | some n =>
      simp only
      rw [if_neg (by simpa [isNew, ofSearch, Marks.isOpen] using hseen n htarget)]
  | wait hnew hclosed _ ih =>
    rw [List.cons_append, follow, if_neg (by simpa [ofSearch, Marks.isSet] using hnew),
      if_neg (by simpa [ofSearch] using hclosed), defer_ofSearch, ih]

/-- The roots that a pass visits: those not visited so far, one that was added twice at the place
where it was added last. -/
def newRoots (w : Walk) : List Nat :=
  (w.explorer.roots.filter fun n => w.explorer.visited[n]? == some false).dedup

/-- The search as a pass begins it: the new roots have been visited from the last added to the
first, and the frontier has been emptied. -/
def searchRoots (visit : Visit) (w : Walk) : Search :=
  w.newRoots.reverse.foldl (fun s n => s.visit visit n)
    { visited := w.explorer.visited, explored := w.explorer.explored, frontier := []
      states := w.states, calls := [], acquired := false }

theorem isNew_visits (visit : Visit) (order : List Nat) (s : Search) (ns : List Nat) (n : Nat) :
    (ofSearch order (ns.foldr (fun m s => s.visit visit m) s)).isNew n = true ↔
      (s.visited[n]? == some false) = true ∧ n ∉ ns := by
  induction ns with
  | nil => simp [isNew, ofSearch, Marks.isOpen]
  | cons m ns ih =>
    rw [List.foldr_cons, ← arrive_ofSearch, List.mem_cons, not_or, and_left_comm, and_comm, ← ih]
    exact Marks.isOpen_mark

/-- The roots are visited from the last to the first, but their edges lie on the stack in the order
of the roots. -/
theorem foldr_enter (visit : Visit) (order : List Nat) (s : Search) (roots stack : List Nat) :
    roots.foldr (enter t visit) (ofSearch order s, stack) =
      (ofSearch order ((roots.filter fun n => s.visited[n]? == some false).dedup.foldr
          (fun n s => s.visit visit n) s),
        (roots.filter fun n => s.visited[n]? == some false).dedup.flatMap t.out ++ stack) := by
  induction roots with
  | nil => rfl
  | cons n roots ih =>
    have hnew := isNew_visits visit order s
      (roots.filter fun n => s.visited[n]? == some false).dedup n
    rw [List.mem_dedup, List.mem_filter] at hnew
    rw [List.foldr_cons, ih, enter]
    by_cases hunseen : (s.visited[n]? == some false) = true
    · rw [List.filter_cons_of_pos (p := fun n => s.visited[n]? == some false) hunseen]
      by_cases hagain : n ∈ roots
      · rw [if_neg fun h => (hnew.1 h).2 ⟨hagain, hunseen⟩,
          List.dedup_cons_of_mem (List.mem_filter.2 ⟨hagain, hunseen⟩)]
      · rw [if_pos (hnew.2 ⟨hunseen, fun h => hagain h.1⟩),
          List.dedup_cons_of_notMem fun h => hagain (List.mem_filter.1 h).1, arrive_ofSearch,
          List.flatMap_cons, List.append_assoc]
        rfl
    · rw [List.filter_cons_of_neg (p := fun n => s.visited[n]? == some false) hunseen,
        if_neg fun h => hunseen (hnew.1 h).1]

theorem pass_eq_ofSearch {w : Walk} {s : Search}
    (h : Searches t g visit (w.newRoots.flatMap t.out ++ w.explorer.frontier)
      (w.searchRoots visit) s) : w.pass t g visit = ofSearch w.order s := by
  have hstart : w.begin = ofSearch w.order
      { visited := w.explorer.visited, explored := w.explorer.explored, frontier := []
        states := w.states, calls := [], acquired := false } := by
    simp [begin, ofSearch]
  rw [searchRoots, List.foldl_reverse] at h
  rw [pass, enterRoots, hstart, foldr_enter]
  have hrun := follow_ofSearch h w.order []
  rw [List.append_nil] at hrun
  exact hrun.trans (by rw [follow])

/-- One pass with its stack is a depth-first recursion: it leaves the flags, the frontier, the
states and the visited nodes as the one search does that begins with the visited roots and goes over
the edges of these roots, in the order of the roots, and behind them the old frontier. The search
ends, and it hands each visit the states that the visits before it left. -/
theorem pass_depthFirst (t : Topology) (g : Gates) (visit : Visit) (w : Walk) :
    ∃ s, (∀ s', Searches t g visit (w.newRoots.flatMap t.out ++ w.explorer.frontier)
        (w.searchRoots visit) s' ↔ s' = s) ∧
      (s.calls = visit.calls w.states (s.calls.map Prod.fst) ∧
        s.states = visit.after w.states (s.calls.map Prod.fst) ∧
        s.acquired = s.calls.any fun c => (visit c.1 c.2).2) ∧
      (w.pass t g visit).explorer.visited = s.visited ∧
      (w.pass t g visit).explorer.explored = s.explored ∧
      (w.pass t g visit).explorer.frontier = s.frontier ∧
      (w.pass t g visit).explorer.roots = [] ∧
      (w.pass t g visit).order = w.order ++ s.calls.map Prod.fst ∧
      (w.pass t g visit).states = s.states ∧
      (w.pass t g visit).acquired = s.acquired := by
  obtain ⟨s, hs⟩ := exists_searches t g visit (w.newRoots.flatMap t.out ++ w.explorer.frontier)
    (w.searchRoots visit)
  have hroots : (w.searchRoots visit).Threads visit w.states := by
    rw [searchRoots]
    refine List.foldlRecOn _ _ ⟨rfl, rfl, rfl⟩ fun s hs n _ => hs.visit n
  have hthreads := hs.threads hroots
  refine ⟨s, fun s' => ⟨hs.unique, fun h => h ▸ hs⟩,
    ⟨hthreads.calls, hthreads.states, hthreads.acquired⟩, ?_⟩
  rw [pass_eq_ofSearch hs]
  exact ⟨rfl, rfl, rfl, rfl, rfl, rfl, rfl⟩

end Walk

end WorldShuffle

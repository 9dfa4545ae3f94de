import WorldShuffle.Explore.Marks
import WorldShuffle.Logic.Gates

namespace WorldShuffle

/-- Progress of an exploration, kept between calls: the frontier holds the edges that were reached
and could not be traversed, in the order in which they were met. -/
structure Explorer where
  visited : Marks
  explored : Marks
  frontier : List Nat := []
  roots : List Nat := []

/-- What a visit does to the states, and whether it counts as having changed them. -/
abbrev Visit := Nat → States → States × Bool

structure Walk where
  explorer : Explorer
  states : States
  order : List Nat := []
  acquired : Bool := false

def Explorer.new (t : Topology) : Explorer :=
  { visited := Marks.none t.nodes.size, explored := Marks.none t.edges.size }

def Explorer.addRoot (x : Explorer) (n : Nat) : Explorer := { x with roots := x.roots ++ [n] }

namespace Walk

variable (t : Topology) (g : Gates) (visit : Visit)

def isNew (w : Walk) (n : Nat) : Bool := w.explorer.visited.isOpen n

def unvisited (w : Walk) : Nat := w.explorer.visited.left

def arrive (w : Walk) (n : Nat) : Walk :=
  let (states, changed) := visit n w.states
  { explorer := { w.explorer with visited := w.explorer.visited.mark n }
    states
    order := w.order ++ [n]
    acquired := w.acquired || changed }

def cross (w : Walk) (e : Nat) : Walk :=
  { w with explorer := { w.explorer with explored := w.explorer.explored.mark e } }

def defer (w : Walk) (e : Nat) : Walk :=
  if e ∈ w.explorer.frontier then w
  else { w with explorer := { w.explorer with frontier := w.explorer.frontier ++ [e] } }

theorem unvisited_arrive {w : Walk} {n : Nat} (h : w.isNew n) :
    (w.arrive visit n).unvisited + 1 = w.unvisited :=
  Marks.left_mark h

theorem unvisited_defer (w : Walk) (e : Nat) : (w.defer e).unvisited = w.unvisited := by
  unfold defer
  split <;> rfl

/-- Follows the edges on the stack, those behind a new node before the ones below them. -/
def follow : List Nat → Walk → Walk
  | [], w => w
  | e :: stack, w =>
    if w.explorer.explored.isSet e || g.isFalse e then follow stack w
    else if g.canTraverse e w.states then
      match t.target? e with
      | none => follow stack (w.cross e)
      | some n =>
        if (w.cross e).isNew n then follow (t.out n ++ stack) ((w.cross e).arrive visit n)
        else follow stack (w.cross e)
    else follow stack (w.defer e)
termination_by stack w => (w.unvisited, stack.length)
decreasing_by
  · exact Prod.Lex.right _ (by simp)
  · exact Prod.Lex.right _ (by simp)
  · rename_i h
    have hv := unvisited_arrive visit h
    have hc : (w.cross e).unvisited = w.unvisited := rfl
    exact Prod.Lex.left _ _ (by omega)
  · exact Prod.Lex.right _ (by simp)
  · rw [unvisited_defer]
    exact Prod.Lex.right _ (by simp)

def enter (n : Nat) (s : Walk × List Nat) : Walk × List Nat :=
  if s.1.isNew n then (s.1.arrive visit n, t.out n ++ s.2) else s

def begin (w : Walk) : Walk :=
  { w with explorer := { w.explorer with frontier := [], roots := [] }, acquired := false }

def enterRoots (w : Walk) : Walk × List Nat :=
  w.explorer.roots.foldr (enter t visit) (w.begin, w.explorer.frontier)

def pass (w : Walk) : Walk :=
  let entered := w.enterRoots t visit
  follow t g visit entered.2 entered.1

def Gains (v w : Walk) : Prop :=
  w.unvisited ≤ v.unvisited ∧ (w.acquired = true → v.acquired = true ∨ w.unvisited < v.unvisited)

theorem Gains.refl (w : Walk) : Gains w w := ⟨Nat.le_refl _, Or.inl⟩

theorem Gains.trans {u v w : Walk} (h : Gains u v) (k : Gains v w) : Gains u w := by
  refine ⟨Nat.le_trans k.1 h.1, fun hw => ?_⟩
  have hu := h.1
  have hk := k.1
  rcases k.2 hw with hv | hv
  · rcases h.2 hv with ha | ha
    · exact Or.inl ha
    · exact Or.inr (by omega)
  · exact Or.inr (by omega)

theorem gains_arrive {w : Walk} {n : Nat} (h : w.isNew n) : Gains w (w.arrive visit n) := by
  have := unvisited_arrive visit h
  exact ⟨by omega, fun _ => Or.inr (by omega)⟩

theorem gains_cross (w : Walk) (e : Nat) : Gains w (w.cross e) := ⟨Nat.le_refl _, Or.inl⟩

theorem gains_defer (w : Walk) (e : Nat) : Gains w (w.defer e) := by
  unfold defer
  split
  · exact Gains.refl w
  · exact ⟨Nat.le_refl _, Or.inl⟩

theorem gains_follow (stack : List Nat) (w : Walk) : Gains w (follow t g visit stack w) := by
  fun_induction follow t g visit stack w with
  | case1 w => exact Gains.refl w
  | case2 _ _ _ _ ih => exact ih
  | case3 _ _ _ _ _ _ ih => exact (gains_cross _ _).trans ih
  | case4 _ _ _ _ _ _ _ h ih =>
    exact (gains_cross _ _).trans ((gains_arrive visit h).trans ih)
  | case5 _ _ _ _ _ _ _ _ ih => exact (gains_cross _ _).trans ih
  | case6 _ _ _ _ _ ih => exact (gains_defer _ _).trans ih

theorem gains_enter (roots : List Nat) (s : Walk × List Nat) :
    Gains s.1 (roots.foldr (enter t visit) s).1 := by
  induction roots with
  | nil => exact Gains.refl _
  | cons n roots ih =>
    simp only [List.foldr_cons, enter]
    split
    · exact ih.trans (gains_arrive visit ‹_›)
    · exact ih

theorem unvisited_pass_lt {w : Walk} (h : (w.pass t g visit).acquired = true) :
    (w.pass t g visit).unvisited < w.unvisited := by
  have k : Gains w.begin (w.pass t g visit) :=
    (gains_enter t visit w.explorer.roots (w.begin, w.explorer.frontier)).trans
      (gains_follow t g visit _ _)
  exact (k.2 h).resolve_left (by simp [begin])

def explore (w : Walk) : Walk :=
  let v := w.pass t g visit
  if _h : v.acquired = true then explore v else v
termination_by w.unvisited
decreasing_by exact unvisited_pass_lt t g visit _h

end Walk

def Explorer.explore (t : Topology) (g : Gates) (visit : Visit) (x : Explorer) (s : States) : Walk :=
  Walk.explore t g visit { explorer := x, states := s }

end WorldShuffle

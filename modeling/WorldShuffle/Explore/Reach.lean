import WorldShuffle.Explore.Marks
import WorldShuffle.Logic.Gates

namespace WorldShuffle

def neighbours (t : Topology) (g : Gates) (n : Nat) : List Nat :=
  (t.out n ++ t.into n).filterMap fun e =>
    if g.isFalse e then none
    else t.edges[e]?.map fun edge => if edge.source = n then edge.target else edge.source

def markNew (m : Marks) : List Nat → Marks × List Nat
  | [] => (m, [])
  | n :: ns =>
    if m.isOpen n then
      let (m, new) := markNew (m.mark n) ns
      (m, n :: new)
    else markNew m ns

theorem left_markNew (m : Marks) (ns : List Nat) :
    (markNew m ns).1.left + (markNew m ns).2.length = m.left := by
  induction ns generalizing m with
  | nil => rfl
  | cons n ns ih =>
    simp only [markNew]
    split
    · rename_i h
      have := ih (m.mark n)
      have := Marks.left_mark h
      simp only [List.length_cons]
      omega
    · exact ih m

def reachFrom (t : Topology) (g : Gates) (seen : Marks) (reached : List Nat) :
    List Nat → List Nat
  | [] => reached
  | n :: stack =>
    let found := markNew seen (neighbours t g n)
    reachFrom t g found.1 (reached ++ found.2) (found.2.reverse ++ stack)
termination_by stack => seen.left + stack.length
decreasing_by
  have h := left_markNew seen (neighbours t g n)
  simp only [List.length_append, List.length_reverse, List.length_cons]
  omega

def undirectedReach (t : Topology) (g : Gates) (root : Nat) : List Nat :=
  reachFrom t g ((Marks.none t.nodes.size).mark root) [root] [root]

def countComponents (t : Topology) (g : Gates) : Nat :=
  (t.nodeIndexes.foldl (fun (seen, count) root =>
    if seen.isSet root then (seen, count)
    else ((undirectedReach t g root).foldl Marks.mark seen, count + 1))
    (Marks.none t.nodes.size, 0)).2

end WorldShuffle

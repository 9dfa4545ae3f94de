import WorldShuffle.Explore.Visits
import WorldShuffle.Placement.Mapping

namespace WorldShuffle

def visitMapped (t : Topology) (m : Mapping) : Visit := fun n s =>
  if isCheckNode t n then
    match m.get? n with
    | some (.check item) => (s.acquire (t.state item), true)
    | some (.filler _) | some .obtained => (s, false)
    | none => (s.acquire (t.state n), true)
  else visitDoor t n s

structure ReplayReport where
  reached : List Nat
  unreached : List Nat
  visitedNodes : Nat

def ReplayReport.isComplete (r : ReplayReport) : Bool := r.unreached.isEmpty

def Mapping.itemLocations (m : Mapping) : List Nat := m.toList.filterMap fun (location, r) =>
  match r with
  | .check _ => some location
  | _ => none

def replay (t : Topology) (g : Gates) (m : Mapping) (s : States) : ReplayReport :=
  let w := ((Explorer.new t).addRoot t.start).explore t g (visitMapped t m) s
  let visited := w.explorer.visited
  { reached := m.itemLocations.filter visited.isSet
    unreached := m.itemLocations.filter (!visited.isSet ·)
    visitedNodes := visited.size - visited.left }

end WorldShuffle

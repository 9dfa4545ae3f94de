import WorldShuffle.World.Finalize

namespace WorldShuffle

structure Builder where
  nodes : Array Node := #[]
  edges : Array Edge := #[]
  start : Nat := 0
  fixed : List (SceneId × SceneId) := []

namespace Builder

def addNode (b : Builder) (scene : SceneId) (name : String) (kind : NodeKind) : Builder × Nat :=
  ({ b with nodes := b.nodes.push { name, scene, kind } }, b.nodes.size)

def addCheck (b : Builder) (scene : SceneId) (name : String) (c : Check) : Builder × Nat :=
  b.addNode scene name (.check c)

def addDoor (b : Builder) (scene : SceneId) (name : String) (d : Door) : Builder × Nat :=
  b.addNode scene name (.door d)

def addEdge (b : Builder) (source target : Nat) : Builder × Nat :=
  let scene := (b.nodes[source]?.map Node.scene).getD 0
  ({ b with edges := b.edges.push { scene, source, target } }, b.edges.size)

def addTwoWay (b : Builder) (a c : Nat) : Builder := ((b.addEdge a c).1.addEdge c a).1

def setStart (b : Builder) (n : Nat) : Builder := { b with start := n }

def fix (b : Builder) (a c : SceneId) : Builder := { b with fixed := b.fixed ++ [(a, c)] }

def build (b : Builder) : Except Inconsistency Topology :=
  Topology.finalize { nodes := b.nodes, edges := b.edges, start := b.start, fixed := b.fixed }

end Builder

end WorldShuffle

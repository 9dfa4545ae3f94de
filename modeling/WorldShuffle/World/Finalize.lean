import WorldShuffle.World.Topology

namespace WorldShuffle

inductive Inconsistency
  | duplicateNode (name : String) (scene : SceneId)
  | startOutOfRange (start : Nat)
  | endpointOutOfRange (edge : Nat)
  | acrossScenes (edge : Nat) (source target : String) (scene : SceneId)
  deriving DecidableEq

def Inconsistency.message : Inconsistency → String
  | .duplicateNode name scene => s!"duplicate node {name} in scene {scene.toInt}"
  | .startOutOfRange start => s!"start node {start} out of range"
  | .endpointOutOfRange edge => s!"edge {edge} has an endpoint out of range"
  | .acrossScenes edge source target scene =>
    s!"edge {edge} ({source} -> {target}) is not contained in scene {scene.toInt}"

namespace Topology

variable (t : Topology)

/-- The world without its link edges and with empty indexes. The lists of edges stay, one for each
node, until their node is entered. -/
def emptied : Topology :=
  { t with
    edges := t.edges.filter (·.kind = .inner)
    names := {}
    byScene := {}
    incoming := (Array.range t.nodes.size).map t.into
    outgoing := (Array.range t.nodes.size).map t.out }

def enter (n : Nat) (node : Node) : Topology :=
  { t with
    names := (t.names.add node.key).1
    byScene := t.byScene.set node.scene (t.sceneNodes node.scene ++ [n])
    incoming := t.incoming.setIfInBounds n []
    outgoing := t.outgoing.setIfInBounds n [] }

def enterNodes : List (Node × Nat) → Topology → Topology × Option Inconsistency
  | [], t => (t, none)
  | (node, n) :: rest, t =>
    match t.nodeNamed? node.scene node.name with
    | some _ => (t, some (.duplicateNode node.name node.scene))
    | none => enterNodes rest (t.enter n node)

def edgeFault? (e : Nat) (edge : Edge) : Option Inconsistency :=
  match t.node? edge.source, t.node? edge.target with
  | some a, some b =>
    if a.scene = edge.scene ∧ b.scene = edge.scene then none
    else some (.acrossScenes e a.name b.name edge.scene)
  | _, _ => some (.endpointOutOfRange e)

def fault? : Option Inconsistency :=
  if t.nodes.size ≤ t.start then some (.startOutOfRange t.start)
  else t.edges.toList.zipIdx.findSome? fun (edge, e) => t.edgeFault? e edge

def linkFrom? (n : Nat) : Option Edge := do
  let node ← t.node? n
  let door ← node.door?
  let far ← t.nodeNamed? door.farScene door.farName
  return { scene := node.scene, source := n, target := far, kind := .link }

def addLink (n : Nat) : Topology :=
  match t.linkFrom? n with
  | some edge => { t with edges := t.edges.push edge }
  | none => t

def attach (e : Nat) : Topology :=
  match t.edges[e]? with
  | none => t
  | some edge =>
    { t with
      incoming := t.incoming.modify edge.target (· ++ [e])
      outgoing := t.outgoing.modify edge.source (· ++ [e]) }

/-- Checks the graph and rebuilds its indexes and link edges, in place. A graph that fails is left
as far as it has come. -/
def refresh : Topology × Option Inconsistency :=
  match enterNodes t.nodes.toList.zipIdx t.emptied with
  | (t, some fault) => (t, some fault)
  | (t, none) =>
    match t.fault? with
    | some fault => (t, some fault)
    | none =>
      let t := t.nodeIndexes.foldl addLink t
      (t.edgeIndexes.foldl attach t, none)

def finalize : Except Inconsistency Topology :=
  match t.refresh with
  | (t, none) => .ok t
  | (_, some fault) => .error fault

end Topology

end WorldShuffle

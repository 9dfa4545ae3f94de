import WorldShuffle.Numbering
import WorldShuffle.World.Save

namespace WorldShuffle

abbrev SceneId := Int32

structure Check where
  kind : CheckKind
  id : Int32
  saveId : String
  shop : Bool := false
  state : Option String := none
  deriving DecidableEq

structure Door where
  farScene : SceneId
  farName : String
  deriving DecidableEq

inductive NodeKind
  | check (c : Check)
  | door (d : Door)
  deriving DecidableEq

structure Node where
  name : String
  scene : SceneId
  position : Float32 × Float32 := (0, 0)
  kind : NodeKind

inductive EdgeKind
  | inner
  | link
  deriving DecidableEq

structure Edge where
  scene : SceneId
  source : Nat
  target : Nat
  kind : EdgeKind := .inner
  deriving DecidableEq

/-- Nodes and edges are named by their positions. A door's link edge leads to its far side. Beside
the graph stand its indexes: the numbers of the nodes by scene and name, the nodes filed under their
scenes, and by node the lists of incoming and outgoing edges. -/
structure Topology where
  nodes : Array Node
  edges : Array Edge
  start : Nat
  fixed : List (SceneId × SceneId) := []
  names : Numbering (SceneId × String) := {}
  byScene : Table SceneId (List Nat) := {}
  incoming : Array (List Nat) := #[]
  outgoing : Array (List Nat) := #[]

def Check.new (kind : CheckKind) (id : Int32) (saveId : String) : Check :=
  { kind, id, saveId, shop := kind = .shop }

def Check.describe (c : Check) : String := c.kind.describe c.id

def Check.obtained (c : Check) (s : Save) : Bool := s.flag c.saveId

def Check.give (c : Check) (s : Save) : Save := s.give c.kind c.id c.saveId

def Node.check? (n : Node) : Option Check :=
  match n.kind with
  | .check c => some c
  | .door _ => none

def Node.door? (n : Node) : Option Door :=
  match n.kind with
  | .check _ => none
  | .door d => some d

def stateName (scene : SceneId) (name : String) : String := s!"Scene{scene.toInt}.{name}"

def Node.key (n : Node) : SceneId × String := (n.scene, n.name)

def Node.label (n : Node) : String := stateName n.scene n.name

def Node.state (n : Node) : String := (n.check?.bind Check.state).getD n.name

def Node.doorStates? (n : Node) : Option (String × String) :=
  n.door?.map fun d => (n.label, stateName d.farScene d.farName)

def Node.setFar (n : Node) (scene : SceneId) (name : String) : Node :=
  match n.kind with
  | .check _ => n
  | .door _ => { n with kind := .door ⟨scene, name⟩ }

namespace Topology

variable (t : Topology)

def node? (n : Nat) : Option Node := t.nodes[n]?

def out (n : Nat) : List Nat := t.outgoing[n]?.getD []

def into (n : Nat) : List Nat := t.incoming[n]?.getD []

def target? (e : Nat) : Option Nat := t.edges[e]?.map Edge.target

def isKind (kind : EdgeKind) (e : Nat) : Bool := t.edges[e]?.any (·.kind = kind)

def check? (n : Nat) : Option Check := (t.node? n).bind Node.check?

def door? (n : Nat) : Option Door := (t.node? n).bind Node.door?

def nodeIndexes : List Nat := List.range t.nodes.size

def edgeIndexes : List Nat := List.range t.edges.size

def checkNodes : List Nat := t.nodeIndexes.filter fun n => (t.check? n).isSome

def doorNodes : List Nat := t.nodeIndexes.filter fun n => (t.door? n).isSome

def nodeNamed? (scene : SceneId) (name : String) : Option Nat := t.names.number? (scene, name)

def sceneNodes (scene : SceneId) : List Nat := (t.byScene.get? scene).getD []

def scenes : List SceneId := t.byScene.keys.mergeSort (· ≤ ·)

def edgesBetween (a b : Nat) : List Nat :=
  (t.out a).filter fun e => t.isKind .inner e && t.target? e == some b

def linkEdge? (n : Nat) : Option Nat := (t.out n).find? (t.isKind .link)

def farNode? (n : Nat) : Option Nat := (t.linkEdge? n).bind t.target?

def label (n : Nat) : String := ((t.node? n).map Node.label).getD ""

def state (n : Nat) : String := ((t.node? n).map Node.state).getD ""

def doorStates? (n : Nat) : Option (String × String) := (t.node? n).bind Node.doorStates?

/-- Moves the head of an edge, which goes to the end of the incoming list of its new target. -/
def retarget (e target : Nat) : Topology :=
  match t.edges[e]? with
  | none => t
  | some edge =>
    if edge.target = target then t
    else
      { t with
        edges := t.edges.set! e { edge with target }
        incoming := (t.incoming.modify edge.target (·.filter (· ≠ e))).modify target (· ++ [e]) }

def setFar (n : Nat) (scene : SceneId) (name : String) : Topology :=
  { t with nodes := t.nodes.modify n (Node.setFar · scene name) }

end Topology

end WorldShuffle

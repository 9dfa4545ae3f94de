import WorldShuffle.Json.Decoder
import WorldShuffle.Json.Printer
import WorldShuffle.World.Finalize

namespace WorldShuffle

def decodeCheckKind : Decoder CheckKind := fun j => do
  let tag ← decodeTag j
  match CheckKind.ofTag? tag with
  | some k => return k
  | none => invalid (unknownTagMessage tag)

def checkFields : List (Field Check) := [
  { name := "check_type", put := fun c j => return { c with kind := ← decodeCheckKind j } },
  { name := "check_id", put := fun c j => return { c with id := ← decodeInt32 j } },
  { name := "save_id", put := fun c j => return { c with saveId := ← decodeString j } },
  { name := "shop", put := fun c j => return { c with shop := ← decodeBool j }
    optional := true, trailing := true },
  { name := "state", put := fun c j => return { c with state := ← decodeOption decodeString j }
    optional := true, trailing := true }]

def decodeCheck : Decoder Check :=
  decodeRecord "Check" checkFields { kind := .item, id := 0, saveId := "" }

def doorFields : List (Field Door) := [
  { name := "far_scene", put := fun d j => return { d with farScene := ← decodeInt32 j } },
  { name := "far_alias", put := fun d j => return { d with farName := ← decodeString j } }]

def decodeDoor : Decoder Door :=
  decodeRecord "Transition" doorFields { farScene := 0, farName := "" }

def decodeNodeKind : Decoder NodeKind := decodeVariant [
  payloadVariant "Check" fun j => NodeKind.check <$> decodeCheck j,
  payloadVariant "Transition" fun j => NodeKind.door <$> decodeDoor j]

def nodeFields : List (Field Node) := [
  { name := "alias", put := fun n j => return { n with name := ← decodeString j } },
  { name := "scene", put := fun n j => return { n with scene := ← decodeInt32 j } },
  { name := "position"
    put := fun n j => return { n with position := ← decodePair decodeFloat32 decodeFloat32 j }
    optional := true, trailing := true },
  { name := "kind", put := fun n j => return { n with kind := ← decodeNodeKind j } }]

def decodeNode : Decoder Node :=
  decodeRecord "Node" nodeFields { name := "", scene := 0, kind := .door ⟨0, ""⟩ }

def decodeEdgeKind : Decoder EdgeKind :=
  decodeVariant [unitVariant "Local" .inner, unitVariant "Link" .link]

def edgeFields : List (Field Edge) := [
  { name := "scene", put := fun e j => return { e with scene := ← decodeInt32 j } },
  { name := "from", put := fun e j => return { e with source := ← decodeSize j } },
  { name := "to", put := fun e j => return { e with target := ← decodeSize j } },
  { name := "kind", put := fun e j => return { e with kind := ← decodeEdgeKind j }
    optional := true, trailing := true }]

def decodeEdge : Decoder Edge := decodeRecord "Edge" edgeFields { scene := 0, source := 0, target := 0 }

def topologyFields : List (Field Topology) := [
  { name := "nodes"
    put := fun t j => return { t with nodes := (← decodeList decodeNode j).toArray } },
  { name := "edges"
    put := fun t j => return { t with edges := (← decodeList decodeEdge j).toArray } },
  { name := "start", put := fun t j => return { t with start := ← decodeSize j } },
  { name := "fixed_transitions"
    put := fun t j => return { t with fixed := ← decodeList (decodePair decodeInt32 decodeInt32) j }
    optional := true, trailing := true }]

def decodeTopology : Decoder Topology :=
  decodeRecord "Topology" topologyFields { nodes := #[], edges := #[], start := 0 }

inductive LoadError
  | json (e : JsonError)
  | inconsistent (e : Inconsistency)

def Topology.load (text : String) : Except LoadError Topology := do
  let t ← (decodeText decodeTopology text).mapError .json
  t.finalize.mapError .inconsistent

def int32Json (n : Int32) : Json := .int n.toInt

def Check.json (c : Check) : Json := .object [
  ("check_type", .nat c.kind.tag),
  ("check_id", int32Json c.id),
  ("save_id", .string c.saveId),
  ("shop", .bool c.shop),
  ("state", Json.optional .string c.state)]

def NodeKind.json : NodeKind → Json
  | .check c => .object [("Check", c.json)]
  | .door d =>
    .object [("Transition", .object [
      ("far_scene", int32Json d.farScene), ("far_alias", .string d.farName)])]

def Node.json (n : Node) : Json := .object [
  ("alias", .string n.name),
  ("scene", int32Json n.scene),
  ("position", .list [.float32 n.position.1, .float32 n.position.2]),
  ("kind", n.kind.json)]

def EdgeKind.name : EdgeKind → String
  | .inner => "Local"
  | .link => "Link"

def Edge.json (e : Edge) : Json := .object [
  ("scene", int32Json e.scene),
  ("from", .nat e.source),
  ("to", .nat e.target),
  ("kind", .string e.kind.name)]

def Topology.json (t : Topology) : Json := .object [
  ("nodes", .list (t.nodes.toList.map Node.json)),
  ("edges", .list (t.edges.toList.map Edge.json)),
  ("start", .nat t.start),
  ("fixed_transitions",
    .list (t.fixed.map fun (a, b) => .list [int32Json a, int32Json b]))]

end WorldShuffle

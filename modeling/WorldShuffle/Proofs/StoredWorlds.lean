import WorldShuffle.Proofs.Rebuilding
import WorldShuffle.Proofs.Records
import WorldShuffle.World.Encoding

namespace WorldShuffle

theorem stores_int32 (k : Int32) : Stores int32Json decodeInt32 k where
  written := Json.written_int _
  decoded := by
    have hlow : Int32.minValue.toInt ≤ k.toInt := k.le_toInt
    have hhigh : k.toInt ≤ Int32.maxValue.toInt := k.toInt_le
    have hleast : Int32.minValue.toInt = -0x80000000 := rfl
    have hgreatest : Int32.maxValue.toInt = 0x7fffffff := rfl
    have hsize : (UInt64.size : Int) = 0x10000000000000000 := rfl
    rw [decodeInt32, int32Json, decodeInteger_int hlow hhigh (by omega) (by omega)]
    exact congrArg Except.ok (Int32.ofInt_toInt k)

def tagJson (k : CheckKind) : Json := .nat k.tag

theorem stores_kind (k : CheckKind) : Stores tagJson decodeCheckKind k where
  written := Json.written_nat _
  decoded := by
    have htag : k.tag ≤ 5 := by cases k <;> decide
    have hread : decodeTag (.nat k.tag) = .ok k.tag := by
      have hsize : (UInt64.size : Int) = 0x10000000000000000 := rfl
      rw [decodeTag, Json.nat_eq_int, decodeInteger_int (by omega) (by omega) (by omega) (by omega)]
      rfl
    simp only [tagJson, decodeCheckKind, hread, bind, Except.bind, CheckKind.ofTag?_tag, pure, Except.pure]

theorem Check.stores (c : Check) : Stores Check.json decodeCheck c := by
  have hputs : Puts { kind := .item, id := 0, saveId := "" } (checkFields.zip
      [tagJson c.kind, int32Json c.id, .string c.saveId, .bool c.shop,
        Json.optional .string c.state]) c :=
    .field (stores_kind c.kind) rfl <| .field (stores_int32 c.id) rfl <|
      .field (stores_string c.saveId) rfl <| .field (stores_bool c.shop) rfl <|
      .field (stores_optional_string c.state) rfl (.nil c)
  exact hputs.stores (by decide) rfl rfl

def Door.json (d : Door) : Json :=
  .object [("far_scene", int32Json d.farScene), ("far_alias", .string d.farName)]

theorem Door.stores (d : Door) : Stores Door.json decodeDoor d := by
  have hputs : Puts { farScene := 0, farName := "" }
      (doorFields.zip [int32Json d.farScene, .string d.farName]) d :=
    .field (stores_int32 d.farScene) rfl <| .field (stores_string d.farName) rfl (.nil d)
  exact hputs.stores (by decide) rfl rfl

theorem NodeKind.stores (k : NodeKind) : Stores NodeKind.json decodeNodeKind k where
  written := by
    cases k with
    | check c => exact Json.written_object (List.forall_mem_singleton.2 c.stores.written)
    | door d => exact Json.written_object (List.forall_mem_singleton.2 d.stores.written)
  decoded := by
    cases k with
    | check c =>
      change (under _ (NodeKind.check <$> decodeCheck c.json) >>= _) = _
      rw [c.stores.decoded]
      rfl
    | door d =>
      change (under _ (NodeKind.door <$> decodeDoor d.json) >>= _) = _
      rw [d.stores.decoded]
      rfl

def Legible (x : Float32) : Prop := decodeText decodeFloat32 (Json.float32 x).text = .ok x

theorem Legible.stores {x : Float32} (h : Legible x) : Stores Json.float32 decodeFloat32 x := by
  have hwritten : (Json.float32 x).Written := by
    rw [Legible, Json.float32] at h
    rw [Json.float32]
    split
    · rw [if_pos ‹_›] at h
      refine Json.written_num ((Numeral.scanned_ofChars _).whole_of_parsePrefix fun b hb => ?_)
      rw [decodeText, Json.text, Numeral.ofText, hb] at h
      cases h
    · exact Json.written_null
  exact ⟨hwritten, (hwritten.decodeText decodeFloat32).symm.trans h⟩

example : (decodeText decodeFloat32 (Json.float32 (-12.375)).text).toOption = some (-12.375) := by
  decide +kernel

theorem Node.stores {n : Node} (hx : Legible n.position.1) (hy : Legible n.position.2) :
    Stores Node.json decodeNode n := by
  have hposition : Stores (pairJson .float32 .float32) (decodePair decodeFloat32 decodeFloat32)
      n.position := stores_pair hx.stores hy.stores
  have hputs : Puts { name := "", scene := 0, kind := .door ⟨0, ""⟩ }
      (nodeFields.zip [.string n.name, int32Json n.scene, pairJson .float32 .float32 n.position,
        n.kind.json]) n :=
    .field (stores_string n.name) rfl <| .field (stores_int32 n.scene) rfl <|
      .field hposition rfl <| .field n.kind.stores rfl (.nil n)
  exact hputs.stores (by decide) rfl rfl

def EdgeKind.json (k : EdgeKind) : Json := .string k.name

theorem EdgeKind.stores (k : EdgeKind) : Stores EdgeKind.json decodeEdgeKind k where
  written := Json.written_string _
  decoded := by cases k <;> rfl

theorem Edge.stores {e : Edge} (hsource : e.source < UInt64.size) (htarget : e.target < UInt64.size) :
    Stores Edge.json decodeEdge e := by
  have hputs : Puts { scene := 0, source := 0, target := 0 }
      (edgeFields.zip [int32Json e.scene, .nat e.source, .nat e.target, e.kind.json]) e :=
    .field (stores_int32 e.scene) rfl <| .field (stores_size hsource) rfl <|
      .field (stores_size htarget) rfl <| .field e.kind.stores rfl (.nil e)
  exact hputs.stores (by decide) rfl rfl

def Node.Legible (n : Node) : Prop :=
  WorldShuffle.Legible n.position.1 ∧ WorldShuffle.Legible n.position.2

namespace Topology

variable {t : Topology}

theorem stores_stored (hnodes : ∀ n ∈ t.nodes, n.Legible)
    (hedges : ∀ e ∈ t.edges, e.source < UInt64.size ∧ e.target < UInt64.size)
    (hstart : t.start < UInt64.size) : Stores Topology.json decodeTopology t.stored := by
  have hnodes' : Stores (listJson Node.json) (decodeList decodeNode) t.nodes.toList := by
    apply stores_list
    intro n hn
    obtain ⟨hx, hy⟩ := hnodes n (by simpa using hn)
    exact Node.stores hx hy
  have hedges' : Stores (listJson Edge.json) (decodeList decodeEdge) t.edges.toList := by
    apply stores_list
    intro e he
    obtain ⟨hsource, htarget⟩ := hedges e (by simpa using he)
    exact Edge.stores hsource htarget
  have hfixed : Stores (listJson (pairJson int32Json int32Json))
      (decodeList (decodePair decodeInt32 decodeInt32)) t.fixed :=
    stores_list fun p _ => stores_pair (stores_int32 p.1) (stores_int32 p.2)
  have hputs : Puts { nodes := #[], edges := #[], start := 0 }
      (topologyFields.zip [listJson Node.json t.nodes.toList, listJson Edge.json t.edges.toList,
        .nat t.start, listJson (pairJson int32Json int32Json) t.fixed]) t.stored :=
    .field hnodes' rfl <| .field hedges' rfl <| .field (stores_size hstart) rfl <|
      .field hfixed rfl (.nil t.stored)
  exact hputs.stores (by decide) rfl rfl

end Topology

end WorldShuffle

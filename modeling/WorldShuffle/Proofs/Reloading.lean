import WorldShuffle.Proofs.Rejoining
import WorldShuffle.Proofs.StoredWorlds
import WorldShuffle.World.Builder

namespace WorldShuffle

theorem Node.position_leading (n : Node) (far : Option Node) :
    (n.leading far).position = n.position := by
  cases far with
  | none => rfl
  | some far => obtain ⟨name, scene, position, _ | _⟩ := n <;> rfl

namespace Topology

variable {t s : Topology}

theorem Rerouted.legible (h : t.Rerouted s) (ht : ∀ n ∈ t.nodes, n.Legible) :
    ∀ n ∈ s.nodes, n.Legible := by
  intro node hnode
  obtain ⟨n, hn⟩ := Array.mem_iff_getElem?.1 hnode
  rw [← Topology.node?, h.node?] at hn
  obtain ⟨old, hold, rfl⟩ := Option.map_eq_some_iff.1 hn
  rw [Node.Legible, old.position_leading]
  exact ht old (Array.mem_of_getElem? hold)

/-- A world whose indexes fit in 64 bits and whose coordinates are legible is read back from its text. -/
theorem Loaded.decodeText (h : t.Loaded) (hsize : t.nodes.size ≤ UInt64.size)
    (hlegible : ∀ n ∈ t.nodes, n.Legible) : decodeText decodeTopology t.json.text = .ok t.stored := by
  refine (stores_stored hlegible (fun edge hedge => ?_) ?_).decodeText
  · obtain ⟨e, he⟩ := Array.mem_iff_getElem?.1 hedge
    exact ⟨(h.source_lt he).trans_le hsize, (h.linked.sound.target_lt he).trans_le hsize⟩
  · exact h.linked.sound.start_lt.trans_le hsize

theorem load_eq_ok {text : String} (h : Topology.load text = .ok t) :
    ∃ t₀, WorldShuffle.decodeText decodeTopology text = .ok t₀ ∧ t₀.finalize = .ok t := by
  obtain ⟨t₀, hdecoded, hfinal⟩ := bind_eq_ok h
  exact ⟨t₀, mapError_eq_ok hdecoded, mapError_eq_ok hfinal⟩

theorem load_of {text : String} {t₀ : Topology}
    (hdecoded : WorldShuffle.decodeText decodeTopology text = .ok t₀) (h : t₀.finalize = .ok t) :
    Topology.load text = .ok t := by
  rw [load, hdecoded]
  change t₀.finalize.mapError _ = _
  rw [h]
  rfl

end Topology

/-- A world that was loaded or built, and whose doors have been exchanged since, comes back from its text
as it was. Only the order of its lists of incoming edges may be another one. Indexes are read as 64-bit
numbers, and the coordinates are taken to be legible. -/
theorem load_exchanges {t : Topology}
    (ht : (∃ text, Topology.load text = .ok t) ∨ ∃ b : Builder, b.build = .ok t)
    (hsize : t.nodes.size ≤ UInt64.size) (hlegible : ∀ n ∈ t.nodes, n.Legible)
    (ps : List (Nat × Nat)) :
    let s := t.exchanges ps
    ∃ s', Topology.load s.json.text = .ok s' ∧
      s'.nodes = s.nodes ∧ s'.outgoing = s.outgoing ∧ s'.edges = s.edges ∧
      s'.start = s.start ∧ s'.fixed = s.fixed ∧ s'.names = s.names ∧ s'.byScene = s.byScene ∧
      (∀ scene name, s'.nodeNamed? scene name = s.nodeNamed? scene name) ∧
      (∀ scene, s'.sceneNodes scene = s.sceneNodes scene) ∧
      s'.incoming.size = s.incoming.size ∧ ∀ n, (s'.into n).Perm (s.into n) := by
  intro s
  have hloaded : t.Loaded := by
    obtain ⟨text, h⟩ | ⟨b, h⟩ := ht
    · obtain ⟨t₀, -, h⟩ := Topology.load_eq_ok h
      exact .finalize h
    · exact .finalize h
  have hs : s.Loaded := hloaded.exchanges ps
  have hrerouted : t.Rerouted s := ((Topology.Rerouted.refl hloaded.linked).exchanges ps).1
  have hread := hs.decodeText (hrerouted.size_nodes ▸ hsize) (hrerouted.legible hlegible)
  obtain ⟨s', hagain, hnodes, hedges, hstart, hfixed, hout, hnames, hscenes, hinto⟩ :=
    hs.finalize_stored
  refine ⟨s', Topology.load_of hread hagain, hnodes, hout, hedges, hstart, hfixed, hnames, hscenes,
    ?_, ?_, ?_, hinto⟩
  · intro scene name
    rw [Topology.nodeNamed?, Topology.nodeNamed?, hnames]
  · intro scene
    rw [Topology.sceneNodes, Topology.sceneNodes, hscenes]
  · rw [(Topology.Loaded.finalize hagain).indexed.size, hs.indexed.size, hnodes]

theorem legible_zero : Legible 0 := rfl

theorem load_exchanges_homestead :
    ∃ s', Topology.load (homestead.exchanges [(0, 4)]).json.text = .ok s' ∧
      s'.farNode? 0 = some 5 ∧ s'.edges = (homestead.exchanges [(0, 4)]).edges := by
  have hbuild : (⟨homestead.nodes, homestead.edges, 0, []⟩ : Builder).build = .ok homestead := by cbv
  have horigin : ∀ n ∈ homestead.nodes, n.position = (0, 0) := by simp [homestead]
  have hlegible : ∀ n ∈ homestead.nodes, n.Legible := by
    intro n hn
    rw [Node.Legible, horigin n hn]
    exact ⟨legible_zero, legible_zero⟩
  obtain ⟨s', hload, hnodes, hout, hedges, -⟩ :=
    load_exchanges (.inr ⟨_, hbuild⟩) (by decide) hlegible [(0, 4)]
  have hkind : s'.isKind = (homestead.exchanges [(0, 4)]).isKind := by
    funext kind e
    rw [Topology.isKind, Topology.isKind, hedges]
  have htarget : s'.target? = (homestead.exchanges [(0, 4)]).target? := by
    funext e
    rw [Topology.target?, Topology.target?, hedges]
  have hfar : s'.farNode? 0 = (homestead.exchanges [(0, 4)]).farNode? 0 := by
    simp only [Topology.farNode?, Topology.linkEdge?, Topology.out, hout, hkind, htarget]
  refine ⟨s', hload, ?_, hedges⟩
  rw [hfar]
  cbv

end WorldShuffle

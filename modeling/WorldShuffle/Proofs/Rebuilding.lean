import WorldShuffle.Proofs.Adjacency

namespace WorldShuffle

namespace Topology

variable {t s : Topology} {n m : Nat} {node : Node} {edge : Edge}

theorem linkFrom?_eq {d : Door} (hn : t.node? n = some node) (hd : node.door? = some d)
    (hfar : t.nodeNamed? d.farScene d.farName = some m) :
    t.linkFrom? n = some { scene := node.scene, source := n, target := m, kind := .link } := by
  simp [linkFrom?, hn, hd, hfar]

theorem source_linkFrom? (h : t.linkFrom? n = some edge) : edge.source = n := by
  obtain ⟨node, -, h⟩ := Option.bind_eq_some_iff.1 h
  obtain ⟨door, -, h⟩ := Option.bind_eq_some_iff.1 h
  obtain ⟨far, -, h⟩ := Option.bind_eq_some_iff.1 h
  obtain rfl := Option.some.inj h
  rfl

theorem Loaded.linkFrom?_farNode? (h : t.Loaded) (hn : t.node? n = some node)
    (hfar : t.farNode? n = some m) :
    t.linkFrom? n = some { scene := node.scene, source := n, target := m, kind := .link } := by
  obtain ⟨d, hd, hnamed⟩ := h.nodeNamed?_far hfar
  rw [door?, hn] at hd
  exact linkFrom?_eq hn hd hnamed

/-- A loaded world comes of an accepted one by leading doors elsewhere. -/
theorem Loaded.rerouted (h : t.Loaded) :
    ∃ t₀ b : Topology, t₀.finalize = .ok b ∧ b.Rerouted t := by
  induction h with
  | finalize h => exact ⟨_, _, h, Rerouted.refl (linked_finalize h)⟩
  | exchange h x y ih =>
    obtain ⟨t₀, b, hb, hr⟩ := ih
    exact ⟨t₀, b, hb, (hr.exchange x y).1⟩

theorem Rerouted.isSome_farNode? (h : t.Rerouted s) (ht : t.Linked) (n : Nat) :
    (s.farNode? n).isSome = (t.farNode? n).isSome := by
  apply Bool.eq_iff_iff.2
  rw [Option.isSome_iff_exists, Option.isSome_iff_exists]
  constructor
  · rintro ⟨m, hm⟩
    obtain ⟨e, edge, -, hedge, hsource, -, hkind⟩ := link_of_farNode? h.linked.sound hm
    rw [h.edge?] at hedge
    obtain ⟨old, hold, rfl⟩ := Option.map_eq_some_iff.1 hedge
    obtain ⟨hs, hk, -⟩ := old.ends_leading (s.farNode? old.source)
    exact ⟨old.target, by rw [← hsource, hs, ht.farNode?_link hold (hk.symm.trans hkind)]⟩
  · rintro ⟨m, hm⟩
    obtain ⟨e, old, -, hold, rfl, -, hkind⟩ := link_of_farNode? ht.sound hm
    obtain ⟨hs, hk, -⟩ := old.ends_leading (s.farNode? old.source)
    have hedge : s.edges[e]? = some (old.leading (s.farNode? old.source)) := by
      rw [h.edge?, hold, Option.map_some]
    exact ⟨_, by rw [← h.linked.farNode?_link hedge (hk.trans hkind), hs]⟩

/-- The links that the new far identities ask for are the old ones, led elsewhere. -/
theorem Rerouted.linkFrom? (h : t.Rerouted s) (ht : t.Loaded) (hs : s.Loaded) (n : Nat) :
    s.linkFrom? n =
      (t.linkFrom? n).map fun edge => edge.leading (s.farNode? edge.source) := by
  cases hfar : s.farNode? n with
  | none =>
    have hnode : s.node? n = t.node? n := by
      rw [h.node?, hfar]
      exact Option.map_id'
    have hsame : s.linkFrom? n = t.linkFrom? n := by
      simp only [Topology.linkFrom?, hnode, h.nodeNamed?]
    rw [hsame]
    cases hlink : t.linkFrom? n with
    | none => rfl
    | some edge =>
      rw [Option.map_some, source_linkFrom? hlink, hfar]
      rfl
  | some m =>
    obtain ⟨m', hfar'⟩ : ∃ m', t.farNode? n = some m' := by
      rw [← Option.isSome_iff_exists, ← h.isSome_farNode? ht.linked, hfar, Option.isSome_some]
    obtain ⟨node, -, -, hn, -⟩ := ht.linked.names_farNode? hfar'
    obtain ⟨node', hn', hscene, -⟩ := h.identity hn
    rw [hs.linkFrom?_farNode? hn' hfar, ht.linkFrom?_farNode? hn hfar', Option.map_some, hfar,
      Edge.leading_link rfl, hscene]

theorem Rerouted.size_nodes (h : t.Rerouted s) : s.nodes.size = t.nodes.size := by
  have hnodes : s.nodes.map (fun _ => ()) = t.nodes.map fun _ => () := by
    apply Array.ext_getElem?
    intro n
    have hn := h.node? n
    rw [Topology.node?, Topology.node?] at hn
    rw [Array.getElem?_map, Array.getElem?_map, hn, Option.map_map]
  simpa using congrArg Array.size hnodes

theorem Rerouted.links (h : t.Rerouted s) (ht : t.Loaded) (hs : s.Loaded) :
    s.links = t.links.map fun edge => edge.leading (s.farNode? edge.source) := by
  have hindexes : s.nodeIndexes = t.nodeIndexes := by
    rw [nodeIndexes, nodeIndexes, h.size_nodes]
  rw [Topology.links, Topology.links, List.map_filterMap, hindexes]
  congr 1
  funext n
  exact h.linkFrom? ht hs n

theorem Rerouted.edges (h : t.Rerouted s) :
    s.edges = t.edges.map fun edge => edge.leading (s.farNode? edge.source) := by
  apply Array.ext_getElem?
  intro e
  rw [Array.getElem?_map, h.edge?]

theorem edgeFault?_eq_none {e : Nat} : t.edgeFault? e edge = none ↔
    t.sceneOf edge.source = some edge.scene ∧ t.sceneOf edge.target = some edge.scene := by
  rw [edgeFault?, sceneOf, sceneOf]
  cases ha : t.node? edge.source with
  | none => simp
  | some a =>
    cases hb : t.node? edge.target with
    | none => simp
    | some b => simp

/-- The links stand behind the other edges, as the far identities ask for them. -/
theorem Loaded.edges_eq (h : t.Loaded) : ∃ inner : Array Edge,
    t.edges = inner ++ t.links.toArray ∧ (∀ edge ∈ inner, edge.kind = .inner) ∧
      ∀ edge ∈ inner, t.sceneOf edge.source = some edge.scene ∧
        t.sceneOf edge.target = some edge.scene := by
  obtain ⟨t₀, b, hb, hr⟩ := h.rerouted
  have hlinks := hr.links (.finalize hb) h
  obtain ⟨-, -, hfault, rfl⟩ := finalize_eq_ok hb
  have hinner : ∀ edge ∈ t₀.unlinked.edges, edge.kind = .inner := by
    intro edge hedge
    rw [unlinked, Array.mem_filter, decide_eq_true_eq] at hedge
    exact hedge.2
  refine ⟨t₀.unlinked.edges, ?_, hinner, fun edge hedge => ?_⟩
  · have hkept : t₀.unlinked.edges.map (fun edge => edge.leading (t.farNode? edge.source)) =
        t₀.unlinked.edges := by
      refine (Array.map_congr_left fun edge hedge => ?_).trans (Array.map_id _)
      apply Edge.leading_inner
      rw [hinner edge hedge]
      decide
    have hall : t₀.unlinked.linked.edges = t₀.unlinked.edges ++ t₀.unlinked.links.toArray := rfl
    rw [hr.edges, hall, Array.map_append, hkept, List.map_toArray, hlinks]
    rfl
  · rw [hr.sceneOf, hr.sceneOf]
    obtain ⟨e, he⟩ := Array.mem_iff_getElem?.1 hedge
    exact edgeFault?_eq_none.1 (hfault e edge he)

def stored (t : Topology) : Topology :=
  { nodes := t.nodes, edges := t.edges, start := t.start, fixed := t.fixed }

/-- Edges keep their sources, so the lists of outgoing edges are the ones of the first world. -/
theorem Loaded.outgoing_eq (h : t.Loaded) : t.outgoing =
    (Array.range t.nodes.size).map fun n =>
      (List.range t.edges.size).filter fun e => t.edges[e]?.any (·.source = n) := by
  obtain ⟨t₀, b, hb, hr⟩ := h.rerouted
  obtain ⟨-, -, -, rfl⟩ := finalize_eq_ok hb
  have hfirst : t₀.unlinked.linked.outgoing = (Array.range t₀.unlinked.nodes.size).map fun n =>
      (List.range t₀.unlinked.linked.edges.size).filter fun e =>
        t₀.unlinked.linked.edges[e]?.any (·.source = n) := rfl
  have hsize : t.nodes.size = t₀.unlinked.nodes.size := hr.size_nodes
  rw [hr.outgoing, hfirst, hr.edges, hsize, Array.size_map]
  congr 1
  funext n
  congr 1
  funext e
  rw [Array.getElem?_map, Option.any_map]
  congr 1
  funext edge
  exact congrArg (decide <| · = n) (edge.ends_leading _).1.symm

theorem filter_inner_append_links {inner : Array Edge} (hinner : ∀ edge ∈ inner, edge.kind = .inner) :
    (inner ++ t.links.toArray).filter (·.kind = .inner) = inner := by
  have hlinks : ∀ edge ∈ t.links, ¬edge.kind = .inner := by
    intro edge hedge
    obtain ⟨n, node, door, far, -, -, -, rfl⟩ := mem_links.1 hedge
    simp
  have hkeep : inner.filter (·.kind = .inner) = inner :=
    Array.filter_eq_self.2 fun edge hedge => by simp [hinner edge hedge]
  have hdrop : t.links.toArray.filter (·.kind = .inner) = #[] :=
    Array.filter_eq_empty_iff.2 fun edge hedge => by simpa using hlinks edge (by simpa using hedge)
  rw [Array.filter_append Array.size_append, hkeep, hdrop, Array.append_empty]

theorem links_congr (hnodes : s.nodes = t.nodes) (hnames : s.names = t.names) :
    s.links = t.links := by
  have hlink : s.linkFrom? = t.linkFrom? := by
    funext n
    simp only [Topology.linkFrom?, node?, Topology.nodeNamed?, hnodes, hnames]
  rw [links, links, nodeIndexes, nodeIndexes, hlink, hnodes]

/-- A stored world comes back as it was, but for the order of its lists of incoming edges. -/
theorem Loaded.finalize_stored (h : t.Loaded) : ∃ t', t.stored.finalize = .ok t' ∧
    t'.nodes = t.nodes ∧ t'.edges = t.edges ∧ t'.start = t.start ∧ t'.fixed = t.fixed ∧
    t'.outgoing = t.outgoing ∧ t'.names = t.names ∧ t'.byScene = t.byScene ∧
    ∀ n, (t'.into n).Perm (t.into n) := by
  obtain ⟨inner, hedges, hinner, hscenes⟩ := h.edges_eq
  have hbare : t.stored.unlinked.edges = inner := by
    change t.edges.filter (·.kind = .inner) = inner
    rw [hedges, filter_inner_append_links hinner]
  have hall : t.stored.unlinked.linked.edges = t.edges := by
    have hlinks : t.stored.unlinked.links = t.links := links_congr rfl h.filed.names.symm
    change t.stored.unlinked.edges ++ t.stored.unlinked.links.toArray = t.edges
    rw [hbare, hlinks, hedges]
  have hagain : t.stored.finalize = .ok t.stored.unlinked.linked := by
    refine finalize_eq h.filed.nodup h.linked.sound.start_lt fun e edge hedge => ?_
    rw [hbare] at hedge
    exact edgeFault?_eq_none.2 (hscenes edge (Array.mem_of_getElem? hedge))
  refine ⟨_, hagain, rfl, hall, rfl, rfl, ?_, h.filed.names.symm, h.filed.byScene.symm,
    fun n => ?_⟩
  · rw [(Loaded.finalize hagain).outgoing_eq, h.outgoing_eq, hall]
    rfl
  · have hagain' := (Loaded.finalize hagain).listed
    refine (List.perm_ext_iff_of_nodup (hagain'.nodup_into n) (h.listed.nodup_into n)).2 fun e => ?_
    rw [hagain'.mem_into, h.listed.mem_into, hall]

end Topology

end WorldShuffle

import Mathlib
import WorldShuffle.Proofs.Rebuilding

namespace WorldShuffle

namespace Topology

variable {t s t₀ : Topology} {n : Nat} {scene : SceneId} {name : String} {edge : Edge}

structure Consistent (t : Topology) : Prop where
  distinct {i j : Nat} {a b : Node} : t.node? i = some a → t.node? j = some b →
    a.scene = b.scene → a.name = b.name → i = j
  start_lt : t.start < t.nodes.size
  within {edge : Edge} : edge ∈ t.edges → edge.kind = .inner → ∃ a b,
    t.node? edge.source = some a ∧ t.node? edge.target = some b ∧
      a.scene = edge.scene ∧ b.scene = edge.scene

def LeadsOut (t : Topology) (edge : Edge) : Prop :=
  ∃ node door far, t.node? edge.source = some node ∧ node.door? = some door ∧
    t.node? edge.target = some far ∧ far.scene = door.farScene ∧ far.name = door.farName ∧
    edge.scene = node.scene ∧ edge.kind = .link

structure Indexes (t₀ t : Topology) : Prop where
  nodes : t.nodes = t₀.nodes
  start : t.start = t₀.start
  fixed : t.fixed = t₀.fixed
  edges : ∃ links, t.edges.toList = t₀.edges.toList.filter (·.kind = .inner) ++ links ∧
    (links.map Edge.source).Pairwise (· < ·) ∧ ∀ edge, edge ∈ links ↔ t.LeadsOut edge
  named (scene : SceneId) (name : String) (n : Nat) : t.nodeNamed? scene name = some n ↔
    ∃ node, t.node? n = some node ∧ node.scene = scene ∧ node.name = name
  numbered : t.names.keys = t.nodes.toList.map fun node => (node.scene, node.name)
  scenes_sorted : t.scenes.Pairwise (· < ·)
  sceneNodes_sorted (scene : SceneId) : (t.sceneNodes scene).Pairwise (· < ·)
  mem_sceneNodes (scene : SceneId) (n : Nat) : n ∈ t.sceneNodes scene ↔
    ∃ node, t.node? n = some node ∧ node.scene = scene
  once : (t.scenes.flatMap t.sceneNodes).Perm (List.range t.nodes.size)
  size_outgoing : t.outgoing.size = t.nodes.size
  size_incoming : t.incoming.size = t.nodes.size
  out_sorted (n : Nat) : (t.out n).Pairwise (· < ·)
  mem_out (n e : Nat) : e ∈ t.out n ↔ ∃ edge, t.edges[e]? = some edge ∧ edge.source = n
  into_sorted (n : Nat) : (t.into n).Pairwise (· < ·)
  mem_into (n e : Nat) : e ∈ t.into n ↔ ∃ edge, t.edges[e]? = some edge ∧ edge.target = n

theorem unlinked_linked (t : Topology) : t.unlinked.linked.unlinked = t.unlinked := by
  have hinner : ∀ edge ∈ t.unlinked.edges, edge.kind = .inner := by
    intro edge hedge
    rw [unlinked, Array.mem_filter] at hedge
    exact of_decide_eq_true hedge.2
  have hedges : t.unlinked.linked.unlinked.edges = t.unlinked.edges :=
    filter_inner_append_links hinner
  calc t.unlinked.linked.unlinked
      = { t.unlinked with edges := t.unlinked.linked.unlinked.edges } := rfl
    _ = t.unlinked := by rw [hedges]

theorem finalize_idempotent (h : t₀.finalize = .ok t) : t.finalize = .ok t := by
  have hagain := h
  obtain ⟨-, -, -, rfl⟩ := finalize_eq_ok h
  exact finalize_congr (unlinked_linked t₀).symm hagain

theorem nodup_keys_iff : t.keys.Nodup ↔ ∀ {i j : Nat} {a b : Node}, t.node? i = some a →
    t.node? j = some b → a.scene = b.scene → a.name = b.name → i = j := by
  rw [List.nodup_iff_getElem?_ne_getElem?]
  constructor
  · intro h i j a b ha hb hscene hname
    have hkeys : t.keys[i]? = t.keys[j]? := by
      rw [getElem?_keys, getElem?_keys, ha, hb]
      exact congrArg some (Prod.ext hscene hname)
    have hlt {k : Nat} {c : Node} (hc : t.node? k = some c) : k < t.keys.length := by
      rw [keys, List.length_map]
      exact (Array.getElem?_eq_some_iff.1 hc).1
    rcases Nat.lt_trichotomy i j with hij | hij | hij
    · exact absurd hkeys (h i j hij (hlt hb))
    · exact hij
    · exact absurd hkeys.symm (h j i hij (hlt ha))
  · intro h i j hij hj he
    rw [keys, List.length_map, Array.length_toList] at hj
    have hi : i < t.nodes.size := hij.trans hj
    have ha : t.node? i = some t.nodes[i] := Array.getElem?_eq_getElem hi
    have hb : t.node? j = some t.nodes[j] := Array.getElem?_eq_getElem hj
    rw [getElem?_keys, getElem?_keys, ha, hb] at he
    obtain ⟨hscene, hname⟩ := Prod.mk.inj (Option.some.inj he)
    exact hij.ne (h ha hb hscene hname)

theorem Consistent.finalize (h : t.Consistent) : t.finalize = .ok t.unlinked.linked := by
  refine finalize_eq (nodup_keys_iff.2 h.distinct) h.start_lt fun e edge hedge => ?_
  obtain ⟨hmem, hkind⟩ := Array.mem_filter.1 (Array.mem_of_getElem? hedge)
  obtain ⟨a, b, ha, hb, hsource, htarget⟩ := h.within hmem (of_decide_eq_true hkind)
  have ha' : t.unlinked.node? edge.source = some a := ha
  have hb' : t.unlinked.node? edge.target = some b := hb
  rw [edgeFault?, ha', hb']
  exact if_pos ⟨hsource, htarget⟩

theorem consistent_of_finalize (h : t₀.finalize = .ok t) : t₀.Consistent := by
  obtain ⟨hkeys, hstart, hfault, rfl⟩ := finalize_eq_ok h
  refine ⟨nodup_keys_iff.1 hkeys, hstart, fun {edge} hedge hkind => ?_⟩
  have hmem : edge ∈ t₀.unlinked.edges := Array.mem_filter.2 ⟨hedge, decide_eq_true hkind⟩
  obtain ⟨e, he⟩ := Array.mem_iff_getElem?.1 hmem
  obtain ⟨hsource, htarget⟩ := edgeFault?_eq_none.1 (hfault e edge he)
  obtain ⟨a, ha, hscene⟩ := Option.map_eq_some_iff.1 hsource
  obtain ⟨b, hb, hscene'⟩ := Option.map_eq_some_iff.1 htarget
  exact ⟨a, b, ha, hb, hscene, hscene'⟩

theorem sorted_source_links : (t.links.map Edge.source).Pairwise (· < ·) := by
  rw [List.pairwise_map, links, List.pairwise_filterMap]
  refine List.pairwise_lt_range.imp fun {n m} hlt a ha b hb => ?_
  rwa [source_linkFrom? ha, source_linkFrom? hb]

theorem toList_edges_linked (t : Topology) : t.unlinked.linked.edges.toList =
    t.edges.toList.filter (·.kind = .inner) ++ t.unlinked.links := by
  change (t.edges.filter (·.kind = .inner) ++ t.unlinked.links.toArray).toList = _
  rw [Array.toList_append, Array.toList_filter]

theorem Filed.mem_links (h : t.Filed) : edge ∈ t.links ↔ t.LeadsOut edge := by
  rw [Topology.mem_links]
  constructor
  · rintro ⟨n, node, door, far, hn, hd, hfar, rfl⟩
    obtain ⟨farNode, hf, hscene, hname⟩ := h.nodeNamed?.1 hfar
    exact ⟨node, door, farNode, hn, hd, hf, hscene, hname, rfl, rfl⟩
  · rintro ⟨node, door, farNode, hn, hd, hf, hscene, hname, hown, hkind⟩
    refine ⟨edge.source, node, door, edge.target, hn, hd, ?_, ?_⟩
    · exact h.nodeNamed?.2 ⟨farNode, hf, hscene, hname⟩
    · rw [← hown, ← hkind]

theorem Filed.flatMap_sceneNodes (h : t.Filed) :
    (t.scenes.flatMap t.sceneNodes).Perm (List.range t.nodes.size) := by
  -- a node has one scene, so that it is filed once
  have hnodup : (t.scenes.flatMap t.sceneNodes).Nodup := by
    refine List.nodup_flatMap.2 ⟨fun scene _ => (h.sceneNodes_sorted scene).imp Nat.ne_of_lt, ?_⟩
    refine h.scenes_sorted.imp fun {a b} hlt n ha hb => ?_
    obtain ⟨node, hn, rfl⟩ := h.mem_sceneNodes.1 ha
    obtain ⟨node', hn', rfl⟩ := h.mem_sceneNodes.1 hb
    obtain rfl := Option.some.inj (hn.symm.trans hn')
    exact Int32.lt_irrefl hlt
  refine (List.perm_ext_iff_of_nodup hnodup List.nodup_range).2 fun n => ?_
  simp only [List.mem_flatMap, h.mem_sceneNodes, h.mem_scenes, List.mem_range]
  constructor
  · rintro ⟨scene, -, node, hn, -⟩
    exact (Array.getElem?_eq_some_iff.1 hn).1
  · intro hlt
    have hn : t.node? n = some t.nodes[n] := Array.getElem?_eq_getElem hlt
    exact ⟨_, ⟨n, _, hn, rfl⟩, _, hn, rfl⟩

theorem indexes_finalize (h : t₀.finalize = .ok t) : t₀.Indexes t := by
  have hfiled := filed_finalize h
  have hlisted := listed_finalize h
  obtain ⟨hkeys, -, -, rfl⟩ := finalize_eq_ok h
  exact {
    nodes := rfl
    start := rfl
    fixed := rfl
    edges := ⟨_, toList_edges_linked t₀, sorted_source_links, fun _ => (filed_unlinked hkeys).mem_links⟩
    named _ _ _ := hfiled.nodeNamed?
    numbered := hfiled.keys_names
    scenes_sorted := hfiled.scenes_sorted
    sceneNodes_sorted := hfiled.sceneNodes_sorted
    mem_sceneNodes _ _ := hfiled.mem_sceneNodes
    once := hfiled.flatMap_sceneNodes
    size_outgoing := hlisted.size_outgoing
    size_incoming := hlisted.size
    out_sorted := sorted_out_withAdjacency _
    mem_out _ _ := hlisted.mem_out
    into_sorted := sorted_into_withAdjacency _
    mem_into _ _ := hlisted.mem_into }

/-- A world is accepted just if it is consistent, whatever links and lists it comes with. What is
accepted keeps its nodes and its inner edges in order; behind these stands one link for each door
whose far identity names a node, in the order of the doors. Names find the one node they stand for,
each node is filed once under its scene, and the lists of a node name the edges that start there and
those that end there. Finalizing again changes nothing. -/
theorem finalize_exact (t₀ : Topology) :
    ((∃ t, t₀.finalize = .ok t) ↔ t₀.Consistent) ∧
    ∀ t, t₀.finalize = .ok t → t₀.Indexes t ∧ t.finalize = .ok t :=
  ⟨⟨fun ⟨_, h⟩ => consistent_of_finalize h, fun h => ⟨_, h.finalize⟩⟩,
    fun _ h => ⟨indexes_finalize h, finalize_idempotent h⟩⟩

/-- A door that leads to itself, one that leads to a check and one that leads nowhere, with a stale
link and stale indexes. -/
def sketch : Topology where
  nodes := #[
    { name := "Mouth", scene := 0, kind := .door { farScene := 0, farName := "Mouth" } },
    { name := "Crystal", scene := 0, kind := .check { kind := .item, id := 0, saveId := "crystal" } },
    { name := "Chute", scene := -1, kind := .door { farScene := 0, farName := "Crystal" } },
    { name := "Fog", scene := -1, kind := .door { farScene := 2, farName := "Shore" } }]
  edges := #[
    { scene := 0, source := 1, target := 0, kind := .link },
    { scene := 0, source := 0, target := 1 },
    { scene := 0, source := 0, target := 1 },
    { scene := 0, source := 1, target := 1 },
    { scene := -1, source := 2, target := 3 }]
  start := 0
  names := ⟨[(0, "Chute")], ⟨[((0, "Mouth"), 7), ((2, "Shore"), 3)]⟩⟩
  byScene := ⟨[(4, [1, 1])]⟩
  incoming := #[[7], []]

theorem finalize_exact_sketch : ∃ t, sketch.finalize = .ok t ∧
    t.edges = #[
      { scene := 0, source := 0, target := 1 },
      { scene := 0, source := 0, target := 1 },
      { scene := 0, source := 1, target := 1 },
      { scene := -1, source := 2, target := 3 },
      { scene := 0, source := 0, target := 0, kind := .link },
      { scene := -1, source := 2, target := 1, kind := .link }] ∧
    t.nodeNamed? 0 "Mouth" = some 0 ∧ t.nodeNamed? 2 "Shore" = none ∧
    t.scenes = [-1, 0] ∧ t.sceneNodes (-1) = [2, 3] ∧ t.out 0 = [0, 1, 4] ∧ t.into 1 = [0, 1, 2, 5] ∧
    sketch.Indexes t ∧ t.finalize = .ok t := by
  have hok : sketch.finalize = .ok sketch.unlinked.linked := by cbv
  obtain ⟨hindexes, hagain⟩ := (finalize_exact sketch).2 _ hok
  exact ⟨_, hok, by cbv, by cbv, by cbv, by cbv, by cbv, by cbv, by cbv, hindexes, hagain⟩

end Topology

end WorldShuffle

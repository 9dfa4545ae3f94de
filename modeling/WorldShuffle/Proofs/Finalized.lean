import WorldShuffle.Proofs.Exploration
import WorldShuffle.Proofs.Indexing

namespace WorldShuffle

namespace Topology

variable {t t₀ : Topology}

theorem mem_ends {side : Edge → Nat} {n e : Nat} :
    e ∈ t.edgeIndexes.filter (fun e => t.edges[e]?.any (side · = n)) ↔
      ∃ edge, t.edges[e]? = some edge ∧ side edge = n := by
  simp only [edgeIndexes, List.mem_filter, List.mem_range, Option.any_eq_true, decide_eq_true_eq]
  constructor
  · exact And.right
  · rintro ⟨edge, hedge, hs⟩
    obtain ⟨he, -⟩ := Array.getElem?_eq_some_iff.1 hedge
    exact ⟨he, edge, hedge, hs⟩

theorem out_withAdjacency {n : Nat} (hn : n < t.nodes.size) :
    t.withAdjacency.out n = t.edgeIndexes.filter fun e => t.edges[e]?.any (Edge.source · = n) := by
  simp [withAdjacency, ends, edgeIndexes, out, hn]

theorem out_withAdjacency_of_le {n : Nat} (hn : t.nodes.size ≤ n) : t.withAdjacency.out n = [] := by
  simp [withAdjacency, ends, out, hn]

theorem mem_out_withAdjacency {n e : Nat}
    (h : ∀ (e : Nat) (edge : Edge), t.edges[e]? = some edge → edge.source < t.nodes.size) :
    e ∈ t.withAdjacency.out n ↔ ∃ edge, t.edges[e]? = some edge ∧ edge.source = n := by
  by_cases hn : n < t.nodes.size
  · rw [out_withAdjacency hn, mem_ends]
  · rw [out_withAdjacency_of_le (Nat.le_of_not_lt hn)]
    refine iff_of_false List.not_mem_nil ?_
    rintro ⟨edge, hedge, rfl⟩
    exact hn (h e edge hedge)

theorem sorted_out_withAdjacency (t : Topology) (n : Nat) :
    (t.withAdjacency.out n).Pairwise (· < ·) := by
  by_cases hn : n < t.nodes.size
  · rw [out_withAdjacency hn]
    exact List.pairwise_lt_range.filter _
  · rw [out_withAdjacency_of_le (Nat.le_of_not_lt hn)]
    exact List.Pairwise.nil

theorem mem_links {edge : Edge} :
    edge ∈ t.links ↔ ∃ n node door far, t.node? n = some node ∧ node.door? = some door ∧
      t.nodeNamed? door.farScene door.farName = some far ∧
      edge = { scene := node.scene, source := n, target := far, kind := .link } := by
  simp only [links, linkFrom?, List.mem_filterMap]
  constructor
  · rintro ⟨n, -, h⟩
    obtain ⟨node, hnode, h⟩ := Option.bind_eq_some_iff.1 h
    obtain ⟨door, hdoor, h⟩ := Option.bind_eq_some_iff.1 h
    obtain ⟨far, hfar, h⟩ := Option.bind_eq_some_iff.1 h
    exact ⟨n, node, door, far, hnode, hdoor, hfar, (Option.some.inj h).symm⟩
  · rintro ⟨n, node, door, far, hnode, hdoor, hfar, rfl⟩
    refine ⟨n, ?_, ?_⟩
    · obtain ⟨hn, -⟩ := Array.getElem?_eq_some_iff.1 hnode
      exact List.mem_range.2 hn
    · simp [hnode, hdoor, hfar]

theorem ends_of_edgeFault? {e : Nat} {edge : Edge} (h : t.edgeFault? e edge = none) :
    edge.source < t.nodes.size ∧ edge.target < t.nodes.size := by
  rw [edgeFault?] at h
  split at h
  · rename_i a b ha hb
    exact ⟨(Array.getElem?_eq_some_iff.1 ha).1, (Array.getElem?_eq_some_iff.1 hb).1⟩
  · simp at h

theorem edges_linked {e : Nat} {edge : Edge} (h : t.linked.edges[e]? = some edge) :
    t.edges[e]? = some edge ∨ t.edges.size ≤ e ∧ t.links[e - t.edges.size]? = some edge := by
  have h' : (t.edges ++ t.links.toArray)[e]? = some edge := h
  rw [Array.getElem?_append] at h'
  split at h'
  · exact Or.inl h'
  · exact Or.inr ⟨Nat.le_of_not_lt ‹_›, by simpa using h'⟩

theorem ends_finalize (h : t₀.finalize = .ok t) {e : Nat} {edge : Edge}
    (hedge : t.edges[e]? = some edge) :
    edge.source < t.nodes.size ∧ edge.target < t.nodes.size := by
  obtain ⟨hkeys, -, hfault, rfl⟩ := finalize_eq_ok h
  rcases edges_linked hedge with he | ⟨-, he⟩
  · exact ends_of_edgeFault? (hfault e edge he)
  · obtain ⟨n, node, door, far, hnode, -, hfar, rfl⟩ := mem_links.1 (List.mem_of_getElem? he)
    obtain ⟨farNode, hf, -⟩ := (filed_unlinked hkeys).nodeNamed?.1 hfar
    exact ⟨(Array.getElem?_eq_some_iff.1 hnode).1, (Array.getElem?_eq_some_iff.1 hf).1⟩

theorem sound_finalize (h : t₀.finalize = .ok t) : t.Sound := by
  have hends := @ends_finalize t t₀ h
  obtain ⟨-, hstart, -, rfl⟩ := finalize_eq_ok h
  exact {
    start_lt := hstart
    target_lt := fun hedge => (hends hedge).2
    mem_out := mem_out_withAdjacency fun e edge hedge => (hends hedge).1
    nodup_out := fun n => (sorted_out_withAdjacency _ n).imp Nat.ne_of_lt }

end Topology

end WorldShuffle

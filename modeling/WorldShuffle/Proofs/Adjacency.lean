import Mathlib
import WorldShuffle.Explore.Reach
import WorldShuffle.Proofs.Compilation

namespace WorldShuffle

namespace Topology

variable {t s u : Topology} {g : Gates} {p : Nat → Prop} {e k n m target : Nat} {edge : Edge}

structure Indexed (t : Topology) : Prop where
  size : t.incoming.size = t.nodes.size
  mem_into {n e : Nat} : e ∈ t.into n ↔ ∃ edge, t.edges[e]? = some edge ∧ edge.target = n

theorem into_withAdjacency (hn : n < t.nodes.size) : t.withAdjacency.into n =
    t.edgeIndexes.filter fun e => t.edges[e]?.any (Edge.target · = n) := by
  simp [withAdjacency, ends, edgeIndexes, into, hn]

theorem into_withAdjacency_of_le (hn : t.nodes.size ≤ n) : t.withAdjacency.into n = [] := by
  simp [withAdjacency, ends, into, hn]

theorem sorted_into_withAdjacency (t : Topology) (n : Nat) :
    (t.withAdjacency.into n).Pairwise (· < ·) := by
  by_cases hn : n < t.nodes.size
  · rw [into_withAdjacency hn]
    exact List.pairwise_lt_range.filter _
  · rw [into_withAdjacency_of_le (Nat.le_of_not_lt hn)]
    exact List.Pairwise.nil

theorem mem_into_withAdjacency
    (h : ∀ (e : Nat) (edge : Edge), t.edges[e]? = some edge → edge.target < t.nodes.size) :
    e ∈ t.withAdjacency.into n ↔ ∃ edge, t.edges[e]? = some edge ∧ edge.target = n := by
  by_cases hn : n < t.nodes.size
  · rw [into_withAdjacency hn, mem_ends]
  · rw [into_withAdjacency_of_le (Nat.le_of_not_lt hn)]
    refine iff_of_false List.not_mem_nil ?_
    rintro ⟨edge, hedge, rfl⟩
    exact hn (h e edge hedge)

theorem indexed_finalize {t₀ : Topology} (h : t₀.finalize = .ok t) : t.Indexed := by
  have hends := @ends_finalize t t₀ h
  obtain ⟨-, -, -, rfl⟩ := finalize_eq_ok h
  exact {
    size := by simp [linked, withAdjacency, ends]
    mem_into := mem_into_withAdjacency fun e edge hedge => (hends hedge).2 }

theorem into_retarget (h : t.Indexed) (hedge : t.edges[e]? = some edge)
    (hlt : target < t.nodes.size) (hne : edge.target ≠ target) (n : Nat) :
    (t.retarget e target).into n =
      if n = target then t.into n ++ [e]
      else if n = edge.target then (t.into n).filter (· ≠ e) else t.into n := by
  rw [← h.size] at hlt
  rw [retarget, hedge]
  dsimp only
  rw [if_neg hne, into, Array.getElem?_modify, Array.getElem?_modify]
  by_cases hn : n = target
  · subst hn
    simp [hne, into, hlt]
  · by_cases hn' : n = edge.target
    · subst hn'
      cases hl : t.incoming[edge.target]? <;> simp [hn, Ne.symm hn, into, hl]
    · simp [hn, hn', Ne.symm hn, Ne.symm hn', into]

theorem retarget_same (hedge : t.edges[e]? = some edge) : t.retarget e edge.target = t := by
  rw [retarget, hedge]
  exact if_pos rfl

theorem mem_into_retarget (h : t.Indexed) (hedge : t.edges[e]? = some edge)
    (hlt : target < t.nodes.size) :
    k ∈ (t.retarget e target).into n ↔ if k = e then n = target else k ∈ t.into n := by
  have honly {n : Nat} : e ∈ t.into n ↔ n = edge.target := by
    rw [h.mem_into, hedge]
    simp [eq_comm]
  by_cases htarget : edge.target = target
  · subst htarget
    rw [retarget_same hedge]
    split
    · rename_i hk
      rw [hk, honly]
    · exact Iff.rfl
  · rw [into_retarget h hedge hlt htarget]
    by_cases hk : k = e
    · subst hk
      by_cases hn : n = target
      · simp [hn]
      · by_cases hn' : n = edge.target
        · simp [hn', htarget]
        · simp [hn, hn', honly]
    · by_cases hn : n = target
      · simp [hn, hk]
      · by_cases hn' : n = edge.target
        · simp [hn', htarget, hk]
        · simp [hn, hn', hk]

theorem nodup_into_retarget (h : t.Indexed) (hnodup : ∀ n, (t.into n).Nodup)
    (hlt : target < t.nodes.size) (n : Nat) : ((t.retarget e target).into n).Nodup := by
  cases hedge : t.edges[e]? with
  | none =>
    rw [retarget, hedge]
    exact hnodup n
  | some edge =>
    by_cases htarget : edge.target = target
    · rw [← htarget, retarget_same hedge]
      exact hnodup n
    · rw [into_retarget h hedge hlt htarget]
      split
      · rename_i hn
        refine List.nodup_append.2 ⟨hnodup n, List.nodup_singleton e, ?_⟩
        rintro k hk e' he' rfl
        obtain rfl := List.mem_singleton.1 he'
        obtain ⟨edge', hedge', htarget'⟩ := h.mem_into.1 hk
        obtain rfl := Option.some.inj (hedge.symm.trans hedge')
        exact htarget (htarget'.trans hn)
      · split
        · exact (hnodup n).filter _
        · exact hnodup n

theorem Indexed.retarget (h : t.Indexed) (e : Nat) (hlt : target < t.nodes.size) :
    (t.retarget e target).Indexed := by
  cases hedge : t.edges[e]? with
  | none =>
    have hsame : t.retarget e target = t := by rw [Topology.retarget, hedge]
    rwa [hsame]
  | some edge =>
    constructor
    · rw [(nodes_retarget t e target).1, Topology.retarget, hedge]
      dsimp only
      split
      · exact h.size
      · simp [h.size]
    · intro n k
      rw [mem_into_retarget h hedge hlt, edges_retarget, hedge]
      split
      · simp [eq_comm]
      · exact h.mem_into

structure SameFrame (t s : Topology) : Prop where
  nodes : s.nodes.size = t.nodes.size
  edges : s.edges.size = t.edges.size
  outgoing : s.outgoing = t.outgoing

theorem SameFrame.refl (t : Topology) : t.SameFrame t := ⟨rfl, rfl, rfl⟩

theorem SameFrame.trans (h : t.SameFrame s) (h' : s.SameFrame u) : t.SameFrame u :=
  ⟨h'.nodes.trans h.nodes, h'.edges.trans h.edges, h'.outgoing.trans h.outgoing⟩

theorem sameFrame_retarget (t : Topology) (e target : Nat) : t.SameFrame (t.retarget e target) := by
  rw [retarget]
  split
  · exact .refl t
  · split
    · exact .refl t
    · exact ⟨rfl, by simp, rfl⟩

theorem sameFrame_setFar (t : Topology) (n : Nat) (scene : SceneId) (name : String) :
    t.SameFrame (t.setFar n scene name) := ⟨by simp [setFar], rfl, rfl⟩

theorem sameFrame_aim (t : Topology) (door target : Nat) : t.SameFrame (t.aim door target) := by
  rcases t.aim_cases door target with h | ⟨e, node, -, -, h⟩
  · rw [h]
    exact .refl t
  · rw [h]
    exact (sameFrame_retarget t e target).trans (sameFrame_setFar _ door node.scene node.name)

theorem sameFrame_exchange (t : Topology) (x y : Nat) : t.SameFrame (t.exchange x y) := by
  have aims (ms : List (Nat × Nat)) (t : Topology) :
      t.SameFrame (ms.foldl (fun s m => s.aim m.1 m.2) t) := by
    induction ms generalizing t with
    | nil => exact .refl t
    | cons m ms ih => exact (sameFrame_aim t m.1 m.2).trans (ih _)
  rw [exchange_eq]
  exact aims _ t

/-- The lists of a node name the edges that start there and those that end there, each edge once. -/
structure Listed (t : Topology) : Prop extends t.Sound, t.Indexed where
  size_outgoing : t.outgoing.size = t.nodes.size
  nodup_into (n : Nat) : (t.into n).Nodup

theorem listed_finalize {t₀ : Topology} (h : t₀.finalize = .ok t) : t.Listed where
  toSound := sound_finalize h
  toIndexed := indexed_finalize h
  size_outgoing := (Loaded.finalize h).size_outgoing
  nodup_into := by
    obtain ⟨-, -, -, rfl⟩ := finalize_eq_ok h
    exact fun n => (sorted_into_withAdjacency _ n).imp Nat.ne_of_lt

theorem Listed.retarget (h : t.Listed) (e : Nat) (hlt : target < t.nodes.size) :
    (t.retarget e target).Listed where
  toSound := sound_retarget h.toSound hlt
  toIndexed := h.toIndexed.retarget e hlt
  size_outgoing := by
    have hf := sameFrame_retarget t e target
    rw [hf.outgoing, hf.nodes, h.size_outgoing]
  nodup_into := nodup_into_retarget h.toIndexed h.nodup_into hlt

theorem Listed.setFar (h : t.Listed) (n : Nat) (scene : SceneId) (name : String) :
    (t.setFar n scene name).Listed where
  toSound := sound_setFar h.toSound n scene name
  toIndexed := ⟨by simpa [Topology.setFar] using h.size, h.mem_into⟩
  size_outgoing := by simpa [Topology.setFar] using h.size_outgoing
  nodup_into := h.nodup_into

theorem Listed.aim (h : t.Listed) (door target : Nat) : (t.aim door target).Listed := by
  rcases t.aim_cases door target with he | ⟨e, node, -, hnode, he⟩
  · rwa [he]
  · rw [he]
    exact (h.retarget e (Array.getElem?_eq_some_iff.1 hnode).1).setFar door node.scene node.name

theorem Listed.exchange (h : t.Listed) (x y : Nat) : (t.exchange x y).Listed := by
  have aims (ms : List (Nat × Nat)) {t : Topology} (h : t.Listed) :
      (ms.foldl (fun s m => s.aim m.1 m.2) t).Listed := by
    induction ms generalizing t with
    | nil => exact h
    | cons m ms ih => exact ih (h.aim m.1 m.2)
  rw [exchange_eq]
  exact aims _ h

theorem Loaded.listed (h : t.Loaded) : t.Listed := by
  induction h with
  | finalize h => exact listed_finalize h
  | exchange h x y ih => exact ih.exchange x y

theorem Loaded.indexed (h : t.Loaded) : t.Indexed := h.listed.toIndexed

theorem Listed.source_lt (h : t.Listed) (hedge : t.edges[e]? = some edge) :
    edge.source < t.nodes.size := by
  have hout : e ∈ t.out edge.source := h.mem_out.2 ⟨edge, hedge, rfl⟩
  rw [← h.size_outgoing]
  by_contra hlt
  rw [out, Array.getElem?_eq_none (Nat.le_of_not_lt hlt)] at hout
  cases hout

theorem Loaded.source_lt (h : t.Loaded) (hedge : t.edges[e]? = some edge) :
    edge.source < t.nodes.size :=
  h.listed.source_lt hedge

def Joined (t : Topology) (p : Nat → Prop) (a b : Nat) : Prop :=
  ∃ e edge, p e ∧ t.edges[e]? = some edge ∧
    (edge.source = a ∧ edge.target = b ∨ edge.source = b ∧ edge.target = a)

instance : Std.Symm (t.Joined p) where
  symm _ _ := fun ⟨e, edge, hp, hedge, hends⟩ => ⟨e, edge, hp, hedge, hends.symm⟩

theorem Listed.lt_of_joined (h : t.Listed) {a b : Nat} (hj : t.Joined p a b) :
    b < t.nodes.size := by
  obtain ⟨e, edge, -, hedge, ⟨-, rfl⟩ | ⟨rfl, -⟩⟩ := hj
  · exact h.target_lt hedge
  · exact h.source_lt hedge

end Topology

def Gates.MayOpen (g : Gates) (e : Nat) : Prop := g.isFalse e = false

theorem mem_neighbours {t : Topology} {g : Gates} {n m : Nat} (h : t.Listed) :
    m ∈ neighbours t g n ↔ t.Joined g.MayOpen n m := by
  rw [neighbours, List.mem_filterMap]
  constructor
  · rintro ⟨e, he, hm⟩
    split at hm
    · cases hm
    · rename_i hopen
      obtain ⟨edge, hedge, rfl⟩ := Option.map_eq_some_iff.1 hm
      refine ⟨e, edge, Bool.eq_false_iff.2 hopen, hedge, ?_⟩
      split
      · rename_i hs
        exact Or.inl ⟨hs, rfl⟩
      · rename_i hs
        refine Or.inr ⟨rfl, ?_⟩
        rcases List.mem_append.1 he with he | he
        · obtain ⟨edge', hedge', hs'⟩ := h.mem_out.1 he
          obtain rfl := Option.some.inj (hedge.symm.trans hedge')
          exact absurd hs' hs
        · obtain ⟨edge', hedge', ht⟩ := h.mem_into.1 he
          obtain rfl := Option.some.inj (hedge.symm.trans hedge')
          exact ht
  · rintro ⟨e, edge, hopen, hedge, ⟨rfl, rfl⟩ | ⟨rfl, rfl⟩⟩
    · refine ⟨e, List.mem_append_left _ (h.mem_out.2 ⟨edge, hedge, rfl⟩), ?_⟩
      rw [hopen, hedge]
      simp
    · refine ⟨e, List.mem_append_right _ (h.mem_into.2 ⟨edge, hedge, rfl⟩), ?_⟩
      rw [hopen, hedge]
      simp only [Bool.false_eq_true, if_false, Option.map_some, Option.some.injEq]
      split
      · rename_i hs
        exact hs.symm
      · rfl

end WorldShuffle

import Mathlib.Data.List.Nodup
import WorldShuffle.Proofs.Lists
import WorldShuffle.Proofs.Tables
import WorldShuffle.World.Finalize

namespace WorldShuffle

namespace Numbering

variable {κ : Type} [DecidableEq κ] {m : Numbering κ} {k : κ} {ks : List κ}

structure Exact (m : Numbering κ) : Prop where
  number? {k : κ} {n : Nat} : m.number? k = some n ↔ m.keys[n]? = some k

theorem exact_empty : (Numbering.mk [] {} : Numbering κ).Exact where
  number? := by simp [Numbering.number?, Table.get?]

theorem Exact.number?_eq_none (h : m.Exact) : m.number? k = none ↔ k ∉ m.keys := by
  rw [Option.eq_none_iff_forall_ne_some, List.mem_iff_getElem?, not_exists]
  simp only [ne_eq, h.number?]

theorem Exact.nodup (h : m.Exact) : m.keys.Nodup := by
  refine List.nodup_iff_getElem?_ne_getElem?.2 fun i j hij hj he => ?_
  have hj' := List.getElem?_eq_getElem hj
  have hnumber := (h.number?.2 (he.trans hj')).symm.trans (h.number?.2 hj')
  exact Nat.ne_of_lt hij (Option.some.inj hnumber)

theorem add_new (h : m.number? k = none) :
    (m.add k).1 = ⟨m.keys ++ [k], m.numbers.set k m.keys.length⟩ := by
  rw [add, h]

theorem Exact.add (h : m.Exact) (hk : k ∉ m.keys) : (m.add k).1.Exact where
  number? {q n} := by
    rw [add_new (h.number?_eq_none.2 hk), Numbering.number?, Table.get?_set, List.getElem?_append]
    by_cases hq : q = k
    · subst hq
      rw [if_pos rfl]
      split
      · rename_i hlt
        refine iff_of_false (fun he => ?_) fun he => hk (List.mem_of_getElem? he)
        exact Nat.lt_irrefl _ (Option.some.inj he ▸ hlt)
      · rw [List.getElem?_singleton]
        split
        · exact iff_of_true (congrArg some (by omega)) rfl
        · exact iff_of_false (fun he => by have := Option.some.inj he; omega) (by simp)
    · rw [if_neg hq]
      change m.number? q = some n ↔ _
      rw [h.number?]
      split
      · exact Iff.rfl
      · rename_i hle
        rw [List.getElem?_eq_none (Nat.le_of_not_lt hle), List.getElem?_singleton]
        refine iff_of_false nofun ?_
        split
        · exact fun he => hq (Option.some.inj he).symm
        · nofun

theorem keys_add (h : m.Exact) (hk : k ∉ m.keys) : (m.add k).1.keys = m.keys ++ [k] := by
  rw [add_new (h.number?_eq_none.2 hk)]

def ofKeys (ks : List κ) : Numbering κ := ks.foldl (fun m k => (m.add k).1) {}

theorem exact_foldl_add (h : m.Exact) (hks : (m.keys ++ ks).Nodup) :
    (ks.foldl (fun m k => (m.add k).1) m).Exact ∧
      (ks.foldl (fun m k => (m.add k).1) m).keys = m.keys ++ ks := by
  induction ks generalizing m with
  | nil => exact ⟨h, (List.append_nil _).symm⟩
  | cons k ks ih =>
    have hk : k ∉ m.keys := fun hmem =>
      (List.nodup_append.1 hks).2.2 k hmem k List.mem_cons_self rfl
    rw [List.append_cons, ← keys_add h hk] at hks ⊢
    exact ih (h.add hk) hks

theorem exact_ofKeys (h : ks.Nodup) : (ofKeys ks).Exact ∧ (ofKeys ks).keys = ks :=
  exact_foldl_add exact_empty h

end Numbering

namespace Topology

variable {t u : Topology} {n : Nat} {scene : SceneId} {name : String} {node : Node}
  {ps : List (Node × Nat)}

def keys (t : Topology) : List (SceneId × String) := t.nodes.toList.map Node.key

def file (m : Table SceneId (List Nat)) (p : (SceneId × String) × Nat) : Table SceneId (List Nat) :=
  m.set p.1.1 ((m.get? p.1.1).getD [] ++ [p.2])

def fileScenes (ks : List (SceneId × String)) : Table SceneId (List Nat) := ks.zipIdx.foldl file {}

/-- The world with its inner edges only, with its nodes entered into the indexes and with empty lists
of edges. -/
def unlinked (t : Topology) : Topology :=
  { t with
    edges := t.edges.filter (·.kind = .inner)
    names := .ofKeys t.keys
    byScene := fileScenes t.keys
    incoming := Array.replicate t.nodes.size []
    outgoing := Array.replicate t.nodes.size [] }

def links (t : Topology) : List Edge := t.nodeIndexes.filterMap t.linkFrom?

/-- By node, those of the first `k` edges that have it on the given side. -/
def ends (t : Topology) (side : Edge → Nat) (k : Nat) : Array (List Nat) :=
  (Array.range t.nodes.size).map fun n =>
    (List.range k).filter fun e => t.edges[e]?.any (side · = n)

def withAdjacency (t : Topology) : Topology :=
  { t with
    incoming := t.ends Edge.target t.edges.size
    outgoing := t.ends Edge.source t.edges.size }

def linked (t : Topology) : Topology := { t with edges := t.edges ++ t.links.toArray }.withAdjacency

theorem nodup_of_enterNodes (h : t.names.Exact) (hnodup : t.names.keys.Nodup)
    (hok : (enterNodes ps t).2 = none) : (t.names.keys ++ ps.map (·.1.key)).Nodup := by
  induction ps generalizing t with
  | nil => simpa using hnodup
  | cons p ps ih =>
    rw [enterNodes] at hok
    split at hok
    · cases hok
    · rename_i hnew
      have hk : p.1.key ∉ t.names.keys := h.number?_eq_none.1 hnew
      have hkeys : (t.enter p.2 p.1).names.keys = t.names.keys ++ [p.1.key] :=
        Numbering.keys_add h hk
      have hrest := ih (h.add hk) (hkeys ▸ List.nodup_append_comm.2 (List.nodup_cons.2 ⟨hk, hnodup⟩))
        hok
      rwa [hkeys, ← List.append_cons] at hrest

theorem enterNodes_eq (h : t.names.Exact) (hnodup : (t.names.keys ++ ps.map (·.1.key)).Nodup) :
    enterNodes ps t = (ps.foldl (fun t p => t.enter p.2 p.1) t, none) := by
  induction ps generalizing t with
  | nil => rfl
  | cons p ps ih =>
    have hk : p.1.key ∉ t.names.keys := fun hmem =>
      (List.nodup_append.1 hnodup).2.2 _ hmem _ List.mem_cons_self rfl
    have hkeys : (t.enter p.2 p.1).names.keys = t.names.keys ++ [p.1.key] :=
      Numbering.keys_add h hk
    have hnew : t.nodeNamed? p.1.scene p.1.name = none := h.number?_eq_none.2 hk
    rw [List.map_cons, List.append_cons, ← hkeys] at hnodup
    rw [enterNodes, hnew]
    exact ih (h.add hk) hnodup

theorem foldl_enter (ps : List (Node × Nat)) (t : Topology) :
    ps.foldl (fun t p => t.enter p.2 p.1) t =
      { t with
        names := (ps.map (·.1.key)).foldl (fun m k => (m.add k).1) t.names
        byScene := (ps.map (Prod.map Node.key id)).foldl file t.byScene
        incoming := (ps.map Prod.snd).foldl (·.setIfInBounds · []) t.incoming
        outgoing := (ps.map Prod.snd).foldl (·.setIfInBounds · []) t.outgoing } := by
  induction ps generalizing t with
  | nil => rfl
  | cons p ps ih =>
    rw [List.foldl_cons, ih]
    rfl

theorem keys_zipIdx (t : Topology) : t.nodes.toList.zipIdx.map (·.1.key) = t.keys := by
  have hfst := congrArg (List.map Node.key) (List.zipIdx_map_fst 0 t.nodes.toList)
  rwa [List.map_map] at hfst

theorem foldl_enter_emptied (t : Topology) :
    t.nodes.toList.zipIdx.foldl (fun t p => t.enter p.2 p.1) t.emptied = t.unlinked := by
  have hclear (lists : Array (List Nat)) (hsize : lists.size = t.nodes.size) :
      (t.nodes.toList.zipIdx.map Prod.snd).foldl (·.setIfInBounds · []) lists =
        Array.replicate t.nodes.size [] := by
    apply Array.ext_getElem?
    intro j
    rw [Array.getElem?_foldl_setIfInBounds, List.zipIdx_map_snd, Array.getElem?_replicate, hsize]
    by_cases hj : j < t.nodes.size
    · simp [hj]
    · simp [hj, hsize]
  rw [foldl_enter, hclear _ (by simp [emptied]), hclear _ (by simp [emptied]), keys_zipIdx,
    ← List.zipIdx_map]
  rfl

theorem foldl_addLink (ns : List Nat) (t : Topology) : ns.foldl addLink t =
    { t with edges := t.edges ++ (ns.filterMap t.linkFrom?).toArray } := by
  induction ns generalizing t with
  | nil => simp
  | cons n ns ih =>
    have hsame : (t.addLink n).linkFrom? = t.linkFrom? := by
      rw [addLink]
      split <;> rfl
    rw [List.foldl_cons, ih, hsame, addLink]
    cases hlink : t.linkFrom? n with
    | none => rw [List.filterMap_cons_none hlink]
    | some edge =>
      rw [List.filterMap_cons_some hlink]
      simp

theorem ends_zero (t : Topology) (side : Edge → Nat) :
    t.ends side 0 = Array.replicate t.nodes.size [] := by
  simp [ends, Array.ext_iff]

theorem ends_succ {side : Edge → Nat} {k : Nat} {edge : Edge} (h : t.edges[k]? = some edge) :
    t.ends side (k + 1) = (t.ends side k).modify (side edge) (· ++ [k]) := by
  apply Array.ext_getElem?
  intro n
  rw [Array.getElem?_modify, ends, ends, Array.getElem?_map, Array.getElem?_map, List.range_succ,
    Array.getElem?_range]
  by_cases hn : n < t.nodes.size
  · by_cases hside : side edge = n
    · simp [hn, hside, h, List.filter_append]
    · simp [hn, hside, h, List.filter_append]
  · simp [hn]

theorem foldl_attach {k : Nat} (hk : k ≤ t.edges.size)
    (hin : t.incoming = t.ends Edge.target 0) (hout : t.outgoing = t.ends Edge.source 0) :
    (List.range k).foldl attach t =
      { t with incoming := t.ends Edge.target k, outgoing := t.ends Edge.source k } := by
  induction k with
  | zero => rw [← hin, ← hout]; rfl
  | succ k ih =>
    have hedge : t.edges[k]? = some t.edges[k] := Array.getElem?_eq_getElem hk
    rw [List.range_succ, List.foldl_concat, ih (Nat.le_of_succ_le hk), ends_succ hedge,
      ends_succ hedge, attach]
    simp only [hedge]

theorem passes_unlinked (t : Topology) :
    let v := t.unlinked.nodeIndexes.foldl addLink t.unlinked
    v.edgeIndexes.foldl attach v = t.unlinked.linked := by
  intro v
  have hv : v = { t.unlinked with edges := t.unlinked.edges ++ t.unlinked.links.toArray } :=
    foldl_addLink _ _
  rw [edgeIndexes, foldl_attach (Nat.le_refl _), hv]
  · rfl
  · rw [ends_zero, hv]
    rfl
  · rw [ends_zero, hv]
    rfl

theorem fault?_eq_none : t.fault? = none ↔ t.start < t.nodes.size ∧
    ∀ (e : Nat) (edge : Edge), t.edges[e]? = some edge → t.edgeFault? e edge = none := by
  rw [fault?, ← Nat.not_le]
  by_cases hstart : t.nodes.size ≤ t.start
  · rw [if_pos hstart]
    exact iff_of_false nofun fun h => h.1 hstart
  · rw [if_neg hstart, List.findSome?_eq_none_iff]
    simp only [Prod.forall, List.mem_zipIdx_iff_getElem?, Array.getElem?_toList]
    exact ⟨fun h => ⟨hstart, fun e edge he => h edge e he⟩, fun h edge e he => h.2 e edge he⟩

theorem refresh_eq (hkeys : t.keys.Nodup) : t.refresh =
    (if t.unlinked.fault?.isSome then t.unlinked else t.unlinked.linked, t.unlinked.fault?) := by
  have hentered : enterNodes t.nodes.toList.zipIdx t.emptied = (t.unlinked, none) := by
    rw [← foldl_enter_emptied]
    exact enterNodes_eq Numbering.exact_empty (by rwa [keys_zipIdx])
  simp only [refresh, hentered, ← passes_unlinked]
  cases t.unlinked.fault? with
  | some fault => rfl
  | none => rfl

theorem finalize_eq_ok {t₀ : Topology} (h : t₀.finalize = .ok t) :
    t₀.keys.Nodup ∧ t₀.start < t₀.nodes.size ∧
      (∀ (e : Nat) (edge : Edge), t₀.unlinked.edges[e]? = some edge →
        t₀.unlinked.edgeFault? e edge = none) ∧
      t = t₀.unlinked.linked := by
  have hkeys : t₀.keys.Nodup := by
    have hok : (enterNodes t₀.nodes.toList.zipIdx t₀.emptied).2 = none := by
      rw [finalize, refresh] at h
      cases hentered : enterNodes t₀.nodes.toList.zipIdx t₀.emptied with
      | mk u fault =>
        cases fault with
        | none => rfl
        | some fault =>
          rw [hentered] at h
          cases h
    rw [← keys_zipIdx]
    exact nodup_of_enterNodes Numbering.exact_empty List.nodup_nil hok
  rw [finalize, refresh_eq hkeys] at h
  cases hfault : t₀.unlinked.fault? with
  | some fault =>
    rw [hfault] at h
    cases h
  | none =>
    rw [hfault] at h
    obtain ⟨hstart, hedges⟩ := fault?_eq_none.1 hfault
    exact ⟨hkeys, hstart, hedges, (Except.ok.inj h).symm⟩

theorem finalize_eq (hkeys : t.keys.Nodup) (hstart : t.start < t.nodes.size)
    (hfault : ∀ e edge, t.unlinked.edges[e]? = some edge → t.unlinked.edgeFault? e edge = none) :
    t.finalize = .ok t.unlinked.linked := by
  have hnone : t.unlinked.fault? = none := fault?_eq_none.2 ⟨hstart, hfault⟩
  have hrefresh : t.refresh = (t.unlinked.linked, none) := by simp [refresh_eq hkeys, hnone]
  rw [finalize, hrefresh]

structure Filed (t : Topology) : Prop where
  nodup : t.keys.Nodup
  names : t.names = .ofKeys t.keys
  byScene : t.byScene = fileScenes t.keys

theorem filed_unlinked (h : t.keys.Nodup) : t.unlinked.Filed := ⟨h, rfl, rfl⟩

theorem filed_finalize {t₀ : Topology} (h : t₀.finalize = .ok t) : t.Filed := by
  obtain ⟨hkeys, -, -, rfl⟩ := finalize_eq_ok h
  exact ⟨hkeys, rfl, rfl⟩

theorem finalize_congr (h : t.unlinked = u.unlinked) {v : Topology} (ht : t.finalize = .ok v) :
    u.finalize = .ok v := by
  obtain ⟨hkeys, hstart, hfault, rfl⟩ := finalize_eq_ok ht
  have hnodes : t.nodes = u.nodes := congrArg (·.nodes) h
  have hstart' : t.start = u.start := congrArg (·.start) h
  rw [h] at hfault ⊢
  refine finalize_eq ?_ (hstart' ▸ hnodes ▸ hstart) hfault
  rwa [keys, ← hnodes]

theorem getElem?_keys (t : Topology) (n : Nat) : t.keys[n]? = (t.node? n).map Node.key := by
  rw [keys, List.getElem?_map, Array.getElem?_toList]
  rfl

section scenes

variable {ks : List (SceneId × String)} {ps : List ((SceneId × String) × Nat)}
  {m : Table SceneId (List Nat)}

theorem get?_foldl_file : ((ps.foldl file m).get? scene).getD [] =
    (m.get? scene).getD [] ++ (ps.filter (·.1.1 = scene)).map Prod.snd := by
  induction ps generalizing m with
  | nil => simp
  | cons p ps ih =>
    rw [List.foldl_cons, ih, file, Table.get?_set]
    by_cases hp : scene = p.1.1
    · simp [hp]
    · simp [hp, Ne.symm hp]

theorem mem_keys_foldl_file :
    scene ∈ (ps.foldl file m).keys ↔ scene ∈ m.keys ∨ ∃ p ∈ ps, p.1.1 = scene := by
  induction ps generalizing m with
  | nil => simp
  | cons p ps ih =>
    rw [List.foldl_cons, ih, ← Table.has_iff, file, Table.has_set, ← Table.has_iff]
    simp only [Bool.or_eq_true, decide_eq_true_eq, List.exists_mem_cons_iff]
    tauto

theorem nodup_keys_foldl_file (h : m.keys.Nodup) : (ps.foldl file m).keys.Nodup := by
  induction ps generalizing m with
  | nil => exact h
  | cons p ps ih => exact ih (Table.nodup_keys_set h)

theorem mem_keys_fileScenes : scene ∈ (fileScenes ks).keys ↔ scene ∈ ks.map Prod.fst := by
  have hscenes : ks.zipIdx.map (·.1.1) = ks.map Prod.fst := by
    have hfst := congrArg (List.map Prod.fst) (List.zipIdx_map_fst 0 ks)
    rwa [List.map_map] at hfst
  rw [fileScenes, mem_keys_foldl_file, ← List.mem_map, hscenes]
  exact or_iff_right List.not_mem_nil

theorem get?_fileScenes (ks : List (SceneId × String)) (scene : SceneId) :
    ((fileScenes ks).get? scene).getD [] =
      (List.range ks.length).filter fun n => ks[n]?.any (·.1 = scene) := by
  have hsnd : List.range ks.length = ks.zipIdx.map Prod.snd := by
    rw [List.zipIdx_map_snd, List.range_eq_range']
  rw [fileScenes, get?_foldl_file, hsnd, List.filter_map]
  refine congrArg (List.map Prod.snd) (List.filter_congr fun p hp => ?_)
  rw [List.mem_zipIdx_iff_getElem?] at hp
  simp [hp]

end scenes

namespace Filed

theorem keys_names (h : t.Filed) : t.names.keys = t.keys := by
  rw [h.names, (Numbering.exact_ofKeys h.nodup).2]

theorem nodeNamed? (h : t.Filed) : t.nodeNamed? scene name = some n ↔
    ∃ node, t.node? n = some node ∧ node.scene = scene ∧ node.name = name := by
  obtain ⟨hexact, hkeys⟩ := Numbering.exact_ofKeys h.nodup
  rw [Topology.nodeNamed?, h.names, hexact.number?, hkeys, getElem?_keys, Option.map_eq_some_iff]
  simp only [Node.key, Prod.mk.injEq]

theorem nodeNamed?_self (h : t.Filed) (hn : t.node? n = some node) :
    t.nodeNamed? node.scene node.name = some n :=
  h.nodeNamed?.2 ⟨node, hn, rfl, rfl⟩

theorem mem_sceneNodes (h : t.Filed) :
    n ∈ t.sceneNodes scene ↔ ∃ node, t.node? n = some node ∧ node.scene = scene := by
  rw [sceneNodes, h.byScene, get?_fileScenes, List.mem_filter, List.mem_range, getElem?_keys,
    Option.any_map, Option.any_eq_true]
  constructor
  · rintro ⟨-, node, hnode, hscene⟩
    exact ⟨node, hnode, of_decide_eq_true hscene⟩
  · rintro ⟨node, hnode, hscene⟩
    have hlt := (Array.getElem?_eq_some_iff.1 hnode).1
    exact ⟨by rwa [keys, List.length_map], node, hnode, decide_eq_true hscene⟩

theorem sceneNodes_sorted (h : t.Filed) (scene : SceneId) :
    (t.sceneNodes scene).Pairwise (· < ·) := by
  rw [sceneNodes, h.byScene, get?_fileScenes]
  exact List.pairwise_lt_range.filter _

theorem scenes_sorted (h : t.Filed) : t.scenes.Pairwise (· < ·) := by
  have hle : t.scenes.Pairwise (· ≤ ·) := by
    refine (List.pairwise_mergeSort ?_ ?_ _).imp of_decide_eq_true
    · intro a b c hab hbc
      exact decide_eq_true (Int32.le_trans (of_decide_eq_true hab) (of_decide_eq_true hbc))
    · intro a b
      simpa using Int32.le_total a b
  have hnodup : t.scenes.Nodup := by
    rw [scenes, h.byScene]
    exact (List.mergeSort_perm _ _).nodup_iff.2 (nodup_keys_foldl_file List.nodup_nil)
  exact (hle.and hnodup).imp fun h => Int32.lt_of_le_of_ne h.1 h.2

theorem mem_scenes (h : t.Filed) :
    scene ∈ t.scenes ↔ ∃ n node, t.node? n = some node ∧ node.scene = scene := by
  rw [scenes, h.byScene, List.mem_mergeSort, mem_keys_fileScenes, List.mem_map]
  simp only [List.mem_iff_getElem?, getElem?_keys, Option.map_eq_some_iff]
  constructor
  · rintro ⟨k, ⟨n, node, hn, rfl⟩, rfl⟩
    exact ⟨n, node, hn, rfl⟩
  · rintro ⟨n, node, hn, rfl⟩
    exact ⟨node.key, ⟨n, node, hn, rfl⟩, rfl⟩

end Filed

end Topology

end WorldShuffle

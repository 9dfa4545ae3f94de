import WorldShuffle.Proofs.Exchanges
import WorldShuffle.Proofs.Leads

namespace WorldShuffle

def Node.leading (n : Node) : Option Node → Node
  | none => n
  | some far => n.setFar far.scene far.name

def Edge.leading (edge : Edge) : Option Nat → Edge
  | none => edge
  | some n => if edge.kind = .link then { edge with target := n } else edge

theorem Node.setFar_leading (n : Node) (was : Option Node) (scene : SceneId) (name : String) :
    (n.leading was).setFar scene name = n.setFar scene name := by
  cases was with
  | none => rfl
  | some was => obtain ⟨name, scene, position, _ | _⟩ := n <;> rfl

theorem Node.identity_leading (n : Node) (far : Option Node) :
    (n.leading far).scene = n.scene ∧ (n.leading far).name = n.name := by
  cases far with
  | none => exact ⟨rfl, rfl⟩
  | some far => obtain ⟨name, scene, position, _ | _⟩ := n <;> exact ⟨rfl, rfl⟩

theorem Edge.leading_inner {edge : Edge} (h : edge.kind ≠ .link) (far : Option Nat) :
    edge.leading far = edge := by
  cases far with
  | none => rfl
  | some n => exact if_neg h

theorem Edge.leading_link {edge : Edge} (h : edge.kind = .link) (n : Nat) :
    edge.leading (some n) = { edge with target := n } :=
  if_pos h

theorem Edge.ends_leading (edge : Edge) (far : Option Nat) :
    (edge.leading far).source = edge.source ∧ (edge.leading far).kind = edge.kind ∧
      (edge.leading far).scene = edge.scene := by
  by_cases h : edge.kind = .link
  · cases far with
    | none => exact ⟨rfl, rfl, rfl⟩
    | some n =>
      rw [Edge.leading_link h]
      exact ⟨rfl, rfl, rfl⟩
  · rw [Edge.leading_inner h]
    exact ⟨rfl, rfl, rfl⟩

theorem Edge.retarget_leading (edge : Edge) (far : Option Nat) (n : Nat) :
    ({ edge.leading far with target := n } : Edge) = { edge with target := n } := by
  by_cases h : edge.kind = .link
  · cases far with
    | none => rfl
    | some m => rw [Edge.leading_link h]
  · rw [Edge.leading_inner h]

theorem Edge.leading_leading (edge : Edge) (was : Option Nat) (n : Nat) :
    (edge.leading was).leading (some n) = edge.leading (some n) := by
  by_cases h : edge.kind = .link
  · cases was with
    | none => rfl
    | some m =>
      rw [Edge.leading_link h, Edge.leading_link h]
      exact if_pos h
  · rw [Edge.leading_inner h]

namespace Topology

variable {t s s' : Topology} {e n m door target x y : Nat} {edge : Edge} {node : Node}

theorem aim_frame (t : Topology) (door target : Nat) :
    (t.aim door target).outgoing = t.outgoing ∧ (t.aim door target).start = t.start ∧
      (t.aim door target).fixed = t.fixed ∧ (t.aim door target).names = t.names ∧
      (t.aim door target).byScene = t.byScene := by
  rw [aim]
  split
  · rw [retarget]
    split
    · exact ⟨rfl, rfl, rfl, rfl, rfl⟩
    · split <;> exact ⟨rfl, rfl, rfl, rfl, rfl⟩
  · exact ⟨rfl, rfl, rfl, rfl, rfl⟩

theorem linkEdge?_aim (t : Topology) (door target n : Nat) :
    (t.aim door target).linkEdge? n = t.linkEdge? n := by
  rcases t.aim_cases door target with h | ⟨e, node, hlink, hnode, h⟩
  · rw [h]
  · have hout : (t.aim door target).out n = t.out n := by
      rw [h]
      exact out_retarget t e target n
    have hkind : (t.aim door target).isKind .link = t.isKind .link := by
      funext k
      rw [isKind, isKind, edges_aim hlink hnode]
      by_cases hk : k = e
      · subst hk
        rw [if_pos rfl, Option.any_map]
      · rw [if_neg hk]
    rw [linkEdge?, linkEdge?, hout, hkind]

theorem Linked.farNode?_link (h : t.Linked) (hedge : t.edges[e]? = some edge)
    (hk : edge.kind = .link) : t.farNode? edge.source = some edge.target := by
  have hmem : e ∈ t.out edge.source := h.sound.mem_out.2 ⟨edge, hedge, rfl⟩
  have hkind : t.isKind .link e = true := by simp [isKind, hedge, hk]
  obtain ⟨e', hlink⟩ : ∃ e', t.linkEdge? edge.source = some e' :=
    Option.isSome_iff_exists.1 (List.find?_isSome.2 ⟨e, hmem, hkind⟩)
  obtain ⟨edge', hedge', hsource, hk'⟩ := linkEdge?_eq_some h.sound hlink
  obtain rfl := h.unique hedge' hedge hk' hk hsource
  rw [farNode?, hlink, Option.bind_some, target?, hedge, Option.map_some]

theorem Linked.farNode?_aim (h : t.Linked) (hdoor : t.farNode? door = some m)
    (htarget : t.node? target = some node) :
    (t.aim door target).farNode? = Function.update t.farNode? door (some target) := by
  obtain ⟨e, edge, hlink, hedge, hsource, -, -⟩ := link_of_farNode? h.sound hdoor
  have hedges := edges_aim hlink htarget
  funext n
  rw [farNode?, linkEdge?_aim]
  by_cases hn : n = door
  · subst hn
    rw [Function.update_self, hlink, Option.bind_some, target?, hedges, if_pos rfl, hedge]
    rfl
  · rw [Function.update_of_ne hn, farNode?]
    cases hlink' : t.linkEdge? n with
    | none => rfl
    | some e' =>
      obtain ⟨edge', hedge', hsource', -⟩ := linkEdge?_eq_some h.sound hlink'
      have hne : e' ≠ e := by
        rintro rfl
        obtain rfl := Option.some.inj (hedge.symm.trans hedge')
        exact hn (hsource'.symm.trans hsource)
      rw [Option.bind_some, Option.bind_some, target?, target?, hedges, if_neg hne]

/-- The world that comes of `t` when its doors lead where they lead in `s`. -/
structure Rerouted (t s : Topology) : Prop where
  linked : s.Linked
  node? (n : Nat) : s.node? n = (t.node? n).map (·.leading ((s.farNode? n).bind t.node?))
  edge? (e : Nat) : s.edges[e]? = (t.edges[e]?).map fun edge => edge.leading (s.farNode? edge.source)
  outgoing : s.outgoing = t.outgoing
  start : s.start = t.start
  fixed : s.fixed = t.fixed
  names : s.names = t.names
  byScene : s.byScene = t.byScene

theorem Rerouted.refl (h : t.Linked) : t.Rerouted t where
  linked := h
  node? n := by
    cases hfar : t.farNode? n with
    | none => cases t.node? n <;> rfl
    | some m =>
      obtain ⟨node, door, far, hnode, hdoor, hm, hscene, hname⟩ := h.names_farNode? hfar
      rw [hnode, Option.bind_some, hm, Option.map_some, Node.leading, hscene, hname]
      obtain ⟨name, scene, position, _ | _⟩ := node
      · cases hdoor
      · cases hdoor
        rfl
  edge? e := by
    cases hedge : t.edges[e]? with
    | none => rfl
    | some edge =>
      rw [Option.map_some]
      by_cases hk : edge.kind = .link
      · rw [h.farNode?_link hedge hk, Edge.leading, if_pos hk]
      · rw [Edge.leading_inner hk]
  outgoing := rfl
  start := rfl
  fixed := rfl
  names := rfl
  byScene := rfl

theorem Rerouted.identity (h : t.Rerouted s) (hn : t.node? n = some node) :
    ∃ node', s.node? n = some node' ∧ node'.scene = node.scene ∧ node'.name = node.name := by
  refine ⟨_, by rw [h.node?, hn, Option.map_some], ?_, ?_⟩
  · exact (node.identity_leading _).1
  · exact (node.identity_leading _).2

theorem Rerouted.aim (h : t.Rerouted s) (hdoor : s.farNode? door = some m)
    (htarget : t.node? target = some node) : t.Rerouted (s.aim door target) := by
  obtain ⟨node', hnode', hscene, hname⟩ := h.identity htarget
  obtain ⟨e, edge, hlink, hedge, hsource, -, hkind⟩ := link_of_farNode? h.linked.sound hdoor
  have hfar := h.linked.farNode?_aim hdoor hnode'
  have hother {n : Nat} (hn : n ≠ door) : (s.aim door target).farNode? n = s.farNode? n := by
    rw [hfar, Function.update_of_ne hn]
  constructor
  case linked => exact h.linked.aim door target
  case node? =>
    intro n
    rw [node?_aim hlink hnode', hscene, hname]
    by_cases hn : n = door
    · subst hn
      rw [if_pos rfl, hfar, Function.update_self, Option.bind_some, htarget, h.node?,
        Option.map_map]
      congr 1
      funext old
      exact old.setFar_leading _ node.scene node.name
    · rw [if_neg hn, hother hn]
      exact h.node? n
  case edge? =>
    intro k
    rw [edges_aim hlink hnode', h.edge?, h.edge?]
    cases hold : t.edges[k]? with
    | none =>
      by_cases hk : k = e
      · rw [if_pos hk, ← hk, hold]
        rfl
      · rw [if_neg hk]
        rfl
    | some old =>
      obtain ⟨hs, hkd, -⟩ := old.ends_leading (s.farNode? old.source)
      have hnow : s.edges[k]? = some (old.leading (s.farNode? old.source)) := by
        rw [h.edge?, hold, Option.map_some]
      by_cases hk : k = e
      · subst hk
        obtain rfl := Option.some.inj (hedge.symm.trans hnow)
        rw [if_pos rfl, hold, Option.map_some, Option.map_some, Option.map_some, ← hs, hsource,
          hfar, Function.update_self, Edge.leading_link (hkd.symm.trans hkind)]
        exact congrArg some (old.retarget_leading _ target)
      · rw [if_neg hk, Option.map_some, Option.map_some]
        by_cases hd : old.source = door
        · have hinner : old.kind ≠ .link := fun hl =>
            hk (h.linked.unique hnow hedge (hkd.trans hl) hkind (hs.trans (hd.trans hsource.symm)))
          rw [Edge.leading_inner hinner, Edge.leading_inner hinner]
        · rw [hother hd]
  case outgoing => exact (aim_frame s door target).1.trans h.outgoing
  case start => exact (aim_frame s door target).2.1.trans h.start
  case fixed => exact (aim_frame s door target).2.2.1.trans h.fixed
  case names => exact (aim_frame s door target).2.2.2.1.trans h.names
  case byScene => exact (aim_frame s door target).2.2.2.2.trans h.byScene

/-- Where its doors lead is all that such a world adds to the one it comes of. -/
theorem Rerouted.ext (h : t.Rerouted s) (h' : t.Rerouted s') (hfar : s.farNode? = s'.farNode?) :
    s.nodes = s'.nodes ∧ s.edges = s'.edges := by
  constructor
  · apply Array.ext_getElem?
    intro n
    change s.node? n = s'.node? n
    rw [h.node?, h'.node?, hfar]
  · apply Array.ext_getElem?
    intro e
    rw [h.edge?, h'.edge?, hfar]

theorem exchange_eq (t : Topology) (x y : Nat) :
    t.exchange x y = (Leads.moves t.farNode? (x, y)).foldl (fun s m => s.aim m.1 m.2) t := by
  cases hx : t.farNode? x with
  | none => rw [exchange, Leads.moves, hx]; rfl
  | some fx =>
    cases hy : t.farNode? y with
    | none => rw [exchange, Leads.moves, hx, hy]; rfl
    | some fy =>
      rw [exchange, Leads.moves_eq hx hy, hx, hy]
      simp only [leadsTo, beq_iff_eq, List.foldl_append, List.foldl_cons, List.foldl_nil]
      split_ifs <;> simp only [List.foldl_cons, List.foldl_nil]

theorem Rerouted.aims {ms : List (Nat × Nat)} (h : t.Rerouted s)
    (hms : ∀ m ∈ ms, (s.farNode? m.1).isSome ∧ (t.node? m.2).isSome) :
    t.Rerouted (ms.foldl (fun s m => s.aim m.1 m.2) s) ∧
      (ms.foldl (fun s m => s.aim m.1 m.2) s).farNode? = Leads.redirect s.farNode? ms := by
  induction ms generalizing s with
  | nil => exact ⟨h, rfl⟩
  | cons m ms ih =>
    obtain ⟨hdoor, htarget⟩ := hms m List.mem_cons_self
    obtain ⟨old, hold⟩ := Option.isSome_iff_exists.1 hdoor
    obtain ⟨node, hnode⟩ := Option.isSome_iff_exists.1 htarget
    obtain ⟨node', hnode', -⟩ := h.identity hnode
    have hfar := h.linked.farNode?_aim hold hnode'
    have hrest : ∀ m' ∈ ms, ((s.aim m.1 m.2).farNode? m'.1).isSome ∧ (t.node? m'.2).isSome := by
      intro m' hm'
      obtain ⟨hd, ht⟩ := hms m' (List.mem_cons_of_mem m hm')
      refine ⟨?_, ht⟩
      rw [hfar]
      by_cases he : m'.1 = m.1
      · rw [he, Function.update_self]
        rfl
      · rwa [Function.update_of_ne he]
    have hmoved := ih (h.aim hold hnode) hrest
    rw [hfar] at hmoved
    exact hmoved

theorem Rerouted.isSome_node? (h : t.Rerouted s) (n : Nat) :
    (s.node? n).isSome = (t.node? n).isSome := by
  rw [h.node?, Option.isSome_map]

theorem Rerouted.exchange (h : t.Rerouted s) (x y : Nat) :
    t.Rerouted (s.exchange x y) ∧ (s.exchange x y).farNode? = Leads.trade s.farNode? (x, y) := by
  have ends {n m : Nat} (hfar : s.farNode? n = some m) :
      (t.node? n).isSome ∧ (t.node? m).isSome := by
    obtain ⟨node, -, far, hnode, -, hfar, -⟩ := h.linked.names_farNode? hfar
    rw [← h.isSome_node?, ← h.isSome_node?, hnode, hfar]
    exact ⟨rfl, rfl⟩
  rw [exchange_eq]
  apply h.aims
  intro m hm
  refine ⟨Leads.isSome_of_mem_moves hm, ?_⟩
  obtain ⟨fx, fy, hx, hy, rfl | rfl | ⟨rfl, -⟩ | ⟨rfl, -⟩⟩ := Leads.mem_moves.1 hm
  · exact (ends hy).2
  · exact (ends hx).2
  · exact (ends hy).1
  · exact (ends hx).1

def exchanges (t : Topology) (ps : List (Nat × Nat)) : Topology :=
  ps.foldl (fun t p => t.exchange p.1 p.2) t

theorem Rerouted.exchanges (h : t.Rerouted s) (ps : List (Nat × Nat)) :
    t.Rerouted (s.exchanges ps) ∧ (s.exchanges ps).farNode? = Leads.trades s.farNode? ps := by
  induction ps generalizing s with
  | nil => exact ⟨h, rfl⟩
  | cons p ps ih =>
    obtain ⟨hrerouted, hfar⟩ := h.exchange p.1 p.2
    have hrest := ih hrerouted
    rw [hfar] at hrest
    exact hrest

theorem Rerouted.sceneOf (h : t.Rerouted s) (n : Nat) : s.sceneOf n = t.sceneOf n := by
  rw [Topology.sceneOf, Topology.sceneOf, h.node?, Option.map_map]
  congr 1
  funext node
  exact (node.identity_leading _).1

theorem Rerouted.target? (h : t.Rerouted s) (e : Nat) : s.target? e =
    (t.edges[e]?).map fun edge => (edge.leading (s.farNode? edge.source)).target := by
  rw [Topology.target?, h.edge?, Option.map_map]
  rfl

def retargets (e : Nat) : Topology → List (Nat × Nat) → Nat
  | _, [] => 0
  | t, p :: ps =>
    (if (t.exchange p.1 p.2).target? e = t.target? e then 0 else 1) +
      retargets e (t.exchange p.1 p.2) ps

theorem Rerouted.retargets_le (h : t.Rerouted s)
    (hsource : ∀ edge, t.edges[e]? = some edge → edge.source = n) (ps : List (Nat × Nat)) :
    retargets e s ps ≤ Leads.changes n s.farNode? ps := by
  induction ps generalizing s with
  | nil => exact Nat.le_refl 0
  | cons p ps ih =>
    obtain ⟨hnext, hfar⟩ := h.exchange p.1 p.2
    change _ = Leads.trade s.farNode? p at hfar
    have hrest := ih hnext
    rw [hfar] at hrest
    have hkept (hn : Leads.trade s.farNode? p n = s.farNode? n) :
        (s.exchange p.1 p.2).target? e = s.target? e := by
      rw [hnext.target?, h.target?, hfar]
      cases hedge : t.edges[e]? with
      | none => rfl
      | some edge => rw [Option.map_some, Option.map_some, hsource edge hedge, hn]
    rw [retargets, Leads.changes]
    by_cases hn : Leads.trade s.farNode? p n = s.farNode? n
    · rw [if_pos hn, if_pos (hkept hn)]
      omega
    · rw [if_neg hn]
      split <;> omega

/-- Of exchanges that do not meet, at most one leads a given edge elsewhere. -/
theorem Linked.retargets_le_one {ps : List (Nat × Nat)} (h : t.Linked)
    (hps : ps.Pairwise (Leads.Apart t.farNode?)) (e : Nat) : retargets e t ps ≤ 1 := by
  have hbound (n : Nat) := Leads.changes_le_one hps n
  cases hedge : t.edges[e]? with
  | none =>
    refine ((Rerouted.refl h).retargets_le (n := 0) ?_ ps).trans (hbound 0)
    intro edge he
    rw [hedge] at he
    cases he
  | some edge =>
    refine ((Rerouted.refl h).retargets_le (n := edge.source) ?_ ps).trans (hbound _)
    intro edge' he
    rw [hedge] at he
    rw [Option.some.inj he]

/-- The world with nothing left in it of where its doors lead. -/
def blank (t : Topology) : Topology :=
  { t with
    nodes := t.nodes.map (·.setFar 0 "")
    edges := t.edges.map (·.leading (some 0))
    incoming := #[] }

theorem Rerouted.blank (h : t.Rerouted s) : s.blank = t.blank := by
  have hnodes : s.nodes.map (·.setFar 0 "") = t.nodes.map (·.setFar 0 "") := by
    apply Array.ext_getElem?
    intro n
    have hn := h.node? n
    rw [Topology.node?, Topology.node?] at hn
    rw [Array.getElem?_map, Array.getElem?_map, hn, Option.map_map]
    congr 1
    funext node
    exact node.setFar_leading _ 0 ""
  have hedges : s.edges.map (·.leading (some 0)) = t.edges.map (·.leading (some 0)) := by
    apply Array.ext_getElem?
    intro e
    rw [Array.getElem?_map, Array.getElem?_map, h.edge?, Option.map_map]
    congr 1
    funext edge
    exact edge.leading_leading _ 0
  rw [Topology.blank, hnodes, hedges, h.outgoing, h.start, h.fixed, h.names, h.byScene]
  rfl

theorem Rerouted.nodeNamed? (h : t.Rerouted s) (scene : SceneId) (name : String) :
    s.nodeNamed? scene name = t.nodeNamed? scene name := by
  rw [Topology.nodeNamed?, Topology.nodeNamed?, h.names]

theorem Rerouted.sceneNodes (h : t.Rerouted s) (scene : SceneId) :
    s.sceneNodes scene = t.sceneNodes scene := by
  rw [Topology.sceneNodes, Topology.sceneNodes, h.byScene]

theorem Rerouted.key? (h : t.Rerouted s) (n : Nat) :
    (s.node? n).map Node.key = (t.node? n).map Node.key := by
  rw [h.node?, Option.map_map]
  congr 1
  funext node
  exact Prod.ext (node.identity_leading _).1 (node.identity_leading _).2

theorem Rerouted.keys (h : t.Rerouted s) : s.keys = t.keys := by
  apply List.ext_getElem?
  intro n
  rw [getElem?_keys, getElem?_keys, h.key?]

/-- Nodes keep their scenes and names, so that the indexes go on to be right. -/
theorem Filed.rerouted (ht : t.Filed) (h : t.Rerouted s) : s.Filed where
  nodup := h.keys ▸ ht.nodup
  names := by rw [h.names, h.keys, ht.names]
  byScene := by rw [h.byScene, h.keys, ht.byScene]

theorem Loaded.filed (h : t.Loaded) : t.Filed := by
  induction h with
  | finalize h => exact filed_finalize h
  | exchange h x y ih => exact ih.rerouted ((Rerouted.refl h.linked).exchange x y).1

theorem Loaded.nodeNamed? (h : t.Loaded) (hn : t.node? n = some node) :
    t.nodeNamed? node.scene node.name = some n :=
  h.filed.nodeNamed?_self hn

theorem isFixedDoor_eq {d : Door} (hn : t.node? n = some node) (hd : node.door? = some d) :
    t.isFixedDoor n = true ↔
      (node.scene, d.farScene) ∈ t.fixed ∨ (d.farScene, node.scene) ∈ t.fixed := by
  have hdoor : t.door? n = some d := by rw [door?, hn, Option.bind_some, hd]
  rw [isFixedDoor, hn, hdoor]
  simp only [List.any_eq_true, Prod.exists, Bool.or_eq_true, decide_eq_true_eq, Prod.mk.injEq]
  constructor
  · rintro ⟨a, b, hmem, ⟨rfl, rfl⟩ | ⟨rfl, rfl⟩⟩
    · exact Or.inl hmem
    · exact Or.inr hmem
  · rintro (hmem | hmem)
    · exact ⟨_, _, hmem, Or.inl ⟨rfl, rfl⟩⟩
    · exact ⟨_, _, hmem, Or.inr ⟨rfl, rfl⟩⟩

theorem Linked.isFixedDoor_back (h : t.Linked) (hfar : t.farNode? n = some m)
    (hback : t.farNode? m = some n) : t.isFixedDoor m = true ↔ t.isFixedDoor n = true := by
  obtain ⟨node, door, far, hn, hdoor, hm, hscene, -⟩ := h.names_farNode? hfar
  obtain ⟨node', door', far', hm', hdoor', hn', hscene', -⟩ := h.names_farNode? hback
  obtain rfl := Option.some.inj (hn.symm.trans hn')
  obtain rfl := Option.some.inj (hm.symm.trans hm')
  rw [isFixedDoor_eq hn hdoor, isFixedDoor_eq hm hdoor', hscene, hscene']
  exact Or.comm

theorem Loaded.exchanges (h : t.Loaded) (ps : List (Nat × Nat)) : (t.exchanges ps).Loaded := by
  induction ps generalizing t with
  | nil => exact h
  | cons p ps ih => exact ih (h.exchange p.1 p.2)

/-- In a loaded world the far identity of each door with a link names the node the link leads to. -/
theorem Loaded.nodeNamed?_far (h : t.Loaded) (hfar : t.farNode? n = some m) :
    ∃ d, t.door? n = some d ∧ t.nodeNamed? d.farScene d.farName = some m := by
  obtain ⟨node, d, far, hn, hd, hm, hscene, hname⟩ := h.linked.names_farNode? hfar
  refine ⟨d, ?_, ?_⟩
  · rw [door?, hn, Option.bind_some, hd]
  · rw [← hscene, ← hname]
    exact h.nodeNamed? hm

end Topology

end WorldShuffle

import WorldShuffle.Proofs.Rebuilding
import WorldShuffle.Proofs.Rejoining

namespace WorldShuffle

namespace Topology

inductive Rewire
  | retarget (e target : Nat)
  | setFar (n : Nat) (scene : SceneId) (name : String)
  | exchange (x y : Nat)

def Rewire.apply (t : Topology) : Rewire → Topology
  | .retarget e target => t.retarget e target
  | .setFar n scene name => t.setFar n scene name
  | .exchange x y => t.exchange x y

def Rewire.InRange (t : Topology) : Rewire → Prop
  | .retarget e target => e < t.edges.size ∧ target < t.nodes.size
  | .setFar _ _ _ => True
  | .exchange _ _ => True

def rewire (t : Topology) (cs : List Rewire) : Topology := cs.foldl Rewire.apply t

variable {t s : Topology} {n : Nat} {node : Node} {c : Rewire} {cs : List Rewire}

theorem Rewire.sameFrame (t : Topology) (c : Rewire) : t.SameFrame (c.apply t) := by
  cases c with
  | retarget e target => exact sameFrame_retarget t e target
  | setFar n scene name => exact sameFrame_setFar t n scene name
  | exchange x y => exact sameFrame_exchange t x y

theorem Rewire.InRange.frame (h : c.InRange t) (hf : t.SameFrame s) : c.InRange s := by
  cases c with
  | retarget e target => exact ⟨hf.edges ▸ h.1, hf.nodes ▸ h.2⟩
  | setFar | exchange => trivial

theorem Listed.apply (h : t.Listed) (hc : c.InRange t) : (c.apply t).Listed := by
  cases c with
  | retarget e target => exact h.retarget e hc.2
  | setFar n scene name => exact h.setFar n scene name
  | exchange x y => exact h.exchange x y

theorem Listed.rewire (h : t.Listed) (hcs : ∀ c ∈ cs, c.InRange t) :
    (t.rewire cs).Listed ∧ t.SameFrame (t.rewire cs) := by
  induction cs generalizing t with
  | nil => exact ⟨h, .refl t⟩
  | cons c cs ih =>
    have hf := c.sameFrame t
    obtain ⟨hlisted, hrest⟩ := ih (h.apply (hcs c List.mem_cons_self)) fun c' hc' =>
      (hcs c' (List.mem_cons_of_mem c hc')).frame hf
    exact ⟨hlisted, hf.trans hrest⟩

theorem rewire_exchanges (t : Topology) (ps : List (Nat × Nat)) :
    t.rewire (ps.map fun p => .exchange p.1 p.2) = t.exchanges ps := by
  rw [rewire, List.foldl_map]
  rfl

structure Resolved (t : Topology) : Prop where
  target {e : Nat} {edge : Edge} : t.edges[e]? = some edge → edge.kind = .link →
    ∃ d, t.door? edge.source = some d ∧ t.nodeNamed? d.farScene d.farName = some edge.target
  isSome_linkEdge? {n : Nat} {d : Door} : t.door? n = some d →
    (t.linkEdge? n).isSome = (t.nodeNamed? d.farScene d.farName).isSome

theorem Loaded.farNode?_linkFrom? {edge : Edge} (h : t.Loaded) (hlink : t.linkFrom? n = some edge) :
    t.farNode? n = some edge.target := by
  obtain ⟨inner, hedges, -⟩ := h.edges_eq
  have hmem : edge ∈ t.edges := by
    rw [hedges, Array.mem_append, links]
    refine .inr (List.mem_toArray.2 (List.mem_filterMap.2 ⟨n, ?_, hlink⟩))
    obtain ⟨node, hn, -⟩ := Option.bind_eq_some_iff.1 hlink
    exact List.mem_range.2 (Array.getElem?_eq_some_iff.1 hn).1
  have hkind : edge.kind = .link := by
    obtain ⟨node, -, hlink⟩ := Option.bind_eq_some_iff.1 hlink
    obtain ⟨door, -, hlink⟩ := Option.bind_eq_some_iff.1 hlink
    obtain ⟨far, -, hlink⟩ := Option.bind_eq_some_iff.1 hlink
    obtain rfl := Option.some.inj hlink
    rfl
  obtain ⟨e, hedge⟩ := Array.mem_iff_getElem?.1 hmem
  rw [← source_linkFrom? hlink]
  exact h.linked.farNode?_link hedge hkind

/-- A door leads to the node that its far identity names, and nowhere if there is none. -/
theorem Loaded.farNode?_eq {d : Door} (h : t.Loaded) (hd : t.door? n = some d) :
    t.farNode? n = t.nodeNamed? d.farScene d.farName := by
  cases hfar : t.farNode? n with
  | some m =>
    obtain ⟨d', hd', hnamed⟩ := h.nodeNamed?_far hfar
    obtain rfl := Option.some.inj (hd.symm.trans hd')
    exact hnamed.symm
  | none =>
    cases hnamed : t.nodeNamed? d.farScene d.farName with
    | none => rfl
    | some m =>
      obtain ⟨node, hn, hdoor⟩ := Option.bind_eq_some_iff.1 hd
      cases hfar.symm.trans (h.farNode?_linkFrom? (linkFrom?_eq hn hdoor hnamed))

theorem Linked.isSome_farNode? (h : t.Linked) (n : Nat) :
    (t.farNode? n).isSome = (t.linkEdge? n).isSome := by
  cases hlink : t.linkEdge? n with
  | none => rw [farNode?, hlink, Option.bind_none]
  | some e =>
    obtain ⟨edge, hedge, rfl, hkind⟩ := linkEdge?_eq_some h.sound hlink
    rw [h.farNode?_link hedge hkind, Option.isSome_some, Option.isSome_some]

theorem Loaded.resolved (h : t.Loaded) : t.Resolved where
  target hedge hkind := h.nodeNamed?_far (h.linked.farNode?_link hedge hkind)
  isSome_linkEdge? hd := by rw [← h.linked.isSome_farNode?, h.farNode?_eq hd]

/-- Retargeting, renaming far sides and exchanges keep the lists of edges right; exchanges alone leave
the world as finalizing makes it. -/
theorem rewire_listed {t₀ : Topology} (h : t₀.finalize = .ok t) (hcs : ∀ c ∈ cs, c.InRange t) :
    (∀ ds, ds <+: cs → (t.rewire ds).Listed ∧ (t.rewire ds).outgoing = t.outgoing) ∧
    ∀ ps : List (Nat × Nat), cs = ps.map (fun p => .exchange p.1 p.2) →
      let s := t.rewire cs
      s.Resolved ∧ ∃ s', s.finalize = .ok s' ∧ s'.nodes = s.nodes ∧ s'.edges = s.edges ∧
        s'.start = s.start ∧ s'.fixed = s.fixed ∧ s'.outgoing = s.outgoing ∧
        s'.names = s.names ∧ s'.byScene = s.byScene ∧
        s'.incoming.size = s.incoming.size ∧ ∀ n, (s'.into n).Perm (s.into n) := by
  have hloaded : t.Loaded := .finalize h
  constructor
  · intro ds hds
    obtain ⟨hlisted, hframe⟩ := hloaded.listed.rewire fun c hc => hcs c (hds.subset hc)
    exact ⟨hlisted, hframe.outgoing⟩
  · rintro ps rfl s
    have hs : s.Loaded := by
      rw [show s = t.exchanges ps from rewire_exchanges t ps]
      exact hloaded.exchanges ps
    obtain ⟨s', hagain, hnodes, hedges, hstart, hfixed, hout, hnames, hscenes, hinto⟩ :=
      hs.finalize_stored
    have hagain := finalize_congr (t := s.stored) (u := s) rfl hagain
    refine ⟨hs.resolved, s', hagain, hnodes, hedges, hstart, hfixed, hout, hnames, hscenes, ?_, hinto⟩
    rw [(Loaded.finalize hagain).indexed.size, hs.indexed.size, hnodes]

/-- The back of the house leads to itself once it has been exchanged with its own far side. -/
theorem rewire_listed_homestead :
    let cs : List Rewire := [.exchange 0 4, .exchange 1 3]
    homestead.finalize = .ok homestead ∧ (∀ c ∈ cs, c.InRange homestead) ∧
      (homestead.rewire cs).Listed ∧ (homestead.rewire cs).Resolved ∧
      (homestead.rewire cs).farNode? 1 = some 1 ∧
      ∃ s', (homestead.rewire cs).finalize = .ok s' ∧ s'.edges = (homestead.rewire cs).edges := by
  intro cs
  have hfinal : homestead.finalize = .ok homestead := by cbv
  have hrange : ∀ c ∈ cs, c.InRange homestead := by simp [cs, Rewire.InRange]
  obtain ⟨hlisted, hexchanges⟩ := rewire_listed hfinal hrange
  obtain ⟨hresolved, s', hagain, -, hedges, -⟩ := hexchanges [(0, 4), (1, 3)] rfl
  exact ⟨hfinal, hrange, (hlisted cs (List.prefix_refl cs)).1, hresolved, by cbv, s', hagain, hedges⟩

end Topology

end WorldShuffle

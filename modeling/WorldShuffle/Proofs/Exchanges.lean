import Mathlib
import WorldShuffle.Doors.Shuffle
import WorldShuffle.Proofs.Finalized
import WorldShuffle.Proofs.Handouts
import WorldShuffle.Proofs.Trials

namespace WorldShuffle

def Node.face (n : Node) : SceneId × String × Option Check := (n.scene, n.name, n.check?)

theorem Node.face_setFar (n : Node) (scene : SceneId) (name : String) :
    (n.setFar scene name).face = n.face := by
  obtain ⟨name', scene', position, _ | _⟩ := n <;> rfl

namespace Topology

variable {t s : Topology} {e k n m door target x y : Nat} {edge : Edge} {node : Node} {q : String}

def face? (t : Topology) (n : Nat) : Option (SceneId × String × Option Check) :=
  (t.node? n).map Node.face

theorem edges_retarget (t : Topology) (e target k : Nat) :
    (t.retarget e target).edges[k]? =
      if k = e then t.edges[e]?.map ({ · with target }) else t.edges[k]? := by
  rw [retarget]
  cases he : t.edges[e]? with
  | none =>
    by_cases h : k = e
    · simp [h, he]
    · simp [h]
  | some edge =>
    dsimp only
    obtain ⟨hlt, hedge⟩ := Array.getElem?_eq_some_iff.1 he
    by_cases h : k = e
    · subst h
      split
      · rename_i htarget
        subst htarget
        simp [he]
      · simp [hlt]
    · rw [if_neg h]
      split
      · rfl
      · simp [Ne.symm h]

theorem out_retarget (t : Topology) (e target n : Nat) : (t.retarget e target).out n = t.out n := by
  rw [retarget]
  split
  · rfl
  · split <;> rfl

theorem nodes_retarget (t : Topology) (e target : Nat) :
    (t.retarget e target).nodes = t.nodes ∧ (t.retarget e target).start = t.start := by
  rw [retarget]
  split
  · exact ⟨rfl, rfl⟩
  · split <;> exact ⟨rfl, rfl⟩

theorem node?_setFar (t : Topology) (n : Nat) (scene : SceneId) (name : String) (k : Nat) :
    (t.setFar n scene name).node? k =
      if k = n then (t.node? n).map (·.setFar scene name) else t.node? k := by
  simp only [node?, setFar, Array.getElem?_modify]
  by_cases h : k = n
  · simp [h]
  · simp [h, Ne.symm h]

theorem linkEdge?_eq_some (ht : t.Sound) (h : t.linkEdge? n = some e) :
    ∃ edge, t.edges[e]? = some edge ∧ edge.source = n ∧ edge.kind = .link := by
  obtain ⟨edge, hedge, hs⟩ := ht.mem_out.1 (List.mem_of_find?_eq_some h)
  refine ⟨edge, hedge, hs, ?_⟩
  simpa [isKind, hedge] using List.find?_some h

theorem aim_cases (t : Topology) (door target : Nat) :
    t.aim door target = t ∨ ∃ e node, t.linkEdge? door = some e ∧ t.node? target = some node ∧
      t.aim door target = (t.retarget e target).setFar door node.scene node.name := by
  rw [aim]
  split
  · exact Or.inr ⟨_, _, ‹_›, ‹_›, rfl⟩
  · exact Or.inl rfl

theorem aim_eq (hlink : t.linkEdge? door = some e) (hnode : t.node? target = some node) :
    t.aim door target = (t.retarget e target).setFar door node.scene node.name := by
  rw [aim, hlink, hnode]

theorem edges_aim (hlink : t.linkEdge? door = some e) (hnode : t.node? target = some node)
    (k : Nat) : (t.aim door target).edges[k]? =
      if k = e then t.edges[e]?.map ({ · with target }) else t.edges[k]? := by
  rw [aim_eq hlink hnode]
  exact edges_retarget t e target k

theorem node?_aim (hlink : t.linkEdge? door = some e) (hnode : t.node? target = some node)
    (k : Nat) : (t.aim door target).node? k =
      if k = door then (t.node? door).map (·.setFar node.scene node.name) else t.node? k := by
  rw [aim_eq hlink hnode, node?_setFar]
  simp only [node?, nodes_retarget]

structure Linked (t : Topology) : Prop where
  sound : t.Sound
  far {e : Nat} {edge : Edge} : t.edges[e]? = some edge → edge.kind = .link →
    ∃ node door far, t.node? edge.source = some node ∧ node.door? = some door ∧
      t.node? edge.target = some far ∧ far.scene = door.farScene ∧ far.name = door.farName
  unique {e e' : Nat} {edge edge' : Edge} : t.edges[e]? = some edge → t.edges[e']? = some edge' →
    edge.kind = .link → edge'.kind = .link → edge.source = edge'.source → e = e'

theorem link_of_farNode? (ht : t.Sound) (hfar : t.farNode? n = some m) :
    ∃ e edge, t.linkEdge? n = some e ∧ t.edges[e]? = some edge ∧ edge.source = n ∧
      edge.target = m ∧ edge.kind = .link := by
  obtain ⟨e, hlink, htarget⟩ := Option.bind_eq_some_iff.1 hfar
  obtain ⟨edge, hedge, hsource, hkind⟩ := linkEdge?_eq_some ht hlink
  rw [target?, hedge] at htarget
  exact ⟨e, edge, hlink, hedge, hsource, Option.some.inj htarget, hkind⟩

theorem Linked.names_farNode? (h : t.Linked) (hfar : t.farNode? n = some m) :
    ∃ node door far, t.node? n = some node ∧ node.door? = some door ∧ t.node? m = some far ∧
      far.scene = door.farScene ∧ far.name = door.farName := by
  obtain ⟨e, edge, -, hedge, rfl, rfl, hkind⟩ := link_of_farNode? h.sound hfar
  exact h.far hedge hkind

theorem sound_retarget (ht : t.Sound) (h : target < t.nodes.size) : (t.retarget e target).Sound where
  start_lt := by
    rw [(nodes_retarget t e target).1, (nodes_retarget t e target).2]
    exact ht.start_lt
  target_lt := by
    intro k edge hedge
    rw [(nodes_retarget t e target).1]
    rw [edges_retarget] at hedge
    split at hedge
    · obtain ⟨edge', -, rfl⟩ := Option.map_eq_some_iff.1 hedge
      exact h
    · exact ht.target_lt hedge
  mem_out := by
    intro n k
    rw [out_retarget, ht.mem_out, edges_retarget]
    by_cases hk : k = e
    · subst hk
      simp
    · rw [if_neg hk]
  nodup_out n := by
    rw [out_retarget]
    exact ht.nodup_out n

theorem sound_setFar (ht : t.Sound) (n : Nat) (scene : SceneId) (name : String) :
    (t.setFar n scene name).Sound where
  start_lt := by simpa [setFar] using ht.start_lt
  target_lt h := by simpa [setFar] using ht.target_lt h
  mem_out := ht.mem_out
  nodup_out := ht.nodup_out

theorem face?_setFar (t : Topology) (n : Nat) (scene : SceneId) (name : String) (k : Nat) :
    (t.setFar n scene name).face? k = t.face? k := by
  rw [face?, node?_setFar]
  by_cases h : k = n
  · subst h
    cases hk : t.node? k with
    | none => simp [face?, hk]
    | some node => simp [face?, hk, Node.face_setFar]
  · rw [if_neg h, face?]

theorem face?_aim (t : Topology) (door target n : Nat) :
    (t.aim door target).face? n = t.face? n := by
  rcases t.aim_cases door target with h | ⟨e, node, -, -, h⟩
  · rw [h]
  · rw [h, face?_setFar, face?, node?, (nodes_retarget t e target).1]
    rfl

theorem face?_eq_some {far : Node} (hf : s.face? n = t.face? n) (h : t.node? n = some far) :
    ∃ far', s.node? n = some far' ∧ far'.scene = far.scene ∧ far'.name = far.name := by
  rw [face?, face?, h, Option.map_some] at hf
  obtain ⟨far', hfar', he⟩ := Option.map_eq_some_iff.1 hf
  exact ⟨far', hfar', congrArg Prod.fst he, congrArg (fun face => face.2.1) he⟩

theorem Linked.aim (h : t.Linked) (door target : Nat) : (t.aim door target).Linked := by
  rcases t.aim_cases door target with he | ⟨e, node, hlink, hnode, he⟩
  · rwa [he]
  obtain ⟨old, hold, hsource, hkind⟩ := linkEdge?_eq_some h.sound hlink
  have hlt : target < t.nodes.size := (Array.getElem?_eq_some_iff.1 hnode).1
  have hedges (k : Nat) : (t.aim door target).edges[k]? =
      if k = e then some { old with target } else t.edges[k]? := by
    rw [edges_aim hlink hnode, hold]
    rfl
  constructor
  case sound =>
    rw [he]
    exact sound_setFar (sound_retarget h.sound hlt) _ _ _
  case far =>
    intro k edge hedge hk
    rw [hedges] at hedge
    by_cases hke : k = e
    · rw [if_pos hke] at hedge
      obtain rfl := Option.some.inj hedge
      obtain ⟨leaving, was, -, hfrom, hwas, -⟩ := h.far hold hkind
      obtain ⟨far, hfar, hs, hn⟩ := face?_eq_some (face?_aim t door target target) hnode
      refine ⟨leaving.setFar node.scene node.name, ⟨node.scene, node.name⟩, far, ?_, ?_, hfar, hs, hn⟩
      · rw [node?_aim hlink hnode, if_pos hsource, ← hsource, hfrom]
        rfl
      · obtain ⟨name, scene, position, _ | _⟩ := leaving
        · simp [Node.door?] at hwas
        · rfl
    · rw [if_neg hke] at hedge
      obtain ⟨leaving, led, far, hfrom, hled, hfar, hs, hn⟩ := h.far hedge hk
      obtain ⟨far', hfar', hs', hn'⟩ := face?_eq_some (face?_aim t door target edge.target) hfar
      refine ⟨leaving, led, far', ?_, hled, hfar', hs'.trans hs, hn'.trans hn⟩
      rw [node?_aim hlink hnode, if_neg, hfrom]
      exact fun hd => hke (h.unique hedge hold hk hkind (hd.trans hsource.symm))
  case unique =>
    intro k k' edge edge' hedge hedge' hk hk' hs
    -- the retargeted edge has kept its source and its kind
    have back {k : Nat} {edge : Edge} (hedge : (t.aim door target).edges[k]? = some edge) :
        ∃ edge', t.edges[k]? = some edge' ∧ edge'.source = edge.source ∧
          edge'.kind = edge.kind := by
      rw [hedges] at hedge
      by_cases hke : k = e
      · rw [if_pos hke] at hedge
        obtain rfl := Option.some.inj hedge
        exact ⟨old, hke ▸ hold, rfl, rfl⟩
      · rw [if_neg hke] at hedge
        exact ⟨edge, hedge, rfl, rfl⟩
    obtain ⟨a, ha, has, hak⟩ := back hedge
    obtain ⟨b, hb, hbs, hbk⟩ := back hedge'
    exact h.unique ha hb (hak.trans hk) (hbk.trans hk') (has.trans (hs.trans hbs.symm))

theorem isDoorState_aim (h : (t.aim door target).IsDoorState q) :
    t.IsDoorState q ∨ ∃ node, t.node? target = some node ∧ q = node.label := by
  rcases t.aim_cases door target with he | ⟨e, node, hlink, hnode, -⟩
  · exact Or.inl (he ▸ h)
  obtain ⟨n, near, far, hn, hq⟩ := h
  by_cases hd : n = door
  · obtain ⟨aimed, d, haimed, hdoor, rfl, rfl⟩ := doorStates?_eq_some.1 hn
    rw [node?_aim hlink hnode, if_pos hd] at haimed
    obtain ⟨before, hbefore, rfl⟩ := Option.map_eq_some_iff.1 haimed
    obtain ⟨name, scene, position, _ | was⟩ := before
    · cases hdoor
    · cases hdoor
      rcases hq with rfl | rfl
      · have hstates := doorStates?_eq_some.2 ⟨_, was, hbefore, rfl, rfl, rfl⟩
        exact Or.inl ⟨door, _, _, hstates, Or.inl rfl⟩
      · exact Or.inr ⟨node, hnode, rfl⟩
  · rw [doorStates?, node?_aim hlink hnode, if_neg hd] at hn
    exact Or.inl ⟨n, near, far, hn, hq⟩

structure Rewired (t s : Topology) : Prop where
  linked : s.Linked
  face? (n : Nat) : s.face? n = t.face? n
  isDoorState {q : String} : s.IsDoorState q → t.IsDoorState q

def Named (t : Topology) (n : Nat) : Prop := ∀ node, t.node? n = some node → t.IsDoorState node.label

theorem Rewired.refl (h : t.Linked) : t.Rewired t := ⟨h, fun _ => rfl, id⟩

theorem Rewired.trans {u : Topology} (h : t.Rewired s) (h' : s.Rewired u) : t.Rewired u :=
  ⟨h'.linked, fun n => (h'.face? n).trans (h.face? n), fun hq => h.isDoorState (h'.isDoorState hq)⟩

theorem Rewired.aim (h : t.Rewired s) (door : Nat) (hn : t.Named target) :
    t.Rewired (s.aim door target) where
  linked := h.linked.aim door target
  face? n := (face?_aim s door target n).trans (h.face? n)
  isDoorState hq := by
    rcases isDoorState_aim hq with hq | ⟨node, hnode, rfl⟩
    · exact h.isDoorState hq
    · obtain ⟨node', hnode', hs, hname⟩ := face?_eq_some (h.face? target).symm hnode
      have hlabel : node'.label = node.label := by rw [Node.label, Node.label, hs, hname]
      exact hlabel ▸ hn node' hnode'

theorem Linked.named (h : t.Linked) (hfar : t.farNode? x = some y) : t.Named x ∧ t.Named y := by
  obtain ⟨node, door, far, hnode, hdoor, hfar, hs, hn⟩ := h.names_farNode? hfar
  have hstates : t.doorStates? x = some (node.label, stateName door.farScene door.farName) :=
    doorStates?_eq_some.2 ⟨node, door, hnode, hdoor, rfl, rfl⟩
  constructor
  · intro node' hnode'
    obtain rfl := Option.some.inj (hnode.symm.trans hnode')
    exact ⟨x, _, _, hstates, Or.inl rfl⟩
  · intro far' hfar'
    obtain rfl := Option.some.inj (hfar.symm.trans hfar')
    exact ⟨x, _, _, hstates, Or.inr (by rw [Node.label, hs, hn])⟩

theorem Linked.rewired_exchange (h : t.Linked) (x y : Nat) : t.Rewired (t.exchange x y) := by
  rw [exchange]
  split
  · rename_i fx fy hx hy
    obtain ⟨hnx, hnfx⟩ := h.named hx
    obtain ⟨hny, hnfy⟩ := h.named hy
    have swapped := ((Rewired.refl h).aim x hnfy).aim y hnfx
    dsimp only
    split
    · split
      · exact (swapped.aim fx hny).aim fy hnx
      · exact swapped.aim fy hnx
    · split
      · exact swapped.aim fx hny
      · exact swapped
  · exact Rewired.refl h

theorem Rewired.isCheckNode (h : t.Rewired s) (n : Nat) : isCheckNode s n = isCheckNode t n := by
  have hcheck (t : Topology) : t.check? n = (t.face? n).bind (·.2.2) := by
    rw [check?, Topology.face?, Option.bind_map]
    rfl
  rw [WorldShuffle.isCheckNode, WorldShuffle.isCheckNode, hcheck, hcheck, h.face?]

theorem Rewired.state (h : t.Rewired s) (n : Nat) : s.state n = t.state n := by
  have hstate (t : Topology) : t.state n =
      ((t.face? n).map fun face => (face.2.2.bind Check.state).getD face.2.1).getD "" := by
    rw [Topology.state, Topology.face?, Option.map_map]
    rfl
  rw [hstate, hstate, h.face?]

theorem Separate.rewired (h : t.Separate) (hr : t.Rewired s) : s.Separate := by
  intro n hn hq
  rw [hr.isCheckNode] at hn
  rw [hr.state] at hq
  exact h n hn (hr.isDoorState hq)

theorem pairwise_source_links {t : Topology} : t.links.Pairwise fun a b => a.source ≠ b.source := by
  rw [links, List.pairwise_filterMap]
  refine List.nodup_range.imp fun {n k} hne a ha b hb => ?_
  obtain ⟨_, _, ha⟩ := Option.bind_eq_some_iff.1 ha
  obtain ⟨_, _, ha⟩ := Option.bind_eq_some_iff.1 ha
  obtain ⟨_, _, ha⟩ := Option.bind_eq_some_iff.1 ha
  obtain ⟨_, _, hb⟩ := Option.bind_eq_some_iff.1 hb
  obtain ⟨_, _, hb⟩ := Option.bind_eq_some_iff.1 hb
  obtain ⟨_, _, hb⟩ := Option.bind_eq_some_iff.1 hb
  rw [← Option.some.inj ha, ← Option.some.inj hb]
  exact hne

theorem linked_finalize {t₀ : Topology} (h : t₀.finalize = .ok t) : t.Linked := by
  have hsound := sound_finalize h
  obtain ⟨hkeys, -, -, rfl⟩ := finalize_eq_ok h
  -- the links stand behind the inner edges
  have behind {e : Nat} {edge : Edge} (hedge : t₀.unlinked.linked.edges[e]? = some edge)
      (hk : edge.kind = .link) : t₀.unlinked.edges.size ≤ e ∧
        t₀.unlinked.links[e - t₀.unlinked.edges.size]? = some edge := by
    refine (edges_linked hedge).resolve_left fun he => ?_
    have hmem := Array.mem_of_getElem? he
    rw [unlinked, Array.mem_filter, decide_eq_true_eq, hk] at hmem
    cases hmem.2
  refine ⟨hsound, fun {e edge} hedge hk => ?_, fun {e e' edge edge'} hedge hedge' hk hk' hs => ?_⟩
  · obtain ⟨-, hlink⟩ := behind hedge hk
    obtain ⟨n, node, door, far, hnode, hdoor, hfar, rfl⟩ := mem_links.1 (List.mem_of_getElem? hlink)
    obtain ⟨farNode, hf, hscene, hname⟩ := (filed_unlinked hkeys).nodeNamed?.1 hfar
    exact ⟨node, door, farNode, hnode, hdoor, hf, hscene, hname⟩
  · obtain ⟨hle, hlink⟩ := behind hedge hk
    obtain ⟨hle', hlink'⟩ := behind hedge' hk'
    have hinj : e - t₀.unlinked.edges.size = e' - t₀.unlinked.edges.size := by
      obtain ⟨hi, rfl⟩ := List.getElem?_eq_some_iff.1 hlink
      obtain ⟨hj, rfl⟩ := List.getElem?_eq_some_iff.1 hlink'
      by_contra hne
      rcases Nat.lt_or_gt_of_ne hne with hlt | hlt
      · exact List.pairwise_iff_getElem.1 pairwise_source_links _ _ hi hj hlt hs
      · exact List.pairwise_iff_getElem.1 pairwise_source_links _ _ hj hi hlt hs.symm
    omega

inductive Loaded : Topology → Prop
  | finalize {t₀ t : Topology} (h : t₀.finalize = .ok t) : Loaded t
  | exchange {t : Topology} (h : Loaded t) (x y : Nat) : Loaded (t.exchange x y)

theorem Loaded.linked (h : t.Loaded) : t.Linked := by
  induction h with
  | finalize h => exact linked_finalize h
  | exchange h x y ih => exact (ih.rewired_exchange x y).linked

end Topology

/-- Two rooms: a key lies before the gate to the second, and a shelf stands behind it. -/
def twoRooms : Topology where
  nodes := #[
    { name := "Key", scene := 0, kind := .check { kind := .key, id := 0, saveId := "key" } },
    { name := "Gate", scene := 0, kind := .door { farScene := 1, farName := "Porch" } },
    { name := "Porch", scene := 1, kind := .door { farScene := 0, farName := "Gate" } },
    { name := "Shelf", scene := 1, kind := .check { kind := .item, id := 1, saveId := "shelf" } }]
  edges := #[
    { scene := 0, source := 0, target := 1 },
    { scene := 1, source := 2, target := 3 },
    { scene := 0, source := 1, target := 2, kind := .link },
    { scene := 1, source := 2, target := 1, kind := .link }]
  start := 0
  names := .ofKeys [(0, "Key"), (0, "Gate"), (1, "Porch"), (1, "Shelf")]
  byScene := ⟨[(0, [0, 1]), (1, [2, 3])]⟩
  incoming := #[[], [0, 3], [2], [1]]
  outgoing := #[[0], [2], [1, 3], []]

def gateLock : Gates := ⟨[{ name := "locks", logic := ⟨[(0, [.single "Key" 1])]⟩ }]⟩

theorem loaded_twoRooms : twoRooms.Loaded := .finalize (by cbv : twoRooms.finalize = .ok twoRooms)

theorem separate_twoRooms : twoRooms.Separate := of_decide_eq_true (by cbv)

namespace DoorShuffle

variable {φ : Type} {g : Gates} {P : Topology → Prop} {s s' : DoorShuffle}

theorem swapOnce_keeps (hP : ∀ t x y, P t → P (t.exchange x y)) (hs : P s.topology)
    (h : (s.swapOnce g : Trial (Fall φ) DoorShuffle).Yields s') : P s'.topology := by
  obtain ⟨x, -, h⟩ := Trial.yields_bind h
  split at h
  · rw [Trial.yields_pure h]
    exact hs
  · dsimp only at h
    split at h
    · rw [Trial.yields_pure h]
      exact hs
    · obtain ⟨y, -, h⟩ := Trial.yields_bind h
      obtain ⟨-, -, h⟩ := Trial.yields_bind h
      obtain ⟨swaps, -, h⟩ := Trial.yields_bind h
      rw [Trial.yields_pure h]
      exact hP s.topology x y hs

theorem swapMany_keeps (hP : ∀ t x y, P t → P (t.exchange x y)) (n : Nat) (hs : P s.topology)
    (h : (swapMany g n s : Trial (Fall φ) DoorShuffle).Yields s') : P s'.topology := by
  induction n generalizing s with
  | zero =>
    rw [Trial.yields_pure h]
    exact hs
  | succ n ih =>
    rw [swapMany] at h
    split at h
    · rw [Trial.yields_pure h]
      exact hs
    · obtain ⟨s₁, hs₁, h⟩ := Trial.yields_bind h
      exact ih (swapOnce_keeps hP hs hs₁) h

end DoorShuffle

theorem shuffleDoors_keeps {φ : Type} {g : Gates} {P : Topology → Prop} {tries attempt : Nat}
    {t : Topology} {s : DoorShuffle} (hP : ∀ t x y, P t → P (t.exchange x y)) (ht : P t)
    (h : (shuffleDoors g tries attempt t : Trial (Fall φ) DoorShuffle).Yields s) :
    P s.topology := by
  obtain ⟨-, -, h⟩ := Trial.yields_bind h
  obtain ⟨s₁, hs₁, h⟩ := Trial.yields_bind h
  obtain ⟨-, -, h⟩ := Trial.yields_bind h
  rw [Trial.yields_pure h]
  exact DoorShuffle.swapMany_keeps hP tries ht hs₁

end WorldShuffle

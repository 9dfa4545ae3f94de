import WorldShuffle.Proofs.Lexing
import WorldShuffle.Proofs.Reindexing

namespace WorldShuffle

theorem dot_notMem_repr (k : Int) : '.' ∉ k.repr.toList := by
  have hdigits (m : Nat) : '.' ∉ m.repr.toList := by
    intro h
    rw [Nat.toList_repr] at h
    exact absurd (isDigit_of_mem_toDigits h) (by decide)
  rw [Int.repr_eq_if]
  split
  · exact hdigits _
  · rw [String.toList_append, List.mem_append]
    exact not_or.2 ⟨by decide, hdigits _⟩

theorem toList_stateName (scene : SceneId) (name : String) : (stateName scene name).toList =
    "Scene".toList ++ scene.toInt.repr.toList ++ '.' :: name.toList := by
  rw [stateName, String.toList_append, String.toList_append, String.toList_append,
    Int.toString_eq_repr, List.append_assoc]
  rfl

/-- Names may hold dots, but the first dot of a state ends the number of the scene. -/
theorem cut_stateName (scene : SceneId) (name : String) :
    (stateName scene name).toList.takeWhile (· != '.') =
        "Scene".toList ++ scene.toInt.repr.toList ∧
      (stateName scene name).toList.dropWhile (· != '.') = '.' :: name.toList := by
  have hbefore : ∀ c ∈ "Scene".toList ++ scene.toInt.repr.toList, (c != '.') = true := by
    intro c hc
    rw [bne_iff_ne]
    rintro rfl
    rcases List.mem_append.1 hc with hc | hc
    · exact absurd hc (by decide)
    · exact dot_notMem_repr _ hc
  have hdot : ∀ c, ('.' :: name.toList).head? = some c → (c != '.') = false := by
    rintro _ ⟨⟩
    rfl
  rw [toList_stateName]
  exact ⟨takeWhile_stop hbefore hdot, dropWhile_stop hbefore hdot⟩

theorem injective2_stateName : Function.Injective2 stateName := by
  intro scene scene' name name' h
  obtain ⟨hscene, hname⟩ := cut_stateName scene name
  rw [h] at hscene hname
  obtain ⟨hscene', hname'⟩ := cut_stateName scene' name'
  constructor
  · have hrepr := List.append_cancel_left (hscene.symm.trans hscene')
    exact Int32.toInt_inj.1 (Int.repr_inj.1 (String.toList_inj.1 hrepr))
  · exact String.toList_inj.1 (List.cons.inj (hname.symm.trans hname')).2

namespace Topology

variable {t s : Topology} {n m : Nat} {node : Node} {scene : SceneId} {name : String}

theorem label_eq (hn : t.node? n = some node) : t.label n = node.label := by
  rw [label, hn, Option.map_some, Option.getD_some]

theorem isSome_doorStates? (t : Topology) (n : Nat) :
    (t.doorStates? n).isSome = (t.door? n).isSome := by
  rw [doorStates?, door?]
  cases t.node? n with
  | none => rfl
  | some node => exact Option.isSome_map

theorem near_eq_label {near far : String} (h : t.doorStates? n = some (near, far)) :
    n < t.nodes.size ∧ near = t.label n := by
  obtain ⟨node, d, hn, -, rfl, -⟩ := doorStates?_eq_some.1 h
  exact ⟨(Array.getElem?_eq_some_iff.1 hn).1, (label_eq hn).symm⟩

theorem Rerouted.label (h : t.Rerouted s) : s.label = t.label := by
  funext n
  rw [Topology.label, Topology.label, h.node?, Option.map_map]
  congr 2
  funext node
  obtain ⟨hscene, hname⟩ := node.identity_leading ((s.farNode? n).bind t.node?)
  exact congrArg₂ stateName hscene hname

/-- The state is the label of a node just if the node is the one that it names. -/
theorem Loaded.stateName_eq_label (h : t.Loaded) (hm : m < t.nodes.size) :
    stateName scene name = t.label m ↔ t.nodeNamed? scene name = some m := by
  have hnode : t.node? m = some t.nodes[m] := Array.getElem?_eq_getElem hm
  rw [label_eq hnode, Node.label, injective2_stateName.eq_iff]
  constructor
  · rintro ⟨rfl, rfl⟩
    exact h.nodeNamed? hnode
  · intro hnamed
    obtain ⟨node, hnode', rfl, rfl⟩ := h.filed.nodeNamed?.1 hnamed
    obtain rfl := Option.some.inj (hnode.symm.trans hnode')
    exact ⟨rfl, rfl⟩

theorem Loaded.eq_of_label (h : t.Loaded) (hn : n < t.nodes.size) (hm : m < t.nodes.size)
    (he : t.label n = t.label m) : n = m := by
  have hnode : t.node? n = some t.nodes[n] := Array.getElem?_eq_getElem hn
  rw [label_eq hnode, Node.label, h.stateName_eq_label hm, h.nodeNamed? hnode] at he
  exact Option.some.inj he

end Topology

/-- A state tells the scene and the name that it was made of, whatever characters the name holds. So
the nodes of a finalized world have labels of their own, which are the near states of its doors. However
doors are exchanged, the far state of a door is the label of the node that it leads to and of no other. -/
theorem labels_identify :
    Function.Injective2 stateName ∧
    ∀ (t₀ t : Topology) (ps : List (Nat × Nat)), t₀.finalize = .ok t →
      let s := t.exchanges ps
      s.label = t.label ∧
      (∀ n m, n < s.nodes.size → m < s.nodes.size → n ≠ m → s.label n ≠ s.label m) ∧
      (∀ n, (s.doorStates? n).isSome = (s.door? n).isSome) ∧
      (∀ n m near far near' far', s.doorStates? n = some (near, far) →
        s.doorStates? m = some (near', far') → n ≠ m → near ≠ near') ∧
      ∀ n near far, s.doorStates? n = some (near, far) → near = s.label n ∧
        ∀ m, m < s.nodes.size → (far = s.label m ↔ s.farNode? n = some m) := by
  refine ⟨injective2_stateName, ?_⟩
  intro t₀ t ps hok s
  have ht : t.Loaded := .finalize hok
  have hs : s.Loaded := ht.exchanges ps
  obtain ⟨hr, -⟩ := (Topology.Rerouted.refl ht.linked).exchanges ps
  refine ⟨hr.label, ?_, s.isSome_doorStates?, ?_, ?_⟩
  · intro n m hn hm hne he
    exact hne (hs.eq_of_label hn hm he)
  · intro n m near far near' far' hn hm hne he
    obtain ⟨hltn, rfl⟩ := Topology.near_eq_label hn
    obtain ⟨hltm, rfl⟩ := Topology.near_eq_label hm
    exact hne (hs.eq_of_label hltn hltm he)
  · intro n near far hn
    refine ⟨(Topology.near_eq_label hn).2, fun m hm => ?_⟩
    obtain ⟨node, d, hnode, hdoor, -, rfl⟩ := Topology.doorStates?_eq_some.1 hn
    have hd : s.door? n = some d := by rw [Topology.door?, hnode, Option.bind_some, hdoor]
    rw [hs.stateName_eq_label hm, hs.farNode?_eq hd]

/-- Doors whose labels look alike, since their names hold digits and dots. The well leads nowhere. -/
def lookalikes : Topology where
  nodes := #[
    { name := "1.Gate", scene := 1, kind := .door { farScene := 11, farName := "Gate" } },
    { name := "Gate", scene := 11, kind := .door { farScene := 1, farName := "1.Gate" } },
    { name := "Gate", scene := 1, kind := .door { farScene := -1, farName := "Gate" } },
    { name := "Gate", scene := -1, kind := .door { farScene := 1, farName := "Gate" } },
    { name := "Well", scene := 1, kind := .door { farScene := 1, farName := "11.Gate" } }]
  edges := #[
    { scene := 1, source := 0, target := 2 },
    { scene := 1, source := 2, target := 4 },
    { scene := 1, source := 0, target := 1, kind := .link },
    { scene := 11, source := 1, target := 0, kind := .link },
    { scene := 1, source := 2, target := 3, kind := .link },
    { scene := -1, source := 3, target := 2, kind := .link }]
  start := 0
  names := .ofKeys [(1, "1.Gate"), (11, "Gate"), (1, "Gate"), (-1, "Gate"), (1, "Well")]
  byScene := ⟨[(1, [0, 2, 4]), (11, [1]), (-1, [3])]⟩
  incoming := #[[3], [2], [0, 5], [4], [1]]
  outgoing := #[[0, 2], [3], [1, 4], [5], []]

/-- Once the first and the third have traded their far sides, the first leads to the fourth. -/
theorem labels_identify_lookalikes :
    let s := lookalikes.exchanges [(0, 2)]
    lookalikes.finalize = .ok lookalikes ∧ s.label 0 ≠ s.label 1 ∧
      s.doorStates? 0 = some ("Scene1.1.Gate", "Scene-1.Gate") ∧
      (∀ m, m < 5 → ("Scene-1.Gate" = s.label m ↔ 3 = m)) ∧
      s.doorStates? 4 = some ("Scene1.Well", "Scene1.11.Gate") ∧
      ∀ m, m < 5 → "Scene1.11.Gate" ≠ s.label m := by
  have hok : lookalikes.finalize = .ok lookalikes := by cbv
  have hsize : (lookalikes.exchanges [(0, 2)]).nodes.size = 5 := by cbv
  have hgate : (lookalikes.exchanges [(0, 2)]).farNode? 0 = some 3 := by cbv
  have hwell : (lookalikes.exchanges [(0, 2)]).farNode? 4 = none := by cbv
  have hfirst : (lookalikes.exchanges [(0, 2)]).doorStates? 0 =
      some ("Scene1.1.Gate", "Scene-1.Gate") := by cbv
  have hlast : (lookalikes.exchanges [(0, 2)]).doorStates? 4 =
      some ("Scene1.Well", "Scene1.11.Gate") := by cbv
  obtain ⟨-, hlabels, -, -, hfar⟩ := labels_identify.2 lookalikes lookalikes [(0, 2)] hok
  obtain ⟨-, hleads⟩ := hfar 0 _ _ hfirst
  obtain ⟨-, hnowhere⟩ := hfar 4 _ _ hlast
  rw [hsize] at hlabels hleads hnowhere
  refine ⟨hok, hlabels 0 1 (by decide) (by decide) (by decide), hfirst, ?_, hlast, ?_⟩
  · intro m hm
    rw [hleads m hm, hgate, Option.some.injEq]
  · intro m hm he
    rw [hnowhere m hm, hwell] at he
    cases he

end WorldShuffle

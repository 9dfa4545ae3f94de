import WorldShuffle.Proofs.Rejoining

namespace WorldShuffle

namespace Leads

variable {far : Leads} {x y fx fy n : Nat}

/-- Two doors and their far sides: four different nodes, each of which leads to its partner. -/
structure Paired (far : Leads) (x y fx fy : Nat) : Prop where
  nodup : [x, y, fx, fy].Nodup
  left : far x = some fx
  right : far y = some fy
  left_back : far fx = some x
  right_back : far fy = some y

def crossing (x y fx fy : Nat) : Equiv.Perm Nat := Equiv.swap x y * Equiv.swap fx fy

theorem crossing_reverse (x y fx fy : Nat) : crossing y x fy fx = crossing x y fx fy := by
  rw [crossing, crossing, Equiv.swap_comm y, Equiv.swap_comm fy]

theorem crossing_back (x y fx fy : Nat) : crossing x y fy fx = crossing x y fx fy := by
  rw [crossing, crossing, Equiv.swap_comm fy]

namespace Paired

variable (h : far.Paired x y fx fy)
include h

theorem distinct : (x ≠ y ∧ x ≠ fx ∧ x ≠ fy) ∧ (y ≠ fx ∧ y ≠ fy) ∧ fx ≠ fy := by
  simpa using h.nodup

theorem reverse : far.Paired y x fy fx where
  nodup := ((List.Perm.swap y x []).append (List.Perm.swap fy fx [])).nodup h.nodup
  left := h.right
  right := h.left
  left_back := h.right_back
  right_back := h.left_back

theorem flip : far.Paired fx fy x y where
  nodup := (@List.perm_append_comm _ [x, y] [fx, fy]).nodup h.nodup
  left := h.left_back
  right := h.right_back
  left_back := h.left
  right_back := h.right

theorem commute_swaps : Commute (Equiv.swap x y) (Equiv.swap fx fy) :=
  (Equiv.Perm.disjoint_swap_swap h.nodup).commute

theorem crossing_flip : crossing fx fy x y = crossing x y fx fy := h.commute_swaps.eq.symm

theorem crossing_crossing : crossing x y fx fy * crossing x y fx fy = 1 := by
  rw [crossing, h.commute_swaps.symm.mul_mul_mul_comm, Equiv.swap_mul_self, Equiv.swap_mul_self,
    one_mul]

theorem crossing_apply (n : Nat) : crossing x y fx fy n =
    if n = fy then fx else if n = fx then fy else if n = y then x else if n = x then y else n := by
  have hne := h.distinct
  rw [crossing, Equiv.Perm.mul_apply, Equiv.swap_apply_def fx]
  split_ifs <;> grind

theorem trade_eq : far.trade (x, y) = far ∘ crossing x y fx fy := by
  funext n
  rw [Leads.trade_eq h.left h.right, Function.comp_apply, h.crossing_apply]
  simp only [apply_ite far, h.left, h.right, h.left_back, h.right_back, and_true]

theorem trade_left : far.trade (x, y) x = some fy := by
  obtain ⟨⟨hxy, hxfx, hxfy⟩, -⟩ := h.distinct
  rw [h.trade_eq, Function.comp_apply, h.crossing_apply, if_neg hxfy, if_neg hxfx, if_neg hxy,
    if_pos rfl, h.right]

theorem trade_reverse : far.trade (y, x) = far.trade (x, y) := by
  rw [h.trade_eq, h.reverse.trade_eq, crossing_reverse]

theorem trade_flip : far.trade (fx, fy) = far.trade (x, y) := by
  rw [h.trade_eq, h.flip.trade_eq, h.crossing_flip]

/-- The two doors come out of the trade with their far sides exchanged. -/
theorem trade : (far.trade (x, y)).Paired x y fy fx where
  nodup := ((List.Perm.swap fy fx []).append_left [x, y]).nodup h.nodup
  left := h.trade_left
  right := h.trade_reverse ▸ h.reverse.trade_left
  left_back := by
    rw [← h.trade_flip, ← h.flip.trade_reverse]
    exact h.flip.reverse.trade_left
  right_back := h.trade_flip ▸ h.flip.trade_left

theorem trade_trade : (far.trade (x, y)).trade (x, y) = far := by
  rw [h.trade.trade_eq, crossing_back, h.trade_eq, Function.comp_assoc, ← Equiv.Perm.coe_mul,
    h.crossing_crossing, Equiv.Perm.coe_one, Function.comp_id]

theorem trade_other (hn : n ∉ [x, y, fx, fy]) : far.trade (x, y) n = far n := by
  simp only [List.mem_cons, List.not_mem_nil, or_false, not_or] at hn
  obtain ⟨hx, hy, hfx, hfy⟩ := hn
  rw [h.trade_eq, Function.comp_apply, h.crossing_apply, if_neg hfy, if_neg hfx, if_neg hy, if_neg hx]

theorem ncard_trade (n : Nat) :
    {m | far.trade (x, y) m = some n}.ncard = {m | far m = some n}.ncard := by
  have hpreimage : {m | far.trade (x, y) m = some n} =
      Set.preimage (crossing x y fx fy) {m | far m = some n} := by
    rw [h.trade_eq]
    rfl
  rw [hpreimage]
  apply Set.ncard_preimage_of_injective_subset_range (crossing x y fx fy).injective
  rw [(crossing x y fx fy).range_eq_univ]
  exact Set.subset_univ _

end Paired

end Leads

namespace Topology

variable {t s s' : Topology} {x y fx fy n m : Nat}

structure Faces (t : Topology) (n m : Nat) : Prop where
  far : t.farNode? n = some m
  named : ∃ node, t.node? m = some node ∧ t.door? n = some ⟨node.scene, node.name⟩

theorem Linked.faces (h : t.Linked) (hfar : t.farNode? n = some m) : t.Faces n m where
  far := hfar
  named := by
    obtain ⟨node, door, far, hn, hdoor, hm, hscene, hname⟩ := h.names_farNode? hfar
    refine ⟨far, hm, ?_⟩
    rw [door?, hn, Option.bind_some, hdoor, hscene, hname]

structure Agrees (t s : Topology) : Prop where
  nodes : s.nodes = t.nodes
  edges : s.edges = t.edges
  start : s.start = t.start
  fixed : s.fixed = t.fixed
  names : s.names = t.names
  byScene : s.byScene = t.byScene
  outgoing : s.outgoing = t.outgoing
  into (n : Nat) : (s.into n).Perm (t.into n)

theorem Rerouted.agrees (h : t.Rerouted s) (h' : t.Rerouted s') (hs : s.Listed) (hs' : s'.Listed)
    (hfar : s'.farNode? = s.farNode?) : s.Agrees s' where
  nodes := (h'.ext h hfar).1
  edges := (h'.ext h hfar).2
  start := h'.start.trans h.start.symm
  fixed := h'.fixed.trans h.fixed.symm
  names := h'.names.trans h.names.symm
  byScene := h'.byScene.trans h.byScene.symm
  outgoing := h'.outgoing.trans h.outgoing.symm
  into n := by
    refine (List.perm_ext_iff_of_nodup (hs'.nodup_into n) (hs.nodup_into n)).2 fun e => ?_
    rw [hs'.mem_into, hs.mem_into, (h'.ext h hfar).2]

theorem Rerouted.linkEdge? (h : t.Rerouted s) (n : Nat) : s.linkEdge? n = t.linkEdge? n := by
  rw [Topology.linkEdge?, Topology.linkEdge?, out, out, h.outgoing, funext (h.isKind .link)]

theorem Rerouted.node?_eq (h : t.Rerouted s) (ht : t.Linked) (hfar : s.farNode? n = t.farNode? n) :
    s.node? n = t.node? n := by
  rw [h.node?, hfar, ← (Rerouted.refl ht).node?]

theorem Rerouted.edge?_eq (h : t.Rerouted s) (ht : t.Linked) {e : Nat} {edge : Edge}
    (hedge : t.edges[e]? = some edge)
    (hfar : edge.kind = .link → s.farNode? edge.source = t.farNode? edge.source) :
    s.edges[e]? = some edge := by
  rw [h.edge?, hedge, Option.map_some]
  by_cases hkind : edge.kind = .link
  · rw [hfar hkind, ht.farNode?_link hedge hkind, Edge.leading_link hkind]
  · rw [Edge.leading_inner hkind]

def linksInto (t : Topology) (n : Nat) : List Nat := (t.into n).filter (t.isKind .link)

theorem mem_linksInto (h : t.Loaded) {e : Nat} : e ∈ t.linksInto n ↔
    ∃ edge, t.edges[e]? = some edge ∧ edge.kind = .link ∧ edge.target = n := by
  rw [linksInto, List.mem_filter, h.listed.mem_into, isKind]
  constructor
  · rintro ⟨⟨edge, hedge, htarget⟩, hkind⟩
    rw [hedge] at hkind
    exact ⟨edge, hedge, of_decide_eq_true hkind, htarget⟩
  · rintro ⟨edge, hedge, hkind, htarget⟩
    exact ⟨⟨edge, hedge, htarget⟩, by rw [hedge]; exact decide_eq_true hkind⟩

theorem length_linksInto (h : t.Loaded) (n : Nat) :
    (t.linksInto n).length = {m | t.farNode? m = some n}.ncard := by
  have hnodup : (t.linksInto n).Nodup := (h.listed.nodup_into n).filter _
  rw [← List.toFinset_card_of_nodup hnodup, ← Set.ncard_coe_finset]
  symm
  refine Set.ncard_congr (fun m _ => (t.linkEdge? m).getD 0) ?_ ?_ ?_
  · intro m hm
    obtain ⟨e, edge, hlink, hedge, -, htarget, hkind⟩ := link_of_farNode? h.linked.sound hm
    rw [hlink, Option.getD_some, List.coe_toFinset]
    exact (mem_linksInto h).2 ⟨edge, hedge, hkind, htarget⟩
  · intro m k hm hk he
    obtain ⟨e, edge, hlink, hedge, rfl, -, -⟩ := link_of_farNode? h.linked.sound hm
    obtain ⟨e', edge', hlink', hedge', rfl, -, -⟩ := link_of_farNode? h.linked.sound hk
    rw [hlink, hlink', Option.getD_some, Option.getD_some] at he
    subst he
    rw [Option.some.inj (hedge.symm.trans hedge')]
  · intro e he
    rw [List.coe_toFinset] at he
    obtain ⟨edge, hedge, hkind, htarget⟩ := (mem_linksInto h).1 he
    have hfar := h.linked.farNode?_link hedge hkind
    refine ⟨edge.source, htarget ▸ hfar, ?_⟩
    obtain ⟨e', edge', hlink, hedge', hsource, -, hkind'⟩ := link_of_farNode? h.linked.sound hfar
    rw [hlink, Option.getD_some]
    exact h.linked.unique hedge' hedge hkind' hkind hsource

/-- Two doors that lead to their far sides and back can be exchanged cleanly: just their four links
change, each door faces the far side of the other, and as many links lead to each node as before. The
same exchange again undoes it, and it does not matter which door or which side comes first. -/
theorem exchange_undoes (t : Topology) (x y fx fy : Nat) (ht : t.Loaded)
    (hx : t.farNode? x = some fx) (hy : t.farNode? y = some fy) (hfx : t.farNode? fx = some x)
    (hfy : t.farNode? fy = some y) (hne : [x, y, fx, fy].Nodup) :
    let s := t.exchange x y
    (s.Faces x fy ∧ s.Faces fy x ∧ s.Faces y fx ∧ s.Faces fx y) ∧
    (∀ n, s.face? n = t.face? n ∧ s.linkEdge? n = t.linkEdge? n ∧
      (s.linksInto n).length = (t.linksInto n).length) ∧
    (∀ n, n ∉ [x, y, fx, fy] → s.farNode? n = t.farNode? n ∧ s.node? n = t.node? n) ∧
    (∀ (e : Nat) (edge : Edge), t.edges[e]? = some edge →
      (edge.kind = .link → edge.source ∉ [x, y, fx, fy]) → s.edges[e]? = some edge) ∧
    t.Agrees (s.exchange x y) ∧
    s.Agrees (t.exchange y x) ∧ s.Agrees (t.exchange fx fy) ∧ s.Agrees (t.exchange fy fx) := by
  intro s
  have h : Leads.Paired t.farNode? x y fx fy := ⟨hne, hx, hy, hfx, hfy⟩
  have hbefore := Rerouted.refl ht.linked
  have hloaded : s.Loaded := ht.exchange x y
  obtain ⟨hr, hfar⟩ := hbefore.exchange x y
  have hafter : Leads.Paired s.farNode? x y fy fx := hfar ▸ h.trade
  have hkept {n : Nat} (hn : n ∉ [x, y, fx, fy]) : s.farNode? n = t.farNode? n := by
    rw [hfar, h.trade_other hn]
  -- an exchange that makes the same trade makes the same world
  have hsame {a b : Nat} (htrade : Leads.trade t.farNode? (a, b) = Leads.trade t.farNode? (x, y)) :
      s.Agrees (t.exchange a b) := by
    obtain ⟨hr', hfar'⟩ := hbefore.exchange a b
    exact hr.agrees hr' hloaded.listed (ht.exchange a b).listed (by rw [hfar', htrade, hfar])
  refine ⟨⟨?_, ?_, ?_, ?_⟩, fun n => ⟨?_, hr.linkEdge? n, ?_⟩, fun n hn => ⟨hkept hn, ?_⟩,
    fun e edge hedge hother => ?_, ?_, hsame h.trade_reverse, hsame h.trade_flip, hsame ?_⟩
  · exact hloaded.linked.faces hafter.left
  · exact hloaded.linked.faces hafter.left_back
  · exact hloaded.linked.faces hafter.right
  · exact hloaded.linked.faces hafter.right_back
  · exact (ht.linked.rewired_exchange x y).face? n
  · rw [length_linksInto hloaded, length_linksInto ht, hfar, h.ncard_trade]
  · exact hr.node?_eq ht.linked (hkept hn)
  · exact hr.edge?_eq ht.linked hedge fun hkind => hkept (hother hkind)
  · obtain ⟨hr', hfar'⟩ := hr.exchange x y
    refine hbefore.agrees hr' ht.listed (hloaded.exchange x y).listed ?_
    rw [hfar', hfar, h.trade_trade]
  · rw [h.flip.trade_reverse, h.trade_flip]

end Topology

theorem exchange_undoes_homestead :
    homestead.farNode? 0 = some 2 ∧ homestead.farNode? 4 = some 5 ∧
    homestead.farNode? 2 = some 0 ∧ homestead.farNode? 5 = some 4 ∧ [0, 4, 2, 5].Nodup ∧
    (homestead.exchange 0 4).Faces 0 5 ∧ (homestead.exchange 0 4).Faces 2 4 ∧
    homestead.Agrees ((homestead.exchange 0 4).exchange 0 4) ∧
    (homestead.exchange 0 4).Agrees (homestead.exchange 5 2) := by
  obtain ⟨⟨hfront, -, -, hgate⟩, -, -, -, hundone, -, -, hsides⟩ :=
    Topology.exchange_undoes homestead 0 4 2 5 loaded_homestead rfl rfl rfl rfl (by decide)
  exact ⟨rfl, rfl, rfl, rfl, by decide, hfront, hgate, hundone, hsides⟩

end WorldShuffle

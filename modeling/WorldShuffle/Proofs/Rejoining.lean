import WorldShuffle.Proofs.Components

namespace WorldShuffle

open Relation

section trade

variable {K : Nat → Nat → Prop} [Std.Symm K] {x y fx fy N : Nat}

/-- Two connections on different sides trade their ends. Where both are bridges, what falls apart on
either side is joined across; where one is not, the other's ends join the two sides. -/
theorem classes_trade (hx : x < N) (hfx : fx < N) (hy : y < N) (hfy : fy < N)
    (hsep : ¬ReflTransGen (Plus (Plus K x fx) y fy) x y) :
    ((ReflTransGen K x fx ∨ ReflTransGen K y fy) →
      classes (Plus (Plus K x fy) y fx) N + 1 = classes (Plus (Plus K x fx) y fy) N) ∧
    (¬(ReflTransGen K x fx ∨ ReflTransGen K y fy) →
      classes (Plus (Plus K x fy) y fx) N = classes (Plus (Plus K x fx) y fy) N) := by
  have hK : Equivalence (ReflTransGen K) := equivalence_reach
  have hB : Equivalence (ReflTransGen (Plus (Plus K x fx) y fy)) := equivalence_reach
  have lift {a b : Nat} (h : ReflTransGen K a b) : ReflTransGen (Plus (Plus K x fx) y fy) a b :=
    reach_plus (reach_plus h)
  have hxfx : ReflTransGen (Plus (Plus K x fx) y fy) x fx := reach_plus reach_new
  have hyfy : ReflTransGen (Plus (Plus K x fx) y fy) y fy := reach_new
  have h₁ : ¬ReflTransGen K x y := fun h => hsep (lift h)
  have h₂ : ¬ReflTransGen K x fy := fun h => hsep (hB.trans (lift h) (hB.symm hyfy))
  have h₃ : ¬ReflTransGen K fx y := fun h => hsep (hB.trans hxfx (lift h))
  -- the connection of one side makes no difference on the other
  have hy' : ReflTransGen (Plus K x fx) y fy ↔ ReflTransGen K y fy := by
    rw [reach_plus_eq]
    refine ⟨fun h => ?_, Or.inl⟩
    rcases h with h | ⟨h, -⟩ | ⟨h, -⟩
    · exact h
    · exact absurd (hK.symm h) h₁
    · exact absurd (hK.symm h) h₃
  have hyfx : ReflTransGen (Plus K x fy) y fx ↔ ReflTransGen K x fx ∧ ReflTransGen K y fy := by
    rw [reach_plus_eq]
    constructor
    · rintro (h | ⟨h, -⟩ | ⟨hy, hx⟩)
      · exact absurd (hK.symm h) h₃
      · exact absurd (hK.symm h) h₁
      · exact ⟨hx, hy⟩
    · rintro ⟨hx, hy⟩
      exact Or.inr (Or.inr ⟨hy, hx⟩)
  have hafter := classes_plus_of_not_reach hx hfy h₂
  by_cases hbx : ReflTransGen K x fx
  · have hfirst := classes_plus_of_reach (N := N) hbx
    refine ⟨fun _ => ?_, fun h => absurd (Or.inl hbx) h⟩
    by_cases hby : ReflTransGen K y fy
    · have hsecond := classes_plus_of_reach (N := N) (hy'.2 hby)
      have hlast := classes_plus_of_reach (N := N) (hyfx.2 ⟨hbx, hby⟩)
      omega
    · have hsecond := classes_plus_of_not_reach hy hfy (mt hy'.1 hby)
      have hlast := classes_plus_of_not_reach hy hfx fun h => hby (hyfx.1 h).2
      omega
  · have hfirst := classes_plus_of_not_reach hx hfx hbx
    have hlast := classes_plus_of_not_reach hy hfx fun h => hbx (hyfx.1 h).1
    by_cases hby : ReflTransGen K y fy
    · have hsecond := classes_plus_of_reach (N := N) (hy'.2 hby)
      exact ⟨fun _ => by omega, fun h => absurd (Or.inr hby) h⟩
    · have hsecond := classes_plus_of_not_reach hy hfy (mt hy'.1 hby)
      exact ⟨fun h => absurd h (not_or.2 ⟨hbx, hby⟩), fun _ => by omega⟩

/-- A connection of a node with itself gives way to one between the two sides. -/
theorem classes_self {S : Nat → Nat → Prop} (hx : x < N) (hfx : fx < N) (hy : y < N) (hfy : fy < N)
    (hsep : ¬ReflTransGen (Plus (Plus K x fx) y fy) x y) (hself : fx = x ∨ fy = y)
    (hS : ∀ a b, Plus K x y a b → S a b) :
    classes S N ≤ classes (Plus (Plus K x fx) y fy) N := by
  have hjoined := classes_plus_of_not_reach hx hy fun h => hsep (reach_plus (reach_plus h))
  have hle := classes_anti (N := N) hS
  have hbefore : classes K N ≤ classes (Plus (Plus K x fx) y fy) N + 1 := by
    rcases hself with rfl | rfl
    · rw [← classes_plus_of_reach (R := K) (a := fx) ReflTransGen.refl]
      exact classes_le_plus hy hfy
    · rw [classes_plus_of_reach ReflTransGen.refl]
      exact classes_le_plus hx hfx
  omega

end trade

namespace Topology

variable {t : Topology} {g : Gates} {p : Nat → Prop} {x y fx fy e n m : Nat} {edge : Edge}

theorem Rerouted.isKind {s : Topology} (h : t.Rerouted s) (kind : EdgeKind) (e : Nat) :
    s.isKind kind e = t.isKind kind e := by
  rw [Topology.isKind, Topology.isKind, h.edge?, Option.any_map]
  congr 1
  funext edge
  exact congrArg (fun k => decide (k = kind)) (edge.ends_leading _).2.1

def Unbarred (t : Topology) (g : Gates) : Prop :=
  ∀ e, t.isKind .link e = true → g.isConstrained e = false

theorem Unbarred.mayOpen (h : t.Unbarred g) (hedge : t.edges[e]? = some edge)
    (hk : edge.kind = .link) : g.MayOpen e := by
  have hfree := h e (by simp [isKind, hedge, hk])
  rw [Gates.isConstrained, List.any_eq_false] at hfree
  have hnil : g.alternatives e = [] := by
    rw [Gates.alternatives, List.flatMap_eq_nil_iff]
    intro l hl
    simpa using hfree l hl
  rw [Gates.MayOpen, Gates.isFalse, hnil]
  rfl

theorem Unbarred.joined (h : t.Unbarred g) (ht : t.Linked) (hfar : t.farNode? n = some m) :
    t.Joined g.MayOpen n m := by
  obtain ⟨e, edge, -, hedge, hsource, htarget, hk⟩ := link_of_farNode? ht.sound hfar
  exact ⟨e, edge, h.mayOpen hedge hk, hedge, Or.inl ⟨hsource, htarget⟩⟩

theorem joined_of_pair {a b : Nat} (hj : t.Joined p n m) (h : Pair n m a b) : t.Joined p a b := by
  rcases h with ⟨rfl, rfl⟩ | ⟨rfl, rfl⟩
  · exact hj
  · exact Std.Symm.symm _ _ hj

def Kept (t : Topology) (g : Gates) (x y e : Nat) : Prop :=
  g.MayOpen e ∧ (t.exchange x y).target? e = t.target? e

/-- An edge that an exchange leads elsewhere is the link of a door that has a part in it. -/
theorem Linked.moved (ht : t.Linked) (hedge : t.edges[e]? = some edge)
    (hmoved : (t.exchange x y).target? e ≠ t.target? e) :
    edge.kind = .link ∧ edge.source ∈ Leads.touched t.farNode? (x, y) := by
  obtain ⟨hr, hfar⟩ := (Rerouted.refl ht).exchange x y
  rw [hr.target?, target?, hedge, Option.map_some, Option.map_some] at hmoved
  by_cases hk : edge.kind = .link
  · refine ⟨hk, by_contra fun hn => hmoved ?_⟩
    rw [hfar, Leads.trade_of_not_touched hn, ht.farNode?_link hedge hk, Edge.leading_link hk]
  · rw [Edge.leading_inner hk] at hmoved
    exact absurd rfl hmoved

theorem Linked.edge_exchange (ht : t.Linked) (hedge : t.edges[e]? = some edge) :
    ∃ edge', (t.exchange x y).edges[e]? = some edge' ∧ edge'.source = edge.source ∧
      edge'.kind = edge.kind := by
  obtain ⟨hr, -⟩ := (Rerouted.refl ht).exchange x y
  obtain ⟨hs, hk, -⟩ := edge.ends_leading ((t.exchange x y).farNode? edge.source)
  exact ⟨_, by rw [hr.edge?, hedge, Option.map_some], hs, hk⟩

/-- Before an exchange the two doors are joined to their far sides, besides what it keeps. -/
theorem Linked.joined_before (ht : t.Linked) (hg : t.Unbarred g) (hx : t.farNode? x = some fx)
    (hy : t.farNode? y = some fy) :
    t.Joined g.MayOpen = Plus (Plus (t.Joined (t.Kept g x y)) x fx) y fy := by
  funext a b
  refine propext ⟨?_, ?_⟩
  · rintro ⟨e, edge, hopen, hedge, hends⟩
    by_cases hkept : (t.exchange x y).target? e = t.target? e
    · exact Or.inl (Or.inl ⟨e, edge, ⟨hopen, hkept⟩, hedge, hends⟩)
    · obtain ⟨hk, hn⟩ := ht.moved hedge hkept
      have hfar := ht.farNode?_link hedge hk
      have hpair : Pair x fx edge.source edge.target ∨ Pair y fy edge.source edge.target := by
        rcases Leads.mem_touched hn with hs | hs | ⟨hs, hback⟩ | ⟨hs, hback⟩
        · rw [hs, hx] at hfar
          exact Or.inl (Or.inl ⟨hs, (Option.some.inj hfar).symm⟩)
        · rw [hs, hy] at hfar
          exact Or.inr (Or.inl ⟨hs, (Option.some.inj hfar).symm⟩)
        · exact Or.inl (Or.inr ⟨Option.some.inj (hs.symm.trans hx),
            Option.some.inj (hfar.symm.trans hback)⟩)
        · exact Or.inr (Or.inr ⟨Option.some.inj (hs.symm.trans hy),
            Option.some.inj (hfar.symm.trans hback)⟩)
      rcases hends with ⟨rfl, rfl⟩ | ⟨rfl, rfl⟩
      · exact hpair.imp Or.inr id
      · exact hpair.imp (fun h => Or.inr h.symm) Pair.symm
  · rintro ((⟨e, edge, ⟨hopen, -⟩, hedge, hends⟩ | hpair) | hpair)
    · exact ⟨e, edge, hopen, hedge, hends⟩
    · exact joined_of_pair (hg.joined ht hx) hpair
    · exact joined_of_pair (hg.joined ht hy) hpair

theorem Linked.joined_kept {a b : Nat} (ht : t.Linked) (h : t.Joined (t.Kept g x y) a b) :
    (t.exchange x y).Joined g.MayOpen a b := by
  obtain ⟨e, edge, ⟨hopen, hkept⟩, hedge, hends⟩ := h
  obtain ⟨edge', hedge', hs, -⟩ := ht.edge_exchange (x := x) (y := y) hedge
  rw [target?, target?, hedge, hedge'] at hkept
  refine ⟨e, edge', hopen, hedge', ?_⟩
  rw [hs, Option.some.inj hkept]
  exact hends

/-- Afterwards each is joined to nothing else than what was the far side of the other. -/
theorem Linked.joined_after_le {a b : Nat} (ht : t.Linked) (hx : t.farNode? x = some fx)
    (hy : t.farNode? y = some fy) (h : (t.exchange x y).Joined g.MayOpen a b) :
    Plus (Plus (t.Joined (t.Kept g x y)) x fy) y fx a b := by
  obtain ⟨hr, hfar⟩ := (Rerouted.refl ht).exchange x y
  obtain ⟨e, edge', hopen, hedge', hends⟩ := h
  have hold := hedge'
  rw [hr.edge?] at hold
  obtain ⟨edge, hedge, -⟩ := Option.map_eq_some_iff.1 hold
  obtain ⟨edge'', hedge'', hs, hk'⟩ := ht.edge_exchange (x := x) (y := y) hedge
  obtain rfl := Option.some.inj (hedge'.symm.trans hedge'')
  by_cases hkept : (t.exchange x y).target? e = t.target? e
  · have htarget : edge'.target = edge.target := by
      rw [target?, target?, hedge, hedge'] at hkept
      exact Option.some.inj hkept
    rw [hs, htarget] at hends
    exact Or.inl (Or.inl ⟨e, edge, ⟨hopen, hkept⟩, hedge, hends⟩)
  · obtain ⟨hk, hn⟩ := ht.moved hedge hkept
    have hleads := hr.linked.farNode?_link hedge' (hk'.trans hk)
    obtain ⟨target, hmem, htrade⟩ := Leads.trade_of_touched hx hy hn
    rw [hs, hfar, htrade] at hleads
    obtain rfl := Option.some.inj hleads
    rw [← hs] at hmem
    have hpair : Pair x fy edge'.source edge'.target ∨ Pair y fx edge'.source edge'.target := by
      obtain ⟨fx', fy', hx', hy', hcase⟩ := Leads.mem_moves.1 hmem
      obtain rfl := Option.some.inj (hx.symm.trans hx')
      obtain rfl := Option.some.inj (hy.symm.trans hy')
      simp only [Prod.mk.injEq] at hcase
      rcases hcase with h | h | ⟨h, -⟩ | ⟨h, -⟩
      · exact Or.inl (Or.inl h)
      · exact Or.inr (Or.inl h)
      · exact Or.inr (Or.inr h)
      · exact Or.inl (Or.inr h)
    rcases hends with ⟨rfl, rfl⟩ | ⟨rfl, rfl⟩
    · exact hpair.imp Or.inr id
    · exact hpair.imp (fun h => Or.inr h.symm) Pair.symm

/-- A door of the exchange is joined afterwards to where it then leads. -/
theorem Linked.joined_after (ht : t.Linked) (hg : t.Unbarred g)
    (hn : Leads.trade t.farNode? (x, y) n = some m) : (t.exchange x y).Joined g.MayOpen n m := by
  obtain ⟨hr, hfar⟩ := (Rerouted.refl ht).exchange x y
  have hg' : (t.exchange x y).Unbarred g := fun e he => hg e (hr.isKind .link e ▸ he)
  exact hg'.joined hr.linked (hfar ▸ hn)

theorem Linked.joined_after_eq (ht : t.Linked) (hg : t.Unbarred g) (hx : t.farNode? x = some fx)
    (hy : t.farNode? y = some fy) (hxfy : Leads.trade t.farNode? (x, y) x = some fy)
    (hyfx : Leads.trade t.farNode? (x, y) y = some fx) :
    (t.exchange x y).Joined g.MayOpen = Plus (Plus (t.Joined (t.Kept g x y)) x fy) y fx := by
  funext a b
  refine propext ⟨ht.joined_after_le hx hy, ?_⟩
  rintro ((h | h) | h)
  · exact ht.joined_kept h
  · exact joined_of_pair (ht.joined_after hg hxfy) h
  · exact joined_of_pair (ht.joined_after hg hyfx) h

/-- An exchange of two doors that are not connected does not add components. If neither leads to
itself, there is one less when some door is still connected to its far side by what the exchange
keeps, and else there are as many as before. -/
theorem exchange_rejoins (t : Topology) (g : Gates) (x y fx fy : Nat) (ht : t.Loaded)
    (hg : ∀ e, t.isKind .link e = true → g.isConstrained e = false)
    (hx : t.farNode? x = some fx) (hy : t.farNode? y = some fy)
    (hxy : y ∉ undirectedReach t g x) :
    countComponents (t.exchange x y) g ≤ countComponents t g ∧
    (fx ≠ x → fy ≠ y →
      let kept := ReflTransGen (t.Joined (t.Kept g x y))
      (kept x fx ∨ kept y fy →
        countComponents (t.exchange x y) g + 1 = countComponents t g) ∧
      (¬(kept x fx ∨ kept y fy) →
        countComponents (t.exchange x y) g = countComponents t g)) := by
  obtain ⟨hr, -⟩ := (Rerouted.refl ht.linked).exchange x y
  have lt {n m : Nat} (h : t.farNode? n = some m) : n < t.nodes.size ∧ m < t.nodes.size := by
    obtain ⟨e, edge, -, hedge, rfl, rfl, -⟩ := link_of_farNode? ht.linked.sound h
    exact ⟨ht.source_lt hedge, ht.linked.sound.target_lt hedge⟩
  obtain ⟨hltx, hltfx⟩ := lt hx
  obtain ⟨hlty, hltfy⟩ := lt hy
  have hsize : (t.exchange x y).nodes.size = t.nodes.size := by
    simpa [blank] using congrArg (fun t => t.nodes.size) hr.blank
  rw [mem_undirectedReach ht, ht.linked.joined_before hg hx hy] at hxy
  rw [countComponents_eq (ht.exchange x y), countComponents_eq ht, hsize,
    ht.linked.joined_before hg hx hy]
  have hB : Equivalence (ReflTransGen (Plus (Plus (t.Joined (t.Kept g x y)) x fx) y fy)) :=
    equivalence_reach
  have hxfx : ReflTransGen (Plus (Plus (t.Joined (t.Kept g x y)) x fx) y fy) x fx :=
    reach_plus reach_new
  have hyfy : ReflTransGen (Plus (Plus (t.Joined (t.Kept g x y)) x fx) y fy) y fy := reach_new
  -- the ends of one side are none of the other
  have h₁ : x ≠ y := fun h => hxy (h ▸ hB.refl x)
  have h₂ : x ≠ fy := fun h => hxy (hB.symm (h ▸ hyfy))
  have h₃ : y ≠ fx := fun h => hxy (h ▸ hxfx)
  by_cases hself : fx = x ∨ fy = y
  · refine ⟨classes_self hltx hltfx hlty hltfy hxy hself fun a b hab => ?_, fun hfx hfy => ?_⟩
    · have hjoined : (t.exchange x y).Joined g.MayOpen x y := by
        rcases Leads.trade_self (p := (x, y)) hx hy h₂ hself with hxy' | hyx
        · exact ht.linked.joined_after hg hxy'
        · exact Std.Symm.symm _ _ (ht.linked.joined_after hg hyx)
      exact hab.elim ht.linked.joined_kept (joined_of_pair hjoined)
    · exact absurd hself (not_or.2 ⟨hfx, hfy⟩)
  · obtain ⟨hfx, hfy⟩ := not_or.1 hself
    obtain ⟨hxfy, hyfx⟩ := Leads.trade_doors (p := (x, y)) hx hy h₁ h₂ h₃ hfx hfy
    rw [ht.linked.joined_after_eq hg hx hy hxfy hyfx]
    have hclasses := classes_trade hltx hltfx hlty hltfy hxy
    refine ⟨?_, fun _ _ => hclasses⟩
    by_cases hkept : ReflTransGen (t.Joined (t.Kept g x y)) x fx ∨
        ReflTransGen (t.Joined (t.Kept g x y)) y fy
    · have := hclasses.1 hkept
      omega
    · exact (hclasses.2 hkept).le

end Topology

/-- A house and a barn with two ways between them, and a tower with a cellar. -/
def homestead : Topology where
  nodes := #[
    { name := "Front", scene := 0, kind := .door { farScene := 1, farName := "Gate" } },
    { name := "Back", scene := 0, kind := .door { farScene := 1, farName := "Hatch" } },
    { name := "Gate", scene := 1, kind := .door { farScene := 0, farName := "Front" } },
    { name := "Hatch", scene := 1, kind := .door { farScene := 0, farName := "Back" } },
    { name := "Trap", scene := 2, kind := .door { farScene := 3, farName := "Ladder" } },
    { name := "Ladder", scene := 3, kind := .door { farScene := 2, farName := "Trap" } }]
  edges := #[
    { scene := 0, source := 0, target := 1 },
    { scene := 1, source := 2, target := 3 },
    { scene := 0, source := 0, target := 2, kind := .link },
    { scene := 0, source := 1, target := 3, kind := .link },
    { scene := 1, source := 2, target := 0, kind := .link },
    { scene := 1, source := 3, target := 1, kind := .link },
    { scene := 2, source := 4, target := 5, kind := .link },
    { scene := 3, source := 5, target := 4, kind := .link }]
  start := 0
  names := .ofKeys
    [(0, "Front"), (0, "Back"), (1, "Gate"), (1, "Hatch"), (2, "Trap"), (3, "Ladder")]
  byScene := ⟨[(0, [0, 1]), (1, [2, 3]), (2, [4]), (3, [5])]⟩
  incoming := #[[4], [0, 5], [2], [1, 3], [7], [6]]
  outgoing := #[[0, 2], [3], [1, 4], [5], [6], [7]]

theorem loaded_homestead : homestead.Loaded :=
  .finalize (by cbv : homestead.finalize = .ok homestead)

/-- Through the back of the house one still gets from its front to the gate of the barn. -/
theorem exchange_rejoins_homestead :
    4 ∉ undirectedReach homestead ⟨[]⟩ 0 ∧
    ReflTransGen (homestead.Joined (homestead.Kept ⟨[]⟩ 0 4)) 0 2 ∧
    countComponents (homestead.exchange 0 4) ⟨[]⟩ + 1 = countComponents homestead ⟨[]⟩ := by
  have hreach : undirectedReach homestead ⟨[]⟩ 0 = [0, 1, 2, 3] := by cbv
  have hxy : 4 ∉ undirectedReach homestead ⟨[]⟩ 0 := by
    rw [hreach]
    decide
  have hkept : ReflTransGen (homestead.Joined (homestead.Kept ⟨[]⟩ 0 4)) 0 2 := by
    have back : homestead.Joined (homestead.Kept ⟨[]⟩ 0 4) 0 1 :=
      ⟨0, _, ⟨rfl, by cbv⟩, rfl, Or.inl ⟨rfl, rfl⟩⟩
    have hatch : homestead.Joined (homestead.Kept ⟨[]⟩ 0 4) 1 3 :=
      ⟨3, _, ⟨rfl, by cbv⟩, rfl, Or.inl ⟨rfl, rfl⟩⟩
    have gate : homestead.Joined (homestead.Kept ⟨[]⟩ 0 4) 3 2 :=
      ⟨1, _, ⟨rfl, by cbv⟩, rfl, Or.inr ⟨rfl, rfl⟩⟩
    exact ((ReflTransGen.single back).tail hatch).tail gate
  obtain ⟨-, hneither⟩ := Topology.exchange_rejoins homestead ⟨[]⟩ 0 4 2 5 loaded_homestead
    (fun _ _ => rfl) rfl rfl hxy
  exact ⟨hxy, hkept, (hneither (by decide) (by decide)).1 (Or.inl hkept)⟩

end WorldShuffle

import WorldShuffle.Proofs.Adjacency
import WorldShuffle.Proofs.Lists
import WorldShuffle.Proofs.Rounds

namespace WorldShuffle

section newNodes

variable {seen ns : List Nat} {n k : Nat}

theorem newNodes_append (seen ns : List Nat) (n : Nat) : newNodes seen (ns ++ [n]) =
    if n ∈ seen ∨ n ∈ newNodes seen ns then newNodes seen ns else newNodes seen ns ++ [n] := by
  rw [newNodes, newNodes, List.foldl_append]
  rfl

theorem mem_newNodes : k ∈ newNodes seen ns ↔ k ∈ ns ∧ k ∉ seen := by
  induction ns using List.reverseRecOn with
  | nil => simp [newNodes]
  | append_singleton ns n ih =>
    rw [newNodes_append, List.mem_append, List.mem_singleton]
    split
    · rename_i h
      refine ⟨fun hk => ⟨Or.inl (ih.1 hk).1, (ih.1 hk).2⟩, ?_⟩
      rintro ⟨hk | rfl, hnot⟩
      · exact ih.2 ⟨hk, hnot⟩
      · exact h.resolve_left hnot
    · rename_i h
      rw [List.mem_append, List.mem_singleton, ih]
      constructor
      · rintro (⟨hk, hnot⟩ | rfl)
        · exact ⟨Or.inl hk, hnot⟩
        · exact ⟨Or.inr rfl, fun hk => h (Or.inl hk)⟩
      · rintro ⟨hk | rfl, hnot⟩
        · exact Or.inl ⟨hk, hnot⟩
        · exact Or.inr rfl

theorem nodup_newNodes (seen ns : List Nat) : (newNodes seen ns).Nodup := by
  induction ns using List.reverseRecOn with
  | nil => exact List.nodup_nil
  | append_singleton ns n ih =>
    rw [newNodes_append]
    split
    · exact ih
    · rename_i h
      exact List.nodup_append.2 ⟨ih, List.nodup_singleton n, fun k hk m hm he =>
        h (Or.inr (List.mem_singleton.1 hm ▸ he ▸ hk))⟩

end newNodes

namespace Topology

variable {t s : Topology} {goal n m u v d j k e : Nat}

def HasEdge (t : Topology) (n m : Nat) : Prop :=
  ∃ (e : Nat) (edge : Edge), t.edges[e]? = some edge ∧ edge.source = n ∧ edge.target = m

inductive Path (t : Topology) (goal : Nat) : Nat → Nat → Prop
  | here : Path t goal 0 goal
  | step {k n m : Nat} (h : t.HasEdge n m) (hm : Path t goal k m) : Path t goal (k + 1) n

def Away (t : Topology) (goal n d : Nat) : Prop := IsLeast {k | t.Path goal k n} d

def Beside (t : Topology) (goal v d : Nat) : Prop := ∃ u, t.Away goal u d ∧ t.HasEdge u v

/-- The first of that many hops away from the goal to lead beside the node. -/
def FirstBeside (t : Topology) (goal hops v d : Nat) : Prop :=
  IsLeast {d | (1 ≤ d ∧ d ≤ hops) ∧ t.Beside goal v d} d

structure Adjacent (t : Topology) : Prop where
  out {n e : Nat} : e ∈ t.out n ↔ ∃ edge, t.edges[e]? = some edge ∧ edge.source = n
  into {n e : Nat} : e ∈ t.into n ↔ ∃ edge, t.edges[e]? = some edge ∧ edge.target = n

theorem Listed.adjacent (h : t.Listed) : t.Adjacent := ⟨h.mem_out, h.mem_into⟩

theorem Adjacent.perm (h : t.Adjacent) (hedges : s.edges = t.edges)
    (hout : ∀ n, (s.out n).Perm (t.out n)) (hinto : ∀ n, (s.into n).Perm (t.into n)) :
    s.Adjacent where
  out {n e} := by rw [(hout n).mem_iff, h.out, hedges]
  into {n e} := by rw [(hinto n).mem_iff, h.into, hedges]

theorem Adjacent.mem_targetsOf (h : t.Adjacent) : v ∈ targetsOf t u ↔ t.HasEdge u v := by
  rw [targetsOf, List.mem_filterMap]
  constructor
  · rintro ⟨e, he, htarget⟩
    obtain ⟨edge, hedge, hsource⟩ := h.out.1 he
    rw [target?, hedge] at htarget
    exact ⟨e, edge, hedge, hsource, Option.some.inj htarget⟩
  · rintro ⟨e, edge, hedge, hsource, rfl⟩
    exact ⟨e, h.out.2 ⟨edge, hedge, hsource⟩, by rw [target?, hedge, Option.map_some]⟩

theorem Adjacent.mem_layerBefore {seen layer : List Nat} (h : t.Adjacent) :
    n ∈ layerBefore t seen layer ↔ (∃ m ∈ layer, t.HasEdge n m) ∧ n ∉ seen := by
  rw [layerBefore, mem_newNodes, List.mem_flatMap]
  refine and_congr_left fun _ => exists_congr fun m => and_congr_right fun _ => ?_
  rw [List.mem_filterMap]
  constructor
  · rintro ⟨e, he, hsource⟩
    obtain ⟨edge, hedge, htarget⟩ := h.into.1 he
    rw [hedge] at hsource
    exact ⟨e, edge, hedge, Option.some.inj hsource, htarget⟩
  · rintro ⟨e, edge, hedge, rfl, htarget⟩
    exact ⟨e, h.into.2 ⟨edge, hedge, htarget⟩, by rw [hedge, Option.map_some]⟩

theorem away_zero : t.Away goal n 0 ↔ n = goal := by
  constructor
  · rintro ⟨h, -⟩
    cases h
    rfl
  · rintro rfl
    exact ⟨.here, fun k _ => Nat.zero_le k⟩

theorem exists_away (h : t.Path goal k n) : ∃ d ≤ k, t.Away goal n d := by
  classical
  have hex : ∃ k, t.Path goal k n := ⟨k, h⟩
  exact ⟨Nat.find hex, Nat.find_min' hex h, Nat.find_spec hex, fun j hj => Nat.find_min' hex hj⟩

/-- What is one hop further away is what leads to the last layer and has not been reached before. -/
theorem away_succ : t.Away goal n (d + 1) ↔
    (∃ m, t.Away goal m d ∧ t.HasEdge n m) ∧ ¬∃ k ≤ d, t.Away goal n k := by
  constructor
  · rintro ⟨hpath, hleast⟩
    have hnone : ¬∃ k ≤ d, t.Away goal n k := by
      rintro ⟨k, hk, hn⟩
      have := hleast hn.1
      omega
    refine ⟨?_, hnone⟩
    cases hpath with
    | step hedge hm =>
      rename_i m
      obtain ⟨j, hj, hmj⟩ := exists_away hm
      have := hleast (Path.step hedge hmj.1)
      obtain rfl : j = d := by omega
      exact ⟨m, hmj, hedge⟩
  · rintro ⟨⟨m, hm, hedge⟩, hnone⟩
    refine ⟨Path.step hedge hm.1, fun k hk => ?_⟩
    obtain ⟨j, hj, hn⟩ := exists_away hk
    by_contra hlt
    exact hnone ⟨j, by omega, hn⟩

theorem Path.of_edges (hedges : s.edges = t.edges) (h : s.Path goal k n) : t.Path goal k n := by
  induction h with
  | here => exact .here
  | step h _ ih =>
    rw [HasEdge, hedges] at h
    exact .step h ih

theorem firstBeside_congr (hedges : s.edges = t.edges) :
    s.FirstBeside goal d v k ↔ t.FirstBeside goal d v k := by
  have hpath (k n : Nat) : s.Path goal k n ↔ t.Path goal k n :=
    ⟨.of_edges hedges, .of_edges hedges.symm⟩
  simp only [FirstBeside, Beside, Away, HasEdge, hpath, hedges]

theorem not_firstBeside_zero : ¬t.FirstBeside goal 0 v k := by
  rintro ⟨⟨⟨hle, hge⟩, -⟩, -⟩
  omega

theorem exists_firstBeside (hk : 1 ≤ k) (hle : k ≤ d) (h : t.Beside goal v k) :
    ∃ j, t.FirstBeside goal d v j := by
  classical
  have hex : ∃ k, (1 ≤ k ∧ k ≤ d) ∧ t.Beside goal v k := ⟨k, ⟨hk, hle⟩, h⟩
  exact ⟨Nat.find hex, Nat.find_spec hex, fun j hj => Nat.find_min' hex hj⟩

theorem firstBeside_succ : t.FirstBeside goal (d + 1) v k ↔
    t.FirstBeside goal d v k ∨
      k = d + 1 ∧ t.Beside goal v k ∧ ¬∃ j, t.FirstBeside goal d v j := by
  constructor
  · rintro ⟨⟨⟨hpos, hle⟩, hbeside⟩, hleast⟩
    by_cases hk : k = d + 1
    · refine Or.inr ⟨hk, hbeside, ?_⟩
      rintro ⟨j, ⟨⟨hjpos, hjle⟩, hj⟩, -⟩
      have := hleast ⟨⟨hjpos, by omega⟩, hj⟩
      omega
    · exact Or.inl ⟨⟨⟨hpos, by omega⟩, hbeside⟩, fun j hj =>
        hleast ⟨⟨hj.1.1, Nat.le_succ_of_le hj.1.2⟩, hj.2⟩⟩
  · rintro (⟨⟨⟨hpos, hle⟩, hbeside⟩, hleast⟩ | ⟨rfl, hbeside, hnone⟩)
    · refine ⟨⟨⟨hpos, by omega⟩, hbeside⟩, fun j hj => ?_⟩
      by_cases hjd : j ≤ d
      · exact hleast ⟨⟨hj.1.1, hjd⟩, hj.2⟩
      · omega
    · refine ⟨⟨⟨by omega, Nat.le_refl _⟩, hbeside⟩, fun j hj => ?_⟩
      by_contra hlt
      exact hnone (exists_firstBeside hj.1.1 (by omega) hj.2)

end Topology

namespace Attempt

variable {ω : Type} [Weight ω] {t : Topology} {a : Attempt ω} {goal total d v k : Nat}
  {seen penalized layer : List Nat} {p q : Array ω}

/-- What the penalties have become once the nodes beside the first `d` hops have theirs: a discovered
one has got the more the fewer hops lead beside it, and all others are as they were. -/
structure Spread (t : Topology) (a : Attempt ω) (goal total d : Nat) (p : Array ω) : Prop where
  size : p.size = a.penalty.size
  near {v k : Nat} : v ≠ goal → a.isDiscovered v = true → t.FirstBeside goal d v k →
    p[v]? = a.penalty[v]?.map (· + Weight.ofNat (total + 1 - k))
  far {v : Nat} : (v ≠ goal → a.isDiscovered v = true → ∀ k, ¬t.FirstBeside goal d v k) →
    p[v]? = a.penalty[v]?

theorem Spread.step {hops : Nat} {near : List Nat} (h : Spread t a goal total d p)
    (hd : d + (hops + 1) = total) (hnodup : near.Nodup)
    (hnear : ∀ v, v ∈ near ↔ v ≠ goal ∧ a.isDiscovered v = true ∧ t.Beside goal v (d + 1) ∧
      ¬∃ k, t.FirstBeside goal d v k) :
    Spread t a goal total (d + 1)
      (near.foldl (fun p n => p.modify n (· + Weight.ofNat (hops + 1))) p) where
  size := (Array.size_foldl_modify _ _ _).trans h.size
  near {v k} hv hdisc hfirst := by
    rw [Array.getElem?_foldl_modify hnodup]
    rcases Topology.firstBeside_succ.1 hfirst with hk | ⟨rfl, hbeside, hnone⟩
    · rw [if_neg fun hmem => ((hnear v).1 hmem).2.2.2 ⟨k, hk⟩]
      exact h.near hv hdisc hk
    · rw [if_pos ((hnear v).2 ⟨hv, hdisc, hbeside, hnone⟩), h.far fun _ _ j hj => hnone ⟨j, hj⟩]
      rw [show total + 1 - (d + 1) = hops + 1 by omega]
  far {v} hv := by
    rw [Array.getElem?_foldl_modify hnodup, if_neg, h.far]
    · exact fun hne hdisc k hk => hv hne hdisc k (Topology.firstBeside_succ.2 (Or.inl hk))
    · intro hmem
      obtain ⟨hne, hdisc, hbeside, hnone⟩ := (hnear v).1 hmem
      exact hv hne hdisc (d + 1) (Topology.firstBeside_succ.2 (Or.inr ⟨rfl, hbeside, hnone⟩))

structure Spreading (t : Topology) (a : Attempt ω) (goal total d : Nat)
    (seen penalized layer : List Nat) (p : Array ω) : Prop extends Spread t a goal total d p where
  layer {n : Nat} : n ∈ layer ↔ t.Away goal n d
  seen {n : Nat} : n ∈ seen ↔ ∃ k ≤ d, t.Away goal n k
  penalized {v : Nat} : v ∈ penalized ↔
    v = goal ∨ a.isDiscovered v = true ∧ ∃ k, t.FirstBeside goal d v k

theorem Spreading.start (t : Topology) (a : Attempt ω) (goal total : Nat) :
    Spreading t a goal total 0 [goal] [goal] [goal] a.penalty where
  size := rfl
  near _ _ h := absurd h Topology.not_firstBeside_zero
  far _ := rfl
  layer {n} := by rw [List.mem_singleton, Topology.away_zero]
  seen {n} := by
    simp only [List.mem_singleton, Nat.le_zero, exists_eq_left, Topology.away_zero]
  penalized {v} := by
    simp only [List.mem_singleton, Topology.not_firstBeside_zero, exists_false, and_false, or_false]

theorem Spreading.step (ht : t.Adjacent) {hops : Nat} (hd : d + (hops + 1) = total)
    (h : Spreading t a goal total d seen penalized layer p) :
    let before := layerBefore t seen layer
    let near := (newNodes penalized (before.flatMap (targetsOf t))).filter a.isDiscovered
    Spreading t a goal total (d + 1) (seen ++ before) (penalized ++ near) before
      (near.foldl (fun p n => p.modify n (· + Weight.ofNat (hops + 1))) p) := by
  intro before near
  have hbefore {n : Nat} : n ∈ before ↔ t.Away goal n (d + 1) := by
    rw [ht.mem_layerBefore, Topology.away_succ, h.seen]
    simp only [h.layer]
  have hnear {v : Nat} : v ∈ near ↔
      v ≠ goal ∧ a.isDiscovered v = true ∧ t.Beside goal v (d + 1) ∧
        ¬∃ k, t.FirstBeside goal d v k := by
    rw [List.mem_filter, mem_newNodes, List.mem_flatMap, h.penalized]
    simp only [hbefore, ht.mem_targetsOf]
    rw [Topology.Beside]
    tauto
  have hnodup : near.Nodup := (nodup_newNodes _ _).filter _
  constructor
  case toSpread => exact h.toSpread.step hd hnodup fun _ => hnear
  case layer => exact hbefore
  case seen =>
    intro n
    rw [List.mem_append, h.seen, hbefore]
    constructor
    · rintro (⟨k, hk, hn⟩ | hn)
      · exact ⟨k, Nat.le_succ_of_le hk, hn⟩
      · exact ⟨d + 1, Nat.le_refl _, hn⟩
    · rintro ⟨k, hk, hn⟩
      rcases Nat.le_succ_iff_eq_or_le.1 hk with rfl | hk
      · exact Or.inr hn
      · exact Or.inl ⟨k, hk, hn⟩
  case penalized =>
    intro v
    rw [List.mem_append, h.penalized, hnear]
    simp only [Topology.firstBeside_succ, exists_or]
    by_cases hfirst : ∃ k, t.FirstBeside goal d v k
    · simp only [hfirst, true_or, not_true, and_false, or_false]
    · simp only [hfirst, false_or, not_false_eq_true, and_true, and_false, or_false]
      simp only [exists_eq_left]
      tauto

theorem Spreading.penalizeFrom (ht : t.Adjacent) {hops : Nat} (hd : d + hops = total)
    (h : Spreading t a goal total d seen penalized layer p) :
    Spread t a goal total total
      (({ a with penalty := p } : Attempt ω).penalizeFrom t seen penalized layer hops).penalty := by
  induction hops generalizing d seen penalized layer p with
  | zero =>
    obtain rfl : d = total := hd
    exact h.toSpread
  | succ hops ih =>
    rw [Attempt.penalizeFrom]
    exact ih (by omega) (h.step ht hd)

theorem penalizeAround_spread (ht : t.Adjacent) (a : Attempt ω) (goal : Nat) :
    Spread t a goal proximityHops proximityHops (a.penalizeAround t goal).penalty :=
  (Spreading.start t a goal proximityHops).penalizeFrom ht (Nat.zero_add _)

/-- The penalties are determined by how far the nodes are from each other. -/
theorem Spread.eq {s : Topology} (hp : Spread t a goal total d p) (hq : Spread s a goal total d q)
    (hedges : s.edges = t.edges) : q = p := by
  apply Array.ext_getElem?
  intro v
  by_cases hv : v ≠ goal ∧ a.isDiscovered v = true ∧ ∃ k, t.FirstBeside goal d v k
  · obtain ⟨hne, hdisc, k, hk⟩ := hv
    rw [hp.near hne hdisc hk, hq.near hne hdisc ((Topology.firstBeside_congr hedges).2 hk)]
  · have hnone (hne : v ≠ goal) (hdisc : a.isDiscovered v = true) (k : Nat) :
        ¬t.FirstBeside goal d v k := fun hk => hv ⟨hne, hdisc, k, hk⟩
    rw [hp.far hnone, hq.far fun hne hdisc k hk =>
      hnone hne hdisc k ((Topology.firstBeside_congr hedges).1 hk)]

/-- A placement penalizes each discovered location beside the last three hops to it, once and the more
the nearer, and changes nothing else; in which order edges are listed makes no difference. -/
theorem penalizeAround_exact (ht : t.Loaded) (a : Attempt ω) (location : Nat) :
    let b := a.penalizeAround t location
    b = { a with penalty := b.penalty } ∧ b.penalty.size = a.penalty.size ∧
    (∀ v k, v ≠ location → a.isDiscovered v = true → t.FirstBeside location 3 v k →
      b.penalty[v]? = a.penalty[v]?.map (· + Weight.ofNat (4 - k))) ∧
    (∀ v, ¬(v ≠ location ∧ a.isDiscovered v = true ∧ ∃ k, t.FirstBeside location 3 v k) →
      b.penalty[v]? = a.penalty[v]?) ∧
    ∀ s : Topology, s.edges = t.edges → (∀ n, (s.out n).Perm (t.out n)) →
      (∀ n, (s.into n).Perm (t.into n)) → a.penalizeAround s location = b := by
  intro b
  have hadjacent := ht.listed.adjacent
  have hspread := penalizeAround_spread hadjacent a location
  obtain ⟨penalty, hb⟩ := a.penalizeAround_eq t location
  have hrest : b = { a with penalty := b.penalty } := by rw [show b = { a with penalty } from hb]
  refine ⟨hrest, hspread.size, fun v k hne hdisc hk => hspread.near hne hdisc hk, fun v hv => ?_,
    fun s hedges hout hinto => ?_⟩
  · exact hspread.far fun hne hdisc k hk => hv ⟨hne, hdisc, k, hk⟩
  · have hspread' := penalizeAround_spread (hadjacent.perm hedges hout hinto) a location
    obtain ⟨penalty', hb'⟩ := a.penalizeAround_eq s location
    have hsame : (a.penalizeAround s location).penalty = b.penalty := hspread.eq hspread' hedges
    rw [hrest, ← hsame, hb']

end Attempt

def cove : Topology where
  nodes := #[
    { name := "Spot", scene := 0, kind := .check { kind := .item, id := 0, saveId := "spot" } },
    { name := "Cliff", scene := 0, kind := .check { kind := .item, id := 1, saveId := "cliff" } },
    { name := "Cave", scene := 0, kind := .check { kind := .item, id := 2, saveId := "cave" } },
    { name := "Shell", scene := 0, kind := .check { kind := .item, id := 3, saveId := "shell" } },
    { name := "Reef", scene := 0, kind := .check { kind := .item, id := 4, saveId := "reef" } }]
  edges := #[
    { scene := 0, source := 1, target := 0 }, { scene := 0, source := 2, target := 1 },
    { scene := 0, source := 1, target := 3 }, { scene := 0, source := 2, target := 3 },
    { scene := 0, source := 2, target := 4 }, { scene := 0, source := 0, target := 1 },
    { scene := 0, source := 3, target := 3 }]
  start := 2
  names := .ofKeys [(0, "Spot"), (0, "Cliff"), (0, "Cave"), (0, "Shell"), (0, "Reef")]
  byScene := ⟨[(0, [0, 1, 2, 3, 4])]⟩
  incoming := #[[0], [1, 5], [], [2, 3, 6], [4]]
  outgoing := #[[5], [0, 2], [1, 3, 4], [6], []]

theorem loaded_cove : cove.Loaded := .finalize (by cbv : cove.finalize = .ok cove)

theorem firstBeside_shell : cove.FirstBeside 0 3 3 1 := by
  have hcliff : cove.Away 0 1 1 := by
    refine ⟨Topology.Path.step ⟨0, _, rfl, rfl, rfl⟩ .here, fun k hk => Nat.one_le_iff_ne_zero.2 ?_⟩
    rintro rfl
    cases hk
  exact ⟨⟨⟨Nat.le_refl 1, by decide⟩, 1, hcliff, 2, _, rfl, rfl, rfl⟩, fun d hd => hd.1.1⟩

/-- The shell is beside two hops and is penalized for the nearer one; the reef is still unknown. -/
theorem penalizeAround_exact_cove :
    let a : Attempt ℚ := { (Dealer.new cove ⟨[]⟩ {} none).start 1 with
      locations := #[.placed, .discovered 1, .discovered 1, .discovered 2, .unplaced] }
    let b := a.penalizeAround cove 0
    a.isDiscovered 3 = true ∧ cove.FirstBeside 0 3 3 1 ∧ b.penalty[3]? = some 3 ∧
      b.penalty[4]? = some 0 ∧ b.mapping = a.mapping := by
  intro a b
  have hshell : a.isDiscovered 3 = true := by cbv
  have hreef : a.isDiscovered 4 = false := by cbv
  obtain ⟨hrest, -, hnear, hfar, -⟩ := Attempt.penalizeAround_exact loaded_cove a 0
  refine ⟨hshell, firstBeside_shell, ?_, ?_, ?_⟩
  · rw [hnear 3 1 (by decide) hshell firstBeside_shell]
    cbv
  · rw [hfar 4 fun h => Bool.false_ne_true (hreef.symm.trans h.2.1)]
    cbv
  · have hmapping := congrArg Attempt.mapping hrest
    exact hmapping

end WorldShuffle

import WorldShuffle.Proofs.FarSides

namespace WorldShuffle

namespace Swaps

variable {s : Swaps} {ps : List (Nat × Nat)} {n x y : Nat}

def doors (s : Swaps) : List Nat := s.pairs.flatMap fun p => [p.1, p.2]

theorem mem_doors : n ∈ s.doors ↔ ∃ p ∈ s.pairs, n = p.1 ∨ n = p.2 := by simp [doors]

theorem doors_append : doors ⟨ps ++ [(x, y)]⟩ = doors ⟨ps⟩ ++ [x, y] := by simp [doors]

theorem get?_eq_none (h : n ∉ s.doors) : s.get? n = none := by
  rw [get?, List.findSome?_eq_none_iff]
  rintro ⟨a, b⟩ hp
  have ha : a ≠ n := fun he => h (mem_doors.2 ⟨(a, b), hp, Or.inl he.symm⟩)
  have hb : b ≠ n := fun he => h (mem_doors.2 ⟨(a, b), hp, Or.inr he.symm⟩)
  exact (if_neg ha).trans (if_neg hb)

theorem insert_eq_ok (hx : x ∉ s.doors) (hy : y ∉ s.doors) :
    s.insert x y = .ok ⟨s.pairs ++ [(x, y)]⟩ := by
  rw [insert, get?_eq_none hx, get?_eq_none hy]
  rfl

end Swaps

namespace Topology

variable {t : Topology} {g : Gates} {n x y fx : Nat}

theorem mem_eligibleDoors (h : n ∈ t.eligibleDoors g) :
    (t.farNode? n).isSome = true ∧ t.isFixedDoor n = false := by
  obtain ⟨-, h⟩ := List.mem_filter.1 h
  rw [Bool.and_eq_true, Bool.and_eq_true, Bool.not_eq_true'] at h
  exact h.1

theorem fair_of_mayTrade (hfx : t.farNode? x = some fx) (h : t.mayTrade x fx y = true) :
    Leads.Fair t.farNode? t.sceneOf (x, y) := by
  rw [mayTrade] at h
  split at h
  · cases h
  · rename_i fy hfy
    simp only [Bool.and_eq_true, bne_iff_ne, ne_eq] at h
    obtain ⟨⟨⟨⟨hxy, -⟩, -⟩, hyx⟩, hx⟩ := h
    exact ⟨fx, fy, hfx, hfy, hxy, hyx, hx⟩

end Topology

namespace DoorShuffle

variable {φ : Type} {g : Gates} {t : Topology} {ds : List Nat} {s : DoorShuffle} {n x y fx : Nat}

/-- A shuffle of the doors `ds` of a world, under way. Its topology comes of the swaps, which do not
meet; a door that is still eligible is on no side of them. -/
structure Under (t : Topology) (ds : List Nat) (s : DoorShuffle) : Prop where
  topology : s.topology = t.exchanges s.swaps.pairs
  eligible : ∀ n ∈ s.eligible, n ∈ ds
  swapped : ∀ n ∈ s.swaps.doors, n ∈ ds
  nodup : s.swaps.doors.Nodup
  fair : ∀ p ∈ s.swaps.pairs, Leads.Fair t.farNode? t.sceneOf p
  aside : ∀ p ∈ s.swaps.pairs, ∀ n ∈ s.eligible, n ∉ Leads.sides t.farNode? p
  apart : s.swaps.pairs.Pairwise (Leads.Apart t.farNode?)

theorem Under.start (t : Topology) (ds : List Nat) : Under t ds { topology := t, eligible := ds } where
  topology := rfl
  eligible _ hn := hn
  swapped _ hn := nomatch hn
  nodup := List.nodup_nil
  fair _ hp := nomatch hp
  aside _ hp := nomatch hp
  apart := List.Pairwise.nil

theorem Under.filter (h : Under t ds s) (keep : Nat → Bool) :
    Under t ds { s with eligible := s.eligible.filter keep } where
  topology := h.topology
  eligible n hn := h.eligible n (List.mem_of_mem_filter hn)
  swapped := h.swapped
  nodup := h.nodup
  fair := h.fair
  aside p hp n hn := h.aside p hp n (List.mem_of_mem_filter hn)
  apart := h.apart

theorem Under.rerouted (h : Under t ds s) (ht : t.Linked) :
    t.Rerouted s.topology ∧ s.topology.farNode? = Leads.trades t.farNode? s.swaps.pairs := by
  rw [h.topology]
  exact (Topology.Rerouted.refl ht).exchanges s.swaps.pairs

theorem Under.farNode? (h : Under t ds s) (ht : t.Linked) (hn : n ∈ s.eligible) :
    s.topology.farNode? n = t.farNode? n := by
  rw [(h.rerouted ht).2]
  apply Leads.trades_of_not_touched h.apart
  intro p hp hin
  exact h.aside p hp n hn (Leads.touched_subset_sides hin)

theorem Under.not_mem_doors (h : Under t ds s) (hn : n ∈ s.eligible) : n ∉ s.swaps.doors := by
  intro hin
  obtain ⟨p, hp, hside⟩ := Swaps.mem_doors.1 hin
  apply h.aside p hp n hn
  rw [Leads.mem_sides]
  rcases hside with hside | hside
  · exact Or.inl hside
  · exact Or.inr (Or.inl hside)

theorem Under.mayTrade (h : Under t ds s) (ht : t.Linked) (hy : y ∈ s.eligible) :
    s.topology.mayTrade x fx y = t.mayTrade x fx y := by
  have hscene (n : Nat) := (h.rerouted ht).1.sceneOf n
  rw [Topology.mayTrade, Topology.mayTrade, h.farNode? ht hy]
  simp only [hscene]

theorem Under.swap (h : Under t ds s) (hx : x ∈ s.eligible) (hy : y ∈ s.eligible)
    (hfair : Leads.Fair t.farNode? t.sceneOf (x, y)) {left : List Nat}
    (hleft : ∀ n ∈ left, n ∈ s.eligible ∧ n ∉ Leads.sides t.farNode? (x, y)) :
    Under t ds
      { topology := s.topology.exchange x y, eligible := left,
        swaps := ⟨s.swaps.pairs ++ [(x, y)]⟩ } := by
  have hne : y ≠ x := by
    obtain ⟨-, -, -, -, hne, -⟩ := hfair
    exact hne
  constructor
  case topology =>
    rw [h.topology, Topology.exchanges, Topology.exchanges, List.foldl_append]
    rfl
  case eligible =>
    intro n hn
    exact h.eligible n (hleft n hn).1
  case swapped =>
    intro n hn
    rw [Swaps.doors_append, List.mem_append] at hn
    rcases hn with hn | hn
    · exact h.swapped n hn
    · rcases List.mem_pair.1 hn with rfl | rfl
      · exact h.eligible n hx
      · exact h.eligible n hy
  case nodup =>
    rw [Swaps.doors_append, List.nodup_append]
    refine ⟨h.nodup, List.nodup_cons.2 ⟨?_, List.nodup_singleton y⟩, ?_⟩
    · exact fun hmem => hne (List.mem_singleton.1 hmem).symm
    · intro a ha b hb he
      subst he
      rcases List.mem_pair.1 hb with rfl | rfl
      · exact h.not_mem_doors hx ha
      · exact h.not_mem_doors hy ha
  case fair =>
    intro p hp
    rcases List.mem_append.1 hp with hp | hp
    · exact h.fair p hp
    · rwa [List.mem_singleton.1 hp]
  case aside =>
    intro p hp n hn
    rcases List.mem_append.1 hp with hp | hp
    · exact h.aside p hp n (hleft n hn).1
    · rw [List.mem_singleton.1 hp]
      exact (hleft n hn).2
  case apart =>
    rw [List.pairwise_append]
    refine ⟨h.apart, List.pairwise_singleton _ _, ?_⟩
    intro p hp q hq
    rw [List.mem_singleton.1 hq]
    exact Leads.apart_of_not_mem (h.aside p hp x hx) (h.aside p hp y hy)

theorem surely_chooseFrom {ns : List Nat} (h : ns ≠ []) :
    (chooseFrom ns : Trial (Fall φ) Nat).Surely (· ∈ ns) := by
  refine Trial.surely_bind (Trial.surely_index (List.length_pos_iff.2 h)) fun i hi => ?_
  apply Trial.surely_pure
  rw [List.getElem?_eq_getElem hi]
  exact List.getElem_mem hi

theorem Under.surely_swapWith (h : Under t ds s) (ht : t.Linked) (hx : x ∈ s.eligible)
    (hfx : s.topology.farNode? x = some fx) {candidates : List Nat} (hne : candidates ≠ [])
    (hc : ∀ y ∈ candidates, y ∈ s.eligible ∧ s.topology.mayTrade x fx y = true) :
    (s.swapWith g x fx candidates : Trial (Fall φ) DoorShuffle).Surely (Under t ds) := by
  -- the door is a candidate, whichever of the two lists it is chosen from
  refine Trial.surely_bind (P := (· ∈ candidates)) ?_ fun y hy => ?_
  · split
    · exact surely_chooseFrom hne
    · refine (surely_chooseFrom ?_).mono fun n hn => List.mem_of_mem_filter hn
      exact List.isEmpty_iff.not.1 ‹_›
  · obtain ⟨hyin, hmay⟩ := hc y hy
    rw [h.mayTrade ht hyin] at hmay
    rw [h.farNode? ht hx] at hfx
    refine Trial.surely_bind (Trial.surely_report _ _) fun _ _ => ?_
    have hinsert := Swaps.insert_eq_ok (h.not_mem_doors hx) (h.not_mem_doors hyin)
    refine Trial.surely_bind (Trial.surely_orDefect (P := (· = _)) hinsert rfl) fun _ hswaps => ?_
    obtain rfl := hswaps
    apply Trial.surely_pure
    apply h.swap hx hyin (Topology.fair_of_mayTrade hfx hmay)
    intro n hn
    obtain ⟨hin, hn⟩ := List.mem_filter.1 hn
    simp only [h.farNode? ht hyin, Bool.and_eq_true, bne_iff_ne, ne_eq] at hn
    obtain ⟨⟨⟨hnx, hny⟩, hnfx⟩, hnfy⟩ := hn
    refine ⟨hin, fun hside => ?_⟩
    rcases Leads.mem_sides.1 hside with he | he | he | he
    · exact hnx he
    · exact hny he
    · exact hnfx (Option.some.inj (he.symm.trans hfx))
    · exact hnfy he.symm

theorem Under.surely_swapOnce (h : Under t ds s) (ht : t.Linked) (hne : s.eligible ≠ []) :
    (s.swapOnce g : Trial (Fall φ) DoorShuffle).Surely (Under t ds) := by
  refine Trial.surely_bind (surely_chooseFrom hne) fun x hx => ?_
  split
  · exact Trial.surely_pure (h.filter _)
  · rename_i fx hfx
    dsimp only
    split
    · exact Trial.surely_pure h
    · refine h.surely_swapWith ht hx hfx (List.isEmpty_iff.not.1 ‹_›) fun y hy => ?_
      exact List.mem_filter.1 hy

theorem Under.surely_swapMany (h : Under t ds s) (ht : t.Linked) (tries : Nat) :
    (swapMany g tries s : Trial (Fall φ) DoorShuffle).Surely (Under t ds) := by
  induction tries generalizing s with
  | zero => exact Trial.surely_pure h
  | succ tries ih =>
    rw [swapMany]
    split
    · exact Trial.surely_pure h
    · rename_i hlen
      refine Trial.surely_bind (h.surely_swapOnce ht ?_) fun s' hs' => ih hs'
      intro he
      rw [he] at hlen
      exact hlen (Nat.zero_lt_succ 1)

/-- A fixed door is neither swapped nor the far side that follows a swapped one. -/
theorem Under.not_touched (h : Under t (t.eligibleDoors g) s) (ht : t.Linked)
    (hfixed : t.isFixedDoor n = true) {p : Nat × Nat} (hp : p ∈ s.swaps.pairs) :
    n ∉ Leads.touched t.farNode? p := by
  have hunfixed {x : Nat} (hx : x = p.1 ∨ x = p.2) : t.isFixedDoor x ≠ true := by
    have hx := h.swapped x (Swaps.mem_doors.2 ⟨p, hp, hx⟩)
    rw [(Topology.mem_eligibleDoors hx).2]
    exact Bool.false_ne_true
  intro hn
  rcases Leads.mem_touched hn with rfl | rfl | ⟨hfar, hback⟩ | ⟨hfar, hback⟩
  · exact hunfixed (Or.inl rfl) hfixed
  · exact hunfixed (Or.inr rfl) hfixed
  · exact hunfixed (Or.inl rfl) ((ht.isFixedDoor_back hfar hback).1 hfixed)
  · exact hunfixed (Or.inr rfl) ((ht.isFixedDoor_back hfar hback).1 hfixed)

theorem Under.fixed_kept (h : Under t (t.eligibleDoors g) s) (ht : t.Linked)
    (hfixed : t.isFixedDoor n = true) :
    s.topology.farNode? n = t.farNode? n ∧ s.topology.node? n = t.node? n := by
  obtain ⟨hrerouted, hfar⟩ := h.rerouted ht
  have hn : s.topology.farNode? n = t.farNode? n := by
    rw [hfar]
    exact Leads.trades_of_not_touched h.apart fun p hp => h.not_touched ht hfixed hp
  refine ⟨hn, ?_⟩
  rw [hrerouted.node?, hn]
  exact ((Topology.Rerouted.refl ht).node? n).symm

theorem Under.exchanges_perm (h : Under t ds s) (ht : t.Linked) {ps : List (Nat × Nat)}
    (hps : ps.Perm s.swaps.pairs) : (t.exchanges ps).edges = s.topology.edges ∧
      (t.exchanges ps).nodes = s.topology.nodes := by
  obtain ⟨hrerouted, hfar⟩ := h.rerouted ht
  obtain ⟨hrerouted', hfar'⟩ := (Topology.Rerouted.refl ht).exchanges ps
  have hsame : (t.exchanges ps).farNode? = s.topology.farNode? := by
    rw [hfar, hfar']
    exact (Leads.trades_perm hps.symm h.apart).symm
  exact (hrerouted'.ext hrerouted hsame).symm

end DoorShuffle

theorem surely_shuffleDoors {φ : Type} (g : Gates) (tries attempt : Nat) {t : Topology}
    (ht : t.Linked) : (shuffleDoors g tries attempt t : Trial (Fall φ) DoorShuffle).Surely
      (DoorShuffle.Under t (t.eligibleDoors g)) := by
  refine Trial.surely_bind (Trial.surely_report _ _) fun _ _ => ?_
  refine Trial.surely_bind ((DoorShuffle.Under.start t _).surely_swapMany ht tries) fun s hs => ?_
  refine Trial.surely_bind (Trial.surely_report _ _) fun _ _ => ?_
  exact Trial.surely_pure hs

def Topology.CrossesScenes (t : Topology) : Prop :=
  ∀ n m, t.farNode? n = some m → t.sceneOf n ≠ t.sceneOf m

/-- A shuffle of doors that lead to each other, from scene to scene, leaves them so. It swaps eligible
doors, none of them twice. -/
theorem shuffleDoors_twoWay {φ : Type} (g : Gates) (tries attempt : Nat) {t : Topology}
    (ht : t.Loaded) (htwo : Leads.TwoWay t.farNode?) (hscenes : t.CrossesScenes) :
    (shuffleDoors g tries attempt t : Trial (Fall φ) DoorShuffle).Surely fun s =>
      Leads.TwoWay s.topology.farNode? ∧ s.topology.CrossesScenes ∧
      (∀ n, (s.topology.farNode? n).isSome = (t.farNode? n).isSome) ∧
      (∀ n m, s.topology.farNode? n = some m → ∃ d, s.topology.door? n = some d ∧
        s.topology.nodeNamed? d.farScene d.farName = some m) ∧
      s.swaps.doors.Nodup ∧ ∀ n ∈ s.swaps.doors, n ∈ t.eligibleDoors g := by
  refine (surely_shuffleDoors g tries attempt ht.linked).mono fun s hs => ?_
  obtain ⟨hrerouted, hfar⟩ := hs.rerouted ht.linked
  have hloaded : s.topology.Loaded := hs.topology ▸ ht.exchanges s.swaps.pairs
  obtain ⟨htwo', hscenes'⟩ := htwo.trades hscenes hs.apart hs.fair
  refine ⟨hfar ▸ htwo', ?_, ?_, fun n m hn => hloaded.nodeNamed?_far hn, hs.nodup, hs.swapped⟩
  · intro n m hn
    rw [hrerouted.sceneOf, hrerouted.sceneOf]
    exact hscenes' n m (hfar ▸ hn)
  · intro n
    rw [hfar]
    exact Leads.isSome_trades t.farNode? s.swaps.pairs n

/-- A yard with two doors, each to a room of its own. The way out of the second room leads back
through its own door, or else through the first. -/
def yard (stray : Bool) : Topology where
  nodes := #[
    { name := "Left", scene := 0, kind := .door { farScene := 1, farName := "Porch" } },
    { name := "Right", scene := 0, kind := .door { farScene := 2, farName := "Stair" } },
    { name := "Porch", scene := 1, kind := .door { farScene := 0, farName := "Left" } },
    { name := "Stair", scene := 2,
      kind := .door { farScene := 0, farName := if stray then "Left" else "Right" } }]
  edges := #[
    { scene := 0, source := 0, target := 1 },
    { scene := 0, source := 1, target := 0 },
    { scene := 0, source := 0, target := 2, kind := .link },
    { scene := 0, source := 1, target := 3, kind := .link },
    { scene := 1, source := 2, target := 0, kind := .link },
    { scene := 2, source := 3, target := if stray then 0 else 1, kind := .link }]
  start := 0
  names := .ofKeys [(0, "Left"), (0, "Right"), (1, "Porch"), (2, "Stair")]
  byScene := ⟨[(0, [0, 1]), (1, [2]), (2, [3])]⟩
  incoming := if stray then #[[1, 4, 5], [0], [2], [3]] else #[[1, 4], [0, 5], [2], [3]]
  outgoing := #[[0, 2], [1, 3], [4], [5]]

theorem loaded_yard (stray : Bool) : (yard stray).Loaded :=
  .finalize (by cases stray <;> cbv : (yard stray).finalize = .ok (yard stray))

theorem farNode?_yard (n : Nat) : (yard false).farNode? n = [2, 3, 0, 1][n]? := by
  rcases n with _ | _ | _ | _ | n <;> rfl

theorem mem_farNode?_yard {n m : Nat} (h : (yard false).farNode? n = some m) :
    (n, m) ∈ [(0, 2), (1, 3), (2, 0), (3, 1)] := by
  rw [farNode?_yard] at h
  obtain ⟨hn, rfl⟩ := List.getElem?_eq_some_iff.1 h
  rw [List.length_cons, List.length_cons, List.length_cons, List.length_singleton] at hn
  interval_cases n <;> simp

theorem shuffleDoors_twoWay_yard :
    Leads.TwoWay (yard false).farNode? ∧ (yard false).CrossesScenes ∧
    (shuffleDoors ⟨[]⟩ 5 1 (yard false) : Trial (Fall Unit) DoorShuffle).Surely fun s =>
      Leads.TwoWay s.topology.farNode? ∧ s.topology.CrossesScenes ∧
      (∀ n, (s.topology.farNode? n).isSome = ((yard false).farNode? n).isSome) ∧
      (∀ n m, s.topology.farNode? n = some m → ∃ d, s.topology.door? n = some d ∧
        s.topology.nodeNamed? d.farScene d.farName = some m) ∧
      s.swaps.doors.Nodup ∧ ∀ n ∈ s.swaps.doors, n ∈ (yard false).eligibleDoors ⟨[]⟩ := by
  have htwo : Leads.TwoWay (yard false).farNode? := by
    intro n m h
    have hpairs : ∀ p ∈ [(0, 2), (1, 3), (2, 0), (3, 1)],
        (yard false).farNode? p.2 = some p.1 := by decide
    exact hpairs (n, m) (mem_farNode?_yard h)
  have hscenes : (yard false).CrossesScenes := by
    intro n m h
    have hpairs : ∀ p ∈ [(0, 2), (1, 3), (2, 0), (3, 1)],
        (yard false).sceneOf p.1 ≠ (yard false).sceneOf p.2 := by decide
    exact hpairs (n, m) (mem_farNode?_yard h)
  exact ⟨htwo, hscenes, shuffleDoors_twoWay ⟨[]⟩ 5 1 (loaded_yard false) htwo hscenes⟩

/-- The swaps of a shuffle tell all that it does, in any order, also of links that lead one way. -/
theorem shuffleDoors_swaps {φ : Type} (g : Gates) (tries attempt : Nat) {t : Topology}
    (ht : t.Loaded) : (shuffleDoors g tries attempt t : Trial (Fall φ) DoorShuffle).Surely fun s =>
      (∀ ps, ps.Perm s.swaps.pairs → (t.exchanges ps).edges = s.topology.edges ∧
        (t.exchanges ps).nodes = s.topology.nodes ∧ ∀ e, t.retargets e ps ≤ 1) ∧
      (∀ n node d, t.node? n = some node → node.door? = some d →
        (node.scene, d.farScene) ∈ t.fixed ∨ (d.farScene, node.scene) ∈ t.fixed →
        s.topology.farNode? n = t.farNode? n ∧ s.topology.node? n = t.node? n) ∧
      s.topology.blank = t.blank := by
  refine (surely_shuffleDoors g tries attempt ht.linked).mono fun s hs => ?_
  refine ⟨?_, ?_, (hs.rerouted ht.linked).1.blank⟩
  · intro ps hps
    obtain ⟨hedges, hnodes⟩ := hs.exchanges_perm ht.linked hps
    refine ⟨hedges, hnodes, fun e => ht.linked.retargets_le_one ?_ e⟩
    exact hs.apart.perm hps.symm Leads.Apart.symm
  · intro n node d hn hd hfixed
    exact hs.fixed_kept ht.linked ((Topology.isFixedDoor_eq hn hd).2 hfixed)

theorem shuffleDoors_swaps_yard :
    ¬Leads.TwoWay (yard true).farNode? ∧
    (shuffleDoors ⟨[]⟩ 5 1 (yard true) : Trial (Fall Unit) DoorShuffle).Surely fun s =>
      (∀ ps, ps.Perm s.swaps.pairs → ((yard true).exchanges ps).edges = s.topology.edges ∧
        ((yard true).exchanges ps).nodes = s.topology.nodes ∧
        ∀ e, (yard true).retargets e ps ≤ 1) ∧
      (∀ n node d, (yard true).node? n = some node → node.door? = some d →
        (node.scene, d.farScene) ∈ (yard true).fixed ∨
          (d.farScene, node.scene) ∈ (yard true).fixed →
        s.topology.farNode? n = (yard true).farNode? n ∧
          s.topology.node? n = (yard true).node? n) ∧
      s.topology.blank = (yard true).blank := by
  refine ⟨fun htwo => ?_, shuffleDoors_swaps ⟨[]⟩ 5 1 (loaded_yard true)⟩
  have hback : (yard true).farNode? 0 = some 3 := htwo 3 0 rfl
  exact absurd hback (by decide)

example :
    (match (shuffleDoors ⟨[]⟩ 5 1 (yard true) : Trial (Fall Unit) DoorShuffle).run ⟨⟨"", 1, rfl⟩, []⟩ with
      | .ok s _ => s.swaps.pairs
      | .error _ _ => []) = [(0, 1)] := by cbv

end WorldShuffle

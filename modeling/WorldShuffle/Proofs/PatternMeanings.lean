import Mathlib
import WorldShuffle.Proofs.CompiledLayers
import WorldShuffle.Proofs.Wildcards

namespace WorldShuffle

variable {t : Topology} {groups : Groups} {scene : SceneId} {S S' : Set Nat} {p q : Pattern}
  {ps : List Pattern} {name : String} {ns : List Nat} {n levels : Nat}

def Topology.nodesWith (t : Topology) (scene : SceneId) (f : String → Prop) : Set Nat :=
  {n | ∃ node, t.node? n = some node ∧ node.scene = scene ∧ f node.name}

inductive Describes (t : Topology) (groups : Groups) (scene : SceneId) : Pattern → Set Nat → Prop
  | exact {name : String} (h : (t.nodesWith scene (· = name)).Nonempty) :
    Describes t groups scene (.exact name) (t.nodesWith scene (· = name))
  | leading (word : String) :
    Describes t groups scene (.leading word) (t.nodesWith scene (word.toList <+: ·.toList))
  | trailing (word : String) :
    Describes t groups scene (.trailing word) (t.nodesWith scene (word.toList <:+ ·.toList))
  | any : Describes t groups scene .any (t.nodesWith scene fun _ => True)
  | group {name : String} {ps : List Pattern} (S : Pattern → Set Nat)
    (hget : groups.get? (scene, name) = some ps)
    (hps : ∀ p ∈ ps, Describes t groups scene p (S p)) :
    Describes t groups scene (.group name) (⋃ p ∈ ps, S p)
  | not {p : Pattern} {S : Set Nat} (h : Describes t groups scene p S) :
    Describes t groups scene (.not p) (t.nodesWith scene (fun _ => True) \ S)

theorem Describes.congr (h : Describes t groups scene p S) (hS : S' = S) :
    Describes t groups scene p S' := hS ▸ h

theorem Describes.unique (h : Describes t groups scene p S) (h' : Describes t groups scene p S') :
    S' = S := by
  induction h generalizing S' with
  | exact _ => cases h'; rfl
  | leading _ => cases h'; rfl
  | trailing _ => cases h'; rfl
  | any => cases h'; rfl
  | @group name ps S hget _ ih =>
    cases h' with
    | @group _ ps' S' hget' hps' =>
      obtain rfl := Option.some.inj (hget.symm.trans hget')
      exact Set.iUnion₂_congr fun p hp => ih p hp (hps' p hp)
  | not _ ih =>
    cases h' with
    | not h' => rw [ih h']

inductive Occurs (groups : Groups) (scene : SceneId) : Pattern → Nat → Pattern → Prop
  | here (p : Pattern) : Occurs groups scene p 0 p
  | group {name : String} {ps : List Pattern} {p q : Pattern} {d : Nat}
    (hget : groups.get? (scene, name) = some ps) (hp : p ∈ ps) (h : Occurs groups scene p d q) :
    Occurs groups scene (.group name) (d + 1) q
  | not {p q : Pattern} {d : Nat} (h : Occurs groups scene p d q) :
    Occurs groups scene (.not p) (d + 1) q

def Unknown (t : Topology) (groups : Groups) (scene : SceneId) : Pattern → Prop
  | .exact name => t.nodesWith scene (· = name) = ∅
  | .group name => groups.get? (scene, name) = none
  | _ => False

def Shallow (t : Topology) (groups : Groups) (scene : SceneId) (levels : Nat) (p : Pattern) : Prop :=
  ∀ d q, Occurs groups scene p d q → d < levels ∧ ¬Unknown t groups scene q

theorem shallow_iff : Shallow t groups scene (levels + 1) p ↔
    ¬Unknown t groups scene p ∧
      (∀ q, p = .not q → Shallow t groups scene levels q) ∧
      ∀ name ps, p = .group name → groups.get? (scene, name) = some ps →
        ∀ q ∈ ps, Shallow t groups scene levels q := by
  constructor
  · intro h
    refine ⟨(h 0 p (.here p)).2, ?_, ?_⟩
    · rintro q rfl d r hr
      obtain ⟨hd, hknown⟩ := h (d + 1) r (.not hr)
      exact ⟨Nat.lt_of_succ_lt_succ hd, hknown⟩
    · rintro name ps rfl hget q hq d r hr
      obtain ⟨hd, hknown⟩ := h (d + 1) r (.group hget hq hr)
      exact ⟨Nat.lt_of_succ_lt_succ hd, hknown⟩
  · rintro ⟨hknown, hnot, hgroup⟩ d r hr
    cases hr with
    | here => exact ⟨Nat.zero_lt_succ levels, hknown⟩
    | group hget hp h =>
      obtain ⟨hd, hknown⟩ := hgroup _ _ rfl hget _ hp _ _ h
      exact ⟨Nat.succ_lt_succ hd, hknown⟩
    | not h =>
      obtain ⟨hd, hknown⟩ := hnot _ rfl _ _ h
      exact ⟨Nat.succ_lt_succ hd, hknown⟩

theorem shallow_word (hnot : ∀ q, p ≠ .not q) (hgroup : ∀ name, p ≠ .group name) :
    Shallow t groups scene (levels + 1) p ↔ ¬Unknown t groups scene p := by
  rw [shallow_iff]
  exact and_iff_left ⟨fun q hq => absurd hq (hnot q), fun name ps hp => absurd hp (hgroup name)⟩

theorem shallow_group (hget : groups.get? (scene, name) = some ps) :
    Shallow t groups scene (levels + 1) (.group name) ↔ ∀ q ∈ ps, Shallow t groups scene levels q := by
  rw [shallow_iff, Unknown, hget]
  constructor
  · exact fun h => h.2.2 name ps rfl hget
  · intro h
    refine ⟨Option.some_ne_none ps, ?_, ?_⟩
    · rintro q ⟨⟩
    · rintro name' ps' ⟨⟩ hget'
      obtain rfl := Option.some.inj (hget.symm.trans hget')
      exact h

theorem shallow_not : Shallow t groups scene (levels + 1) (.not q) ↔ Shallow t groups scene levels q := by
  rw [shallow_iff]
  constructor
  · exact fun h => h.2.1 q rfl
  · intro h
    refine ⟨id, ?_, ?_⟩
    · rintro q' ⟨⟩
      exact h
    · rintro name ps ⟨⟩

namespace Topology

theorem Filed.mem_nodesWith_true (h : t.Filed) :
    n ∈ t.nodesWith scene (fun _ => True) ↔ n ∈ t.sceneNodes scene := by
  simp only [nodesWith, Set.mem_ofPred_eq, and_true, h.mem_sceneNodes]

theorem Filed.coe_sceneNodesWhere (h : t.Filed) {g : String → Bool} :
    {n | n ∈ t.sceneNodesWhere scene g} = t.nodesWith scene (g · = true) := by
  ext n
  simp only [Set.mem_ofPred_eq, mem_sceneNodesWhere, h.mem_sceneNodes, nodesWith]
  constructor
  · rintro ⟨⟨node, hnode, hscene⟩, node', hnode', hname⟩
    obtain rfl := Option.some.inj (hnode.symm.trans hnode')
    exact ⟨node, hnode, hscene, hname⟩
  · rintro ⟨node, hnode, hscene, hname⟩
    exact ⟨⟨node, hnode, hscene⟩, node, hnode, hname⟩

theorem Filed.nodesWith_name_eq_empty (h : t.Filed) :
    t.nodesWith scene (· = name) = ∅ ↔ t.nodeNamed? scene name = none := by
  rw [Set.eq_empty_iff_forall_notMem, Option.eq_none_iff_forall_ne_some]
  exact forall_congr' fun n => not_congr h.nodeNamed?.symm

theorem Filed.nodesWith_name (h : t.Filed) (hn : t.nodeNamed? scene name = some n) :
    t.nodesWith scene (· = name) = {n} := by
  ext m
  rw [Set.mem_singleton_iff, ← Option.some_inj, ← hn, eq_comm]
  exact h.nodeNamed?.symm

end Topology

namespace Pattern

theorem resolve_exists (ht : t.Filed) : (∃ ns, p.resolve t groups scene levels = .ok ns) ↔
    Shallow t groups scene levels p := by
  induction levels generalizing p with
  | zero =>
    refine iff_of_false ?_ fun h => absurd (h 0 p (.here p)).1 (Nat.lt_irrefl 0)
    rintro ⟨ns, h⟩
    cases h
  | succ levels ih =>
    cases p with
    | exact name =>
      rw [Pattern.resolve, shallow_word (by simp) (by simp), Unknown, ht.nodesWith_name_eq_empty]
      cases t.nodeNamed? scene name with
      | none =>
        refine iff_of_false ?_ (not_not_intro rfl)
        rintro ⟨ns, ⟨⟩⟩
      | some n => exact iff_of_true ⟨[n], rfl⟩ (Option.some_ne_none n)
    | leading word => exact iff_of_true ⟨_, rfl⟩ ((shallow_word (by simp) (by simp)).2 id)
    | trailing word => exact iff_of_true ⟨_, rfl⟩ ((shallow_word (by simp) (by simp)).2 id)
    | any => exact iff_of_true ⟨_, rfl⟩ ((shallow_word (by simp) (by simp)).2 id)
    | group name =>
      rw [Pattern.resolve]
      cases hget : groups.get? (scene, name) with
      | none =>
        refine iff_of_false ?_ fun h => (shallow_iff.1 h).1 hget
        rintro ⟨ns, ⟨⟩⟩
      | some ps =>
        rw [shallow_group hget]
        simp only [← ih, ← mapM_exists_ok]
        constructor
        · rintro ⟨ns, h⟩
          obtain ⟨parts, hparts, -⟩ := bind_eq_ok h
          exact ⟨parts, hparts⟩
        · rintro ⟨parts, hparts⟩
          exact ⟨_, by rw [hparts]; rfl⟩
    | not q =>
      rw [Pattern.resolve, shallow_not, ← ih]
      constructor
      · rintro ⟨ns, h⟩
        obtain ⟨excluded, hexcluded, -⟩ := bind_eq_ok h
        exact ⟨excluded, hexcluded⟩
      · rintro ⟨excluded, hexcluded⟩
        exact ⟨_, by rw [hexcluded]; rfl⟩

def resolved (t : Topology) (groups : Groups) (scene : SceneId) (levels : Nat) (p : Pattern) : Set Nat :=
  {n | ∃ ns, p.resolve t groups scene levels = .ok ns ∧ n ∈ ns}

theorem resolved_eq (h : p.resolve t groups scene levels = .ok ns) :
    p.resolved t groups scene levels = {n | n ∈ ns} := by
  ext n
  constructor
  · rintro ⟨ns', h', hn⟩
    obtain rfl := Except.ok.inj (h.symm.trans h')
    exact hn
  · exact fun hn => ⟨ns, h, hn⟩

/-- In a world where no two nodes of a scene share a name, what is found is what is meant. -/
theorem describes_of_resolve (ht : t.Filed) (h : p.resolve t groups scene levels = .ok ns) :
    Describes t groups scene p {n | n ∈ ns} := by
  induction levels generalizing p ns with
  | zero => cases h
  | succ levels ih =>
    cases p with
    | exact name =>
      rw [Pattern.resolve] at h
      split at h
      · rename_i n hn
        obtain rfl := Except.ok.inj h
        have hone := ht.nodesWith_name hn
        refine (Describes.exact (hone ▸ Set.singleton_nonempty n)).congr ?_
        rw [hone]
        ext m
        exact List.mem_singleton
      · cases h
    | leading word =>
      obtain rfl := Except.ok.inj h
      refine (Describes.leading word).congr ?_
      simp only [ht.coe_sceneNodesWhere, nameBegins, List.isPrefixOf_iff_prefix]
    | trailing word =>
      obtain rfl := Except.ok.inj h
      refine (Describes.trailing word).congr ?_
      simp only [ht.coe_sceneNodesWhere, nameEnds, List.isSuffixOf_iff_suffix]
    | any =>
      obtain rfl := Except.ok.inj h
      refine Describes.any.congr ?_
      ext n
      exact ht.mem_nodesWith_true.symm
    | group name =>
      rw [Pattern.resolve] at h
      split at h
      · cases h
      · rename_i ps hget
        obtain ⟨parts, hparts, h⟩ := bind_eq_ok h
        obtain rfl := Except.ok.inj h
        obtain ⟨hfrom, hto⟩ := mapM_eq_ok hparts
        refine (Describes.group (resolved t groups scene levels) hget fun q hq => ?_).congr ?_
        · obtain ⟨ms, -, hms⟩ := hto q hq
          exact (ih hms).congr (resolved_eq hms)
        · ext n
          simp only [Set.mem_ofPred_eq, Set.mem_iUnion, List.mem_eraseDups, List.mem_flatten]
          constructor
          · rintro ⟨ms, hms, hn⟩
            obtain ⟨q, hq, hresolve⟩ := hfrom ms hms
            exact ⟨q, hq, ms, hresolve, hn⟩
          · rintro ⟨q, hq, ms, hresolve, hn⟩
            obtain ⟨ms', hms', hresolve'⟩ := hto q hq
            obtain rfl := Except.ok.inj (hresolve.symm.trans hresolve')
            exact ⟨ms, hms', hn⟩
    | not q =>
      obtain ⟨excluded, hexcluded, h⟩ := bind_eq_ok h
      obtain rfl := Except.ok.inj h
      refine (Describes.not (ih hexcluded)).congr ?_
      ext n
      simp only [Set.mem_ofPred_eq, Set.mem_sdiff, ht.mem_nodesWith_true, List.mem_filter,
        decide_eq_true_eq]

end Pattern

end WorldShuffle

import WorldShuffle.Proofs.Compilation
import WorldShuffle.Proofs.Statements

namespace WorldShuffle

namespace Topology

variable {t : Topology} {scene : SceneId} {e a b : Nat} {edge : Edge}

def Within (t : Topology) (scene : SceneId) (e : Nat) : Prop :=
  ∃ edge, t.edges[e]? = some edge ∧ edge.kind = .inner ∧ edge.source ≠ edge.target ∧
    edge.scene = scene

theorem scene_source_finalize {t₀ : Topology} (h : t₀.finalize = .ok t)
    (hedge : t.edges[e]? = some edge) (hk : edge.kind = .inner) :
    ∃ node, t.node? edge.source = some node ∧ node.scene = edge.scene := by
  obtain ⟨-, -, hfault, rfl⟩ := finalize_eq_ok h
  rcases edges_linked hedge with he | ⟨-, he⟩
  · have hok := hfault e edge he
    rw [edgeFault?] at hok
    split at hok
    · rename_i a b ha hb
      split at hok
      · rename_i hscenes
        exact ⟨a, ha, hscenes.1⟩
      · cases hok
    · cases hok
  · obtain ⟨n, node, door, far, -, -, -, rfl⟩ := mem_links.1 (List.mem_of_getElem? he)
    cases hk

theorem Loaded.scene_source (h : t.Loaded) (hedge : t.edges[e]? = some edge)
    (hk : edge.kind = .inner) :
    ∃ node, t.node? edge.source = some node ∧ node.scene = edge.scene := by
  induction h generalizing edge with
  | finalize h => exact scene_source_finalize h hedge hk
  | exchange h x y ih =>
    obtain ⟨hr, -⟩ := (Rerouted.refl h.linked).exchange x y
    rw [hr.edge?] at hedge
    obtain ⟨old, hold, rfl⟩ := Option.map_eq_some_iff.1 hedge
    obtain ⟨hs, hkind, hscene⟩ := old.ends_leading ((Topology.exchange _ x y).farNode? old.source)
    obtain ⟨node, hnode, hn⟩ := ih hold (hkind.symm.trans hk)
    obtain ⟨node', hnode', hn', -⟩ := hr.identity hnode
    refine ⟨node', ?_, hn'.trans (hn.trans hscene.symm)⟩
    rw [hs]
    exact hnode'

theorem Loaded.within_of_mem_edgesBetween (h : t.Loaded) (ha : a ∈ t.sceneNodes scene) (hne : a ≠ b)
    (he : e ∈ t.edgesBetween a b) : t.Within scene e := by
  rw [edgesBetween, List.mem_filter, Bool.and_eq_true, beq_iff_eq] at he
  obtain ⟨hout, hkind, htarget⟩ := he
  obtain ⟨edge, hedge, hsource⟩ := h.linked.sound.mem_out.1 hout
  have hk : edge.kind = .inner := by simpa [isKind, hedge] using hkind
  rw [target?, hedge] at htarget
  obtain ⟨node, hnode, hscene⟩ := h.scene_source hedge hk
  obtain ⟨node', hnode', hscene'⟩ := h.filed.mem_sceneNodes.1 ha
  rw [hsource] at hnode
  obtain rfl := Option.some.inj (hnode.symm.trans hnode')
  refine ⟨edge, hedge, hk, ?_, hscene.symm.trans hscene'⟩
  rw [hsource, Option.some.inj htarget]
  exact hne

theorem Loaded.resolve_mem {groups : Groups} {levels : Nat} {p : Pattern} {ns : List Nat} (ht : t.Loaded)
    (h : p.resolve t groups scene levels = .ok ns) : ∀ n ∈ ns, n ∈ t.sceneNodes scene := by
  refine Pattern.resolve_forall (fun name n hn => ?_) (fun n hn => hn) h
  obtain ⟨node, hnode, hscene, -⟩ := ht.filed.nodeNamed?.1 hn
  exact ht.filed.mem_sceneNodes.2 ⟨node, hnode, hscene⟩

end Topology

section rules

variable {t : Topology} {groups : Groups} {scene : SceneId} {es : List Nat}

theorem within_of_resolveEdges {source target : Pattern} (ht : t.Loaded)
    (h : resolveEdges t groups scene source target = .ok es) : ∀ e ∈ es, t.Within scene e := by
  obtain ⟨sources, hsources, h⟩ := bind_eq_ok h
  obtain ⟨targets, -, h⟩ := bind_eq_ok h
  have hfound : ∀ e ∈ (sources.flatMap fun a => targets.flatMap fun b =>
      if a = b then [] else t.edgesBetween a b), t.Within scene e := by
    intro e he
    obtain ⟨a, ha, he⟩ := List.mem_flatMap.1 he
    obtain ⟨b, -, he⟩ := List.mem_flatMap.1 he
    split at he
    · cases he
    · exact ht.within_of_mem_edgesBetween (ht.resolve_mem (mapError_eq_ok hsources) a ha) ‹_› he
  dsimp only at h
  split at h
  · split at h
    · cases h
    · exact Except.ok.inj h ▸ hfound
  · exact Except.ok.inj h ▸ hfound

theorem within_of_edges {r : Rule} (ht : t.Loaded) (h : r.edges t groups scene = .ok es) :
    ∀ e ∈ es, t.Within scene e := by
  obtain ⟨there, hthere, h⟩ := bind_eq_ok h
  split at h
  · obtain ⟨back, hback, h⟩ := bind_eq_ok h
    obtain rfl := Except.ok.inj h
    intro e he
    exact (List.mem_append.1 he).elim (within_of_resolveEdges ht hthere e)
      (within_of_resolveEdges ht hback e)
  · exact Except.ok.inj h ▸ within_of_resolveEdges ht hthere

end rules

namespace Layer

variable {t : Topology} {l : Layer} {scene scene' : SceneId} {e e' : Nat} {cs : List Clause}

def listed (l : Layer) (scene : SceneId) : List Nat := (l.scenes.get? scene).getD []

theorem listed_put (l : Layer) (scene scene' : SceneId) (e : Nat) (cs : List Clause) :
    (l.put scene e cs).listed scene' =
      if scene' = scene then
        if e ∈ l.listed scene then l.listed scene else l.listed scene ++ [e]
      else l.listed scene' := by
  simp only [listed, put, file, Table.get?_set]
  split <;> rfl

theorem mem_listed_put : e' ∈ (l.put scene e cs).listed scene' ↔
    e' ∈ l.listed scene' ∨ scene' = scene ∧ e' = e := by
  rw [listed_put]
  by_cases hs : scene' = scene
  · subst hs
    by_cases he : e ∈ l.listed scene'
    · simp only [if_true, he, true_and]
      exact ⟨Or.inl, fun h => h.elim id fun h => h ▸ he⟩
    · simp [he]
  · simp [hs]

structure Filed (t : Topology) (l : Layer) : Prop where
  keys : l.logic.keys.Nodup
  scenes : l.scenes.keys.Nodup
  once (scene : SceneId) : (l.listed scene).Nodup
  within {scene : SceneId} {e : Nat} : e ∈ l.listed scene → t.Within scene e
  has {e : Nat} : l.logic.has e = true ↔ ∃ scene, e ∈ l.listed scene

theorem filed_empty (t : Topology) (name : String) : Filed t { name } where
  keys := List.nodup_nil
  scenes := List.nodup_nil
  once _ := List.nodup_nil
  within h := by cases h
  has := ⟨nofun, nofun⟩

theorem Filed.put (h : Filed t l) (he : t.Within scene e) (cs : List Clause) :
    Filed t (l.put scene e cs) where
  keys := Table.nodup_keys_set h.keys
  scenes := Table.nodup_keys_set h.scenes
  once scene' := by
    rw [listed_put]
    split
    · split
      · exact h.once scene
      · rename_i hnew
        exact List.nodup_append_comm.2 (List.nodup_cons.2 ⟨hnew, h.once scene⟩)
    · exact h.once scene'
  within {scene' e'} he' := by
    rcases mem_listed_put.1 he' with he' | ⟨rfl, rfl⟩
    · exact h.within he'
    · exact he
  has {e'} := by
    simp only [mem_listed_put, exists_or, ← h.has]
    rw [Layer.put, Table.has_set, Bool.or_eq_true, decide_eq_true_eq, Or.comm]
    simp

theorem Filed.scene_eq (h : Filed t l) (hs : e ∈ l.listed scene) (hs' : e ∈ l.listed scene') :
    scene = scene' := by
  obtain ⟨edge, hedge, -, -, hscene⟩ := h.within hs
  obtain ⟨edge', hedge', -, -, hscene'⟩ := h.within hs'
  obtain rfl := Option.some.inj (hedge.symm.trans hedge')
  exact hscene.symm.trans hscene'

theorem listed_of_mem_entries (h : l.scenes.keys.Nodup) {entry : SceneId × List Nat}
    (he : entry ∈ l.scenes.entries) : l.listed entry.1 = entry.2 := by
  rw [listed, Table.get?, Table.lookup_eq_some h he, Option.getD_some]

theorem Filed.mem_entries (h : Filed t l) :
    e ∈ l.scenes.entries.flatMap Prod.snd ↔ l.logic.has e = true := by
  rw [h.has, List.mem_flatMap]
  constructor
  · rintro ⟨entry, hentry, he⟩
    exact ⟨entry.1, listed_of_mem_entries h.scenes hentry ▸ he⟩
  · rintro ⟨scene, he⟩
    rw [listed] at he
    cases hget : l.scenes.get? scene with
    | none =>
      rw [hget] at he
      cases he
    | some es =>
      rw [hget] at he
      exact ⟨(scene, es), Table.mem_of_lookup hget, he⟩

theorem Filed.nodup_entries (h : Filed t l) : (l.scenes.entries.flatMap Prod.snd).Nodup := by
  rw [List.nodup_flatMap]
  constructor
  · intro entry hentry
    exact listed_of_mem_entries h.scenes hentry ▸ h.once entry.1
  · refine (List.pairwise_map.1 h.scenes).imp_of_mem fun {a b} ha hb hne => ?_
    intro e hea heb
    rw [← listed_of_mem_entries h.scenes ha] at hea
    rw [← listed_of_mem_entries h.scenes hb] at heb
    exact hne (h.scene_eq hea heb)

theorem Filed.count_entries (h : Filed t l) (e : Nat) :
    (l.scenes.entries.flatMap Prod.snd).count e = if l.logic.has e then 1 else 0 := by
  rw [h.nodup_entries.count]
  simp only [h.mem_entries]

theorem Filed.size_eq (h : Filed t l) (htidy : l.Tidy) :
    l.size = (t.edgeIndexes.filter fun e => !(l.get e).isEmpty).length := by
  have hperm : l.logic.keys.Perm (t.edgeIndexes.filter fun e => !(l.get e).isEmpty) := by
    refine (List.perm_ext_iff_of_nodup h.keys (List.nodup_range.filter _)).2 fun e => ?_
    rw [← Table.has_iff, List.mem_filter, List.mem_range]
    cases hget : l.logic.get? e with
    | none => simp [Table.has, get, hget]
    | some cs =>
      obtain ⟨scene, hlisted⟩ := h.has.1 (Option.isSome_of_eq_some hget)
      obtain ⟨edge, hedge, -⟩ := h.within hlisted
      have hlt := (Array.getElem?_eq_some_iff.1 hedge).1
      simp [Table.has, get, hget, hlt, (htidy e cs hget).ne_nil]
  rw [Layer.size, Table.size, ← hperm.length_eq, Table.keys, List.length_map]

end Layer

variable {v : Vocabulary}

theorem filed_compileStatements (ht : v.topology.Loaded) (name : String) (ss : List (List Lexeme)) :
    (compileStatements v name ss).1.layer.Tidy ∧
      Layer.Filed v.topology (compileStatements v name ss).1.layer := by
  apply compileStatements_keeps
  · intro b ts scene edges cs hrule l e cs' he hl
    obtain ⟨r, -, -, hedges, -⟩ := Rulebook.rule_eq_ok hrule
    exact hl.put (within_of_edges ht hedges e he) cs'
  · exact Layer.filed_empty v.topology name

/-- What compiling a text makes of it: logic stands on inner edges between two nodes, each of which is
listed once and under its scene, no other edge being listed. An edge's alternatives are some, they ask
for no state twice, for no count of zero and for nothing that always holds, no two ask for the same,
and the impossible one stands alone. Edges with logic are counted right, and links have none. -/
theorem compileLayer_wellFormed (v : Vocabulary) (name text : String) (ht : v.topology.Loaded) :
    let l := (compileLayer v name text).layer
    (∀ e cs, l.logic.get? e = some cs →
      (∃ edge, v.topology.edges[e]? = some edge ∧ edge.kind = .inner ∧ edge.source ≠ edge.target ∧
        e ∈ (l.scenes.get? edge.scene).getD []) ∧
      cs ≠ [] ∧
      (∀ c ∈ cs, c.names.Nodup ∧ (∀ d ∈ c.conditions, d.count ≠ 0) ∧ trueState ∉ c.names) ∧
      cs.Pairwise (fun a b => ¬a.conditions.Perm b.conditions) ∧
      ∀ c ∈ cs, falseState ∈ c.names → cs = [.never]) ∧
    (∀ e, (l.scenes.entries.flatMap Prod.snd).count e = if l.logic.has e then 1 else 0) ∧
    (compileLayer v name text).report.edges =
      (v.topology.edgeIndexes.filter fun e => !(l.get e).isEmpty).length ∧
    ∀ e, v.topology.isKind .link e = true → l.get e = [] := by
  obtain ⟨htidy, hfiled⟩ := filed_compileStatements ht name (splitStatements (tokenize text))
  refine ⟨fun e cs hget => ?_, hfiled.count_entries, hfiled.size_eq htidy, fun e he => ?_⟩
  · have hcs := htidy e cs hget
    obtain ⟨scene, hlisted⟩ := hfiled.has.1 (Option.isSome_of_eq_some hget)
    obtain ⟨edge, hedge, hk, hne, rfl⟩ := hfiled.within hlisted
    refine ⟨⟨edge, hedge, hk, hne, hlisted⟩, hcs.ne_nil, fun c hc => ?_, hcs.distinct, fun c hc hn => ?_⟩
    · exact ⟨(hcs.normal c hc).nodup, hcs.counted c hc, hcs.plain hc⟩
    · exact hcs.alone hc (Clause.isNever_iff.2 hn)
  · refine Layer.get_eq_nil (Bool.eq_false_iff.2 fun hhas => ?_)
    obtain ⟨scene, hlisted⟩ := hfiled.has.1 hhas
    obtain ⟨edge, hedge, hk, -⟩ := hfiled.within hlisted
    rw [Topology.isKind, hedge] at he
    simp [hk] at he

def roomRules : String := "Scene 0\nKey <-> *: Oil"

theorem compileLayer_wellFormed_twoRooms :
    let l := (compileLayer twoRoomsWords "base" roomRules).layer
    l.logic.get? 0 = some [⟨[⟨"Oil", 1⟩]⟩] ∧
    0 ∈ (l.scenes.get? 0).getD [] ∧ (l.scenes.entries.flatMap Prod.snd).count 0 = 1 ∧
    ∀ e, twoRooms.isKind .link e = true → l.get e = [] := by
  obtain ⟨hlogic, hcount, -, hlinks⟩ :=
    compileLayer_wellFormed twoRoomsWords "base" roomRules loaded_twoRooms
  have hstatements : splitStatements (tokenize roomRules) = [roomHeader, oilRule 2 "*"] := by
    decide +kernel
  have hget : (compileLayer twoRoomsWords "base" roomRules).layer.logic.get? 0 =
      some [⟨[⟨"Oil", 1⟩]⟩] := by
    change (compileStatements twoRoomsWords "base"
      (splitStatements (tokenize roomRules))).1.layer.logic.get? 0 = _
    rw [hstatements]
    cbv
  obtain ⟨⟨edge, hedge, -, -, hlisted⟩, -⟩ := hlogic 0 _ hget
  have hscene : edge.scene = 0 :=
    (congrArg Edge.scene (Option.some.inj hedge)).symm
  refine ⟨hget, hscene ▸ hlisted, ?_, hlinks⟩
  rw [hcount, Table.has, hget]
  rfl

end WorldShuffle

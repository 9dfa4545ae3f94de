import Mathlib.Data.List.Flatten
import Mathlib.Data.List.Nodup
import Mathlib.Data.List.Perm.Basic
import Mathlib.Data.List.Perm.Subperm
import WorldShuffle.Proofs.Exploration
import WorldShuffle.Proofs.Lists

namespace WorldShuffle

structure Visit.Hands (visit : Visit) (base : Nat → List Grant) : Prop where
  states (n : Nat) (s : States) : (visit n s).1 = s.grant (base n)

structure Visit.Gives (visit : Visit) (base : Nat → List Grant) : Prop extends visit.Hands base where
  honest : visit.Honest

theorem Visit.Hands.foldl_visit {visit : Visit} {base : Nat → List Grant} (hv : visit.Hands base)
    (ns : List Nat) (s : States) :
    ns.foldl (fun s n => (visit n s).1) s = s.grant (ns.flatMap base) := by
  induction ns generalizing s with
  | nil => rfl
  | cons n ns ih =>
    rw [List.foldl_cons, ih, hv.states, List.flatMap_cons, States.grant_append]

def itemGrant (t : Topology) (fill : Nat × Nat) : Grant := .acquire (t.state fill.2)

/-- A lawful course of events: nodes are entered at the start or through edges that are open at that
moment, and visited locations are filled with items, which grants the states of these. The indexes
are the nodes visited, the locations filled and the states held. -/
inductive Course (t : Topology) (g : Gates) (base : Nat → List Grant) (s₀ : States) :
    List Nat → List (Nat × Nat) → States → Prop
  | start : Course t g base s₀ [] [] s₀
  | root {vs fs s} (h : Course t g base s₀ vs fs s) (hn : t.start ∉ vs) :
      Course t g base s₀ (vs ++ [t.start]) fs (s.grant (base t.start))
  | visit {vs fs s e edge} (h : Course t g base s₀ vs fs s) (hedge : t.edges[e]? = some edge)
      (hs : edge.source ∈ vs) (hopen : g.canTraverse e s = true) (hn : edge.target ∉ vs) :
      Course t g base s₀ (vs ++ [edge.target]) fs (s.grant (base edge.target))
  | fill {vs fs s l i} (h : Course t g base s₀ vs fs s) (hl : l ∈ vs)
      (hn : l ∉ fs.map Prod.fst) :
      Course t g base s₀ vs (fs ++ [(l, i)]) (s.acquire (t.state i))

variable {t : Topology} {g : Gates} {base gives : Nat → List Grant} {s₀ s : States}
  {vs : List Nat} {fs : List (Nat × Nat)}

namespace Course

theorem nodup_visited (h : Course t g base s₀ vs fs s) : vs.Nodup := by
  induction h with
  | start => exact List.nodup_nil
  | root h hn ih => exact List.nodup_append_comm.2 (List.nodup_cons.2 ⟨hn, ih⟩)
  | visit h hedge hs hopen hn ih =>
    exact List.nodup_append_comm.2 (List.nodup_cons.2 ⟨hn, ih⟩)
  | fill h hl hn ih => exact ih

theorem nodup_filled (h : Course t g base s₀ vs fs s) : (fs.map Prod.fst).Nodup := by
  induction h with
  | start => exact List.nodup_nil
  | root h hn ih => exact ih
  | visit h hedge hs hopen hn ih => exact ih
  | fill h hl hn ih =>
    rw [List.map_append]
    exact List.nodup_append_comm.2 (List.nodup_cons.2 ⟨hn, ih⟩)

theorem filled_visited (h : Course t g base s₀ vs fs s) : ∀ l ∈ fs.map Prod.fst, l ∈ vs := by
  induction h with
  | start => simp
  | root h hn ih => exact fun l hl => List.mem_append_left _ (ih l hl)
  | visit h hedge hs hopen hn ih => exact fun l hl => List.mem_append_left _ (ih l hl)
  | fill h hl hn ih =>
    intro k hk
    rw [List.map_append, List.mem_append] at hk
    rcases hk with hk | hk
    · exact ih k hk
    · simpa using List.mem_singleton.1 hk ▸ hl

theorem grants_enter {gs : List Grant} (hp : gs.Perm (vs.flatMap base ++ fs.map (itemGrant t)))
    (n : Nat) : (gs ++ base n).Perm ((vs ++ [n]).flatMap base ++ fs.map (itemGrant t)) := by
  rw [List.flatMap_append, List.flatMap_singleton]
  refine (hp.append_right (base n)).trans ?_
  rw [List.append_assoc, List.append_assoc]
  exact List.perm_append_comm.append_left _

/-- The states held come from the visits and the items, in some order. -/
theorem states_eq (h : Course t g base s₀ vs fs s) :
    ∃ gs, s = s₀.grant gs ∧ gs.Perm (vs.flatMap base ++ fs.map (itemGrant t)) := by
  induction h with
  | start => exact ⟨[], rfl, List.Perm.nil⟩
  | root h hn ih =>
    obtain ⟨gs, rfl, hp⟩ := ih
    exact ⟨gs ++ base t.start, (States.grant_append _ _ _).symm, grants_enter hp _⟩
  | visit h hedge hs hopen hn ih =>
    obtain ⟨gs, rfl, hp⟩ := ih
    exact ⟨gs ++ base _, (States.grant_append _ _ _).symm, grants_enter hp _⟩
  | @fill vs fs s l i h hl hn ih =>
    obtain ⟨gs, rfl, hp⟩ := ih
    refine ⟨gs ++ [itemGrant t (l, i)],
      (States.grant_append s₀ gs [itemGrant t (l, i)]).symm, ?_⟩
    rw [List.map_append, ← List.append_assoc]
    exact hp.append_right _

theorem fills {new : List (Nat × Nat)} (h : Course t g base s₀ vs fs s)
    (hnodup : ((fs ++ new).map Prod.fst).Nodup) (hnew : ∀ f ∈ new, f.1 ∈ vs) :
    Course t g base s₀ vs (fs ++ new) (s.grant (new.map (itemGrant t))) := by
  induction new generalizing fs s with
  | nil => rwa [List.append_nil]
  | cons f new ih =>
    rw [List.append_cons] at hnodup ⊢
    have hnot : f.1 ∉ fs.map Prod.fst := by
      rw [List.map_append, List.map_append, List.append_assoc] at hnodup
      exact fun hf => (List.nodup_append.1 hnodup).2.2 f.1 hf f.1 (by simp) rfl
    exact ih (h.fill (hnew f List.mem_cons_self) hnot) hnodup
      fun f' hf' => hnew f' (List.mem_cons_of_mem f hf')

end Course

theorem flatMap_subperm (h : ∀ n, (base n).Subperm (gives n)) (vs : List Nat) :
    (vs.flatMap base).Subperm (vs.flatMap gives) := by
  induction vs with
  | nil => exact List.Subperm.refl _
  | cons n vs ih =>
    rw [List.flatMap_cons, List.flatMap_cons]
    exact List.Subperm.append (h n) ih

/-- What is granted by visits and items comes to no more than what the same visits give, if each of
the filled locations gives its item. -/
theorem granted_subperm (h : ∀ n, (base n).Subperm (gives n))
    (hfs : ∀ f ∈ fs, (base f.1 ++ [itemGrant t f]).Subperm (gives f.1))
    (hnodup : (fs.map Prod.fst).Nodup) (hvs : ∀ l ∈ fs.map Prod.fst, l ∈ vs) :
    (vs.flatMap base ++ fs.map (itemGrant t)).Subperm (vs.flatMap gives) := by
  induction fs generalizing vs with
  | nil => simpa using flatMap_subperm h vs
  | cons f fs ih =>
    have hf : f.1 ∈ vs := hvs f.1 (by simp)
    have hperm := List.perm_cons_erase hf
    have hsub : ∀ l ∈ fs.map Prod.fst, l ∈ vs.erase f.1 := by
      intro l hl
      have hne : l ≠ f.1 := fun heq => (List.nodup_cons.1 hnodup).1 (heq ▸ hl)
      exact (List.mem_erase_of_ne hne).2 (hvs l (List.mem_cons_of_mem _ hl))
    have hrest := ih (fun f' hf' => hfs f' (List.mem_cons_of_mem f hf'))
      (List.nodup_cons.1 hnodup).2 hsub
    have hleft : (vs.flatMap base ++ (f :: fs).map (itemGrant t)).Perm
        ((base f.1 ++ [itemGrant t f]) ++
          ((vs.erase f.1).flatMap base ++ fs.map (itemGrant t))) := by
      refine ((hperm.flatMap_right base).append_right _).trans ?_
      simp only [List.flatMap_cons, List.map_cons, List.append_assoc, List.singleton_append]
      exact List.perm_middle.append_left _
    have hright : (vs.flatMap gives).Perm (gives f.1 ++ (vs.erase f.1).flatMap gives) :=
      hperm.flatMap_right gives
    exact hleft.subperm.trans
      ((List.Subperm.append (hfs f List.mem_cons_self) hrest).trans hright.symm.subperm)

structure Saturated (t : Topology) (g : Gates) (gives : Nat → List Grant) (s₀ : States)
    (ns : List Nat) : Prop where
  start_mem : t.start ∈ ns
  closed {e : Nat} {edge : Edge} : t.edges[e]? = some edge → edge.source ∈ ns →
    g.canTraverse e (s₀.grant (ns.flatMap gives)) = true → edge.target ∈ ns
  separate (q : String) : .ensure q ∈ ns.flatMap gives → .acquire q ∉ ns.flatMap gives

namespace Saturated

variable {ns : List Nat}

theorem below (hsat : Saturated t g gives s₀ ns) (h : Course t g base s₀ vs fs s)
    (hbase : ∀ n, (base n).Subperm (gives n))
    (hfs : ∀ f ∈ fs, (base f.1 ++ [itemGrant t f]).Subperm (gives f.1)) (hvs : ∀ n ∈ vs, n ∈ ns) :
    s.Below (s₀.grant (ns.flatMap gives)) := by
  obtain ⟨gs, rfl, hp⟩ := h.states_eq
  have hsub : gs.Subperm (ns.flatMap gives) :=
    (hp.subperm.trans (granted_subperm hbase hfs h.nodup_filled h.filled_visited)).trans
      (List.Subperm.flatMap_right (List.subperm_of_subset h.nodup_visited hvs) gives)
  exact States.grant_below s₀ (fun q => hsub.count_le _) (fun q hq => hsub.subset hq) hsat.separate

/-- No lawful course leaves a saturated set, in whatever order it enters nodes and fills locations. -/
theorem contains (hsat : Saturated t g gives s₀ ns) (h : Course t g base s₀ vs fs s)
    (hbase : ∀ n, (base n).Subperm (gives n))
    (hfs : ∀ f ∈ fs, (base f.1 ++ [itemGrant t f]).Subperm (gives f.1)) : ∀ n ∈ vs, n ∈ ns := by
  induction h with
  | start => simp
  | root h hn ih =>
    intro k hk
    rcases List.mem_append.1 hk with hk | hk
    · exact ih hfs k hk
    · exact List.mem_singleton.1 hk ▸ hsat.start_mem
  | visit h hedge hs hopen hn ih =>
    intro k hk
    rcases List.mem_append.1 hk with hk | hk
    · exact ih hfs k hk
    · have hb := hsat.below h hbase hfs (ih hfs)
      rw [List.mem_singleton.1 hk]
      exact hsat.closed hedge (ih hfs _ hs) (Gates.canTraverse_mono hb hopen)
  | fill h hl hn ih => exact ih fun f hf => hfs f (List.mem_append_left _ hf)

end Saturated

namespace Walk

variable {visit : Visit} {w : Walk}

theorem course_explore (ht : t.Sound) (hv : visit.Gives base) (h : w.explorer.Sound t g [])
    (hroots : ∀ n ∈ w.explorer.roots, n = t.start) (htracks : w.Tracks vs)
    (hc : Course t g base s₀ (vs ++ w.order) fs w.states) :
    Course t g base s₀ (vs ++ (w.explore t g visit).order) fs (w.explore t g visit).states := by
  have arrive (v : Walk) (n : Nat)
      (hc : v.isNew n = true → Course t g base s₀ ((vs ++ v.order) ++ [n]) fs
        (v.states.grant (base n))) (hn : v.isNew n = true) :
      Course t g base s₀ (vs ++ (v.arrive visit n).order) fs (v.arrive visit n).states := by
    have hs : (v.arrive visit n).states = v.states.grant (base n) := hv.states n v.states
    rw [hs, arrive, ← List.append_assoc]
    exact hc hn
  have new {v : Walk} {n : Nat} (htr : v.Tracks vs) (hn : v.isNew n = true) :
      n ∉ vs ++ v.order := by
    have hnot := (Marks.isOpen_iff.1 hn).2
    intro hm
    simp [(htr.visited_iff n).2 hm] at hnot
  refine (explore_induction ht (g := g)
    (P := fun v => v.Tracks vs ∧ Course t g base s₀ (vs ++ v.order) fs v.states)
    (fun v hp => ⟨⟨hp.1.visited_iff, hp.1.nodup⟩, hp.2⟩)
    (fun v e hp _ => ⟨⟨hp.1.visited_iff, hp.1.nodup⟩, hp.2⟩) (fun v e hp => ?_)
    (fun v e edge hp hedge hs hopen hn => ?_) w (fun v n hn hp hnew => ?_) h ⟨htracks, hc⟩).2.2
  · obtain ⟨es, he⟩ := defer_eq v e
    exact he ▸ ⟨⟨hp.1.visited_iff, hp.1.nodup⟩, hp.2⟩
  · have htr : (v.cross e).Tracks vs := ⟨hp.1.visited_iff, hp.1.nodup⟩
    exact ⟨htr.arrive hn, arrive (v.cross e) edge.target (fun hn =>
      Course.visit hp.2 hedge ((hp.1.visited_iff _).1 hs) hopen (new htr hn)) hn⟩
  · obtain rfl := hroots n hn
    exact ⟨hp.1.arrive hnew, arrive v t.start (fun hn => Course.root hp.2 (new hp.1 hn)) hnew⟩

def fresh (t : Topology) (s : States) : Walk :=
  { explorer := (Explorer.new t).addRoot t.start, states := s }

theorem tracks_fresh (t : Topology) (s : States) : (fresh t s).Tracks [] where
  visited_iff n := by simp [fresh, Explorer.addRoot, Explorer.new, Marks.isSet_none]
  nodup := List.nodup_nil

theorem sound_fresh (t : Topology) (g : Gates) (s : States) :
    (fresh t s).explorer.Sound t g [] :=
  (Explorer.sound_new t g).addRoot t.start

theorem visited_fresh (visit : Visit) (s : States) (n : Nat) :
    ((fresh t s).explore t g visit).explorer.visited.isSet n = true ↔
      n ∈ ((fresh t s).explore t g visit).order := by
  simpa using (tracks_fresh t s).explore.visited_iff n

theorem states_fresh (hv : visit.Gives base) (s : States) :
    ((fresh t s).explore t g visit).states =
      s.grant (((fresh t s).explore t g visit).order.flatMap base) := by
  rw [states_explore (fresh t s) rfl, hv.foldl_visit]
  rfl

theorem course_fresh (ht : t.Sound) (hv : visit.Gives base) (s : States) :
    Course t g base s ((fresh t s).explore t g visit).order []
      ((fresh t s).explore t g visit).states := by
  have hroots : ∀ n ∈ (fresh t s).explorer.roots, n = t.start := by
    simp [fresh, Explorer.addRoot, Explorer.new]
  exact course_explore ht hv (sound_fresh t g s) hroots (tracks_fresh t s) Course.start

theorem start_mem_fresh (ht : t.Sound) (visit : Visit) (s : States) :
    t.start ∈ ((fresh t s).explore t g visit).order := by
  rw [← visited_fresh visit s]
  refine visited_root (by simp [fresh, Explorer.addRoot]) ?_
  rw [(sound_fresh t g s).visited_size]
  exact ht.start_lt

theorem saturated_fresh (ht : t.Sound) (hv : visit.Gives base)
    (hsep : ∀ n k q, .ensure q ∈ base n → .acquire q ∉ base k) (s : States) :
    Saturated t g base s ((fresh t s).explore t g visit).order where
  start_mem := start_mem_fresh ht visit s
  closed {e edge} hedge hs hopen := by
    rw [← visited_fresh visit s] at hs ⊢
    have hsound := sound_explore ht visit (sound_fresh t g s)
    rw [← states_fresh hv s] at hopen
    rcases hsound.settled hs (ht.mem_out.2 ⟨edge, hedge, rfl⟩) with hx | hx | hx
    · obtain ⟨edge', hedge', -, htgt⟩ := hsound.joined hx
      exact Option.some.inj (hedge.symm.trans hedge') ▸ htgt
    · simp [Gates.canTraverse_eq_false_of_isFalse hx] at hopen
    · simp [explore_blocked hv.honest (fresh t s) e hx] at hopen
  separate q hq := by
    intro ha
    obtain ⟨n, -, hn⟩ := List.mem_flatMap.1 hq
    obtain ⟨k, -, hk⟩ := List.mem_flatMap.1 ha
    exact hsep n k q hn hk

end Walk

end WorldShuffle

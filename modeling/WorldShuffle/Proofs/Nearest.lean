import WorldShuffle.Proofs.Lists
import WorldShuffle.Proofs.Rounds
import WorldShuffle.Proofs.WiderGates

namespace WorldShuffle

variable {g : Gates} {c : Clause} {s s' : States} {p q : String} {e : Nat} {ms : List Condition}

namespace Clause

def unmet (c : Clause) (s : States) : List Condition :=
  c.conditions.filter fun d => s.count d.state < d.count

def deficit (c : Clause) (s : States) : Nat :=
  ((c.unmet s).map fun d => d.count.toNat - (s.count d.state).toNat).sum

/-- How far the states are from meeting a clause: the number of its unmet conditions comes first, and
then the deficit. -/
def gap (c : Clause) (s : States) : Nat ×ₗ Nat := toLex ((c.unmet s).length, c.deficit s)

def gap32 (c : Clause) (s : States) : Nat ×ₗ Nat :=
  toLex ((c.unmet s).length, c.deficit s % UInt32.size)

theorem missing_eq_map_unmet (c : Clause) (s : States) :
    c.missing s = (c.unmet s).map fun d => ⟨d.state, d.count - s.count d.state⟩ := by
  rw [missing, unmet]
  induction c.conditions with
  | nil => rfl
  | cons d ds ih =>
    rw [List.filterMap_cons, List.filter_cons, ih]
    dsimp only
    by_cases h : d.count ≤ s.count d.state
    · rw [if_pos h, if_neg (by simpa using h)]
    · rw [if_neg h, if_pos (by simpa using h), List.map_cons]

theorem copies_missing (c : Clause) (s : States) : copies (c.missing s) = c.deficit s := by
  rw [missing_eq_map_unmet, copies, deficit, List.map_map]
  refine congrArg List.sum (List.map_congr_left fun d hd => ?_)
  have hlt : s.count d.state < d.count := by simpa using (List.mem_filter.1 hd).2
  exact UInt32.toNat_sub_of_le _ _ (UInt32.le_of_lt hlt)

theorem distance_missing (c : Clause) (s : States) : distance (c.missing s) = c.gap32 s := by
  rw [distance, toNat_totalCount, copies_missing, gap32, missing_eq_map_unmet, List.length_map]

theorem gap32_eq {c : Clause} {s : States} (h : c.deficit s < UInt32.size) : c.gap32 s = c.gap s := by
  rw [gap32, gap, Nat.mod_eq_of_lt h]

end Clause

/-- The first of the possible alternatives of which some measure is least. -/
def FirstLeast {β : Type} [LinearOrder β] (f : Clause → β) (cs : List Clause) (c : Clause) : Prop :=
  ∃ before after, cs = before ++ c :: after ∧ c.isNever = false ∧
    (∀ b ∈ before, b.isNever = false → f c < f b) ∧ ∀ b ∈ after, b.isNever = false → f c ≤ f b

theorem FirstLeast.unique {β : Type} [LinearOrder β] {f : Clause → β} {cs : List Clause} {c' : Clause}
    (h : FirstLeast f cs c) (h' : FirstLeast f cs c') : c = c' := by
  obtain ⟨before, after, rfl, hnever, hbefore, hafter⟩ := h
  obtain ⟨before', after', hsplit, hnever', hbefore', hafter'⟩ := h'
  rcases List.append_eq_append_iff.1 hsplit with ⟨between, rfl, hrest⟩ | ⟨between, rfl, hrest⟩
  · cases between with
    | nil => exact (List.cons.inj hrest).1
    | cons b between =>
      obtain ⟨rfl, rfl⟩ := List.cons.inj hrest
      exact absurd (hafter c' (by simp) hnever') (not_le_of_gt (hbefore' c (by simp) hnever))
  · cases between with
    | nil => exact (List.cons.inj hrest).1.symm
    | cons b between =>
      obtain ⟨rfl, rfl⟩ := List.cons.inj hrest
      exact absurd (hafter' c (by simp) hnever) (not_le_of_gt (hbefore c' (by simp) hnever'))

theorem FirstLeast.congr {β : Type} [LinearOrder β] {f f' : Clause → β} {cs : List Clause}
    (h : FirstLeast f cs c) (hf : ∀ b ∈ cs, b.isNever = false → f b = f' b) : FirstLeast f' cs c := by
  obtain ⟨before, after, rfl, hnever, hbefore, hafter⟩ := h
  have hc := hf c (by simp) hnever
  refine ⟨before, after, rfl, hnever, fun b hb hb' => ?_, fun b hb hb' => ?_⟩
  · rw [← hc, ← hf b (by simp [hb]) hb']
    exact hbefore b hb hb'
  · rw [← hc, ← hf b (by simp [hb]) hb']
    exact hafter b hb hb'

namespace States

def acquireAll (s : States) (ms : List Condition) : States :=
  ms.foldl (fun s m => s.acquireN m.state m.count) s

theorem amount_acquireAll (s : States) (ms : List Condition) (q : String) :
    (s.acquireAll ms).amount q = min (s.amount q + wanted ms q) 0xffffffff := by
  induction ms generalizing s with
  | nil =>
    have := s.amount_le q
    rw [wanted_nil, acquireAll, List.foldl_nil]
    omega
  | cons m ms ih =>
    change ((s.acquireN m.state m.count).acquireAll ms).amount q = _
    rw [ih, amount_acquireN, wanted_cons]
    split <;> omega

theorem count_suppliedBy_eq (ms : List Condition) (q : String) :
    (suppliedBy ms).count q = wanted ms q := by
  induction ms with
  | nil => rfl
  | cons m ms ih =>
    rw [suppliedBy, List.flatMap_cons, List.count_append, wanted_cons, ← ih, List.count_replicate]
    congr 1
    exact if_congr (by rw [beq_iff_eq, eq_comm]) rfl rfl

theorem count_grant_suppliedBy (s : States) (ms : List Condition) :
    (s.grant ((suppliedBy ms).map .acquire)).count = (s.acquireAll ms).count := by
  funext q
  have hens : Grant.ensure q ∉ (suppliedBy ms).map Grant.acquire := by simp
  have hcount := List.count_map_of_injective (suppliedBy ms) Grant.acquire
    (fun _ _ => Grant.acquire.inj) q
  apply UInt32.toNat_inj.1
  rw [toNat_count, toNat_count, amount_grant s hens, hcount, count_suppliedBy_eq, amount_acquireAll]

theorem below_acquireAll (s : States) (ms : List Condition) : s.Below (s.acquireAll ms) := by
  refine below_of_amount_le fun q => ?_
  have := s.amount_le q
  rw [amount_acquireAll]
  omega

end States

theorem distance_le_nil : distance ms ≤ distance [] ↔ ms = [] := by
  refine ⟨fun h => ?_, fun h => h ▸ le_rfl⟩
  rw [distance, distance, Prod.Lex.toLex_le_toLex'] at h
  exact List.eq_nil_of_length_eq_zero (Nat.le_zero.1 h.1)

namespace Gates

theorem canTraverse_congr (h : s.count = s'.count) : g.canTraverse e s = g.canTraverse e s' := by
  have hholds : (fun c : Clause => c.holds s) = fun c : Clause => c.holds s' := by
    funext c
    rw [Clause.holds, Clause.holds, h]
  rw [canTraverse, canTraverse, hholds]

theorem nearest?_le {n : Clause} (hn : g.nearest? e s = some n) (hc : c ∈ g.possible e) :
    distance (n.missing s) ≤ distance (c.missing s) :=
  List.le_of_mem_argmin (f := fun c : Clause => distance (c.missing s)) hc hn

theorem missing?_eq_none : g.missing? e s = none ↔ g.isFalse e = true := by
  rw [missing?_eq, isFalse_iff]
  by_cases hnil : g.alternatives e = []
  · simp [hnil]
  · simp [hnil, nearest?_eq_none]

theorem firstLeast_of_nearest? (h : g.nearest? e s = some c) :
    FirstLeast (·.gap32 s) (g.alternatives e) c := by
  obtain ⟨nears, fars, hsplit, hnears, hfars⟩ := List.exists_split_of_argmin h
  obtain ⟨before, rest, halternatives, rfl, hrest⟩ := List.filter_eq_append_iff.1 hsplit
  obtain ⟨skipped, after, rfl, hskipped, hnever, rfl⟩ := List.filter_eq_cons_iff.1 hrest
  simp only [Clause.distance_missing] at hnears hfars
  refine ⟨before ++ skipped, after, ?_, by simpa using hnever, fun b hb hb' => ?_, fun b hb hb' => ?_⟩
  · rw [halternatives, List.append_assoc]
  · rcases List.mem_append.1 hb with hb | hb
    · exact hnears b (List.mem_filter.2 ⟨hb, by simp [hb']⟩)
    · exact absurd (by simp [hb']) (hskipped b hb)
  · exact hfars b (List.mem_filter.2 ⟨hb, by simp [hb']⟩)

theorem missing?_nearest (h : g.missing? e s = some ms) (hne : g.alternatives e ≠ []) :
    ∃ c, FirstLeast (·.gap32 s) (g.alternatives e) c ∧ ms = c.missing s := by
  rw [missing?_eq, if_neg (by rwa [List.isEmpty_iff])] at h
  obtain ⟨c, hc, rfl⟩ := Option.map_eq_some_iff.1 h
  exact ⟨c, firstLeast_of_nearest? hc, rfl⟩

theorem missing?_eq_nil : g.missing? e s = some [] ↔ g.canTraverse e s = true := by
  rw [canTraverse_iff]
  by_cases hnil : g.alternatives e = []
  · simp [missing?_eq, hnil]
  · rw [or_iff_right hnil]
    constructor
    · intro h
      obtain ⟨c, ⟨before, after, hsplit, hnever, -⟩, hms⟩ := missing?_nearest h hnil
      refine ⟨c, mem_possible.2 ⟨?_, hnever⟩, (Clause.missing_eq_nil hnever).1 hms.symm⟩
      rw [hsplit]
      exact List.mem_append_right before List.mem_cons_self
    · rintro ⟨c, hc, hholds⟩
      have hmissing := (Clause.missing_eq_nil (mem_possible.1 hc).2).2 hholds
      obtain ⟨n, hn⟩ := Option.ne_none_iff_exists'.1
        (mt nearest?_eq_none.1 (List.ne_nil_of_mem hc))
      have hle := nearest?_le hn hc
      rw [hmissing, distance_le_nil] at hle
      rw [missing?_eq, if_neg (by rwa [List.isEmpty_iff]), hn, Option.map_some, hle]

theorem Inserted.canTraverse_acquireAll (hg : g.Inserted) (h : g.missing? e s = some ms) :
    g.canTraverse e (s.acquireAll ms) = true := by
  refine canTraverse_of_supplied h (s.below_acquireAll ms) fun m hm => ?_
  have htrue : m.state ≠ trueState := fun he =>
    (hg.missing? h).2 (he ▸ List.mem_map_of_mem hm)
  have hwanted := count_le_wanted hm
  rw [States.toNat_count, States.toNat_count, if_neg htrue, if_neg htrue, States.amount_acquireAll]
  omega

end Gates

/-- The three readings of an edge's logic agree: the edge is open just if nothing is missing, and shut for
good just if no list of missing conditions is given. Such a list says of the unmet conditions of one
possible alternative how much more than is held they ask for, and to acquire that, at once or one by
one, opens the edge. No alternative is nearer and none as near stands before, the deficits being summed
in 32 bits; where they all fit, they are the true ones. -/
theorem missing_exact (hg : g.Inserted) (e : Nat) (s : States) :
    (g.canTraverse e s = true ↔ g.missing? e s = some []) ∧
    (g.isFalse e = true ↔ g.missing? e s = none) ∧
    ∀ ms, g.missing? e s = some ms →
      (∀ m ∈ ms, 0 < m.count) ∧
      g.canTraverse e (s.acquireAll ms) = true ∧
      g.canTraverse e (s.grant ((suppliedBy ms).map .acquire)) = true ∧
      (g.alternatives e = [] ∧ ms = [] ∨
        ∃ c, ms = (c.unmet s).map (fun d => ⟨d.state, d.count - s.count d.state⟩) ∧
          FirstLeast (·.gap32 s) (g.alternatives e) c ∧
          ((∀ b ∈ g.alternatives e, b.isNever = false → b.deficit s < UInt32.size) →
            FirstLeast (·.gap s) (g.alternatives e) c)) := by
  refine ⟨Gates.missing?_eq_nil.symm, Gates.missing?_eq_none.symm, fun ms h => ?_⟩
  have hopen := hg.canTraverse_acquireAll h
  refine ⟨fun m hm => ?_, hopen, ?_, ?_⟩
  · exact UInt32.lt_iff_toNat_lt.2 (Gates.missing?_pos h hm)
  · rwa [Gates.canTraverse_congr (s.count_grant_suppliedBy ms)]
  · by_cases hnil : g.alternatives e = []
    · refine Or.inl ⟨hnil, ?_⟩
      rw [Gates.missing?_eq, hnil] at h
      exact (Option.some.inj h).symm
    · obtain ⟨c, hc, rfl⟩ := Gates.missing?_nearest h hnil
      exact Or.inr ⟨c, c.missing_eq_map_unmet s, hc, fun hfits =>
        hc.congr fun b hb hb' => Clause.gap32_eq (hfits b hb hb')⟩

def threeWays : Gates := ⟨[
  (({ name := "base" } : Layer).insert 0 0
    [⟨[⟨"Rope", 1⟩, ⟨"Hook", 1⟩]⟩, .single "Key" 3]).1,
  (({ name := "skips" } : Layer).insert 0 0 [.never, .single "Lamp" 1]).1]⟩

theorem inserted_threeWays : threeWays.Inserted :=
  List.forall_mem_cons.2 ⟨(Layer.Inserted.empty "base").insert 0 0 _,
    List.forall_mem_singleton.2 ((Layer.Inserted.empty "skips").insert 0 0 _)⟩

/-- With one key in hand both the keys and the lamp leave one condition unmet, and the lamp asks for
less. -/
theorem missing_exact_threeWays :
    let s := ({} : States).acquire "Key"
    threeWays.Inserted ∧ threeWays.missing? 0 s = some [⟨"Lamp", 1⟩] ∧
      threeWays.canTraverse 0 s = false ∧ threeWays.isFalse 0 = false ∧
      threeWays.canTraverse 0 (s.acquireAll [⟨"Lamp", 1⟩]) = true ∧
      ∃ c, FirstLeast (·.gap s) (threeWays.alternatives 0) c ∧
        (c.unmet s).map (fun d => (⟨d.state, d.count - s.count d.state⟩ : Condition)) =
          [⟨"Lamp", 1⟩] := by
  intro s
  obtain ⟨hopen, hfalse, hlist⟩ := missing_exact inserted_threeWays 0 s
  have hmissing : threeWays.missing? 0 s = some [⟨"Lamp", 1⟩] := by cbv
  have hfits : (threeWays.alternatives 0).all (·.deficit s < UInt32.size) = true := by cbv
  obtain ⟨-, hacquired, -, hnearest⟩ := hlist _ hmissing
  obtain ⟨c, hc, -, hexact⟩ := hnearest.resolve_left fun h => List.cons_ne_nil _ _ h.2
  refine ⟨inserted_threeWays, hmissing, ?_, ?_, hacquired, c, hexact fun b hb _ => ?_, hc.symm⟩
  · rw [← Bool.not_eq_true, hopen, hmissing]
    simp
  · rw [← Bool.not_eq_true, hfalse, hmissing]
    simp
  · exact of_decide_eq_true (List.all_eq_true.1 hfits b hb)

end WorldShuffle

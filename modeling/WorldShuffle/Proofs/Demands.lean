import Mathlib
import WorldShuffle.Proofs.Infix
import WorldShuffle.Proofs.NormalClauses

namespace WorldShuffle

namespace Demand

def zero : Demand := some fun _ => 0

def one (state : String) : Demand := some fun q => if q = state then 1 else 0

def add : Demand → Demand → Demand
  | some a, some b => some fun q => a q + b q
  | _, _ => none

def times (n : Nat) : Demand → Demand
  | some a => some fun q => a q * n
  | none => none

end Demand

/-- What a name asks for: a skip says whether it always or never holds, and so do the literals; any
other name asks for one of its state. -/
def nameDemands (skips : Skips) (name : String) : List Demand :=
  match skips name with
  | some true => [.zero]
  | some false => [none]
  | none =>
    if name = trueState then [.zero]
    else if name = falseState then [none]
    else [.one name]

/-- The demands of an expression, each of which is enough; none if it puts numbers where conditions
belong, or the other way round. -/
def Expr.demands? (skips : Skips) : Expr → Option (List Demand)
  | .term name => some (nameDemands skips name)
  | .int _ => none
  | .op .times (.int n) r => (r.demands? skips).map (·.map (Demand.times n.toNat))
  | .op .times _ _ => none
  | .op .both l r =>
    match l.demands? skips, r.demands? skips with
    | some ds, some es => some (ds.flatMap fun d => es.map d.add)
    | _, _ => none
  | .op .either l r =>
    match l.demands? skips, r.demands? skips with
    | some ds, some es => some (ds ++ es)
    | _, _ => none

section parts

variable {skips : Skips} {l r : Expr} {ds : List Demand}

theorem Expr.demands_times (h : (Expr.op .times l r).demands? skips = some ds) :
    ∃ n es, l = .int n ∧ r.demands? skips = some es ∧ ds = es.map (Demand.times n.toNat) := by
  cases l with
  | int n =>
    obtain ⟨es, hes, rfl⟩ := Option.map_eq_some_iff.1 h
    exact ⟨n, es, rfl, hes, rfl⟩
  | term name => cases h
  | op o l' r' => cases h

theorem Expr.demands_both (h : (Expr.op .both l r).demands? skips = some ds) :
    ∃ ds₁ ds₂, l.demands? skips = some ds₁ ∧ r.demands? skips = some ds₂ ∧
      ds = ds₁.flatMap fun d => ds₂.map d.add := by
  rw [demands?] at h
  split at h
  · exact ⟨_, _, ‹_›, ‹_›, (Option.some.inj h).symm⟩
  · cases h

theorem Expr.demands_either (h : (Expr.op .either l r).demands? skips = some ds) :
    ∃ ds₁ ds₂, l.demands? skips = some ds₁ ∧ r.demands? skips = some ds₂ ∧ ds = ds₁ ++ ds₂ := by
  rw [demands?] at h
  split at h
  · exact ⟨_, _, ‹_›, ‹_›, (Option.some.inj h).symm⟩
  · cases h

end parts

theorem Demand.add_eq_some {a b : Demand} {wants : String → Nat} (h : a.add b = some wants) :
    ∃ x y, a = some x ∧ b = some y ∧ wants = fun q => x q + y q := by
  cases a with
  | none => cases h
  | some x =>
    cases b with
    | none => cases h
    | some y => exact ⟨x, y, rfl, rfl, (Option.some.inj h).symm⟩

theorem Demand.times_eq_some {n : Nat} {a : Demand} {wants : String → Nat}
    (h : a.times n = some wants) : ∃ x, a = some x ∧ wants = fun q => x q * n := by
  cases a with
  | none => cases h
  | some x => exact ⟨x, rfl, (Option.some.inj h).symm⟩

def Expr.value : Expr → Except ExpressionError Value
  | .term name => .ok (.alternatives (termAlternatives name))
  | .int n => .ok (.int n)
  | .op o l r => do o.apply (← l.value) (← r.value)

theorem Expr.run_postorder (e : Expr) (stack : List Value) :
    e.postorder.foldlM Instr.run stack = (· :: stack) <$> e.value := by
  induction e generalizing stack with
  | term name => rfl
  | int n => rfl
  | op o l r ihl ihr =>
    rw [postorder, List.foldlM_append, List.foldlM_append, ihl, value]
    cases l.value with
    | error err => rfl
    | ok v =>
      change (r.postorder.foldlM Instr.run (v :: stack) >>= _) = _
      rw [ihr]
      cases r.value with
      | error err => rfl
      | ok w =>
        change List.foldlM Instr.run (w :: v :: stack) [.op o] = (· :: stack) <$> o.apply v w
        rw [List.foldlM_cons]
        change ((· :: stack) <$> o.apply v w >>= fun s => pure s) = _
        rw [bind_pure]

theorem evaluate_postorder {e : Expr} {cs : List Clause} (h : evaluate e.postorder = .ok cs) :
    e.value = .ok (.alternatives cs) := by
  obtain ⟨stack, hrun, h⟩ := bind_eq_ok h
  rw [e.run_postorder] at hrun
  obtain ⟨v, hv, rfl⟩ := map_eq_ok hrun
  rw [hv]
  cases v with
  | int n => cases h
  | alternatives cs' => rw [Except.ok.inj h]

theorem evaluate_of_value {e : Expr} {cs : List Clause} (h : e.value = .ok (.alternatives cs)) :
    evaluate e.postorder = .ok cs := by
  rw [evaluate, e.run_postorder, h]
  rfl

theorem compileExpression_iff {macros : MacroTable} {skips : Skips} {ts : List Token}
    {cs : List Clause} : compileExpression macros skips ts = .ok cs ↔
      ∃ us e, expand macros skips ts = .ok us ∧ Infix 1 us e ∧ e.value = .ok (.alternatives cs) := by
  constructor
  · intro h
    obtain ⟨us, hus, h⟩ := bind_eq_ok h
    obtain ⟨p, hp, h⟩ := bind_eq_ok h
    obtain ⟨e, he, rfl⟩ := infix_of_postorder hp
    exact ⟨us, e, hus, he, evaluate_postorder h⟩
  · rintro ⟨us, e, hus, he, hv⟩
    rw [compileExpression, hus]
    change postorder us >>= evaluate = _
    rw [he.postorder_eq]
    exact evaluate_of_value hv

section skips

variable (skips : Skips) {k : Nat} {ts : List Token} {e : Expr}

def skippedName (name : String) : String :=
  match skips name with
  | some true => trueState
  | some false => falseState
  | none => name

def skippedToken : Token → Token
  | .ident name => .ident (skippedName skips name)
  | t => t

def Expr.skipped : Expr → Expr
  | .term name => .term (skippedName skips name)
  | .int n => .int n
  | .op o l r => .op o l.skipped r.skipped

theorem expandToken_empty (levels : Nat) (t : Token) :
    expandToken {} skips levels t = .ok [skippedToken skips t] := by
  cases t with
  | ident name =>
    have hname : ({} : MacroTable).get? name = none := rfl
    rw [skippedToken, skippedName]
    cases hs : skips name with
    | none => simp only [expandToken, hname, hs]
    | some enabled =>
      simp only [expandToken, hname, hs]
      cases enabled <;> rfl
  | _ => unfold expandToken; rfl

theorem expand_empty (ts : List Token) : expand {} skips ts = .ok (ts.map (skippedToken skips)) := by
  have hmap : ts.mapM (expandToken {} skips maxNesting) =
      .ok (ts.map fun t => [skippedToken skips t]) := by
    induction ts with
    | nil => rfl
    | cons t ts ih =>
      rw [List.mapM_cons, expandToken_empty, ih]
      rfl
  rw [expand, hmap]
  change Except.ok (ts.map fun t => [skippedToken skips t]).flatten = _
  rw [← List.flatMap_def, ← List.map_eq_flatMap]

theorem skippedToken_eq {t t' : Token} (h : skippedToken skips t = t')
    (ht' : ∀ name, t' ≠ .ident name) : t = t' := by
  cases t <;> first | exact h | exact absurd h.symm (ht' _)

theorem operator?_skippedToken (t : Token) : operator? (skippedToken skips t) = operator? t := by
  cases t <;> rfl

/-- Looking up skips leaves the tree of a text as it is, down to its names. -/
theorem Infix.of_skipped (h : Infix k (ts.map (skippedToken skips)) e) :
    ∃ e', Infix k ts e' ∧ e = e'.skipped skips := by
  generalize hts : ts.map (skippedToken skips) = ts' at h
  induction h generalizing ts with
  | term k name =>
    obtain ⟨t, rfl, ht⟩ := List.map_eq_singleton_iff.1 hts
    cases t <;> try cases ht
    rename_i name
    exact ⟨.term name, Infix.term k name, rfl⟩
  | int k n =>
    obtain ⟨t, rfl, ht⟩ := List.map_eq_singleton_iff.1 hts
    obtain rfl := skippedToken_eq skips ht (by simp)
    exact ⟨.int n, Infix.int k n, rfl⟩
  | paren k h ih =>
    obtain ⟨t, us, rfl, ht, hus⟩ := List.map_eq_cons_iff.1 hts
    obtain ⟨ls, vs, rfl, hls, hvs⟩ := List.map_eq_append_iff.1 hus
    obtain ⟨t', rfl, ht'⟩ := List.map_eq_singleton_iff.1 hvs
    obtain rfl := skippedToken_eq skips ht (by simp)
    obtain rfl := skippedToken_eq skips ht' (by simp)
    obtain ⟨e', he', rfl⟩ := ih hls
    exact ⟨e', Infix.paren k he', rfl⟩
  | op ht hk hl hr ihl ihr =>
    obtain ⟨ls, us, rfl, hls, hus⟩ := List.map_eq_append_iff.1 hts
    obtain ⟨t', rs, rfl, rfl, hrs⟩ := List.map_eq_cons_iff.1 hus
    rw [operator?_skippedToken] at ht
    obtain ⟨l, hl', rfl⟩ := ihl hls
    obtain ⟨r, hr', rfl⟩ := ihr hrs
    exact ⟨.op _ l r, Infix.op ht hk hl' hr', rfl⟩

end skips

theorem demand_append (a b : Clause) : (Clause.mk (a.conditions ++ b.conditions)).demand =
    a.demand.add b.demand := by
  have hn : (Clause.mk (a.conditions ++ b.conditions)).isNever = (a.isNever || b.isNever) :=
    List.any_append
  have hw : (Clause.mk (a.conditions ++ b.conditions)).wants = fun q => a.wants q + b.wants q :=
    funext fun q => wanted_append _ _ q
  rw [Clause.demand, hn, hw, Clause.demand, Clause.demand]
  cases a.isNever <;> cases b.isNever <;> rfl

theorem plain_append {a b : Clause} (ha : a.Plain) (hb : b.Plain) :
    (Clause.mk (a.conditions ++ b.conditions)).Plain := by
  intro h
  rw [Clause.names, List.map_append, List.mem_append] at h
  exact h.elim ha hb

variable {cs ds' out : List Clause} {ds es : List Demand} {n : UInt32}

theorem normalized_eq_ok (h : normalized cs = .ok out) : normalizeAlternatives cs = .ok out :=
  mapError_eq_ok h

/-- Alternatives may be changed one by one, together with what is asked for. -/
theorem Offers.mapM {ε : Type} {f : Clause → Except ε Clause} {g : Demand → Demand}
    (ho : Offers cs ds) (hg : g none = none)
    (hf : ∀ c c', c ∈ cs → f c = .ok c' → c'.Plain ∧ c'.demand = g c.demand)
    (h : cs.mapM f = .ok out) : Offers out (ds.map g) := by
  obtain ⟨hfrom, hto⟩ := mapM_eq_ok h
  refine ⟨?_, fun c' hc' => ?_, fun c' hc' => ?_, fun {wants} hw => ?_⟩
  · obtain ⟨c, hc⟩ := List.exists_mem_of_ne_nil cs ho.ne_nil
    obtain ⟨c', hc', -⟩ := hto c hc
    exact List.ne_nil_of_mem hc'
  · obtain ⟨c, hc, hok⟩ := hfrom c' hc'
    exact (hf c c' hc hok).1
  · obtain ⟨c, hc, hok⟩ := hfrom c' hc'
    rw [(hf c c' hc hok).2]
    exact List.mem_map_of_mem (ho.demand_mem c hc)
  · obtain ⟨d, hd, hgd⟩ := List.mem_map.1 hw
    cases d with
    | none => exact absurd (hg.symm.trans hgd) (by simp)
    | some before =>
      obtain ⟨c, hc, hcd⟩ := ho.exists_demand hd
      obtain ⟨c', hc', hok⟩ := hto c hc
      exact ⟨c', hc', (hf c c' hc hok).2.trans (hcd ▸ hgd)⟩

theorem represents_single {c : Clause} (hc : c.Normal) : Represents [c] [c.demand] where
  ne_nil := List.cons_ne_nil c []
  plain d hd := List.mem_singleton.1 hd ▸ hc.plain
  demand_mem d hd := List.mem_singleton.1 hd ▸ List.mem_singleton_self _
  exists_demand hw := ⟨c, List.mem_singleton_self c, (List.mem_singleton.1 hw).symm⟩
  normal d hd := List.mem_singleton.1 hd ▸ hc
  alone {d} hd hn := by
    obtain rfl := List.mem_singleton.1 hd
    rw [hc.never hn]

theorem represents_always : Represents [.always] [.zero] := by
  have hn : Clause.always.isNever = false := rfl
  have hplain : Clause.always.Plain := by simp [Clause.Plain, Clause.names, Clause.always]
  exact represents_single ⟨hplain, List.nodup_nil, fun h => absurd (hn.symm.trans h) (by decide)⟩

theorem represents_never : Represents [.never] [none] := represents_single Clause.normal_never

theorem represents_one {name : String} (ht : name ≠ trueState) (hf : name ≠ falseState) :
    Represents [.single name 1] [.one name] := by
  have hnames : (Clause.mk [⟨name, 1⟩]).names = [name] := rfl
  have hn : (Clause.mk [⟨name, 1⟩]).isNever = false := by
    rw [← Bool.not_eq_true, Clause.isNever_iff, hnames, List.mem_singleton]
    exact Ne.symm hf
  have hc : (Clause.mk [⟨name, 1⟩]).Normal := by
    refine ⟨?_, by simp [hnames], fun h => absurd h (by simp [hn])⟩
    rw [Clause.Plain, hnames, List.mem_singleton]
    exact Ne.symm ht
  have hd : (Clause.mk [⟨name, 1⟩]).demand = .one name := by
    rw [Clause.demand, hn]
    refine congrArg some ?_
    funext q
    simp [Clause.wants, wanted_cons]
  rw [Clause.single, if_neg (by simp [ht]), ← hd]
  exact represents_single hc

theorem represents_literal (name : String) :
    Represents (termAlternatives name) (nameDemands noSkips name) := by
  rw [termAlternatives, nameDemands, noSkips]
  dsimp only
  by_cases ht : name = trueState
  · rw [if_pos ht, if_pos ht]
    exact represents_always
  · rw [if_neg ht, if_neg ht]
    by_cases hf : name = falseState
    · rw [if_pos hf, if_pos hf]
      exact represents_never
    · rw [if_neg hf, if_neg hf]
      exact represents_one ht hf

theorem represents_term (skips : Skips) (name : String) :
    Represents (termAlternatives (skippedName skips name)) (nameDemands skips name) := by
  rw [skippedName, nameDemands]
  cases hs : skips name with
  | none => exact represents_literal name
  | some enabled =>
    cases enabled with
    | true => exact represents_always
    | false => exact represents_never

theorem Represents.either (hl : Represents cs ds) (hr : Represents ds' es)
    (h : normalized (cs ++ ds') = .ok out) : Represents out (ds ++ es) := by
  refine Offers.represents ⟨?_, ?_, ?_, ?_⟩ (normalized_eq_ok h)
  · exact List.append_ne_nil_of_left_ne_nil hl.ne_nil ds'
  · exact fun c hc => (List.mem_append.1 hc).elim (hl.plain c) (hr.plain c)
  · exact fun c hc => List.mem_append.2
      ((List.mem_append.1 hc).imp (hl.demand_mem c) (hr.demand_mem c))
  · intro wants hw
    rcases List.mem_append.1 hw with hw | hw
    · obtain ⟨c, hc, hd⟩ := hl.exists_demand hw
      exact ⟨c, List.mem_append_left _ hc, hd⟩
    · obtain ⟨c, hc, hd⟩ := hr.exists_demand hw
      exact ⟨c, List.mem_append_right _ hc, hd⟩

theorem Represents.both (hl : Represents cs ds) (hr : Represents ds' es)
    (h : bothOf cs ds' = .ok out) :
    Represents out (ds.flatMap fun d => es.map d.add) := by
  obtain ⟨merged, hm, h⟩ := bind_eq_ok h
  have hpairs : Offers (cs.flatMap fun a => ds'.map fun b => ⟨a.conditions ++ b.conditions⟩)
      (ds.flatMap fun d => es.map d.add) := by
    have hmem {p : Clause} : (p ∈ cs.flatMap fun a => ds'.map fun b =>
        ⟨a.conditions ++ b.conditions⟩) ↔
        ∃ a ∈ cs, ∃ b ∈ ds', ⟨a.conditions ++ b.conditions⟩ = p := by
      simp only [List.mem_flatMap, List.mem_map]
    have hsum {d : Demand} : (d ∈ ds.flatMap fun d => es.map d.add) ↔
        ∃ d₁ ∈ ds, ∃ d₂ ∈ es, d₁.add d₂ = d := by
      simp only [List.mem_flatMap, List.mem_map]
    refine ⟨?_, fun p hp => ?_, fun p hp => ?_, fun {wants} hw => ?_⟩
    · obtain ⟨a, ha⟩ := List.exists_mem_of_ne_nil cs hl.ne_nil
      obtain ⟨b, hb⟩ := List.exists_mem_of_ne_nil ds' hr.ne_nil
      exact List.ne_nil_of_mem (hmem.2 ⟨a, ha, b, hb, rfl⟩)
    · obtain ⟨a, ha, b, hb, rfl⟩ := hmem.1 hp
      exact plain_append (hl.plain a ha) (hr.plain b hb)
    · obtain ⟨a, ha, b, hb, rfl⟩ := hmem.1 hp
      exact hsum.2 ⟨_, hl.demand_mem a ha, _, hr.demand_mem b hb, (demand_append a b).symm⟩
    · obtain ⟨d₁, hd₁, d₂, hd₂, hd⟩ := hsum.1 hw
      match d₁, d₂, hd₁, hd₂, hd with
      | some _, some _, hd₁, hd₂, hd =>
        obtain ⟨a, ha, had⟩ := hl.exists_demand hd₁
        obtain ⟨b, hb, hbd⟩ := hr.exists_demand hd₂
        exact ⟨_, hmem.2 ⟨a, ha, b, hb, rfl⟩, by rw [demand_append, had, hbd, hd]⟩
  have hmerged := hpairs.mapM (g := id) rfl (fun c c' hc hok => ?_) (mapError_eq_ok hm)
  · rw [List.map_id] at hmerged
    exact hmerged.represents (normalized_eq_ok h)
  · obtain ⟨hn, hd⟩ := Clause.normalize_eq_ok hok (hpairs.plain c hc)
    exact ⟨hn.plain, hd⟩

theorem toNat_of_mulCount? {a b c : UInt32} (h : mulCount? a b = some c) :
    c.toNat = a.toNat * b.toNat := by
  rw [mulCount?] at h
  split at h
  · rw [← Option.some.inj h, UInt32.toNat_mul, Nat.mod_eq_of_lt ‹_›]
  · cases h

theorem scale_eq_ok {c c' : Clause} (hp : c.Plain) (h : c.scale n = .ok c') :
    c'.Plain ∧ c'.demand = c.demand.times n.toNat := by
  rw [Clause.scale] at h
  split at h
  · rename_i hn
    obtain rfl := Except.ok.inj h
    refine ⟨hp, ?_⟩
    rw [Clause.demand_eq_none.2 hn]
    rfl
  · rename_i hn
    obtain ⟨hw, -, hnames⟩ := Clause.merges (w := fun d => d.count.toNat * n.toNat) hp
      (fun out d out' _ hd => by
        split at hd
        · cases hd
        · rename_i count hcount
          exact ⟨count, mapError_eq_ok hd, toNat_of_mulCount? hcount⟩) h
    have hsub : ∀ q ∈ c'.names, q ∈ c.names := fun q hq =>
      (hnames q hq).resolve_left List.not_mem_nil
    have hn' : ¬c'.isNever = true := fun h =>
      hn (Clause.isNever_iff.2 (hsub _ (Clause.isNever_iff.1 h)))
    refine ⟨fun ht => hp (hsub _ ht), ?_⟩
    rw [Clause.demand, Clause.demand, if_neg hn, if_neg hn']
    congr 1
    funext q
    rw [hw, List.sum_map_mul_right, ← copies]
    exact Nat.zero_add _

theorem Represents.times (hr : Represents cs ds) (h : scaleAll n cs = .ok out) :
    Represents out (ds.map (Demand.times n.toNat)) := by
  obtain ⟨scaled, hs, h⟩ := bind_eq_ok h
  have hscaled := hr.mapM (g := Demand.times n.toNat) rfl (fun c c' hc hok => ?_) hs
  · exact hscaled.represents (normalized_eq_ok h)
  · exact scale_eq_ok (hr.plain c hc) hok

/-- The value of an expression is a number where the expression is one, and otherwise represents its
demands. -/
theorem Expr.value_represents (skips : Skips) (e : Expr) {v : Value}
    (h : (e.skipped skips).value = .ok v) :
    (∃ n, e = .int n ∧ v = .int n) ∨
      ∃ cs ds, v = .alternatives cs ∧ e.demands? skips = some ds ∧ Represents cs ds := by
  induction e generalizing v with
  | term name =>
    obtain rfl := Except.ok.inj h
    exact Or.inr ⟨_, _, rfl, rfl, represents_term skips name⟩
  | int n =>
    obtain rfl := Except.ok.inj h
    exact Or.inl ⟨n, rfl, rfl⟩
  | op o l r ihl ihr =>
    obtain ⟨v₁, hl, h⟩ := bind_eq_ok h
    obtain ⟨v₂, hr, h⟩ := bind_eq_ok h
    right
    rcases ihl hl with ⟨n, rfl, rfl⟩ | ⟨cs, ds, rfl, hds, hcs⟩ <;>
      rcases ihr hr with ⟨m, rfl, rfl⟩ | ⟨cs', es, rfl, hes, hcs'⟩ <;> cases o
    all_goals try cases h
    case times =>
      obtain ⟨out, hout, rfl⟩ := map_eq_ok h
      exact ⟨out, _, rfl, by rw [demands?, hes, Option.map_some], hcs'.times hout⟩
    case both =>
      obtain ⟨out, hout, rfl⟩ := map_eq_ok h
      exact ⟨out, _, rfl, by rw [demands?, hds, hes], hcs.both hcs' hout⟩
    case either =>
      obtain ⟨out, hout, rfl⟩ := map_eq_ok h
      exact ⟨out, _, rfl, by rw [demands?, hds, hes], hcs.either hcs' hout⟩

theorem Expr.skipped_noSkips (e : Expr) : e.skipped noSkips = e := by
  induction e with
  | term name => rfl
  | int n => rfl
  | op o l r ihl ihr => rw [skipped, ihl, ihr]

theorem Expr.demands_of_value (skips : Skips) {e : Expr}
    (h : (e.skipped skips).value = .ok (.alternatives cs)) :
    ∃ ds, e.demands? skips = some ds ∧ Represents cs ds := by
  rcases e.value_represents skips h with ⟨n, -, hn⟩ | ⟨cs', ds, hcs, hds, hr⟩
  · cases hn
  · cases hcs
    exact ⟨ds, hds, hr⟩

theorem Expr.value_demands {e : Expr} (h : e.value = .ok (.alternatives cs)) :
    ∃ ds, e.demands? noSkips = some ds ∧ Represents cs ds := by
  rw [← e.skipped_noSkips] at h
  exact demands_of_value noSkips h

/-- A list of tokens that compiles has a tree, and its alternatives represent what the tree asks for. -/
theorem compileExpression_represents {skips : Skips} {ts : List Token} {cs : List Clause}
    (h : compileExpression {} skips ts = .ok cs) :
    ∃ e ds, Infix 1 ts e ∧ e.demands? skips = some ds ∧ Represents cs ds := by
  obtain ⟨us, e', hus, hparse, hv⟩ := compileExpression_iff.1 h
  obtain rfl := Except.ok.inj ((expand_empty skips ts).symm.trans hus)
  obtain ⟨e, he, rfl⟩ := hparse.of_skipped
  obtain ⟨ds, hds, hr⟩ := Expr.demands_of_value skips hv
  exact ⟨e, ds, he, hds, hr⟩

/-- Compiled logic means what its text says. The text has one tree, and whatever states are held, some
alternative holds of them just when they meet some demand of the tree; there are alternatives, and
they are the impossible one alone just when no demand can be met. -/
theorem compileExpression_correct (skips : Skips) (text : String) {cs : List Clause}
    (h : compileExpression {} skips (tokensOf text.toList) = .ok cs) :
    ∃ (e : Expr) (ds : List Demand),
      Infix 1 (tokensOf text.toList) e ∧ (∀ e', Infix 1 (tokensOf text.toList) e' → e' = e) ∧
      e.demands? skips = some ds ∧
      (∀ s : States, (∃ c ∈ cs, c.holds s = true) ↔ ∃ d ∈ ds, Demand.Met s d) ∧
      cs ≠ [] ∧ (cs = [.never] ↔ ∀ d ∈ ds, d = none) := by
  obtain ⟨e, ds, he, hds, hr⟩ := compileExpression_represents h
  exact ⟨e, ds, he, fun e' he' => he'.unique he, hds, fun s => hr.holds_iff, hr.ne_nil,
    hr.eq_never_iff⟩

/-- With the skip `fly` enabled and `swim` disabled, this asks for the key, or for four coins. -/
theorem compileExpression_correct_coins :
    let skips : Skips := fun name =>
      if name = "fly" then some true else if name = "swim" then some false else none
    let text := "Key + (fly | swim) | 2#(Coin + Coin)"
    compileExpression {} skips (tokensOf text.toList) = .ok [⟨[⟨"Key", 1⟩]⟩, ⟨[⟨"Coin", 4⟩]⟩] ∧
    ∃ (e : Expr) (ds : List Demand),
      Infix 1 (tokensOf text.toList) e ∧ e.demands? skips = some ds ∧
      ∀ s : States, (∃ c ∈ [Clause.mk [⟨"Key", 1⟩], ⟨[⟨"Coin", 4⟩]⟩], c.holds s = true) ↔
        ∃ d ∈ ds, Demand.Met s d := by
  intro skips text
  have htokens : tokensOf text.toList = [.ident "Key", .plus, .openParen, .ident "fly", .pipe,
      .ident "swim", .closeParen, .pipe, .int 2, .hash, .openParen, .ident "Coin", .plus,
      .ident "Coin", .closeParen] := by decide +kernel
  have h : compileExpression {} skips (tokensOf text.toList) =
      .ok [⟨[⟨"Key", 1⟩]⟩, ⟨[⟨"Coin", 4⟩]⟩] := by
    rw [htokens]
    cbv
  obtain ⟨e, ds, he, -, hds, hmet, -⟩ := compileExpression_correct skips text h
  exact ⟨h, e, ds, he, hds, hmet⟩

end WorldShuffle

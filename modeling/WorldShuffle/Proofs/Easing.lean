import WorldShuffle.Proofs.Alternatives
import WorldShuffle.Proofs.Expansion

namespace WorldShuffle

inductive Token.Eased : Token → Token → Prop
  | refl (t : Token) : Eased t t
  | literal : Eased (literalToken false) (literalToken true)

inductive Expr.Eased : Expr → Expr → Prop
  | term (name : String) : Eased (.term name) (.term name)
  | literal : Eased (.term falseState) (.term trueState)
  | int (n : UInt32) : Eased (.int n) (.int n)
  | op (o : Operator) {l l' r r' : Expr} (hl : Eased l l') (hr : Eased r r') :
      Eased (.op o l r) (.op o l' r')

structure Relaxes (m : MacroTable) (k : Skips) (m' : MacroTable) (k' : Skips) : Prop where
  macros (name : String) : Option.Rel (List.Forall₂ Token.Eased) (m.get? name) (m'.get? name)
  skips (name : String) : Option.Rel (· ≤ ·) (k name) (k' name)
  literals : KeepsLiterals m k

variable {m m' : MacroTable} {k k' : Skips} {levels : Nat} {t t' : Token} {ts ts' us us' : List Token}
  {e e' : Expr} {cs cs' out : List Clause} {wants : String → Nat}

theorem literalToken_eased {enabled enabled' : Bool} (h : enabled ≤ enabled') :
    (literalToken enabled).Eased (literalToken enabled') := by
  cases enabled with
  | true =>
    obtain rfl : enabled' = true := top_unique h
    exact Token.Eased.refl _
  | false =>
    cases enabled' with
    | true => exact Token.Eased.literal
    | false => exact Token.Eased.refl _

section related

variable {ε ε' α α' β β' : Type} {R : α → α' → Prop} {S : β → β' → Prop} {f : α → Except ε β}
  {g : α' → Except ε' β'} {xs : List α} {xs' : List α'} {ys : List β} {ys' : List β'}

theorem rel_none_left {b : Option α'} (h : Option.Rel R none b) : b = none := by
  cases h
  rfl

theorem rel_some_left {a : α} {b : Option α'} (h : Option.Rel R (some a) b) :
    ∃ a', b = some a' ∧ R a a' := by
  cases h with
  | some h => exact ⟨_, rfl, h⟩

theorem mapM_related (hxs : List.Forall₂ R xs xs') (h : xs.mapM f = .ok ys)
    (h' : xs'.mapM g = .ok ys')
    (hf : ∀ x x' y y', R x x' → f x = .ok y → g x' = .ok y' → S y y') : List.Forall₂ S ys ys' := by
  induction hxs generalizing ys ys' with
  | nil =>
    obtain rfl := Except.ok.inj h
    obtain rfl := Except.ok.inj h'
    exact List.Forall₂.nil
  | cons hx hxs ih =>
    rw [List.mapM_cons] at h h'
    obtain ⟨y, hy, h⟩ := bind_eq_ok h
    obtain ⟨rest, hrest, h⟩ := bind_eq_ok h
    obtain ⟨y', hy', h'⟩ := bind_eq_ok h'
    obtain ⟨rest', hrest', h'⟩ := bind_eq_ok h'
    obtain rfl := Except.ok.inj h
    obtain rfl := Except.ok.inj h'
    exact List.Forall₂.cons (hf _ _ _ _ hx hy hy') (ih hrest hrest')

theorem exists_append_of_forall₂ {ls : List α} (h : List.Forall₂ R (xs ++ ls) xs') :
    ∃ as bs, List.Forall₂ R xs as ∧ List.Forall₂ R ls bs ∧ xs' = as ++ bs :=
  ⟨xs'.take xs.length, xs'.drop xs.length, (List.forall₂_take_append xs' xs ls h.flip).flip,
    (List.forall₂_drop_append xs' xs ls h.flip).flip, (List.take_append_drop xs.length xs').symm⟩

end related

theorem Relaxes.settled (h : Relaxes m k m' k') (ht : t.Settled m k) : t.Settled m' k' := by
  cases t with
  | ident name => exact ⟨rel_none_left (ht.1 ▸ h.macros name), rel_none_left (ht.2 ▸ h.skips name)⟩
  | _ => exact Token.settled_of_ne (by simp)

theorem expandToken_eased (h : Relaxes m k m' k') (ht : t.Eased t')
    (hus : expandToken m k levels t = .ok us) (hus' : expandToken m' k' levels t' = .ok us') :
    List.Forall₂ Token.Eased us us' := by
  have hsingle {u u' : Token} (hu : u.Eased u') : List.Forall₂ Token.Eased [u] [u'] :=
    List.Forall₂.cons hu List.Forall₂.nil
  induction levels using Nat.strong_induction_on generalizing t t' us us' with
  | h levels ih =>
    cases ht with
    | literal =>
      rw [expandToken_settled (h.literals false)] at hus
      rw [expandToken_settled (h.settled (h.literals true))] at hus'
      obtain rfl := Except.ok.inj hus
      obtain rfl := Except.ok.inj hus'
      exact hsingle Token.Eased.literal
    | refl =>
      rcases expandToken_cases hus with ⟨name, body, parts, below, rfl, rfl, hdefined, hparts, rfl⟩ |
        ⟨name, enabled, rfl, hdefined, hskip, rfl⟩ | ⟨hsettled, rfl⟩
      · obtain ⟨body', hdefined', hbody⟩ := rel_some_left (hdefined ▸ h.macros name)
        rw [expandToken_body hdefined'] at hus'
        obtain ⟨parts', hparts', rfl⟩ := map_eq_ok hus'
        have hrelated := mapM_related hbody hparts hparts' fun _ _ _ _ =>
          ih below (Nat.lt_succ_self below)
        exact List.Forall₂.cons (Token.Eased.refl _)
          (List.rel_append (List.rel_flatten hrelated) (hsingle (Token.Eased.refl _)))
      · obtain ⟨enabled', hskip', hle⟩ := rel_some_left (hskip ▸ h.skips name)
        rw [expandToken_skip (rel_none_left (hdefined ▸ h.macros name)) hskip'] at hus'
        obtain rfl := Except.ok.inj hus'
        exact hsingle (literalToken_eased hle)
      · rw [expandToken_settled (h.settled hsettled)] at hus'
        obtain rfl := Except.ok.inj hus'
        exact hsingle (Token.Eased.refl t)

theorem expand_eased (h : Relaxes m k m' k') (hus : expand m k ts = .ok us)
    (hus' : expand m' k' ts = .ok us') : List.Forall₂ Token.Eased us us' := by
  obtain ⟨parts, hparts, rfl⟩ := expand_eq_ok hus
  obtain ⟨parts', hparts', rfl⟩ := expand_eq_ok hus'
  have hts : List.Forall₂ Token.Eased ts ts := List.forall₂_same.2 fun t _ => Token.Eased.refl t
  exact List.rel_flatten (mapM_related hts hparts hparts' fun _ _ _ _ => expandToken_eased h)

theorem Token.Eased.eq_of_ne (h : t.Eased t') (ht : ∀ name, t ≠ .ident name) : t' = t := by
  cases h with
  | refl => rfl
  | literal => exact absurd rfl (ht falseState)

theorem Infix.eased {j : Nat} (h : Infix j us e) (hus : List.Forall₂ Token.Eased us us') :
    ∃ e', Infix j us' e' ∧ e.Eased e' := by
  induction h generalizing us' with
  | term j name =>
    obtain ⟨t, ts, ht, hts, rfl⟩ := List.forall₂_cons_left_iff.1 hus
    obtain rfl := List.forall₂_nil_left_iff.1 hts
    generalize hu : Token.ident name = u at ht
    cases ht with
    | refl => exact ⟨.term name, hu ▸ Infix.term j name, Expr.Eased.term name⟩
    | literal =>
      obtain rfl : name = falseState := Token.ident.inj hu
      exact ⟨.term trueState, Infix.term j trueState, Expr.Eased.literal⟩
  | int j n =>
    obtain ⟨t, ts, ht, hts, rfl⟩ := List.forall₂_cons_left_iff.1 hus
    obtain rfl := List.forall₂_nil_left_iff.1 hts
    obtain rfl := ht.eq_of_ne nofun
    exact ⟨.int n, Infix.int j n, Expr.Eased.int n⟩
  | paren j h ih =>
    obtain ⟨t, ts, ht, hts, rfl⟩ := List.forall₂_cons_left_iff.1 hus
    obtain ⟨as, bs, has, hbs, rfl⟩ := exists_append_of_forall₂ hts
    obtain ⟨u, vs, hu, hvs, rfl⟩ := List.forall₂_cons_left_iff.1 hbs
    obtain rfl := List.forall₂_nil_left_iff.1 hvs
    obtain rfl := ht.eq_of_ne nofun
    obtain rfl := hu.eq_of_ne nofun
    obtain ⟨e', he', hease⟩ := ih has
    exact ⟨e', Infix.paren j he', hease⟩
  | @op j t o ls rs l r ht hk hl hr ihl ihr =>
    obtain ⟨as, bs, has, hbs, rfl⟩ := exists_append_of_forall₂ hus
    obtain ⟨u, vs, hu, hvs, rfl⟩ := List.forall₂_cons_left_iff.1 hbs
    have hname : ∀ name, t ≠ .ident name := by
      rintro name rfl
      cases ht
    obtain rfl := hu.eq_of_ne hname
    obtain ⟨l', hl', hel⟩ := ihl has
    obtain ⟨r', hr', her⟩ := ihr hvs
    exact ⟨.op o l' r', Infix.op ht hk hl' hr', Expr.Eased.op o hel her⟩

theorem Expr.Eased.demands (h : e.Eased e') {ds ds' : List Demand}
    (hds : e.demands? noSkips = some ds) (hds' : e'.demands? noSkips = some ds')
    (hw : some wants ∈ ds) : some wants ∈ ds' := by
  induction h generalizing ds ds' wants with
  | term name =>
    obtain rfl := Option.some.inj (hds.symm.trans hds')
    exact hw
  | literal =>
    obtain rfl := Option.some.inj hds
    cases List.mem_singleton.1 hw
  | int n => cases hds
  | op o hl hr ihl ihr =>
    cases o with
    | times =>
      obtain ⟨n, es, rfl, hes, rfl⟩ := demands_times hds
      obtain ⟨n', es', rfl, hes', rfl⟩ := demands_times hds'
      cases hl
      obtain ⟨a, ha, hw⟩ := List.mem_map.1 hw
      obtain ⟨x, rfl, -⟩ := Demand.times_eq_some hw
      exact List.mem_map.2 ⟨some x, ihr hes hes' ha, hw⟩
    | both =>
      obtain ⟨ds₁, ds₂, hds₁, hds₂, rfl⟩ := demands_both hds
      obtain ⟨ds₁', ds₂', hds₁', hds₂', rfl⟩ := demands_both hds'
      obtain ⟨a, ha, hd⟩ := List.mem_flatMap.1 hw
      obtain ⟨b, hb, hw⟩ := List.mem_map.1 hd
      obtain ⟨x, y, rfl, rfl, -⟩ := Demand.add_eq_some hw
      exact List.mem_flatMap.2 ⟨some x, ihl hds₁ hds₁' ha,
        List.mem_map.2 ⟨some y, ihr hds₂ hds₂' hb, hw⟩⟩
    | either =>
      obtain ⟨ds₁, ds₂, hds₁, hds₂, rfl⟩ := demands_either hds
      obtain ⟨ds₁', ds₂', hds₁', hds₂', rfl⟩ := demands_either hds'
      exact List.mem_append.2 ((List.mem_append.1 hw).imp (ihl hds₁ hds₁') (ihr hds₂ hds₂'))

def Offered (cs : List Clause) (wants : String → Nat) : Prop := ∃ c ∈ cs, c.demand = some wants

theorem Represents.offered_iff {ds : List Demand} (h : Represents cs ds) :
    Offered cs wants ↔ some wants ∈ ds := by
  constructor
  · rintro ⟨c, hc, hd⟩
    exact hd ▸ h.demand_mem c hc
  · exact h.exists_demand

def Covers (cs' cs : List Clause) : Prop := ∀ wants, Offered cs wants → Offered cs' wants

theorem offered_normalized (hne : cs ≠ []) (hplain : ∀ c ∈ cs, c.Plain)
    (h : normalizeAlternatives cs = .ok out) : Offered out wants ↔ Offered cs wants := by
  rw [((offers_demands hne hplain).represents h).offered_iff]
  exact List.mem_map

theorem compileExpression_covers (h : Relaxes m k m' k') (hcs : compileExpression m k ts = .ok cs)
    (hcs' : compileExpression m' k' ts = .ok cs') : Covers cs' cs := by
  obtain ⟨us, e, hus, he, hv⟩ := compileExpression_iff.1 hcs
  obtain ⟨us', e', hus', he', hv'⟩ := compileExpression_iff.1 hcs'
  obtain ⟨e₁, he₁, hease⟩ := he.eased (expand_eased h hus hus')
  obtain rfl := he₁.unique he'
  obtain ⟨ds, hds, hr⟩ := Expr.value_demands hv
  obtain ⟨ds', hds', hr'⟩ := Expr.value_demands hv'
  intro wants hw
  exact hr'.offered_iff.2 (hease.demands hds hds' (hr.offered_iff.1 hw))

end WorldShuffle

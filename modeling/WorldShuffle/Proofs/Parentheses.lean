import Mathlib
import WorldShuffle.Logic.Statement
import WorldShuffle.Proofs.Printing

namespace WorldShuffle

variable {t : Token} {ts us vs ls rs before after body : List Token} {e v : Expr} {q : String}
  {k : Nat}

def side (t : Token) : Int := (bracketStep t).toInt

def opened (ts : List Token) : Int := (ts.map side).sum

@[simp] theorem opened_nil : opened [] = 0 := rfl

@[simp] theorem opened_cons (t : Token) (ts : List Token) :
    opened (t :: ts) = side t + opened ts := by
  rw [opened, List.map_cons, List.sum_cons, opened]

@[simp] theorem opened_append (ts us : List Token) : opened (ts ++ us) = opened ts + opened us := by
  rw [opened, List.map_append, List.sum_append, opened, opened]

def Contained (ts : List Token) : Prop := ∀ us vs, ts = us ++ vs → 0 ≤ opened us

structure Balanced (ts : List Token) : Prop where
  contained : Contained ts
  closed : opened ts = 0

theorem Contained.left (h : Contained (us ++ vs)) : 0 ≤ opened us := h us vs rfl

theorem Balanced.append (hl : Balanced ls) (hr : Balanced rs) : Balanced (ls ++ rs) where
  contained us vs h := by
    rcases List.append_eq_append_iff.1 h with ⟨gap, rfl, rfl⟩ | ⟨gap, rfl, rfl⟩
    · rw [opened_append, hl.closed, zero_add]
      exact hr.contained.left
    · exact hl.contained.left
  closed := by rw [opened_append, hl.closed, hr.closed, add_zero]

theorem balanced_singleton (h : side t = 0) : Balanced [t] where
  contained us vs hts := by
    cases us with
    | nil => exact le_rfl
    | cons u us =>
      obtain ⟨rfl, hnil⟩ := List.cons.inj hts
      rw [(List.append_eq_nil_iff.1 hnil.symm).1, opened_cons, h]
      exact le_rfl
  closed := by rw [opened_cons, h, opened_nil, add_zero]

theorem Balanced.paren (h : Balanced ts) : Balanced (.openParen :: (ts ++ [.closeParen])) where
  contained us vs hts := by
    cases us with
    | nil => exact le_rfl
    | cons u us =>
      obtain ⟨rfl, hinner⟩ := List.cons.inj hts
      rw [opened_cons]
      rcases List.append_eq_append_iff.1 hinner with ⟨gap, rfl, hgap⟩ | ⟨gap, rfl, -⟩
      · rw [opened_append, h.closed]
        rcases List.singleton_eq_append_iff.1 hgap with ⟨rfl, -⟩ | ⟨rfl, -⟩ <;> decide
      · have hus := h.contained.left
        have hstep : side .openParen = 1 := rfl
        omega
  closed := by
    rw [opened_cons, opened_append, h.closed]
    rfl

theorem side_operator {o : Operator} (h : operator? t = some o) : side t = 0 := by
  cases t <;> first | rfl | cases h

theorem Infix.balanced (h : Infix k ts e) : Balanced ts := by
  induction h with
  | term k name => exact balanced_singleton rfl
  | int k n => exact balanced_singleton rfl
  | paren k _ ih => exact ih.paren
  | op ht _ _ _ ihl ihr =>
    rw [← List.singleton_append]
    exact ihl.append ((balanced_singleton (side_operator ht)).append ihr)

theorem Infix.ne_nil (h : Infix k ts e) : ts ≠ [] := by
  cases h with
  | op _ _ _ _ => exact List.append_ne_nil_of_right_ne_nil _ (List.cons_ne_nil _ _)
  | _ => exact List.cons_ne_nil _ _

def enclosed (ts : List Token) : List Token := .openParen :: (ts ++ [.closeParen])

theorem enclosed_inj (h : enclosed ts = enclosed us) : ts = us :=
  List.append_cancel_right (List.cons.inj h).2

theorem opened_within (hts : Contained ts) (h : enclosed ts = us ++ vs) (hus : us ≠ [])
    (hvs : vs ≠ []) : 0 < opened us := by
  cases us with
  | nil => exact absurd rfl hus
  | cons u us =>
    obtain ⟨rest, last, rfl⟩ := (List.eq_nil_or_concat' vs).resolve_left hvs
    have hinner : ts ++ [.closeParen] = us ++ rest ++ [last] := by
      rw [List.append_assoc]
      exact (List.cons.inj h).2
    obtain ⟨rfl, -⟩ := List.append_inj' hinner rfl
    have hopen : side u = 1 := by rw [← (List.cons.inj h).1]; rfl
    have hleft := hts.left
    rw [opened_cons]
    omega

/-- What is put in parentheses, with its own parentheses belonging together, is read for itself. -/
theorem Infix.of_enclosed (h : Infix k (enclosed ts) e) (hts : Contained ts) : Infix 1 ts e := by
  generalize hus : enclosed ts = us at h
  cases h with
  | term k name => cases hus
  | int k n => cases hus
  | paren k h => exact enclosed_inj hus ▸ h
  | op _ _ hl _ =>
    have hopen := opened_within hts hus hl.ne_nil (List.cons_ne_nil _ _)
    rw [hl.balanced.closed] at hopen
    exact absurd hopen (lt_irrefl 0)

/-- No operator binds so strongly that a text with one outside all parentheses could be an operand. -/
theorem Infix.contained (h : Infix 4 (enclosed ts) e) : Contained ts := by
  generalize hus : enclosed ts = us at h
  cases h with
  | term k name => cases hus
  | int k n => cases hus
  | paren k h => exact enclosed_inj hus ▸ h.balanced.contained
  | @op _ _ o _ _ _ _ _ hk _ _ => cases o <;> exact absurd hk (by decide)

/-- Balanced texts in parentheses that overlap are the same, or the one holds the other. -/
theorem enclosed_cut (hts : Balanced ts) (hbody : Balanced body)
    (h : enclosed ts = before ++ (enclosed body ++ after)) :
    (before = [] ∧ after = [] ∧ ts = body) ∨
      ∃ outer rest, before = .openParen :: outer ∧ after = rest ++ [.closeParen] ∧
        ts = outer ++ (enclosed body ++ rest) := by
  cases before with
  | nil =>
    have hinner : ts ++ [.closeParen] = body ++ [.closeParen] ++ after := (List.cons.inj h).2
    rcases List.eq_nil_or_concat' after with rfl | ⟨rest, last, rfl⟩
    · rw [List.append_nil] at hinner
      exact Or.inl ⟨rfl, rfl, List.append_cancel_right hinner⟩
    · rw [← List.append_assoc] at hinner
      obtain ⟨rfl, -⟩ := List.append_inj' hinner rfl
      have hleft := hts.contained.left
      rw [opened_append, hbody.closed, opened_cons, opened_nil] at hleft
      exact absurd hleft (by decide)
  | cons b outer =>
    have hinner : ts ++ [.closeParen] = outer ++ (enclosed body ++ after) := (List.cons.inj h).2
    obtain rfl := (List.cons.inj h).1
    rcases List.eq_nil_or_concat' after with rfl | ⟨rest, last, rfl⟩
    · have hlast : outer ++ (enclosed body ++ []) = outer ++ .openParen :: body ++ [.closeParen] := by
        rw [enclosed, List.append_nil, List.append_assoc, List.cons_append]
      obtain ⟨rfl, -⟩ := List.append_inj' (hinner.trans hlast) rfl
      have hleft := hts.contained.left
      have hclosed := hts.closed
      have hopen : side .openParen = 1 := rfl
      rw [opened_append, opened_cons, hbody.closed] at hclosed
      omega
    · rw [← List.append_assoc, ← List.append_assoc] at hinner
      obtain ⟨rfl, hlast⟩ := List.append_inj' hinner rfl
      refine Or.inr ⟨outer, rest, rfl, by rw [hlast], ?_⟩
      rw [List.append_assoc]

theorem operator_cut {o : Operator} (hls : Balanced ls) (ht : operator? t = some o)
    (hbody : Contained body) (h : ls ++ t :: rs = before ++ (enclosed body ++ after)) :
    (∃ rest, ls = before ++ (enclosed body ++ rest) ∧ after = rest ++ t :: rs) ∨
      ∃ outer, before = ls ++ t :: outer ∧ rs = outer ++ (enclosed body ++ after) := by
  have hopen : t ≠ .openParen := by
    rintro rfl
    cases ht
  rcases List.append_eq_append_iff.1 h with ⟨gap, rfl, hgap⟩ | ⟨gap, rfl, hgap⟩
  · cases gap with
    | nil => exact absurd (List.cons.inj hgap).1 hopen
    | cons t' outer =>
      obtain ⟨rfl, rfl⟩ := List.cons.inj hgap
      exact Or.inr ⟨outer, rfl, rfl⟩
  · rcases List.append_eq_append_iff.1 hgap with ⟨rest, rfl, rfl⟩ | ⟨rest, hrest, hafter⟩
    · exact Or.inl ⟨rest, rfl, rfl⟩
    · cases rest with
      | nil =>
        rw [List.append_nil] at hrest
        exact Or.inl ⟨[], by rw [hrest, List.append_nil], hafter.symm⟩
      | cons t' rest =>
        -- here the operator would stand in the enclosed text, with its parenthesis left open before it
        obtain ⟨rfl, -⟩ := List.cons.inj hafter
        have hgap : gap ≠ [] := by
          rintro rfl
          exact hopen (List.cons.inj hrest).1.symm
        have hwithin := opened_within hbody hrest hgap (List.cons_ne_nil _ _)
        have hleft := hls.contained.left
        have hclosed := hls.closed
        rw [opened_append] at hclosed
        omega

def Expr.subst (e : Expr) (q : String) (v : Expr) : Expr :=
  match e with
  | .term name => if name = q then v else .term name
  | .int n => .int n
  | .op o l r => .op o (l.subst q v) (r.subst q v)

theorem Expr.subst_of_notMem (v : Expr) (h : q ∉ e.names) : e.subst q v = e := by
  induction e with
  | term name =>
    have hne : name ≠ q := fun he => h (List.mem_singleton.2 he.symm)
    exact if_neg hne
  | int n => rfl
  | op o l r ihl ihr =>
    rw [names, List.mem_append, not_or] at h
    rw [subst, ihl h.1, ihr h.2]

/-- Whatever stands around an enclosed text, its tree goes into that of the whole as one name would. -/
theorem Infix.subst (hv : Infix 1 body v) (h : Infix k ts e)
    (hts : ts = before ++ (enclosed body ++ after)) (hbefore : .ident q ∉ before)
    (hafter : .ident q ∉ after) :
    ∃ e', Infix k (before ++ .ident q :: after) e' ∧ e = e'.subst q v := by
  induction h generalizing before after with
  | term k name =>
    have hlength := congrArg List.length hts
    simp only [enclosed, List.length_append, List.length_cons, List.length_nil] at hlength
    omega
  | int k n =>
    have hlength := congrArg List.length hts
    simp only [enclosed, List.length_append, List.length_cons, List.length_nil] at hlength
    omega
  | @paren k ts e h ih =>
    rcases enclosed_cut h.balanced hv.balanced hts with ⟨rfl, rfl, rfl⟩ | ⟨outer, rest, rfl, rfl, rfl⟩
    · exact ⟨.term q, Infix.term k q, (h.unique hv).trans (if_pos rfl).symm⟩
    · obtain ⟨e', he', rfl⟩ := ih rfl (fun hq => hbefore (List.mem_cons_of_mem _ hq))
        fun hq => hafter (List.mem_append_left _ hq)
      refine ⟨e', ?_, rfl⟩
      have hparen := Infix.paren k he'
      simpa only [List.cons_append, List.append_assoc] using hparen
  | @op k t o ls rs l r ht hk hl hr ihl ihr =>
    rcases operator_cut hl.balanced ht hv.balanced.contained hts with
      ⟨rest, rfl, rfl⟩ | ⟨outer, rfl, rfl⟩
    · obtain ⟨l', hl', rfl⟩ := ihl rfl hbefore fun hq => hafter (List.mem_append_left _ hq)
      have hr' : q ∉ r.names := fun hq =>
        hafter (List.mem_append_right _ (List.mem_cons_of_mem _ (hr.ident_mem hq)))
      refine ⟨.op o l' r, ?_, by rw [Expr.subst, Expr.subst_of_notMem v hr']⟩
      have hop := Infix.op ht hk hl' hr
      simpa only [List.append_assoc, List.cons_append] using hop
    · obtain ⟨r', hr', rfl⟩ := ihr rfl
        (fun hq => hbefore (List.mem_append_right _ (List.mem_cons_of_mem _ hq))) hafter
      have hl' : q ∉ l.names := fun hq => hbefore (List.mem_append_left _ (hl.ident_mem hq))
      refine ⟨.op o l r', ?_, by rw [Expr.subst, Expr.subst_of_notMem v hl']⟩
      have hop := Infix.op ht hk hl hr'
      simpa only [List.append_assoc, List.cons_append] using hop

section expansion

variable {macros : MacroTable} {skips : Skips} {levels j : Nat} {parts : List (List Token)}
  {f : Token → Except ExpressionError (List Token)} {d : Int}

/-- Tokens may be replaced by themselves, or where they are no brackets by balanced texts. -/
theorem opened_flatten (h : ts.mapM f = .ok parts)
    (hf : ∀ t ∈ ts, ∀ us, f t = .ok us → us = [t] ∨ side t = 0 ∧ Balanced us)
    (hts : ∀ us vs, ts = us ++ vs → 0 ≤ d + opened us) :
    opened parts.flatten = opened ts ∧ ∀ us vs, parts.flatten = us ++ vs → 0 ≤ d + opened us := by
  induction ts generalizing parts d with
  | nil =>
    obtain rfl := Except.ok.inj h
    exact ⟨rfl, hts⟩
  | cons t ts ih =>
    rw [List.mapM_cons] at h
    obtain ⟨part, hpart, h⟩ := bind_eq_ok h
    obtain ⟨rest, hrest, h⟩ := bind_eq_ok h
    obtain rfl := Except.ok.inj h
    have hlater (us vs : List Token) (hus : ts = us ++ vs) : 0 ≤ d + side t + opened us := by
      have hprefix := hts (t :: us) vs (by rw [hus]; rfl)
      rw [opened_cons] at hprefix
      omega
    obtain ⟨hopened, hleft⟩ := ih hrest (fun u hu => hf u (List.mem_cons_of_mem t hu)) hlater
    have hkind := hf t List.mem_cons_self part hpart
    have hstep : opened part = side t := by
      rcases hkind with rfl | ⟨hzero, hbalanced⟩
      · rw [opened_cons, opened_nil, add_zero]
      · rw [hbalanced.closed, hzero]
    rw [List.flatten_cons]
    refine ⟨by rw [opened_append, hstep, hopened, opened_cons], fun us vs hus => ?_⟩
    rcases List.append_eq_append_iff.1 hus with ⟨gap, rfl, hgap⟩ | ⟨gap, hpart, -⟩
    · have hprefix := hleft gap vs hgap
      rw [opened_append, hstep]
      omega
    · rcases hkind with rfl | ⟨-, hbalanced⟩
      · refine hts us (gap ++ ts) ?_
        rw [← List.append_assoc, ← hpart]
        rfl
      · have hstart := hts [] (t :: ts) rfl
        rw [hpart] at hbalanced
        have hprefix := hbalanced.contained.left
        rw [opened_nil] at hstart
        omega

theorem balanced_flatten (h : ts.mapM f = .ok parts)
    (hf : ∀ t ∈ ts, ∀ us, f t = .ok us → us = [t] ∨ side t = 0 ∧ Balanced us)
    (hts : Balanced ts) : Balanced parts.flatten := by
  have hstart (us vs : List Token) (hus : ts = us ++ vs) : 0 ≤ 0 + opened us := by
    rw [zero_add]
    exact hts.contained us vs hus
  obtain ⟨hopened, hleft⟩ := opened_flatten h hf hstart
  refine ⟨fun us vs hus => ?_, hopened.trans hts.closed⟩
  rw [← zero_add (opened us)]
  exact hleft us vs hus

section bodies

variable (hbody : ∀ name body, macros.get? name = some body → Balanced body)

include hbody

/-- Where all bodies are balanced, so is what is put in for their names. -/
theorem balanced_of_expandToken (h : expandToken macros skips levels t = .ok us) :
    us = [t] ∨ side t = 0 ∧ Balanced us := by
  induction levels using Nat.strong_induction_on generalizing t us with
  | h levels ih =>
    rcases expandToken_cases h with ⟨name, body, parts, below, rfl, hlevels, hdefined, hparts, rfl⟩ |
      ⟨name, enabled, rfl, -, -, rfl⟩ | ⟨-, rfl⟩
    · have hinner := balanced_flatten hparts (fun u _ us hu => ih below (by omega) hu)
        (hbody name body hdefined)
      exact Or.inr ⟨rfl, hinner.paren⟩
    · exact Or.inr ⟨rfl, balanced_singleton rfl⟩
    · exact Or.inl rfl

theorem balanced_inner (h : expandToken macros skips levels t = .ok (enclosed ts)) : Balanced ts := by
  have hne (u : Token) : enclosed ts ≠ [u] := fun hsame =>
    List.append_ne_nil_of_right_ne_nil ts (List.cons_ne_nil _ _) (List.cons.inj hsame).2
  rcases expandToken_cases h with ⟨name, body, parts, below, -, -, hdefined, hparts, hparen⟩ |
    ⟨name, enabled, -, -, -, hliteral⟩ | ⟨-, hsame⟩
  · rw [enclosed_inj hparen]
    exact balanced_flatten hparts (fun u _ us hu => balanced_of_expandToken hbody hu)
      (hbody name body hdefined)
  · exact absurd hliteral (hne _)
  · exact absurd hsame (hne _)

end bodies

theorem expandToken_mono (h : expandToken macros skips levels t = .ok us) (hj : levels ≤ j) :
    expandToken macros skips j t = .ok us := by
  induction levels using Nat.strong_induction_on generalizing t us j with
  | h levels ih =>
    rcases expandToken_cases h with ⟨name, body, parts, below, rfl, rfl, hdefined, hparts, rfl⟩ |
      ⟨name, enabled, rfl, hdefined, hskip, rfl⟩ | ⟨hsettled, rfl⟩
    · obtain ⟨j, rfl⟩ := Nat.exists_eq_add_of_le' hj
      have hmore : body.mapM (expandToken macros skips (j + below)) = .ok parts :=
        mapM_mono (fun u _ us hu => ih below (Nat.lt_succ_self below) hu (Nat.le_add_left below j)) hparts
      rw [← Nat.add_assoc, expandToken_body hdefined, hmore]
      rfl
    · exact expandToken_skip hdefined hskip j
    · exact expandToken_settled hsettled j

/-- What a token is expanded to does not depend on how deep it stands. -/
theorem expandToken_unique (h : expandToken macros skips levels t = .ok us)
    (h' : expandToken macros skips j t = .ok vs) : us = vs := by
  have hmax := expandToken_mono h (Nat.le_max_left levels j)
  exact Except.ok.inj (hmax.symm.trans (expandToken_mono h' (Nat.le_max_right levels j)))

end expansion

end WorldShuffle

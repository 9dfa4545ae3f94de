import WorldShuffle.Logic.Expression
import WorldShuffle.Proofs.Except

namespace WorldShuffle

inductive Expr
  | term (name : String)
  | int (n : UInt32)
  | op (o : Operator) (l r : Expr)
  deriving DecidableEq

def Expr.postorder : Expr → List Instr
  | .term name => [.term name]
  | .int n => [.int n]
  | .op o l r => l.postorder ++ r.postorder ++ [.op o]

/-- The infix grammar. Outside parentheses, the operators of an expression bind at least as strongly
as the index says; the left operand may have operators as strong as the one between, the right one
only stronger ones. -/
inductive Infix : Nat → List Token → Expr → Prop
  | term (k : Nat) (name : String) : Infix k [.ident name] (.term name)
  | int (k : Nat) (n : UInt32) : Infix k [.int n] (.int n)
  | paren (k : Nat) {ts : List Token} {e : Expr} (h : Infix 1 ts e) :
      Infix k (.openParen :: (ts ++ [.closeParen])) e
  | op {k : Nat} {t : Token} {o : Operator} {ls rs : List Token} {l r : Expr}
      (ht : operator? t = some o) (hk : k ≤ o.strength) (hl : Infix o.strength ls l)
      (hr : Infix (o.strength + 1) rs r) : Infix k (ls ++ t :: rs) (.op o l r)

variable {k j : Nat} {ts ls : List Token} {e : Expr} {o : Operator} {t : Token}
  {waiting waiting' : List Waiting} {out out' : List Instr} {p : List Instr}

theorem Operator.one_le_strength (o : Operator) : 1 ≤ o.strength := by cases o <;> decide

theorem Infix.weaken (h : Infix k ts e) (hj : j ≤ k) : Infix j ts e := by
  cases h with
  | term k name => exact Infix.term j name
  | int k n => exact Infix.int j n
  | paren k h => exact Infix.paren j h
  | op ht hk hl hr => exact Infix.op ht (Nat.le_trans hj hk) hl hr

def above : List Waiting → Nat
  | .op o :: _ => o.strength + 1
  | _ => 1

/-- What waits for an operand: a text that has left these operators and parentheses waiting, and has
put this out, in reverse. -/
inductive Pending : List Token → List Waiting → List Instr → Prop
  | nil : Pending [] [] []
  | paren {ts : List Token} {waiting : List Waiting} {out : List Instr}
      (h : Pending ts waiting out) : Pending (ts ++ [.openParen]) (.paren :: waiting) out
  | op {ts ls : List Token} {waiting : List Waiting} {out : List Instr} {t : Token} {o : Operator}
      {l : Expr} (h : Pending ts waiting out) (ht : operator? t = some o)
      (hl : Infix o.strength ls l) (hw : above waiting ≤ o.strength) :
      Pending (ts ++ (ls ++ [t])) (.op o :: waiting) (l.postorder.reverse ++ out)

def Complete (k : Nat) (ts : List Token) (waiting : List Waiting) (out : List Instr) : Prop :=
  ∃ before ls e out', ts = before ++ ls ∧ out = e.postorder.reverse ++ out' ∧
    Pending before waiting out' ∧ Infix k ls e

theorem Complete.weaken (h : Complete k ts waiting out) (hj : j ≤ k) :
    Complete j ts waiting out := by
  obtain ⟨before, ls, e, out', hts, hout, hp, he⟩ := h
  exact ⟨before, ls, e, out', hts, hout, hp, he.weaken hj⟩

theorem Complete.release (h : Complete k ts (.op o :: waiting) out) (hk : o.strength < k) :
    Complete o.strength ts waiting (.op o :: out) ∧ above waiting ≤ o.strength := by
  obtain ⟨before, rs, r, out', rfl, rfl, hp, hr⟩ := h
  cases hp with
  | @op ts ls _ out t _ l hp ht hl hw =>
    refine ⟨⟨ts, ls ++ t :: rs, .op o l r, out, ?_, ?_, hp, ?_⟩, hw⟩
    · simp
    · simp [Expr.postorder]
    · exact Infix.op ht (Nat.le_refl _) hl (hr.weaken hk)

/-- Behind what has been released, an operator finds an operand for its left. -/
theorem Complete.releaseStronger (o : Operator) (h : Complete k ts waiting out)
    (hk : o.strength ≤ k) (hw : above waiting ≤ k)
    (hr : releaseStronger o waiting out = (waiting', out')) :
    Complete o.strength ts waiting' out' ∧ above waiting' ≤ o.strength := by
  induction waiting generalizing k out with
  | nil =>
    obtain ⟨rfl, rfl⟩ := Prod.mk.inj hr
    exact ⟨h.weaken hk, o.one_le_strength⟩
  | cons w waiting ih =>
    cases w with
    | paren =>
      obtain ⟨rfl, rfl⟩ := Prod.mk.inj hr
      exact ⟨h.weaken hk, o.one_le_strength⟩
    | op q =>
      rw [WorldShuffle.releaseStronger] at hr
      by_cases hq : o.strength ≤ q.strength
      · rw [if_pos hq] at hr
        obtain ⟨hc, hw'⟩ := h.release hw
        exact ih hc hq hw' hr
      · rw [if_neg hq] at hr
        obtain ⟨rfl, rfl⟩ := Prod.mk.inj hr
        exact ⟨h.weaken hk, Nat.lt_of_not_le hq⟩

theorem Complete.releaseParen (h : Complete k ts waiting out) (hw : above waiting ≤ k)
    (hr : releaseParen waiting out = .ok (waiting', out')) :
    ∀ j, Complete j (ts ++ [.closeParen]) waiting' out' := by
  induction waiting generalizing k out with
  | nil => cases hr
  | cons w waiting ih =>
    cases w with
    | paren =>
      obtain ⟨rfl, rfl⟩ := Prod.mk.inj (Except.ok.inj hr)
      intro j
      obtain ⟨before, ls, e, out', rfl, rfl, hp, he⟩ := h
      cases hp with
      | @paren before waiting out hp =>
        refine ⟨before, .openParen :: (ls ++ [.closeParen]), e, _, by simp, rfl, hp, ?_⟩
        exact Infix.paren j (he.weaken hw)
    | op q =>
      obtain ⟨hc, hw'⟩ := h.release hw
      exact ih hc hw' hr

theorem Complete.releaseAll (h : Complete k ts waiting out) (hw : above waiting ≤ k)
    (hr : releaseAll waiting out = .ok p) : ∃ e, Infix 1 ts e ∧ p = e.postorder := by
  induction waiting generalizing k out with
  | nil =>
    obtain rfl := Except.ok.inj hr
    obtain ⟨before, ls, e, out', rfl, rfl, hp, he⟩ := h
    cases hp
    exact ⟨e, he.weaken hw, by simp⟩
  | cons w waiting ih =>
    cases w with
    | paren => cases hr
    | op q =>
      obtain ⟨hc, hw'⟩ := h.release hw
      exact ih hc hw' hr

def Reads (ts : List Token) : Reading → Prop
  | ⟨true, waiting, out⟩ => Pending ts waiting out
  | ⟨false, waiting, out⟩ => ∀ k, Complete k ts waiting out

theorem Reads.operator (h : Reads ts ⟨false, waiting, out⟩) (ht : operator? t = some o) :
    Reads (ts ++ [t])
      ⟨true, .op o :: (releaseStronger o waiting out).1, (releaseStronger o waiting out).2⟩ := by
  obtain ⟨hc, hw⟩ := (h (max o.strength (above waiting))).releaseStronger o
    (Nat.le_max_left _ _) (Nat.le_max_right _ _) rfl
  obtain ⟨before, ls, e, out', rfl, hout, hp, he⟩ := hc
  rw [hout, List.append_assoc]
  exact Pending.op hp ht he hw

theorem Reads.step {r r' : Reading} (h : Reads ts r) (hr : r.step t = .ok r') :
    Reads (ts ++ [t]) r' := by
  obtain ⟨operand, waiting, out⟩ := r
  cases operand with
  | true =>
    cases t with
    | ident name =>
      obtain rfl := Except.ok.inj hr
      intro k
      exact ⟨ts, [.ident name], .term name, out, rfl, rfl, h, Infix.term k name⟩
    | int n =>
      obtain rfl := Except.ok.inj hr
      intro k
      exact ⟨ts, [.int n], .int n, out, rfl, rfl, h, Infix.int k n⟩
    | openParen =>
      obtain rfl := Except.ok.inj hr
      exact Pending.paren h
    | _ => cases hr
  | false =>
    cases t with
    | closeParen =>
      obtain ⟨⟨waiting', out'⟩, hrelease, hr⟩ := bind_eq_ok hr
      obtain rfl := Except.ok.inj hr
      exact (h (above waiting)).releaseParen (Nat.le_refl _) hrelease
    | hash =>
      obtain rfl := Except.ok.inj hr
      exact h.operator rfl
    | plus =>
      obtain rfl := Except.ok.inj hr
      exact h.operator rfl
    | pipe =>
      obtain rfl := Except.ok.inj hr
      exact h.operator rfl
    | _ => cases hr

theorem Reads.run {r r' : Reading} (h : Reads ts r) (hr : ls.foldlM Reading.step r = .ok r') :
    Reads (ts ++ ls) r' := by
  induction ls generalizing ts r with
  | nil =>
    obtain rfl := Except.ok.inj hr
    rwa [List.append_nil]
  | cons t ls ih =>
    obtain ⟨r₁, hstep, hrest⟩ := foldlM_cons_eq_ok hr
    rw [List.append_cons]
    exact ih (h.step hstep) hrest

theorem Reads.finish {r : Reading} (h : Reads ts r) (hr : r.finish = .ok p) :
    ∃ e, Infix 1 ts e ∧ p = e.postorder := by
  obtain ⟨operand, waiting, out⟩ := r
  cases operand with
  | true => cases hr
  | false => exact (h (above waiting)).releaseAll (Nat.le_refl _) hr

theorem infix_of_postorder (h : postorder ts = .ok p) : ∃ e, Infix 1 ts e ∧ p = e.postorder := by
  obtain ⟨r, hr, hfinish⟩ := bind_eq_ok h
  have hstart : Reads [] {} := Pending.nil
  exact (hstart.run hr).finish hfinish

theorem releaseStronger_of_above (o : Operator) (out : List Instr)
    (h : above waiting ≤ o.strength) : releaseStronger o waiting out = (waiting, out) := by
  cases waiting with
  | nil => rfl
  | cons w waiting =>
    cases w with
    | paren => rfl
    | op q =>
      rw [releaseStronger, if_neg]
      exact Nat.not_le_of_lt h

theorem releaseStronger_append (o : Operator) (ws : List Operator)
    (hws : ∀ q ∈ ws, o.strength ≤ q.strength) (out : List Instr)
    (hw : above waiting ≤ o.strength) :
    releaseStronger o (ws.map Waiting.op ++ waiting) out =
      (waiting, (ws.map Instr.op).reverse ++ out) := by
  induction ws generalizing out with
  | nil => exact releaseStronger_of_above o out hw
  | cons q ws ih =>
    rw [List.map_cons, List.cons_append, releaseStronger, if_pos (hws q List.mem_cons_self),
      ih (fun q' hq' => hws q' (List.mem_cons_of_mem q hq'))]
    simp

theorem releaseParen_append (ws : List Operator) (waiting : List Waiting) (out : List Instr) :
    releaseParen (ws.map Waiting.op ++ .paren :: waiting) out =
      .ok (waiting, (ws.map Instr.op).reverse ++ out) := by
  induction ws generalizing out with
  | nil => rfl
  | cons q ws ih =>
    rw [List.map_cons, List.cons_append, releaseParen, ih]
    simp

theorem releaseAll_operators (ws : List Operator) (out : List Instr) :
    releaseAll (ws.map Waiting.op) out = .ok (out.reverse ++ ws.map Instr.op) := by
  induction ws generalizing out with
  | nil => simp [releaseAll]
  | cons q ws ih =>
    rw [List.map_cons, releaseAll, ih]
    simp

theorem Reading.step_operator (ht : operator? t = some o) :
    Reading.step ⟨false, waiting, out⟩ t =
      .ok ⟨true, .op o :: (releaseStronger o waiting out).1, (releaseStronger o waiting out).2⟩ := by
  cases t with
  | hash | plus | pipe =>
    obtain rfl := Option.some.inj ht
    rfl
  | _ => cases ht

theorem Reading.step_closeParen (h : releaseParen waiting out = .ok (waiting', out')) :
    Reading.step ⟨false, waiting, out⟩ .closeParen = .ok ⟨false, waiting', out'⟩ := by
  simp only [Reading.step, h, Bool.false_eq_true, if_false]
  rfl

/-- Reading an expression leaves operators waiting that bind as strongly as those outside its
parentheses. Releasing them completes its postorder. -/
theorem Infix.reads (h : Infix k ts e) (hw : above waiting ≤ k) (out : List Instr) :
    ∃ (ws : List Operator) (out' : List Instr), (∀ q ∈ ws, k ≤ q.strength) ∧
      (ws.map Instr.op).reverse ++ out' = e.postorder.reverse ++ out ∧
      ts.foldlM Reading.step ⟨true, waiting, out⟩ =
        .ok ⟨false, ws.map Waiting.op ++ waiting, out'⟩ := by
  induction h generalizing waiting out with
  | term k name => exact ⟨[], .term name :: out, by simp, rfl, rfl⟩
  | int k n => exact ⟨[], .int n :: out, by simp, rfl, rfl⟩
  | @paren k ts e h ih =>
    obtain ⟨ws, out', -, hout, hread⟩ := @ih (.paren :: waiting) (Nat.le_refl 1) out
    have hopen : (Token.openParen :: ts).foldlM Reading.step ⟨true, waiting, out⟩ =
        .ok ⟨false, ws.map Waiting.op ++ .paren :: waiting, out'⟩ := hread
    refine ⟨[], _, by simp, hout, ?_⟩
    rw [← List.cons_append, List.foldlM_append, hopen]
    exact congrArg (· >>= pure) (Reading.step_closeParen (releaseParen_append ws waiting out'))
  | @op k t o ls rs l r ht hk hl hr ihl ihr =>
    obtain ⟨ws, out₁, hws, hout₁, hread₁⟩ := ihl (Nat.le_trans hw hk) out
    obtain ⟨ws', out₂, hws', hout₂, hread₂⟩ := @ihr (.op o :: waiting) (Nat.le_refl _)
      (l.postorder.reverse ++ out)
    refine ⟨ws' ++ [o], out₂, ?_, ?_, ?_⟩
    · intro q hq
      rcases List.mem_append.1 hq with hq | hq
      · have := hws' q hq
        omega
      · exact List.mem_singleton.1 hq ▸ hk
    · rw [List.map_append, List.reverse_append, List.map_singleton, List.reverse_singleton,
        List.append_assoc, hout₂]
      simp [Expr.postorder]
    · have hstep : Reading.step ⟨false, ws.map Waiting.op ++ waiting, out₁⟩ t = .ok _ :=
        Reading.step_operator ht
      rw [releaseStronger_append o ws hws out₁ (Nat.le_trans hw hk), hout₁] at hstep
      rw [List.foldlM_append, hread₁, List.map_append, List.append_assoc]
      calc _ = Reading.step ⟨false, ws.map Waiting.op ++ waiting, out₁⟩ t >>=
            rs.foldlM Reading.step := rfl
        _ = rs.foldlM Reading.step ⟨true, .op o :: waiting, l.postorder.reverse ++ out⟩ := by
          rw [hstep]
          rfl
        _ = _ := hread₂

theorem Infix.postorder_eq (h : Infix 1 ts e) : postorder ts = .ok e.postorder := by
  have hw : above [] ≤ 1 := Nat.le_refl 1
  obtain ⟨ws, out, -, hout, hread⟩ := h.reads hw []
  rw [List.append_nil] at hout hread
  have hrev := congrArg List.reverse hout
  calc postorder ts = releaseAll (ws.map Waiting.op) out := congrArg (· >>= Reading.finish) hread
    _ = .ok (out.reverse ++ ws.map Instr.op) := releaseAll_operators ws out
    _ = .ok e.postorder := by simpa using hrev

def Instr.build (stack : List Expr) : Instr → List Expr
  | .term name => .term name :: stack
  | .int n => .int n :: stack
  | .op o =>
    match stack with
    | r :: l :: rest => .op o l r :: rest
    | _ => []

theorem Expr.build_postorder (e : Expr) (stack : List Expr) :
    e.postorder.foldl Instr.build stack = e :: stack := by
  induction e generalizing stack with
  | term name => rfl
  | int n => rfl
  | op o l r ihl ihr =>
    rw [postorder, List.foldl_append, List.foldl_append, ihl, ihr]
    rfl

theorem Expr.postorder_inj {e e' : Expr} (h : e.postorder = e'.postorder) : e = e' := by
  have hb := e.build_postorder []
  rw [h, e'.build_postorder] at hb
  exact (List.cons.inj hb).1.symm

theorem Infix.unique {e' : Expr} (h : Infix 1 ts e) (h' : Infix 1 ts e') : e = e' :=
  Expr.postorder_inj (Except.ok.inj (h.postorder_eq.symm.trans h'.postorder_eq))

end WorldShuffle

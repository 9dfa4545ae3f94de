import WorldShuffle.Proofs.Infix

namespace WorldShuffle

/-- The infix grammar without any rule of precedence: names and numbers, phrases in parentheses, and
two phrases with an operator between them. -/
inductive Phrase : List Token → Prop
  | term (name : String) : Phrase [.ident name]
  | int (n : UInt32) : Phrase [.int n]
  | paren {ts : List Token} (h : Phrase ts) : Phrase (.openParen :: (ts ++ [.closeParen]))
  | op {t : Token} {o : Operator} {ls rs : List Token} (ht : operator? t = some o)
      (hl : Phrase ls) (hr : Phrase rs) : Phrase (ls ++ t :: rs)

variable {k : Nat} {ts : List Token} {e : Expr} {base : List Waiting}

theorem Infix.phrase (h : Infix k ts e) : Phrase ts := by
  induction h with
  | term k name => exact Phrase.term name
  | int k n => exact Phrase.int n
  | paren k h ih => exact Phrase.paren ih
  | op ht hk hl hr ihl ihr => exact Phrase.op ht ihl ihr

def Closed (waiting : List Waiting) : Prop := above waiting = 1

theorem closed_nil : Closed [] := rfl

theorem closed_paren (waiting : List Waiting) : Closed (.paren :: waiting) := rfl

theorem Closed.releaseStronger (h : Closed base) (o : Operator) (ws : List Operator)
    (out : List Instr) : ∃ (ws' : List Operator) (out' : List Instr),
      releaseStronger o (ws.map Waiting.op ++ base) out = (ws'.map Waiting.op ++ base, out') := by
  induction ws generalizing out with
  | nil =>
    have habove : above base ≤ o.strength := by
      rw [h]
      exact o.one_le_strength
    exact ⟨[], out, releaseStronger_of_above o out habove⟩
  | cons q ws ih =>
    rw [List.map_cons, List.cons_append, WorldShuffle.releaseStronger]
    by_cases hq : o.strength ≤ q.strength
    · rw [if_pos hq]
      exact ih _
    · rw [if_neg hq]
      exact ⟨q :: ws, out, rfl⟩

/-- Whatever operators wait, a phrase is read, and other operators wait in their place; what stands
below them is left alone. -/
theorem Phrase.reads (h : Phrase ts) (hb : Closed base) (ws : List Operator) (out : List Instr) :
    ∃ (ws' : List Operator) (out' : List Instr),
      ts.foldlM Reading.step ⟨true, ws.map Waiting.op ++ base, out⟩ =
        .ok ⟨false, ws'.map Waiting.op ++ base, out'⟩ := by
  induction h generalizing base ws out with
  | term name => exact ⟨ws, .term name :: out, rfl⟩
  | int n => exact ⟨ws, .int n :: out, rfl⟩
  | @paren ts h ih =>
    obtain ⟨ws', out', hread⟩ := ih (closed_paren (ws.map Waiting.op ++ base)) [] out
    refine ⟨ws, (ws'.map Instr.op).reverse ++ out', ?_⟩
    have hopen : (Token.openParen :: ts).foldlM Reading.step ⟨true, ws.map Waiting.op ++ base, out⟩ =
        .ok ⟨false, ws'.map Waiting.op ++ .paren :: (ws.map Waiting.op ++ base), out'⟩ := hread
    rw [← List.cons_append, List.foldlM_append, hopen]
    exact congrArg (· >>= pure) (Reading.step_closeParen (releaseParen_append ws' _ out'))
  | @op t o ls rs ht hl hr ihl ihr =>
    obtain ⟨ws₁, out₁, hread₁⟩ := ihl hb ws out
    obtain ⟨ws₂, out₂, hrelease⟩ := hb.releaseStronger o ws₁ out₁
    obtain ⟨ws₃, out₃, hread₃⟩ := ihr hb (o :: ws₂) out₂
    refine ⟨ws₃, out₃, ?_⟩
    have hstep : Reading.step ⟨false, ws₁.map Waiting.op ++ base, out₁⟩ t = .ok _ :=
      Reading.step_operator ht
    rw [hrelease] at hstep
    calc (ls ++ t :: rs).foldlM Reading.step ⟨true, ws.map Waiting.op ++ base, out⟩
        = Reading.step ⟨false, ws₁.map Waiting.op ++ base, out₁⟩ t >>=
            rs.foldlM Reading.step := by
          rw [List.foldlM_append, hread₁]
          rfl
      _ = rs.foldlM Reading.step ⟨true, .op o :: (ws₂.map Waiting.op ++ base), out₂⟩ := by
          rw [hstep]
          rfl
      _ = .ok ⟨false, ws₃.map Waiting.op ++ base, out₃⟩ := hread₃

theorem Phrase.postorder_eq_ok (h : Phrase ts) : ∃ p, postorder ts = .ok p := by
  obtain ⟨ws, out, hread⟩ := h.reads closed_nil [] []
  simp only [List.map_nil, List.append_nil] at hread
  refine ⟨out.reverse ++ ws.map Instr.op, ?_⟩
  calc postorder ts = releaseAll (ws.map Waiting.op) out := congrArg (· >>= Reading.finish) hread
    _ = _ := releaseAll_operators ws out

theorem phrase_iff : Phrase ts ↔ ∃ p, postorder ts = .ok p := by
  constructor
  · exact Phrase.postorder_eq_ok
  · rintro ⟨p, hp⟩
    obtain ⟨e, he, -⟩ := infix_of_postorder hp
    exact he.phrase

end WorldShuffle

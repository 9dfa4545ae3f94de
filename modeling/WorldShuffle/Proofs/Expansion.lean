import WorldShuffle.Proofs.Demands
import WorldShuffle.Proofs.TokenTexts

namespace WorldShuffle

variable {macros m m' : MacroTable} {skips : Skips} {levels : Nat} {name : String} {t : Token}
  {ts us body : List Token}

def Token.Settled (macros : MacroTable) (skips : Skips) : Token → Prop
  | .ident name => macros.get? name = none ∧ skips name = none
  | _ => True

theorem Token.settled_of_ne (h : ∀ name, t ≠ .ident name) : t.Settled macros skips := by
  cases t <;> first | trivial | exact absurd rfl (h _)

def KeepsLiterals (macros : MacroTable) (skips : Skips) : Prop :=
  ∀ value, (literalToken value).Settled macros skips

theorem expandToken_body (h : macros.get? name = some body) (levels : Nat) :
    expandToken macros skips (levels + 1) (.ident name) =
      (body.mapM (expandToken macros skips levels)).map
        fun parts => .openParen :: parts.flatten ++ [.closeParen] := by
  simp only [expandToken, h]
  cases body.mapM (expandToken macros skips levels) <;> rfl

theorem expandToken_skip {enabled : Bool} (hdefined : macros.get? name = none)
    (hskip : skips name = some enabled) (levels : Nat) :
    expandToken macros skips levels (.ident name) = .ok [literalToken enabled] := by
  simp only [expandToken, hdefined, hskip]

theorem expandToken_settled (h : t.Settled macros skips) (levels : Nat) :
    expandToken macros skips levels t = .ok [t] := by
  cases t with
  | ident name =>
    obtain ⟨hdefined, hskip⟩ := h
    simp only [expandToken, hdefined, hskip]
  | _ => unfold expandToken; rfl

theorem expandToken_cases (h : expandToken macros skips levels t = .ok us) :
    (∃ name body parts below, t = .ident name ∧ levels = below + 1 ∧
      macros.get? name = some body ∧ body.mapM (expandToken macros skips below) = .ok parts ∧
      us = .openParen :: parts.flatten ++ [.closeParen]) ∨
    (∃ name enabled, t = .ident name ∧ macros.get? name = none ∧ skips name = some enabled ∧
      us = [literalToken enabled]) ∨
    t.Settled macros skips ∧ us = [t] := by
  by_cases hsettled : t.Settled macros skips
  · rw [expandToken_settled hsettled] at h
    exact Or.inr (Or.inr ⟨hsettled, (Except.ok.inj h).symm⟩)
  obtain ⟨name, rfl⟩ : ∃ name, t = .ident name := by
    by_contra hname
    exact hsettled (Token.settled_of_ne fun name hn => hname ⟨name, hn⟩)
  cases hdefined : macros.get? name with
  | some body =>
    cases levels with
    | zero =>
      simp only [expandToken, hdefined] at h
      cases h
    | succ below =>
      rw [expandToken_body hdefined] at h
      obtain ⟨parts, hparts, rfl⟩ := map_eq_ok h
      exact Or.inl ⟨name, body, parts, below, rfl, rfl, hdefined, hparts, rfl⟩
  | none =>
    cases hskip : skips name with
    | some enabled =>
      rw [expandToken_skip hdefined hskip] at h
      exact Or.inr (Or.inl ⟨name, enabled, rfl, hdefined, hskip, (Except.ok.inj h).symm⟩)
    | none => exact absurd ⟨hdefined, hskip⟩ hsettled

/-- What holds of parentheses, of the literals and of what stays as it is in a text or the body of a
macro holds of all that expansion puts out. -/
theorem expandToken_keeps {P Q : Token → Prop} (hopen : P .openParen) (hclose : P .closeParen)
    (hliteral : ∀ enabled, P (literalToken enabled))
    (hsettled : ∀ t, Q t → t.Settled macros skips → P t)
    (hbody : ∀ name body, macros.get? name = some body → ∀ u ∈ body, Q u)
    (h : expandToken macros skips levels t = .ok us) (ht : Q t) : ∀ u ∈ us, P u := by
  induction levels using Nat.strong_induction_on generalizing t us with
  | h levels ih =>
    rcases expandToken_cases h with ⟨name, body, parts, below, -, hlevels, hdefined, hparts, rfl⟩ |
      ⟨name, enabled, -, -, -, rfl⟩ | ⟨hstays, rfl⟩
    · intro u hu
      rcases List.mem_cons.1 hu with rfl | hu
      · exact hopen
      rcases List.mem_append.1 hu with hu | hu
      · obtain ⟨part, hpart, hu⟩ := List.mem_flatten.1 hu
        obtain ⟨b, hb, hpart⟩ := (mapM_eq_ok hparts).1 part hpart
        exact ih below (by omega) hpart (hbody name body hdefined b hb) u hu
      · rw [List.mem_singleton.1 hu]
        exact hclose
    · exact List.forall_mem_singleton.2 (hliteral enabled)
    · exact List.forall_mem_singleton.2 (hsettled t ht hstays)

theorem expand_eq_ok (h : expand macros skips ts = .ok us) :
    ∃ parts, ts.mapM (expandToken macros skips maxNesting) = .ok parts ∧ us = parts.flatten := by
  obtain ⟨parts, hparts, rfl⟩ := map_eq_ok h
  exact ⟨parts, hparts, rfl⟩

theorem expand_settled (h : ∀ t ∈ ts, t.Settled macros skips) : expand macros skips ts = .ok ts := by
  have hparts : ts.mapM (expandToken macros skips maxNesting) = .ok (ts.map ([·])) := by
    induction ts with
    | nil => rfl
    | cons t ts ih =>
      obtain ⟨ht, hts⟩ := List.forall_mem_cons.1 h
      rw [List.mapM_cons, expandToken_settled ht, ih hts]
      rfl
  rw [expand, hparts]
  change Except.ok (ts.map ([·])).flatten = _
  rw [← List.flatMap_def, List.flatMap_singleton']

namespace MacroTable

inductive Built : MacroTable → Prop
  | empty : Built {}
  | define {m m' : MacroTable} {name : String} {body : List Char} (hm : Built m)
      (h : m.define name body = .ok m') : Built m'
  | bind {m : MacroTable} (hm : Built m) (name : String) (value : Bool) : Built (m.bind name value)

theorem Built.readLine {number : Nat} {line : List Char} (hm : m.Built)
    (h : m.readLine number line = .ok (some m')) : m'.Built := by
  unfold MacroTable.readLine at h
  dsimp only at h
  split at h
  · cases h
  split at h
  · cases h
  split at h
  · cases h
  split at h
  · obtain rfl := Option.some.inj (Except.ok.inj h)
    exact hm.define ‹_›
  · cases h

theorem Built.readLines (hm : m.Built) (number count : Nat) (lines : List (List Char)) :
    (m.readLines number count lines).1.Built := by
  induction lines generalizing m number count with
  | nil => exact hm
  | cons line lines ih =>
    rw [MacroTable.readLines]
    split
    · exact ih hm _ _
    · exact ih (hm.readLine ‹_›) _ _
    · exact hm

theorem Built.parse (hm : m.Built) (text : String) : (m.parse text).1.Built :=
  hm.readLines 1 0 _

theorem define_eq_ok {text : List Char} (h : m.define name text = .ok m') :
    m' = ⟨m.bodies.set name (tokensOf text)⟩ ∧ ∀ t ∈ tokensOf text, isMacroToken t = true := by
  unfold define at h
  dsimp only at h
  split at h
  · cases h
  split at h
  · cases h
  · refine ⟨(Except.ok.inj h).symm, fun t ht => ?_⟩
    have hall := List.find?_eq_none.1 ‹_› t ht
    simpa using hall

end MacroTable

theorem legible_literalToken (enabled : Bool) : (literalToken enabled).Legible := by
  cases enabled with
  | false =>
    have hread : tokensOf ['f', 'a', 'l', 's', 'e'] = [literalToken false] := by decide +kernel
    exact legible_of_mem_tokensOf (hread ▸ List.mem_singleton_self _) nofun
  | true =>
    have hread : tokensOf ['t', 'r', 'u', 'e'] = [literalToken true] := by decide +kernel
    exact legible_of_mem_tokensOf (hread ▸ List.mem_singleton_self _) nofun

theorem MacroTable.Built.legible (hm : m.Built) (h : m.get? name = some body) :
    ∀ t ∈ body, t.Legible := by
  induction hm generalizing name body with
  | empty => cases h
  | @define m m' bound text _ hdefine ih =>
    obtain ⟨rfl, htokens⟩ := define_eq_ok hdefine
    rw [get?, Table.get?_set] at h
    split at h
    · obtain rfl := Option.some.inj h
      refine fun t ht => legible_of_mem_tokensOf ht fun c hc => ?_
      have hdefined := htokens t ht
      rw [hc] at hdefined
      cases hdefined
    · exact ih h
  | bind _ bound value ih =>
    rw [get?, MacroTable.bind, Table.get?_set] at h
    split at h
    · obtain rfl := Option.some.inj h
      exact List.forall_mem_singleton.2 (legible_literalToken value)
    · exact ih h

end WorldShuffle

import WorldShuffle.Proofs.Alternatives
import WorldShuffle.Proofs.Expansion
import WorldShuffle.Proofs.Lists

namespace WorldShuffle

variable {macros : MacroTable} {skips : Skips} {c : Clause} {d : Condition} {cs : List Clause}
  {e l : Expr} {o : Operator} {t : Token} {ts us : List Token}

def Condition.tokens (d : Condition) : List Token :=
  if d.count = 1 then [.ident d.state] else [.int d.count, .hash, .ident d.state]

def Clause.tokens (c : Clause) : List Token :=
  if c.conditions.isEmpty then [literalToken true]
  else [.plus].intercalate (c.conditions.map Condition.tokens)

def alternativesTokens (cs : List Clause) : List Token := [.pipe].intercalate (cs.map Clause.tokens)

section texts

def Clause.Named (c : Clause) : Prop := ∀ d ∈ c.conditions, IsName d.state.toList

theorem separates_sign {s : Char} (hblank : isBlank s = false) (hword : isWordChar s = false)
    (hs : s ∉ ['/', '-', '<', '$']) : Separates [s] [signToken s] where
  ends rest := endsWord_cons hword rest
  read n rest := by
    rw [List.singleton_append, tokenizeFrom_cons n rest (by rintro rfl; cases hblank),
      readToken_sign hblank hword hs]
    rfl

theorem separates_hash : Separates ['#'] [.hash] :=
  separates_sign (s := '#') (by decide) (by decide +kernel) (by decide)

theorem separates_plus : Separates ['+'] [.plus] :=
  separates_sign (s := '+') (by decide) (by decide +kernel) (by decide)

theorem separates_pipe : Separates ['|'] [.pipe] :=
  separates_sign (s := '|') (by decide) (by decide +kernel) (by decide)

theorem separates_openParen : Separates ['('] [.openParen] :=
  separates_sign (s := '(') (by decide) (by decide +kernel) (by decide)

theorem Separates.spaced {sep : List Char} (h : Separates sep ts) :
    Separates (' ' :: (sep ++ [' '])) ts where
  ends rest := endsWord_cons (by decide +kernel) _
  read n rest := by
    rw [List.cons_append, tokenizeFrom_space, List.append_assoc, h.read, List.singleton_append,
      tokenizeFrom_space]

theorem Condition.spells (h : IsName d.state.toList) : Spells d.text.toList d.tokens := by
  rw [text, tokens]
  split
  · exact h.spells
  · have htext : (s!"{d.count.toNat}#{d.state}").toList =
        (toString d.count.toNat).toList ++ (['#'] ++ d.state.toList) := by
      change (toString d.count.toNat ++ "#" ++ d.state).toList = _
      simp [String.toList_append]
    rw [htext]
    exact (spells_int d.count).between separates_hash h.spells

theorem Clause.spells (h : c.Named) : Spells c.text.toList c.tokens := by
  rw [text, tokens]
  split
  · exact spells_text (legible_literalToken true)
  · rw [String.toList_intercalate, List.map_map]
    exact Spells.intercalate separates_plus.spaced fun d hd => Condition.spells (h d hd)

theorem spells_showAlternatives (h : ∀ c ∈ cs, c.Named) :
    Spells (showAlternatives cs).toList (alternativesTokens cs) := by
  rw [showAlternatives, alternativesTokens, String.toList_intercalate, List.map_map]
  exact Spells.intercalate separates_pipe.spaced fun c hc => Clause.spells (h c hc)

end texts

section trees

variable {α : Type} {f : α → List Token} {g : α → Expr} {x : α} {xs : List α}

theorem intercalate_map_cons (t : Token) (f : α → List Token) (x : α) (xs : List α) :
    [t].intercalate ((x :: xs).map f) = f x ++ xs.flatMap fun y => t :: f y := by
  induction xs generalizing x with
  | nil => simp [List.intercalate_singleton]
  | cons y ys ih =>
    rw [List.map_cons, List.map_cons, List.intercalate_cons_cons, ← List.map_cons, ih]
    simp

theorem Infix.chain (ht : operator? t = some o) (hl : Infix o.strength ts l)
    (hxs : ∀ x ∈ xs, Infix (o.strength + 1) (f x) (g x)) :
    Infix o.strength (ts ++ xs.flatMap fun x => t :: f x) ((xs.map g).foldl (.op o) l) := by
  induction xs generalizing ts l with
  | nil =>
    rw [List.flatMap_nil, List.append_nil]
    exact hl
  | cons x xs ih =>
    obtain ⟨hx, hxs⟩ := List.forall_mem_cons.1 hxs
    have hstep := ih (Infix.op ht (Nat.le_refl _) hl hx) hxs
    rw [List.append_assoc] at hstep
    exact hstep

def Condition.expr (d : Condition) : Expr :=
  if d.count = 1 then .term d.state else .op .times (.int d.count) (.term d.state)

def Expr.chain (o : Operator) : List Expr → Expr
  | [] => .term trueState
  | e :: es => es.foldl (.op o) e

def Clause.expr (c : Clause) : Expr := .chain .both (c.conditions.map Condition.expr)

def alternativesExpr (cs : List Clause) : Expr := .chain .either (cs.map Clause.expr)

theorem Condition.infix_tokens (d : Condition) : Infix 3 d.tokens d.expr := by
  rw [tokens, expr]
  split
  · exact Infix.term 3 d.state
  · have hcount : Infix 3 [.int d.count] (.int d.count) := Infix.int 3 d.count
    exact hcount.op (t := .hash) rfl (Nat.le_refl 3) (Infix.term 4 d.state)

theorem infix_intercalate (ht : operator? t = some o) (hne : xs ≠ [])
    (hxs : ∀ x ∈ xs, Infix (o.strength + 1) (f x) (g x)) :
    Infix o.strength ([t].intercalate (xs.map f)) (.chain o (xs.map g)) := by
  cases xs with
  | nil => exact absurd rfl hne
  | cons x xs =>
    obtain ⟨hx, hxs⟩ := List.forall_mem_cons.1 hxs
    rw [intercalate_map_cons]
    exact Infix.chain ht (hx.weaken (Nat.le_succ _)) hxs

theorem Clause.infix_tokens (c : Clause) : Infix 2 c.tokens c.expr := by
  obtain ⟨_ | ⟨d, ds⟩⟩ := c
  · exact Infix.term 2 trueState
  · exact infix_intercalate (o := .both) rfl (List.cons_ne_nil d ds) fun d _ => d.infix_tokens

theorem infix_alternativesTokens (hne : cs ≠ []) :
    Infix 1 (alternativesTokens cs) (alternativesExpr cs) :=
  infix_intercalate (o := .either) rfl hne fun c _ => c.infix_tokens

end trees

section values

variable {α : Type} {f : α → Expr} {xs : List α} {V : List α → Value} {v w : Value}

theorem Expr.value_op {r : Expr} (hl : l.value = .ok v) (hr : r.value = .ok w) :
    (Expr.op o l r).value = o.apply v w := by
  rw [value, hl, hr]
  rfl

theorem Expr.value_foldl (ys : List α) (hl : l.value = .ok (V ys)) (hys : ys ≠ [])
    (hstep : ∀ zs x, zs ≠ [] → zs ++ [x] <+: ys ++ xs →
      ∃ w, (f x).value = .ok w ∧ o.apply (V zs) w = .ok (V (zs ++ [x]))) :
    ((xs.map f).foldl (.op o) l).value = .ok (V (ys ++ xs)) := by
  induction xs generalizing ys l with
  | nil =>
    rw [List.append_nil]
    exact hl
  | cons x xs ih =>
    have happend : ys ++ x :: xs = ys ++ [x] ++ xs := (List.append_cons ..)
    rw [happend] at hstep ⊢
    obtain ⟨w, hw, happly⟩ := hstep ys x hys (List.prefix_append _ xs)
    exact ih (ys ++ [x]) ((value_op hl hw).trans happly)
      (List.append_ne_nil_of_right_ne_nil ys (by simp)) hstep

theorem Expr.value_chain (hxs : xs ≠ []) (hfirst : ∀ x ∈ xs, (f x).value = .ok (V [x]))
    (hstep : ∀ zs x, zs ≠ [] → zs ++ [x] <+: xs → o.apply (V zs) (V [x]) = .ok (V (zs ++ [x]))) :
    (Expr.chain o (xs.map f)).value = .ok (V xs) := by
  cases xs with
  | nil => exact absurd rfl hxs
  | cons x xs =>
    refine value_foldl [x] (hfirst x List.mem_cons_self) (List.cons_ne_nil x []) ?_
    intro zs y hzs hpre
    exact ⟨V [y], hfirst y (hpre.subset (by simp)), hstep zs y hzs hpre⟩

theorem tidy_part {ds : List Condition} (h : Tidy [c]) (hs : ds.Sublist c.conditions)
    (hne : ds ≠ []) : Tidy [⟨ds⟩] := by
  obtain ⟨hplain, hnodup, hnever⟩ := h.normal c (List.mem_singleton_self c)
  have hnames : (Clause.mk ds).names.Sublist c.names := hs.map Condition.state
  have hpart : (Clause.mk ds).isNever = true → Clause.mk ds = .never := by
    intro hn
    rw [hnever (Clause.isNever_iff.2 (hnames.subset (Clause.isNever_iff.1 hn)))] at hs
    exact congrArg Clause.mk ((List.sublist_singleton.1 hs).resolve_left hne)
  refine ⟨List.cons_ne_nil _ _, List.forall_mem_singleton.2 ⟨?_, hnodup.sublist hnames, hpart⟩,
    List.forall_mem_singleton.2 fun d hd => ?_, List.pairwise_singleton _ _, fun {d} hd hn => ?_⟩
  · exact fun ht => hplain (hnames.subset ht)
  · exact h.counted c (List.mem_singleton_self c) d (hs.subset hd)
  · rw [List.mem_singleton.1 hd] at hn
    rw [hpart hn]

theorem normalized_tidy (h : Tidy cs) : normalized cs = .ok cs := by
  rw [normalized, h.normalizeAlternatives]
  rfl

theorem bothOf_parts {ds es : List Condition} (h : Tidy [⟨ds ++ es⟩]) :
    bothOf [⟨ds⟩] [⟨es⟩] = .ok [⟨ds ++ es⟩] := by
  have hmem := List.mem_singleton_self (Clause.mk (ds ++ es))
  have hnormal := (h.normal _ hmem).normalize (h.counted _ hmem)
  have hmerged : ([Clause.mk (ds ++ es)].mapM Clause.normalize).mapError ExpressionError.countOverflow =
      .ok [⟨ds ++ es⟩] := by
    rw [List.mapM_cons, hnormal]
    rfl
  calc bothOf [⟨ds⟩] [⟨es⟩] =
      ([Clause.mk (ds ++ es)].mapM Clause.normalize).mapError .countOverflow >>= normalized := rfl
    _ = .ok [⟨ds ++ es⟩] := by
      rw [hmerged]
      exact normalized_tidy h

theorem termAlternatives_eq {name : String} (h : name ≠ trueState) :
    termAlternatives name = [⟨[⟨name, 1⟩]⟩] := by
  rw [termAlternatives, if_neg h]
  split
  · rename_i hf
    rw [hf]
    rfl
  · rw [Clause.single, if_neg (by simp [h])]

theorem scaleAll_single {name : String} {n : UInt32} (hf : name ≠ falseState)
    (h : Tidy [⟨[⟨name, n⟩]⟩]) : scaleAll n [⟨[⟨name, 1⟩]⟩] = .ok [⟨[⟨name, n⟩]⟩] := by
  have hmem := List.mem_singleton_self (Clause.mk [⟨name, n⟩])
  have ht : name ≠ trueState := fun ht => (h.normal _ hmem).plain (by simp [Clause.names, ht])
  have hn : n ≠ 0 := h.counted _ hmem _ List.mem_cons_self
  have hnever : (Clause.mk [⟨name, 1⟩]).isNever = false := by simp [Clause.isNever, hf]
  have hcount : mulCount? 1 n = some n := by
    rw [mulCount?, if_pos (by simpa using n.toNat_lt), UInt32.one_mul]
  have hadd : Clause.always.add name n = .ok ⟨[⟨name, n⟩]⟩ :=
    Clause.add_counted hn ht List.not_mem_nil
  have hscaled : (Clause.mk [⟨name, 1⟩]).scale n = .ok ⟨[⟨name, n⟩]⟩ := by
    rw [Clause.scale, hnever]
    simp only [Bool.false_eq_true, if_false, List.foldlM_cons, List.foldlM_nil, hcount, hadd]
    rfl
  rw [scaleAll, List.mapM_cons, hscaled]
  exact normalized_tidy h

theorem Condition.value_expr (h : Tidy [⟨[d]⟩]) : d.expr.value = .ok (.alternatives [⟨[d]⟩]) := by
  obtain ⟨name, n⟩ := d
  obtain ⟨hplain, -, hnever⟩ := h.normal _ (List.mem_singleton_self _)
  have ht : name ≠ trueState := fun ht => hplain (by simp [Clause.names, ht])
  rw [expr]
  split
  · rename_i hn
    obtain rfl : n = 1 := hn
    rw [Expr.value, termAlternatives_eq ht]
  · rename_i hn
    have hf : name ≠ falseState := by
      rintro rfl
      cases hnever (Clause.isNever_iff.2 (by simp [Clause.names]))
      exact hn rfl
    rw [Expr.value_op (l := .int n) rfl rfl, termAlternatives_eq ht]
    change Value.alternatives <$> scaleAll n _ = _
    rw [scaleAll_single hf h]
    rfl

theorem Clause.value_expr (h : Tidy [c]) : c.expr.value = .ok (.alternatives [c]) := by
  obtain ⟨ds⟩ := c
  by_cases hds : ds = []
  · rw [hds]
    rfl
  refine Expr.value_chain (V := fun ds => .alternatives [⟨ds⟩]) hds (fun d hd => ?_) fun zs d _ hpre => ?_
  · exact Condition.value_expr (tidy_part h (List.singleton_sublist.2 hd) (List.cons_ne_nil d []))
  · have hpart := tidy_part h hpre.sublist (List.append_ne_nil_of_right_ne_nil zs (by simp))
    change Value.alternatives <$> bothOf _ _ = _
    rw [bothOf_parts hpart]
    rfl

theorem value_alternativesExpr (h : Tidy cs) :
    (alternativesExpr cs).value = .ok (.alternatives cs) := by
  refine Expr.value_chain (V := .alternatives) h.ne_nil (fun c hc => ?_) fun zs c _ hpre => ?_
  · exact Clause.value_expr (h.sublist (List.singleton_sublist.2 hc) (List.cons_ne_nil c []))
  · have hpart := h.sublist hpre.sublist (List.append_ne_nil_of_right_ne_nil zs (by simp))
    change Value.alternatives <$> normalized _ = _
    rw [normalized_tidy hpart]
    rfl

end values

section names

def Expr.names : Expr → List String
  | .term name => [name]
  | .int _ => []
  | .op _ l r => l.names ++ r.names

theorem Infix.ident_mem {k : Nat} (h : Infix k ts e) {q : String} (hq : q ∈ e.names) :
    .ident q ∈ ts := by
  induction h with
  | term k name => exact List.mem_singleton.1 hq ▸ List.mem_singleton_self _
  | int k n => cases hq
  | paren k h ih => exact List.mem_cons_of_mem _ (List.mem_append_left _ (ih hq))
  | op ht hk hl hr ihl ihr =>
    rcases List.mem_append.1 hq with hq | hq
    · exact List.mem_append_left _ (ihl hq)
    · exact List.mem_append_right _ (List.mem_cons_of_mem _ (ihr hq))

theorem Expr.mem_names {ds : List Demand} {wants : String → Nat} {q : String}
    (hds : e.demands? noSkips = some ds) (hd : some wants ∈ ds) (hq : wants q ≠ 0) :
    q ∈ e.names := by
  induction e generalizing ds wants with
  | term name =>
    obtain rfl := Option.some.inj hds
    rw [nameDemands, noSkips] at hd
    dsimp only at hd
    split at hd
    · cases List.mem_singleton.1 hd
      exact absurd rfl hq
    split at hd
    · cases List.mem_singleton.1 hd
    · cases List.mem_singleton.1 hd
      by_contra hne
      exact hq (if_neg fun h => hne (List.mem_singleton.2 h))
  | int n => cases hds
  | op o l r ihl ihr =>
    rw [names, List.mem_append]
    cases o with
    | times =>
      obtain ⟨n, es, rfl, hes, rfl⟩ := demands_times hds
      obtain ⟨a, ha, hw⟩ := List.mem_map.1 hd
      obtain ⟨x, rfl, rfl⟩ := Demand.times_eq_some hw
      exact Or.inr (ihr hes ha (left_ne_zero_of_mul hq))
    | both =>
      obtain ⟨ds₁, ds₂, hds₁, hds₂, rfl⟩ := demands_both hds
      obtain ⟨a, ha, hd⟩ := List.mem_flatMap.1 hd
      obtain ⟨b, hb, hw⟩ := List.mem_map.1 hd
      obtain ⟨x, y, rfl, rfl, rfl⟩ := Demand.add_eq_some hw
      by_cases hx : x q = 0
      · exact Or.inr (ihr hds₂ hb fun hy => hq (by simp [hx, hy]))
      · exact Or.inl (ihl hds₁ ha hx)
    | either =>
      obtain ⟨ds₁, ds₂, hds₁, hds₂, rfl⟩ := demands_either hds
      rcases List.mem_append.1 hd with hd | hd
      · exact Or.inl (ihl hds₁ hd hq)
      · exact Or.inr (ihr hds₂ hd hq)

/-- Compiled conditions are about names of the expression, or about what never holds. -/
theorem names_of_value (h : e.value = .ok (.alternatives cs)) (hc : c ∈ cs) (hd : d ∈ c.conditions) :
    d.state ∈ e.names ∨ d.state = falseState := by
  have htidy : Tidy cs := e.value_tidy h
  obtain ⟨ds, hds, hr⟩ := Expr.value_demands h
  obtain ⟨-, hnodup, hnever⟩ := htidy.normal c hc
  have hdemand := hr.demand_mem c hc
  rw [Clause.demand] at hdemand
  split at hdemand
  · rename_i hn
    rw [hnever hn] at hd
    exact Or.inr (congrArg Condition.state (List.mem_singleton.1 hd))
  · refine Or.inl (Expr.mem_names hds hdemand ?_)
    rw [Clause.wants, wanted_eq_count hnodup hd]
    exact fun hzero => htidy.counted c hc d hd (UInt32.toNat_inj.1 hzero)

end names

section tokens

theorem forall_mem_alternativesTokens {P : Token → Prop} (hpipe : P .pipe) (hplus : P .plus)
    (hhash : P .hash) (hint : ∀ n, P (.int n)) (htrue : P (literalToken true))
    (h : ∀ c ∈ cs, ∀ d ∈ c.conditions, P (.ident d.state)) : ∀ t ∈ alternativesTokens cs, P t := by
  refine List.forall_mem_intercalate (List.forall_mem_singleton.2 hpipe) fun c hc => ?_
  rw [Clause.tokens]
  split
  · exact List.forall_mem_singleton.2 htrue
  refine List.forall_mem_intercalate (List.forall_mem_singleton.2 hplus) fun d hd => ?_
  rw [Condition.tokens]
  split
  · exact List.forall_mem_singleton.2 (h c hc d hd)
  · exact List.forall_mem_cons.2 ⟨hint _, List.forall_mem_cons.2 ⟨hhash,
      List.forall_mem_singleton.2 (h c hc d hd)⟩⟩

end tokens

def Token.Final (macros : MacroTable) (skips : Skips) (t : Token) : Prop :=
  t.Settled macros skips ∧ ∀ name, t = .ident name → IsName name.toList

theorem final_of_expand (hm : macros.Built) (hlit : KeepsLiterals macros skips) {text : List Char}
    (h : expand macros skips (tokensOf text) = .ok us) : ∀ u ∈ us, u.Final macros skips := by
  have hname {t : Token} (ht : t.Legible) (name : String) (hn : t = .ident name) :
      IsName name.toList := by
    rw [hn] at ht
    exact ht
  obtain ⟨parts, hparts, rfl⟩ := expand_eq_ok h
  intro u hu
  obtain ⟨part, hpart, hu⟩ := List.mem_flatten.1 hu
  obtain ⟨t, ht, hexpand⟩ := (mapM_eq_ok hparts).1 part hpart
  refine expandToken_keeps (Q := fun t => ∀ name, t = .ident name → IsName name.toList)
    ⟨trivial, nofun⟩ ⟨trivial, nofun⟩ (fun value => ⟨hlit value, hname (legible_literalToken value)⟩)
    (fun t hn hs => ⟨hs, hn⟩) (fun name body hbody u hu => hname (hm.legible hbody u hu)) hexpand ?_ u hu
  rintro name rfl
  exact hname (legible_of_mem_tokensOf ht nofun) name rfl

/-- What has been compiled is printed as a text that compiles to the same alternatives, in the same
order. -/
theorem compileExpression_showAlternatives (hm : macros.Built) (hlit : KeepsLiterals macros skips)
    (text : String) {cs : List Clause}
    (h : compileExpression macros skips (tokensOf text.toList) = .ok cs) :
    compileExpression macros skips (tokensOf (showAlternatives cs).toList) = .ok cs := by
  have htidy : Tidy cs := compileExpression_tidy h
  obtain ⟨us, e, hus, he, hv⟩ := compileExpression_iff.1 h
  have hfinal (c) (hc : c ∈ cs) (d) (hd : d ∈ c.conditions) :
      (Token.ident d.state).Final macros skips := by
    rcases names_of_value hv hc hd with hq | hf
    · exact final_of_expand hm hlit hus _ (he.ident_mem hq)
    · rw [hf]
      refine ⟨hlit false, ?_⟩
      rintro _ ⟨⟩
      exact legible_literalToken false
  have htokens : tokensOf (showAlternatives cs).toList = alternativesTokens cs := by
    refine (spells_showAlternatives fun c hc d hd => (hfinal c hc d hd).2 _ rfl).tokensOf_eq fun hn => ?_
    exact forall_mem_alternativesTokens (P := (· ≠ .newline)) nofun nofun nofun nofun nofun nofun
      .newline hn rfl
  have hsettled : ∀ t ∈ alternativesTokens cs, t.Settled macros skips :=
    forall_mem_alternativesTokens trivial trivial trivial (fun _ => trivial) (hlit true)
      fun c hc d hd => (hfinal c hc d hd).1
  rw [htokens]
  exact compileExpression_iff.2 ⟨_, _, expand_settled hsettled,
    infix_alternativesTokens htidy.ne_nil, value_alternativesExpr htidy⟩

theorem compileExpression_showAlternatives_lantern :
    let macros := (MacroTable.parse {} "Lantern = Lamp + 2#Oil | Torch").1
    let skips : Skips := fun name =>
      if name = "fly" then some true else if name = "swim" then some false else none
    let text := "Lantern + (swim | Key) | fly + 2#(Coin + Coin)"
    let cs : List Clause :=
      [⟨[⟨"Lamp", 1⟩, ⟨"Oil", 2⟩, ⟨"Key", 1⟩]⟩, ⟨[⟨"Torch", 1⟩, ⟨"Key", 1⟩]⟩, ⟨[⟨"Coin", 4⟩]⟩]
    macros.Built ∧ KeepsLiterals macros skips ∧
    compileExpression macros skips (tokensOf text.toList) = .ok cs ∧
    showAlternatives cs = "Lamp + 2#Oil + Key | Torch + Key | 4#Coin" ∧
    compileExpression macros skips (tokensOf (showAlternatives cs).toList) = .ok cs := by
  intro macros skips text cs
  have hbuilt : macros.Built := MacroTable.Built.empty.parse _
  have hentries : macros.bodies.entries = [("Lantern", [.ident "Lamp", .plus, .int 2, .hash,
      .ident "Oil", .pipe, .ident "Torch"])] := by decide +kernel
  have hlit : KeepsLiterals macros skips := by
    intro value
    cases value <;> exact ⟨by rw [MacroTable.get?, Table.get?, hentries]; rfl, rfl⟩
  have htokens : tokensOf text.toList = [.ident "Lantern", .plus, .openParen, .ident "swim", .pipe,
      .ident "Key", .closeParen, .pipe, .ident "fly", .plus, .int 2, .hash, .openParen, .ident "Coin",
      .plus, .ident "Coin", .closeParen] := by decide +kernel
  have h : compileExpression macros skips (tokensOf text.toList) = .ok cs := by
    have hmacros : macros = ⟨⟨_⟩⟩ := congrArg (fun es => MacroTable.mk ⟨es⟩) hentries
    rw [htokens, hmacros]
    cbv
  exact ⟨hbuilt, hlit, h, by decide +kernel, compileExpression_showAlternatives hbuilt hlit text h⟩

end WorldShuffle

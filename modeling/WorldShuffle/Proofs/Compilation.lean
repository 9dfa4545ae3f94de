import Mathlib
import WorldShuffle.Logic.Rulebook
import WorldShuffle.Proofs.Demands
import WorldShuffle.Proofs.FarSides
import WorldShuffle.Proofs.Phrases

namespace WorldShuffle

variable {e : ExpressionError}

theorem releaseParen_eq_error {waiting : List Waiting} {out : List Instr}
    (h : releaseParen waiting out = .error e) : e = .unbalancedClose := by
  induction waiting generalizing out with
  | nil => exact (Except.error.inj h).symm
  | cons w waiting ih =>
    cases w with
    | paren => cases h
    | op o => exact ih h

theorem releaseAll_eq_error {waiting : List Waiting} {out : List Instr}
    (h : releaseAll waiting out = .error e) : e = .unbalancedOpen := by
  induction waiting generalizing out with
  | nil => cases h
  | cons w waiting ih =>
    cases w with
    | paren => exact (Except.error.inj h).symm
    | op o => exact ih h

theorem Reading.step_ne_corrupt (r : Reading) (t : Token) : r.step t ≠ .error .corruptStack := by
  intro h
  obtain ⟨operand, waiting, out⟩ := r
  cases operand with
  | true => cases t <;> cases h
  | false =>
    cases t with
    | closeParen =>
      rcases bind_eq_error h with h | ⟨released, -, h⟩
      · cases releaseParen_eq_error h
      · cases h
    | _ => cases h

theorem postorder_ne_corrupt (ts : List Token) : postorder ts ≠ .error .corruptStack := by
  intro h
  rcases bind_eq_error h with h | ⟨r, -, h⟩
  · obtain ⟨r, t, -, h⟩ := foldlM_eq_error h
    exact r.step_ne_corrupt t h
  · rw [Reading.finish] at h
    split at h
    · cases h
    · cases releaseAll_eq_error h

theorem expandToken_ne_corrupt (macros : MacroTable) (skips : Skips) (levels : Nat) (t : Token) :
    expandToken macros skips levels t ≠ .error .corruptStack := by
  induction levels generalizing t with
  | zero =>
    intro h
    unfold expandToken at h
    split at h
    · split at h
      · cases h
      · split at h <;> cases h
    · cases h
  | succ levels ih =>
    intro h
    unfold expandToken at h
    split at h
    · split at h
      · rcases bind_eq_error h with h | ⟨parts, -, h⟩
        · obtain ⟨u, -, h⟩ := mapM_eq_error h
          exact ih u h
        · cases h
      · split at h <;> cases h
    · cases h

theorem expand_ne_corrupt (macros : MacroTable) (skips : Skips) (ts : List Token) :
    expand macros skips ts ≠ .error .corruptStack := by
  intro h
  obtain ⟨t, -, h⟩ := mapM_eq_error (map_eq_error h)
  exact expandToken_ne_corrupt macros skips maxNesting t h

theorem normalized_ne_corrupt (cs : List Clause) : normalized cs ≠ .error .corruptStack := by
  intro h
  obtain ⟨overflow, -, h⟩ := mapError_eq_error h
  cases h

theorem scale_ne_corrupt (n : UInt32) (c : Clause) : c.scale n ≠ .error .corruptStack := by
  intro h
  rw [Clause.scale] at h
  split at h
  · cases h
  · obtain ⟨out, d, -, h⟩ := foldlM_eq_error h
    split at h
    · cases h
    · obtain ⟨overflow, -, h⟩ := mapError_eq_error h
      cases h

theorem Operator.apply_ne_corrupt (o : Operator) (l r : Value) :
    o.apply l r ≠ .error .corruptStack := by
  intro h
  cases o with
  | times =>
    cases l with
    | alternatives cs => cases h
    | int n =>
      cases r with
      | int m => cases h
      | alternatives cs =>
        rcases bind_eq_error (map_eq_error h) with h | ⟨scaled, -, h⟩
        · obtain ⟨c, -, h⟩ := mapM_eq_error h
          exact scale_ne_corrupt n c h
        · exact normalized_ne_corrupt scaled h
  | both =>
    cases l with
    | int n => cases h
    | alternatives cs =>
      cases r with
      | int m => cases h
      | alternatives ds =>
        rcases bind_eq_error (map_eq_error h) with h | ⟨merged, -, h⟩
        · obtain ⟨overflow, -, h⟩ := mapError_eq_error h
          cases h
        · exact normalized_ne_corrupt merged h
  | either =>
    cases l with
    | int n => cases h
    | alternatives cs =>
      cases r with
      | int m => cases h
      | alternatives ds => exact normalized_ne_corrupt (cs ++ ds) (map_eq_error h)

theorem Expr.value_ne_corrupt (x : Expr) : x.value ≠ .error .corruptStack := by
  induction x with
  | term name => exact nofun
  | int n => exact nofun
  | op o l r ihl ihr =>
    intro h
    rcases bind_eq_error h with h | ⟨v, -, h⟩
    · exact ihl h
    · rcases bind_eq_error h with h | ⟨w, -, h⟩
      · exact ihr h
      · exact o.apply_ne_corrupt v w h

/-- On the postorder of a tree, each operator finds its two operands, and one value is left. -/
theorem evaluate_postorder_ne_corrupt (x : Expr) :
    evaluate x.postorder ≠ .error .corruptStack := by
  intro h
  rcases bind_eq_error h with h | ⟨stack, hrun, h⟩
  · rw [x.run_postorder] at h
    exact x.value_ne_corrupt (map_eq_error h)
  · rw [x.run_postorder] at hrun
    obtain ⟨v, -, rfl⟩ := map_eq_ok hrun
    cases v <;> cases h

theorem compileExpression_ne_corrupt (macros : MacroTable) (skips : Skips) (ts : List Token) :
    compileExpression macros skips ts ≠ .error .corruptStack := by
  intro h
  rcases bind_eq_error h with h | ⟨us, -, h⟩
  · exact expand_ne_corrupt macros skips ts h
  · rcases bind_eq_error h with h | ⟨p, hp, h⟩
    · exact postorder_ne_corrupt us h
    · obtain ⟨x, -, rfl⟩ := infix_of_postorder hp
      exact evaluate_postorder_ne_corrupt x h

theorem mapError_pattern_ne {α : Type} (x : Except PatternError α) :
    x.mapError StatementError.pattern ≠ .error (.expression e) := by
  intro h
  obtain ⟨e', -, he⟩ := mapError_eq_error h
  cases he

theorem groupPatterns_ne_corrupt (name : String) (ts : List Token) :
    groupPatterns name ts ≠ .error (.expression .corruptStack) := by
  intro h
  rw [groupPatterns] at h
  split at h
  · exact mapError_pattern_ne _ h
  · cases h

theorem Rule.ofTokens_ne_corrupt (v : Vocabulary) (ts : List Token) :
    Rule.ofTokens v ts ≠ .error (.expression .corruptStack) := by
  intro h
  rw [Rule.ofTokens] at h
  split at h
  · split at h
    · split at h
      · cases h
      · rcases bind_eq_error h with h | ⟨source, -, h⟩
        · exact mapError_pattern_ne _ h
        · rcases bind_eq_error h with h | ⟨target, -, h⟩
          · exact mapError_pattern_ne _ h
          · dsimp only at h
            split at h
            · cases h
            · rcases bind_eq_error h with h | ⟨alternatives, -, h⟩
              · obtain ⟨e, he, hexpr⟩ := mapError_eq_error h
                obtain rfl := StatementError.expression.inj hexpr
                exact compileExpression_ne_corrupt _ _ _ he
              · cases h
    · cases h
  · cases h

theorem resolveEdges_ne_corrupt (t : Topology) (groups : Groups) (scene : SceneId)
    (source target : Pattern) :
    resolveEdges t groups scene source target ≠ .error (.expression .corruptStack) := by
  intro h
  rcases bind_eq_error h with h | ⟨sources, -, h⟩
  · exact mapError_pattern_ne _ h
  · rcases bind_eq_error h with h | ⟨targets, -, h⟩
    · exact mapError_pattern_ne _ h
    · dsimp only at h
      split at h
      · split at h <;> cases h
      · cases h

theorem Rule.edges_ne_corrupt (r : Rule) (t : Topology) (groups : Groups) (scene : SceneId) :
    r.edges t groups scene ≠ .error (.expression .corruptStack) := by
  intro h
  rcases bind_eq_error h with h | ⟨there, -, h⟩
  · exact resolveEdges_ne_corrupt _ _ _ _ _ h
  · split at h
    · rcases bind_eq_error h with h | ⟨back, -, h⟩
      · exact resolveEdges_ne_corrupt _ _ _ _ _ h
      · cases h
    · cases h

theorem Rulebook.rule_ne_corrupt (v : Vocabulary) (b : Rulebook) (ts : List Token) :
    b.rule v ts ≠ .error (.expression .corruptStack) := by
  intro h
  rw [Rulebook.rule] at h
  split at h
  · rcases bind_eq_error h with h | ⟨r, -, h⟩
    · exact Rule.ofTokens_ne_corrupt v ts h
    · rcases bind_eq_error h with h | ⟨edges, -, h⟩
      · exact r.edges_ne_corrupt _ _ _ h
      · cases h
  · cases h

theorem Rulebook.addStatement_ne_corrupt (v : Vocabulary) (b : Rulebook) (ts : List Token) :
    (b.addStatement v ts).2 ≠ some (.expression .corruptStack) := by
  intro h
  unfold Rulebook.addStatement at h
  split at h
  · cases h
  · split at h
    · cases h
    · rename_i e he
      obtain rfl := Option.some.inj h
      rw [Rulebook.defineGroup] at he
      split at he
      · rcases bind_eq_error he with he | ⟨ps, -, he⟩
        · exact groupPatterns_ne_corrupt _ _ he
        · cases he
      · cases he
  · rw [Rulebook.addRule] at h
    split at h
    · rename_i e he
      obtain rfl := Option.some.inj h
      exact b.rule_ne_corrupt v ts he
    · obtain ⟨overflow, -, ho⟩ := Option.map_eq_some_iff.1 h
      cases ho

/-- The positions at which a rule is cut lie within it, the colon behind the arrow. -/
theorem cuts_of_findIdx? {ts : List Token} {arrow colon : Nat}
    (ha : ts.findIdx? isArrow = some arrow) (hc : ts.findIdx? (· == .colon) = some colon)
    (hle : ¬colon < arrow) : arrow < colon ∧ colon < ts.length := by
  obtain ⟨halt, harrow, -⟩ := List.findIdx?_eq_some_iff_getElem.1 ha
  obtain ⟨hclt, hcolon, -⟩ := List.findIdx?_eq_some_iff_getElem.1 hc
  refine ⟨?_, hclt⟩
  have hne : arrow ≠ colon := by
    rintro rfl
    rw [eq_of_beq hcolon] at harrow
    cases harrow
  omega

namespace Topology

variable {t : Topology} {n : Nat} {scene : SceneId}

structure Stored (t : Topology) (n : Nat) : Prop where
  node : n < t.nodes.size
  list : n < t.outgoing.size
  edge : ∀ e ∈ t.out n, e < t.edges.size

theorem Loaded.size_outgoing (h : t.Loaded) : t.outgoing.size = t.nodes.size := by
  induction h with
  | finalize h =>
    obtain ⟨-, -, -, rfl⟩ := finalize_eq_ok h
    simp [Topology.linked, withAdjacency, ends]
  | exchange h x y ih =>
    obtain ⟨hr, -⟩ := (Rerouted.refl h.linked).exchange x y
    have hsize := congrArg (fun t => t.nodes.size) hr.blank
    simp only [blank, Array.size_map] at hsize
    rw [hr.outgoing, ih, hsize]

theorem Loaded.stored (h : t.Loaded) (hn : n < t.nodes.size) : t.Stored n where
  node := hn
  list := h.size_outgoing ▸ hn
  edge e he := by
    obtain ⟨edge, hedge, -⟩ := h.linked.sound.mem_out.1 he
    exact (Array.getElem?_eq_some_iff.1 hedge).1

structure IndexesInRange (t : Topology) : Prop where
  names {scene : SceneId} {name : String} {n : Nat} :
    t.nodeNamed? scene name = some n → n < t.nodes.size
  scenes {scene : SceneId} {n : Nat} : n ∈ t.sceneNodes scene → n < t.nodes.size

theorem Filed.indexesInRange (h : t.Filed) : t.IndexesInRange where
  names hn := by
    obtain ⟨node, hnode, -⟩ := h.nodeNamed?.1 hn
    exact (Array.getElem?_eq_some_iff.1 hnode).1
  scenes hn := by
    obtain ⟨node, hnode, -⟩ := h.mem_sceneNodes.1 hn
    exact (Array.getElem?_eq_some_iff.1 hnode).1

end Topology

/-- Whatever holds of the nodes that the indexes name holds of those that a pattern describes. -/
theorem Pattern.resolve_forall {t : Topology} {groups : Groups} {scene : SceneId} {P : Nat → Prop}
    (hnamed : ∀ name n, t.nodeNamed? scene name = some n → P n) (hscene : ∀ n ∈ t.sceneNodes scene, P n)
    {levels : Nat} {p : Pattern} {ns : List Nat} (h : p.resolve t groups scene levels = .ok ns) :
    ∀ n ∈ ns, P n := by
  induction levels generalizing p ns with
  | zero => cases h
  | succ levels ih =>
    intro n hn
    cases p with
    | exact name =>
      rw [Pattern.resolve] at h
      split at h
      · obtain rfl := Except.ok.inj h
        rw [List.mem_singleton.1 hn]
        exact hnamed name _ ‹_›
      · cases h
    | leading word =>
      obtain rfl := Except.ok.inj h
      exact hscene n (List.mem_of_mem_filter hn)
    | trailing word =>
      obtain rfl := Except.ok.inj h
      exact hscene n (List.mem_of_mem_filter hn)
    | any =>
      obtain rfl := Except.ok.inj h
      exact hscene n hn
    | group name =>
      rw [Pattern.resolve] at h
      split at h
      · cases h
      · obtain ⟨parts, hparts, h⟩ := bind_eq_ok h
        obtain rfl := Except.ok.inj h
        obtain ⟨part, hpart, hn⟩ := List.mem_flatten.1 (List.mem_eraseDups.1 hn)
        obtain ⟨q, -, hq⟩ := (mapM_eq_ok hparts).1 part hpart
        exact ih hq n hn
    | not q =>
      obtain ⟨excluded, -, h⟩ := bind_eq_ok h
      obtain rfl := Except.ok.inj h
      exact hscene n (List.mem_of_mem_filter hn)

theorem Pattern.resolve_exact {t : Topology} {groups : Groups} {scene : SceneId} {levels : Nat}
    {name : String} {ns : List Nat}
    (h : (Pattern.exact name).resolve t groups scene levels = .ok ns) : ns ≠ [] := by
  cases levels with
  | zero => cases h
  | succ levels =>
    rw [Pattern.resolve] at h
    split at h
    · obtain rfl := Except.ok.inj h
      exact List.cons_ne_nil _ _
    · cases h

/-- The parser accepts just what the grammar derives, with the postorder of its one tree. So no text
leaves a corrupt stack behind, whatever the macros put in, neither as an expression nor as a statement
after any others; the parts of a rule are cut out of it, and where the indexes of the world name its
nodes, as they do in a loaded one, each node that a pattern describes can be looked up, with the edges
out of it. -/
theorem parse_exact_compile_safe (v : Vocabulary) :
    (∀ ts, Phrase ts ↔ ∃ p, postorder ts = .ok p) ∧
    (∀ ts p, postorder ts = .ok p →
      ∃ e, Infix 1 ts e ∧ (∀ e', Infix 1 ts e' → e' = e) ∧ p = e.postorder) ∧
    (∀ ts, compileExpression v.macros v.skips ts ≠ .error .corruptStack) ∧
    (∀ (b : Rulebook) ts, (b.addStatement v ts).2 ≠ some (.expression .corruptStack)) ∧
    (∀ (ts : List Token) arrow colon, ts.findIdx? isArrow = some arrow →
      ts.findIdx? (· == .colon) = some colon → ¬colon < arrow →
      arrow < colon ∧ colon < ts.length) ∧
    (∀ (p : Pattern) groups scene levels ns,
      p.resolve v.topology groups scene levels = .ok ns →
      (v.topology.IndexesInRange → ∀ n ∈ ns, n < v.topology.nodes.size) ∧
      ((∃ name, p = .exact name) → ns ≠ [])) ∧
    (v.topology.Loaded → v.topology.IndexesInRange ∧
      ∀ n < v.topology.nodes.size, v.topology.Stored n) := by
  refine ⟨fun _ => phrase_iff, ?_, compileExpression_ne_corrupt v.macros v.skips,
    Rulebook.addStatement_ne_corrupt v, fun _ _ _ ha hc hle => cuts_of_findIdx? ha hc hle, ?_,
    fun hloaded => ⟨hloaded.filed.indexesInRange, fun _ hn => hloaded.stored hn⟩⟩
  · intro ts p hp
    obtain ⟨e, he, hpost⟩ := infix_of_postorder hp
    exact ⟨e, he, fun e' he' => he'.unique he, hpost⟩
  · intro p groups scene levels ns h
    refine ⟨fun hrange => Pattern.resolve_forall (fun _ _ => hrange.names)
      (fun _ => hrange.scenes) h, ?_⟩
    rintro ⟨name, rfl⟩
    exact Pattern.resolve_exact h

def knots : MacroTable :=
  ⟨⟨[("Loop", [.ident "Key", .plus, .ident "Loop"]), ("Cross", [.closeParen, .plus, .openParen])]⟩⟩

theorem parse_exact_compile_safe_knots :
    compileExpression knots noSkips [.ident "Loop"] = .error (.deepMacro "Loop") ∧
    compileExpression knots noSkips [.ident "Key", .plus, .ident "Cross"] =
      .error .unexpectedClose ∧
    (∀ ts, compileExpression knots noSkips ts ≠ .error .corruptStack) ∧
    ∀ n < twoRooms.nodes.size, twoRooms.Stored n := by
  obtain ⟨-, -, hexpr, -, -, -, hstored⟩ := parse_exact_compile_safe ⟨twoRooms, knots, noSkips⟩
  exact ⟨by cbv, by cbv, hexpr, (hstored loaded_twoRooms).2⟩

end WorldShuffle

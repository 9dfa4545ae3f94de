import Mathlib
import WorldShuffle.CommandLine.Run
import WorldShuffle.Proofs.Reloading
import WorldShuffle.Proofs.Skips
import WorldShuffle.Proofs.Upgrading

namespace WorldShuffle

namespace Settings

def verdicts (s : Settings) (name : String) : List Bool :=
  (s.skips.filter (·.name = name)).map SkipSetting.enabled

/-- An earlier setting of the name enables it, and the last one does not. -/
def Overruled (s : Settings) (name : String) : Prop :=
  true ∈ s.verdicts name ∧ (s.verdicts name).getLast? = some false

variable {s : Settings} {m : MacroTable} {name : String} {b : Bool} {body : List Token}

theorem mem_verdicts : b ∈ s.verdicts name ↔ ∃ k ∈ s.skips, k.name = name ∧ k.enabled = b := by
  simp [verdicts, and_assoc]

theorem verdicts_ne_nil : s.verdicts name ≠ [] ↔ name ∈ s.skips.map SkipSetting.name := by
  simp [verdicts]

theorem skipEnabled_iff : s.skipEnabled name = true ↔ true ∈ s.verdicts name := by
  simp [skipEnabled, mem_verdicts]

theorem skipPredicate_eq (s : Settings) (name : String) :
    s.skipPredicate name = (s.verdicts name).getLast? := by
  change s.skipTable.get? name = _
  rw [skipTable, verdicts]
  induction s.skips using List.reverseRecOn with
  | nil => rfl
  | append_singleton ks k ih =>
    rw [List.foldl_concat, Table.get?_set, List.filter_append, List.map_append]
    by_cases hk : k.name = name
    · simp [hk]
    · simp [hk, Ne.symm hk, ih]

/-- The last setting of a name decides what a macro of that name stands for, and a macro
keeps its body if no setting has its name. -/
theorem bindMacros_get? (s : Settings) (m : MacroTable) (name : String) :
    (s.bindMacros m).get? name = (m.get? name).map fun body =>
      ((s.verdicts name).getLast?.map fun b => [literalToken b]).getD body := by
  rw [bindMacros, verdicts]
  induction s.skips using List.reverseRecOn with
  | nil => simp
  | append_singleton ks k ih =>
    rw [List.foldl_concat, List.filter_append, List.map_append]
    by_cases hk : k.name = name
    · subst hk
      rw [ih, Option.isSome_map]
      cases hm : m.get? k.name with
      | none => simpa [hm] using ih
      | some body => simp [MacroTable.get?, MacroTable.bind]
    · rw [List.filter_cons_of_neg (by simpa using hk), List.filter_nil, List.map_nil, List.append_nil,
        ← ih]
      split
      · rw [MacroTable.get?, MacroTable.bind, Table.get?_set, if_neg (Ne.symm hk)]
        rfl
      · rfl

theorem eq_of_verdicts (hb : (s.verdicts name).getLast? = some b) :
    b = s.skipEnabled name ↔ ¬s.Overruled name := by
  have hmem : b ∈ s.verdicts name := List.mem_of_getLast? hb
  cases b with
  | true => simp [skipEnabled_iff.2 hmem, Overruled, hb]
  | false => simp [Overruled, hb, ← skipEnabled_iff]

theorem overruled_iff :
    s.Overruled name ↔ ¬(s.skipEnabled name = true ↔ s.skipPredicate name = some true) := by
  rw [skipPredicate_eq]
  cases hb : (s.verdicts name).getLast? with
  | none => simp [Overruled, skipEnabled_iff, List.getLast?_eq_none_iff.1 hb]
  | some b =>
    rw [← not_iff_not, ← eq_of_verdicts hb, not_not, Option.some_inj, Bool.eq_iff_iff]
    exact iff_comm

theorem not_overruled_of_nodup (h : (s.skips.map SkipSetting.name).Nodup) : ¬s.Overruled name := by
  rintro ⟨henabled, hlast⟩
  obtain ⟨k, hk, rfl, hon⟩ := mem_verdicts.1 henabled
  obtain ⟨k', hk', hname, hoff⟩ := mem_verdicts.1 (List.mem_of_getLast? hlast)
  rw [List.inj_on_of_nodup_map h hk' hk hname, hon] at hoff
  cases hoff

theorem keepsLiterals_bindMacros (h : KeepsLiterals m s.skipPredicate) :
    KeepsLiterals (s.bindMacros m) s.skipPredicate :=
  fun value => ⟨bindMacros_get?_none s (h value).1, (h value).2⟩

end Settings

variable {m : MacroTable} {skips : Skips} {name : String} {b : Bool}

/-- A name that stands for a literal, as a skip or as a macro, has the meaning of the literal. -/
theorem compileExpression_literal (hlit : KeepsLiterals m skips)
    (h : m.get? name = some [literalToken b] ∨ m.get? name = none ∧ skips name = some b) :
    compileExpression m skips [.ident name] = .ok [if b then .always else .never] := by
  have hexpand : expandToken m skips maxNesting (.ident name) =
      .ok (if (m.get? name).isSome then [.openParen, literalToken b, .closeParen]
        else [literalToken b]) := by
    rcases h with hbody | ⟨hdefined, hskip⟩
    · rw [maxNesting, expandToken_body hbody, hbody, List.mapM_cons, expandToken_settled (hlit b)]
      rfl
    · rw [expandToken_skip hdefined hskip, hdefined]
      rfl
  rw [compileExpression, expand, List.mapM_cons, hexpand]
  cases m.get? name <;> cases b <;> rfl

section session

variable {read : Reader} {v : Vocabulary} {s : Settings} {args : List String} {layers : List Layer}

/-- The layers that are read are those of the enabled skips, in the order of the arguments. -/
theorem loadSkipLayers_eq_ok (h : loadSkipLayers read v s args = .ok layers) :
    ∃ pairs, args.mapM splitSkipLayer = .ok pairs ∧
      (pairs.filter fun p => s.skipEnabled p.1).mapM (fun p => loadLayer read v p.1 p.2) =
        .ok layers := by
  induction args generalizing layers with
  | nil => exact ⟨[], rfl, h⟩
  | cons arg args ih =>
    obtain ⟨p, hp, h⟩ := bind_eq_ok h
    have hcons (pairs : List (String × String)) (hpairs : args.mapM splitSkipLayer = .ok pairs) :
        (arg :: args).mapM splitSkipLayer = .ok (p :: pairs) := by
      rw [List.mapM_cons, hp, hpairs]
      rfl
    dsimp only at h
    split at h
    · obtain ⟨layer, hlayer, h⟩ := bind_eq_ok h
      obtain ⟨rest, hrest, h⟩ := bind_eq_ok h
      obtain rfl := Except.ok.inj h
      obtain ⟨pairs, hpairs, hlayers⟩ := ih hrest
      refine ⟨p :: pairs, hcons pairs hpairs, ?_⟩
      rw [List.filter_cons_of_pos ‹_›, List.mapM_cons, hlayer, hlayers]
      rfl
    · obtain ⟨pairs, hpairs, hlayers⟩ := ih h
      refine ⟨p :: pairs, hcons pairs hpairs, ?_⟩
      rwa [List.filter_cons_of_neg ‹_›]

/-- A session gates its layers and compiles its logic under the same settings. -/
theorem loadSession_eq_ok {o : Options} {session : Session} (h : loadSession read o = .ok session) :
    ∃ m base pairs layers, loadMacros read o.macros = .ok m ∧
      o.skipLayers.mapM splitSkipLayer = .ok pairs ∧ session.gates = ⟨base :: layers⟩ ∧
      let v := session.settings.vocabulary session.topology m
      loadLayer read v "base" o.logic = .ok base ∧
      (pairs.filter fun p => session.settings.skipEnabled p.1).mapM
        (fun p => loadLayer read v p.1 p.2) = .ok layers := by
  obtain ⟨t, -, h⟩ := bind_eq_ok h
  obtain ⟨s, -, h⟩ := bind_eq_ok h
  obtain ⟨m, hm, h⟩ := bind_eq_ok h
  obtain ⟨base, hbase, h⟩ := bind_eq_ok h
  obtain ⟨layers, hlayers, h⟩ := bind_eq_ok h
  obtain rfl := Except.ok.inj h
  obtain ⟨pairs, hpairs, hlayers⟩ := loadSkipLayers_eq_ok hlayers
  exact ⟨m, base, pairs, layers, hm, hpairs, rfl, hbase, hlayers⟩

end session

/-- The parts agree on the skips that are enabled, unless settings of one name are at odds. The skip
predicate and the binding of macros go by the last setting of a name, the gate of the layers by any;
these differ just where the last setting overrules an earlier one. Elsewhere the layer of a skip is
read just if its name means what always holds in the logic text that is compiled with it. -/
theorem skips_agree (s : Settings) (name : String) :
    (s.Overruled name ↔ ¬(s.skipEnabled name = true ↔ s.skipPredicate name = some true)) ∧
    (s.skipPredicate name = some true → s.skipEnabled name = true) ∧
    ((s.skips.map SkipSetting.name).Nodup → ¬s.Overruled name) ∧
    (name ∈ s.skips.map SkipSetting.name → ∃ b, s.skipPredicate name = some b ∧
      (b = s.skipEnabled name ↔ ¬s.Overruled name) ∧
      ∀ m : MacroTable,
        (m.get? name ≠ none → (s.bindMacros m).get? name = some [literalToken b]) ∧
        (KeepsLiterals m s.skipPredicate →
          compileExpression (s.bindMacros m) s.skipPredicate [.ident name] =
            .ok [if b then .always else .never])) ∧
    ∀ (read : Reader) (o : Options) (session : Session), loadSession read o = .ok session →
      session.settings = s → ∃ m base pairs layers, loadMacros read o.macros = .ok m ∧
        o.skipLayers.mapM splitSkipLayer = .ok pairs ∧ session.gates = ⟨base :: layers⟩ ∧
        let v := s.vocabulary session.topology m
        loadLayer read v "base" o.logic = .ok base ∧
        (pairs.filter fun p => s.skipEnabled p.1).mapM (fun p => loadLayer read v p.1 p.2) =
          .ok layers := by
  refine ⟨Settings.overruled_iff, fun h => ?_, Settings.not_overruled_of_nodup, fun h => ?_,
    fun read o session h hs => hs ▸ loadSession_eq_ok h⟩
  · rw [Settings.skipPredicate_eq] at h
    exact Settings.skipEnabled_iff.2 (List.mem_of_getLast? h)
  obtain ⟨b, hb⟩ : ∃ b, (s.verdicts name).getLast? = some b :=
    Option.ne_none_iff_exists'.1 (mt List.getLast?_eq_none_iff.1 (Settings.verdicts_ne_nil.2 h))
  refine ⟨b, (s.skipPredicate_eq name).trans hb, Settings.eq_of_verdicts hb, fun m => ?_⟩
  have hbind (hm : m.get? name ≠ none) : (s.bindMacros m).get? name = some [literalToken b] := by
    obtain ⟨body, hbody⟩ := Option.ne_none_iff_exists'.1 hm
    rw [Settings.bindMacros_get?, hbody, hb]
    rfl
  refine ⟨hbind, fun hlit => compileExpression_literal (Settings.keepsLiterals_bindMacros hlit) ?_⟩
  by_cases hm : m.get? name = none
  · exact Or.inr ⟨bindMacros_get?_none s hm, (s.skipPredicate_eq name).trans hb⟩
  · exact Or.inl (hbind hm)

def oneClimb : Settings := { skips := [⟨"Climb", true⟩, ⟨"fly", false⟩] }

def climbMacros : MacroTable := ⟨⟨[("Climb", [.ident "Rope", .plus, .ident "Hook"])]⟩⟩

def climbFiles (world settings : String) : Reader
  | "world" => some world
  | "settings" => some settings
  | "base" => some climbRules
  | "climb" => some "Scene 0"
  | _ => none

def climbOptions : Options :=
  { topology := "world", logic := "base", skipLayers := ["Climb=climb", "fly=flight"]
    settings := some "settings" }

theorem load_climb {world settings : String} {t : Topology} (hworld : Topology.load world = .ok t)
    (hsettings : Settings.upgrade settings = .ok oneClimb) :
    ∃ layers, loadSession (climbFiles world settings) climbOptions =
      .ok { settings := oneClimb, topology := t, gates := ⟨layers⟩ } := by
  let v := oneClimb.vocabulary t {}
  have hclimb : splitSkipLayer "Climb=climb" = .ok ("Climb", "climb") := by cbv
  have hfly : splitSkipLayer "fly=flight" = .ok ("fly", "flight") := by cbv
  have hlayers : loadSkipLayers (climbFiles world settings) v oneClimb climbOptions.skipLayers =
      .ok [(compileLayer v "Climb" "Scene 0").layer] := by
    rw [climbOptions, loadSkipLayers, hclimb, loadSkipLayers, hfly]
    rfl
  have hread : loadTopology (climbFiles world settings) climbOptions.topology = .ok t := by
    change (Topology.load world).mapError _ = _
    rw [hworld]
    rfl
  have hgiven : loadSettings (climbFiles world settings) climbOptions.settings = .ok oneClimb := by
    change (Settings.upgrade settings).mapError _ = _
    rw [hsettings]
    rfl
  refine ⟨[(compileLayer v "base" climbRules).layer, (compileLayer v "Climb" "Scene 0").layer], ?_⟩
  rw [loadSession, hread, hgiven]
  change (loadSkipLayers (climbFiles world settings) v oneClimb climbOptions.skipLayers >>=
    fun layers => .ok (Session.mk oneClimb t
      ⟨(compileLayer v "base" climbRules).layer :: layers⟩ none)) = Except.ok _
  rw [hlayers]
  rfl

theorem skips_agree_climb :
    let meaning (name : String) : Except ExpressionError (List Clause) :=
      compileExpression (oneClimb.bindMacros climbMacros) oneClimb.skipPredicate [.ident name]
    (oneClimb.skips.map SkipSetting.name).Nodup ∧ KeepsLiterals climbMacros oneClimb.skipPredicate ∧
    (oneClimb.skipEnabled "Climb" = true ∧ meaning "Climb" = .ok [.always] ∧
      (oneClimb.bindMacros climbMacros).get? "Climb" = some [.ident "true"]) ∧
    (oneClimb.skipEnabled "fly" = false ∧ meaning "fly" = .ok [.never]) ∧
    ∃ session, loadSession (climbFiles twoRooms.json.text oneClimb.json.text) climbOptions =
      .ok session ∧ session.settings = oneClimb ∧ session.gates.layers.length = 2 := by
  intro meaning
  have hnodup : (oneClimb.skips.map SkipSetting.name).Nodup := by decide
  have hlit : KeepsLiterals climbMacros oneClimb.skipPredicate := by
    intro value
    cases value <;> exact ⟨by cbv, by cbv⟩
  have hon : oneClimb.skipEnabled "Climb" = true := by decide
  have hoff : oneClimb.skipEnabled "fly" = false := by decide
  refine ⟨hnodup, hlit, ⟨hon, ?_⟩, ⟨hoff, ?_⟩, ?_⟩
  · obtain ⟨-, -, hnever, hnamed, -⟩ := skips_agree oneClimb "Climb"
    obtain ⟨b, -, hb, hmeaning⟩ := hnamed (by decide)
    obtain ⟨hbound, hcompiled⟩ := hmeaning climbMacros
    obtain rfl : b = true := (hb.2 (hnever hnodup)).trans hon
    exact ⟨hcompiled hlit, hbound (by cbv; simp)⟩
  · obtain ⟨-, -, hnever, hnamed, -⟩ := skips_agree oneClimb "fly"
    obtain ⟨b, -, hb, hmeaning⟩ := hnamed (by decide)
    obtain rfl : b = false := (hb.2 (hnever hnodup)).trans hoff
    exact (hmeaning climbMacros).2 hlit
  · have horigin : ∀ n ∈ twoRooms.nodes, n.position = (0, 0) := by simp [twoRooms]
    have hlegible : ∀ n ∈ twoRooms.nodes, n.Legible := fun n hn => by
      rw [Node.Legible, horigin n hn]
      exact ⟨legible_zero, legible_zero⟩
    obtain ⟨t, ht, -⟩ := loaded_twoRooms.finalize_stored
    have hworld := Topology.load_of (loaded_twoRooms.decodeText (by decide) hlegible) ht
    have hfits : oneClimb.Fits := ⟨by decide, by decide, by decide⟩
    have hsettings : Settings.upgrade oneClimb.json.text = .ok oneClimb := by
      rw [Settings.upgrade, upgradeText_spelled rfl hfits (Settings.stores hfits).written]
      rfl
    obtain ⟨layers, hok⟩ := load_climb hworld hsettings
    refine ⟨_, hok, rfl, ?_⟩
    obtain ⟨-, -, -, -, hsession⟩ := skips_agree oneClimb "Climb"
    obtain ⟨m, base, pairs, read, -, hpairs, hgates, -, hread⟩ := hsession _ _ _ hok rfl
    have hsplit : climbOptions.skipLayers.mapM splitSkipLayer =
        .ok [("Climb", "climb"), ("fly", "flight")] := by cbv
    obtain rfl := Except.ok.inj (hsplit.symm.trans hpairs)
    have henabled : [("Climb", "climb"), ("fly", "flight")].filter
        (fun p => oneClimb.skipEnabled p.1) = [("Climb", "climb")] := by decide
    rw [henabled, List.mapM_cons] at hread
    obtain ⟨layer, -, hread⟩ := bind_eq_ok hread
    obtain ⟨rest, hrest, hread⟩ := bind_eq_ok hread
    obtain rfl := Except.ok.inj hrest
    obtain rfl := Except.ok.inj hread
    rw [hgates]
    rfl

/-- A skip that is set to on and to off again is half enabled: its layer is read, and wherever its name
stands it means what never holds. -/
theorem skip_half_enabled :
    let s : Settings := { skips := [⟨"Climb", true⟩, ⟨"Climb", false⟩] }
    s.skipEnabled "Climb" = true ∧ s.skipPredicate "Climb" = some false ∧
      (s.bindMacros climbMacros).get? "Climb" = some [.ident "false"] ∧
      ¬∀ (s : Settings) (name : String),
        s.skipEnabled name = true ↔ s.skipPredicate name = some true := by
  intro s
  have hon : s.skipEnabled "Climb" = true := by decide
  have hoff : s.skipPredicate "Climb" = some false := by decide
  refine ⟨hon, hoff, by cbv, fun h => ?_⟩
  have htrue := (h s "Climb").1 hon
  rw [hoff] at htrue
  cases htrue

end WorldShuffle

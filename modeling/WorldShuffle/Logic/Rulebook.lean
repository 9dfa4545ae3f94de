import WorldShuffle.Logic.Layer
import WorldShuffle.Logic.Pattern
import WorldShuffle.Logic.Statement
import WorldShuffle.Message

namespace WorldShuffle

structure Vocabulary where
  topology : Topology
  macros : MacroTable
  skips : Skips

structure Rulebook where
  scene : Option SceneId := none
  groups : Groups := {}
  layer : Layer
  log : List Message := []

inductive StatementError
  | groupOutsideScene
  | groupNotClosed (name : String)
  | ruleOutsideScene
  | noArrow
  | noColon
  | colonBeforeTarget
  | noExpression
  | pattern (e : PatternError)
  | expression (e : ExpressionError)
  | noEdge (source target : String) (scene : SceneId)
  | overflow (e : CountOverflow)

def StatementError.message : StatementError → String
  | .groupOutsideScene => "group defined before any Scene"
  | .groupNotClosed name => s!"group ${name} is not closed"
  | .ruleOutsideScene => "logic rule before any Scene"
  | .noArrow => "expected '->' or '<->'"
  | .noColon => "expected ':'"
  | .colonBeforeTarget => "expected ':' after the destination"
  | .noExpression => "missing logic expression"
  | .pattern e => e.message
  | .expression e => e.message
  | .noEdge source target scene => s!"no edge {source} -> {target} in scene {scene.toInt}"
  | .overflow e => e.message

structure Rule where
  source : Pattern
  target : Pattern
  twoWay : Bool
  alternatives : List Clause

def splitAtCommas : List Token → List (List Token)
  | [] => [[]]
  | t :: ts =>
    match splitAtCommas ts with
    | [] => [[t]]
    | item :: items => if t = .comma then [] :: item :: items else (t :: item) :: items

def groupPatterns (name : String) (ts : List Token) : Except StatementError (List Pattern) :=
  if ts.getLast? = some .closeBrace then
    (((splitAtCommas ts.dropLast).filter (!·.isEmpty)).mapM Pattern.ofTokens).mapError .pattern
  else .error (.groupNotClosed name)

def Rule.ofTokens (v : Vocabulary) (ts : List Token) : Except StatementError Rule := do
  let some arrow := ts.findIdx? isArrow | throw .noArrow
  let some colon := ts.findIdx? (· == .colon) | throw .noColon
  if colon < arrow then throw .colonBeforeTarget
  let source ← (Pattern.ofTokens (ts.take arrow)).mapError .pattern
  let target ← (Pattern.ofTokens ((ts.take colon).drop (arrow + 1))).mapError .pattern
  let body := ts.drop (colon + 1)
  if body.isEmpty then throw .noExpression
  let alternatives ← (compileExpression v.macros v.skips body).mapError .expression
  return { source, target, twoWay := ts[arrow]? == some .twoWay, alternatives }

/-- The inner edges from a node of the first pattern to a different one of the second. Two plain
names have to be joined by an edge. -/
def resolveEdges (t : Topology) (groups : Groups) (scene : SceneId) (source target : Pattern) :
    Except StatementError (List Nat) := do
  let sources ← (source.resolve t groups scene (maxNesting + 1)).mapError .pattern
  let targets ← (target.resolve t groups scene (maxNesting + 1)).mapError .pattern
  let edges := sources.flatMap fun a => targets.flatMap fun b =>
    if a = b then [] else t.edgesBetween a b
  match source, target with
  | .exact a, .exact b => if edges.isEmpty then throw (.noEdge a b scene) else return edges
  | _, _ => return edges

def Rule.edges (r : Rule) (t : Topology) (groups : Groups) (scene : SceneId) :
    Except StatementError (List Nat) := do
  let there ← resolveEdges t groups scene r.source r.target
  if r.twoWay then return there ++ (← resolveEdges t groups scene r.target r.source)
  return there

namespace Rulebook

def enter (t : Topology) (b : Rulebook) (scene : SceneId) : Rulebook :=
  let warnings : List Message :=
    if (t.sceneNodes scene).isEmpty then
      [⟨.warn, s!"Scene {scene.toInt} has no nodes in the topology"⟩]
    else []
  { b with scene := some scene, log := b.log ++ warnings }

def defineGroup (b : Rulebook) (name : String) (ts : List Token) :
    Except StatementError Rulebook := do
  let some scene := b.scene | throw .groupOutsideScene
  return { b with groups := b.groups.set (scene, name) (← groupPatterns name ts) }

def rule (v : Vocabulary) (b : Rulebook) (ts : List Token) :
    Except StatementError (SceneId × List Nat × List Clause) := do
  let some scene := b.scene | throw .ruleOutsideScene
  let r ← Rule.ofTokens v ts
  return (scene, ← r.edges v.topology b.groups scene, r.alternatives)

def addRule (v : Vocabulary) (b : Rulebook) (ts : List Token) : Rulebook × Option StatementError :=
  match b.rule v ts with
  | .error e => (b, some e)
  | .ok (scene, edges, alternatives) =>
    let (layer, overflow) := Layer.insertAll scene alternatives edges b.layer
    ({ b with layer }, overflow.map .overflow)

def addStatement (v : Vocabulary) (b : Rulebook) (ts : List Token) :
    Rulebook × Option StatementError :=
  match ts with
  | [.ident "Scene", .int id] => (b.enter v.topology (Int32.ofInt id.toNat), none)
  | .group name :: .openBrace :: rest =>
    match b.defineGroup name rest with
    | .ok b => (b, none)
    | .error e => (b, some e)
  | ts => b.addRule v ts

end Rulebook

structure CompileReport where
  statements : Nat := 0
  compiled : Nat := 0
  skipped : Nat := 0
  edges : Nat := 0
  deriving DecidableEq

def compileStatement (v : Vocabulary) (name : String) (s : Rulebook × CompileReport)
    (statement : List Lexeme) : Rulebook × CompileReport :=
  let (b, report) := s
  let report := { report with statements := report.statements + 1 }
  match b.addStatement v (statement.map Lexeme.token) with
  | (b, none) => (b, { report with compiled := report.compiled + 1 })
  | (b, some e) =>
    let line := (statement.head?.map Lexeme.line).getD 0
    let warning : Message := ⟨.warn, s!"{name}:{line}: skipping statement: {e.message}"⟩
    ({ b with log := b.log ++ [warning] }, { report with skipped := report.skipped + 1 })

structure Compilation where
  layer : Layer
  report : CompileReport
  log : List Message

def compileLayer (v : Vocabulary) (name text : String) : Compilation :=
  let (b, report) := (splitStatements (tokenize text)).foldl (compileStatement v name)
    ({ layer := { name } }, {})
  let report := { report with edges := b.layer.size }
  let done := s!"Compiled logic layer {name}: {report.statements} statements, {report.skipped} skipped, {report.edges} edges"
  { layer := b.layer, report, log := b.log ++ [⟨.info, done⟩] }

end WorldShuffle

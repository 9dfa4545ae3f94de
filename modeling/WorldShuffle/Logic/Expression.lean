import WorldShuffle.Logic.Clause
import WorldShuffle.Logic.MacroTable

namespace WorldShuffle

inductive Operator
  | times
  | both
  | either
  deriving DecidableEq

inductive Instr
  | term (name : String)
  | int (n : UInt32)
  | op (o : Operator)
  deriving DecidableEq

inductive ExpressionError
  | deepMacro (name : String)
  | unexpectedTerm (name : String)
  | unexpectedInt (n : UInt32)
  | unexpectedOperator (o : Operator)
  | unexpectedOpen
  | unexpectedClose
  | unbalancedClose
  | unbalancedOpen
  | unexpectedToken (t : Token)
  | openEnd
  | countOverflow (e : CountOverflow)
  | scaleOverflow (n : UInt32) (state : String)
  | misplacedTimes
  | bareIntOperand
  | bareInt (n : UInt32)
  | corruptStack

def Operator.sign : Operator → String
  | .times => "#"
  | .both => "+"
  | .either => "|"

def ExpressionError.message : ExpressionError → String
  | .deepMacro name => s!"macro {name} expands too deeply"
  | .unexpectedTerm name => s!"unexpected term '{name}'"
  | .unexpectedInt n => s!"unexpected integer {n.toNat}"
  | .unexpectedOperator o => s!"unexpected operator '{o.sign}'"
  | .unexpectedOpen => "unexpected '('"
  | .unexpectedClose => "unexpected ')'"
  | .unbalancedClose => "unbalanced ')'"
  | .unbalancedOpen => "unbalanced '('"
  | .unexpectedToken t => s!"unexpected token '{t.text}' in expression"
  | .openEnd => "expression ends with an operator"
  | .countOverflow e => e.message
  | .scaleOverflow n state => s!"{n.toNat}#{state} overflows"
  | .misplacedTimes => "'#' expects an integer and a term"
  | .bareIntOperand => "bare integer used as a condition"
  | .bareInt n => s!"bare integer {n.toNat} used as a condition"
  | .corruptStack => "corrupt logic value stack"

def maxNesting : Nat := 16

def expandToken (macros : MacroTable) (skips : Skips) :
    Nat → Token → Except ExpressionError (List Token)
  | levels, .ident name =>
    match macros.get? name with
    | some body =>
      match levels with
      | 0 => .error (.deepMacro name)
      | levels + 1 => do
        let parts ← body.mapM (expandToken macros skips levels)
        return .openParen :: parts.flatten ++ [.closeParen]
    | none =>
      match skips name with
      | some enabled => .ok [literalToken enabled]
      | none => .ok [.ident name]
  | _, t => .ok [t]

def expand (macros : MacroTable) (skips : Skips) (ts : List Token) :
    Except ExpressionError (List Token) :=
  (ts.mapM (expandToken macros skips maxNesting)).map List.flatten

def Operator.strength : Operator → Nat
  | .times => 3
  | .both => 2
  | .either => 1

inductive Waiting
  | paren
  | op (o : Operator)
  deriving DecidableEq

def releaseStronger (o : Operator) : List Waiting → List Instr → List Waiting × List Instr
  | .op p :: waiting, out =>
    if o.strength ≤ p.strength then releaseStronger o waiting (.op p :: out)
    else (.op p :: waiting, out)
  | waiting, out => (waiting, out)

def releaseParen : List Waiting → List Instr → Except ExpressionError (List Waiting × List Instr)
  | [], _ => .error .unbalancedClose
  | .paren :: waiting, out => .ok (waiting, out)
  | .op p :: waiting, out => releaseParen waiting (.op p :: out)

def releaseAll : List Waiting → List Instr → Except ExpressionError (List Instr)
  | [], out => .ok out.reverse
  | .paren :: _, _ => .error .unbalancedOpen
  | .op p :: waiting, out => releaseAll waiting (.op p :: out)

def operator? : Token → Option Operator
  | .hash => some .times
  | .plus => some .both
  | .pipe => some .either
  | _ => none

/-- An infix expression that has been read in part, its postorder so far being in reverse. The flag
says whether an operand has to come next. -/
structure Reading where
  operand : Bool := true
  waiting : List Waiting := []
  out : List Instr := []

def Reading.step (r : Reading) : Token → Except ExpressionError Reading
  | .ident name =>
    if r.operand then .ok { r with operand := false, out := .term name :: r.out }
    else .error (.unexpectedTerm name)
  | .openParen =>
    if r.operand then .ok { r with waiting := .paren :: r.waiting } else .error .unexpectedOpen
  | .closeParen =>
    if r.operand then .error .unexpectedClose
    else do
      let (waiting, out) ← releaseParen r.waiting r.out
      return { r with waiting, out }
  | .int n =>
    if r.operand then .ok { r with operand := false, out := .int n :: r.out }
    else .error (.unexpectedInt n)
  | t =>
    match operator? t with
    | none => .error (.unexpectedToken t)
    | some o =>
      if r.operand then .error (.unexpectedOperator o)
      else
        let (waiting, out) := releaseStronger o r.waiting r.out
        .ok { operand := true, waiting := .op o :: waiting, out }

def Reading.finish (r : Reading) : Except ExpressionError (List Instr) :=
  if r.operand then .error .openEnd else releaseAll r.waiting r.out

def postorder (ts : List Token) : Except ExpressionError (List Instr) := do
  let r ← ts.foldlM Reading.step {}
  r.finish

inductive Value
  | int (n : UInt32)
  | alternatives (cs : List Clause)

def normalized (cs : List Clause) : Except ExpressionError (List Clause) :=
  (normalizeAlternatives cs).mapError .countOverflow

def bothOf (left right : List Clause) : Except ExpressionError (List Clause) := do
  let pairs := left.flatMap fun a => right.map fun b => Clause.mk (a.conditions ++ b.conditions)
  let merged ← (pairs.mapM Clause.normalize).mapError .countOverflow
  normalized merged

def mulCount? (a b : UInt32) : Option UInt32 :=
  if a.toNat * b.toNat < UInt32.size then some (a * b) else none

def Clause.scale (n : UInt32) (c : Clause) : Except ExpressionError Clause :=
  if c.isNever then .ok c
  else c.conditions.foldlM (fun out d =>
    match mulCount? d.count n with
    | none => .error (.scaleOverflow n d.state)
    | some count => (out.add d.state count).mapError .countOverflow) .always

def scaleAll (n : UInt32) (cs : List Clause) : Except ExpressionError (List Clause) := do
  normalized (← cs.mapM (Clause.scale n))

def termAlternatives (name : String) : List Clause :=
  if name = trueState then [.always] else if name = falseState then [.never] else [.single name 1]

def Operator.apply : Operator → Value → Value → Except ExpressionError Value
  | .times, .int n, .alternatives cs => .alternatives <$> scaleAll n cs
  | .times, _, _ => .error .misplacedTimes
  | .both, .alternatives l, .alternatives r => .alternatives <$> bothOf l r
  | .either, .alternatives l, .alternatives r => .alternatives <$> normalized (l ++ r)
  | _, _, _ => .error .bareIntOperand

def Instr.run (stack : List Value) : Instr → Except ExpressionError (List Value)
  | .term name => .ok (.alternatives (termAlternatives name) :: stack)
  | .int n => .ok (.int n :: stack)
  | .op o =>
    match stack with
    | r :: l :: rest => (· :: rest) <$> o.apply l r
    | _ => .error .corruptStack

def evaluate (is : List Instr) : Except ExpressionError (List Clause) := do
  match ← is.foldlM Instr.run [] with
  | [.alternatives cs] => return cs
  | [.int n] => throw (.bareInt n)
  | _ => throw .corruptStack

def compileExpression (macros : MacroTable) (skips : Skips) (ts : List Token) :
    Except ExpressionError (List Clause) := do
  evaluate (← postorder (← expand macros skips ts))

end WorldShuffle

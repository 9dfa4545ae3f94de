import WorldShuffle.Logic.States
import WorldShuffle.Logic.Token
import WorldShuffle.Text.Lines

namespace WorldShuffle

structure MacroTable where
  bodies : Table String (List Token) := {}

inductive MacroError
  | emptyBody (name : String)
  | unexpectedToken (t : Token) (name : String)
  | noDefinition (line : Nat)
  | invalidName (line : Nat) (name : String)
  | onLine (line : Nat) (e : MacroError)

def MacroError.message : MacroError → String
  | .emptyBody name => s!"macro {name} has an empty expansion"
  | .unexpectedToken t name => s!"unexpected token '{t.text}' in macro {name}"
  | .noDefinition line => s!"line {line}: expected 'Name = expression'"
  | .invalidName line name => s!"line {line}: invalid macro name '{name}'"
  | .onLine line e => s!"line {line}: {e.message}"

def isMacroToken : Token → Bool
  | .ident _ | .int _ | .hash | .plus | .pipe | .openParen | .closeParen => true
  | _ => false

def tokensOf (text : List Char) : List Token :=
  ((tokenizeFrom 1 text).map Lexeme.token).filter (· ≠ .newline)

def MacroTable.get? (m : MacroTable) (name : String) : Option (List Token) := m.bodies.get? name

def MacroTable.size (m : MacroTable) : Nat := m.bodies.size

def MacroTable.define (m : MacroTable) (name : String) (body : List Char) :
    Except MacroError MacroTable :=
  let ts := tokensOf body
  if ts.isEmpty then .error (.emptyBody name)
  else match ts.find? (!isMacroToken ·) with
    | some t => .error (.unexpectedToken t name)
    | none => .ok ⟨m.bodies.set name ts⟩

def literalToken (value : Bool) : Token := .ident (if value then trueState else falseState)

def MacroTable.bind (m : MacroTable) (name : String) (value : Bool) : MacroTable :=
  ⟨m.bodies.set name [literalToken value]⟩

def isMacroNameChar (c : Char) : Bool :=
  isDigit c || ('a' ≤ c && c ≤ 'z') || ('A' ≤ c && c ≤ 'Z') || c == '_'

def MacroTable.readLine (m : MacroTable) (number : Nat) (line : List Char) :
    Except MacroError (Option MacroTable) :=
  let line := trimBlank (cutAt ['/', '/'] line).1
  if line.isEmpty then .ok none
  else match cutAt ['='] line with
    | (_, none) => .error (.noDefinition number)
    | (left, some right) =>
      let name := trimBlank left
      if name.isEmpty || !name.all isMacroNameChar then
        .error (.invalidName number (String.ofList name))
      else match m.define (String.ofList name) (trimBlank right) with
        | .ok m => .ok (some m)
        | .error e => .error (.onLine number e)

/-- The table with the definitions read, their number, and what stopped the reading if not the end
of the text; the definitions before a faulty line stay. -/
def MacroTable.readLines (m : MacroTable) (number count : Nat) :
    List (List Char) → MacroTable × Except MacroError Nat
  | [] => (m, .ok count)
  | line :: lines =>
    match m.readLine number line with
    | .ok none => m.readLines (number + 1) count lines
    | .ok (some m) => m.readLines (number + 1) (count + 1) lines
    | .error e => (m, .error e)

def MacroTable.parse (m : MacroTable) (text : String) : MacroTable × Except MacroError Nat :=
  m.readLines 1 0 (splitLines text.toList)

abbrev Skips := String → Option Bool

def noSkips : Skips := fun _ => none

end WorldShuffle

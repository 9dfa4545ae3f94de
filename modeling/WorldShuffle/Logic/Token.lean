import WorldShuffle.Text.Alphanumeric
import WorldShuffle.Text.Blank

namespace WorldShuffle

inductive Token
  | ident (name : String)
  | int (n : UInt32)
  | group (name : String)
  | hash
  | plus
  | pipe
  | openParen
  | closeParen
  | openBrace
  | closeBrace
  | comma
  | colon
  | bang
  | arrow
  | twoWay
  | newline
  | unknown (c : Char)
  deriving DecidableEq

structure Lexeme where
  token : Token
  line : Nat
  deriving DecidableEq

def Token.text : Token → String
  | .ident name => name
  | .int n => toString n.toNat
  | .group name => "$" ++ name
  | .hash => "#"
  | .plus => "+"
  | .pipe => "|"
  | .openParen => "("
  | .closeParen => ")"
  | .openBrace => "\x7b"
  | .closeBrace => "\x7d"
  | .comma => ","
  | .colon => ":"
  | .bang => "!"
  | .arrow => "->"
  | .twoWay => "<->"
  | .newline => "\\n"
  | .unknown c => c.toString

def showTokens (ts : List Token) : String := " ".intercalate (ts.map Token.text)

def isWordChar (c : Char) : Bool :=
  isAlphanumeric c || c == '_' || c == '.' || c == '\'' || c == '*'

def isDigit (c : Char) : Bool := '0' ≤ c && c ≤ '9'

def digitsValue (ds : List Char) : Nat := ds.foldl (fun n c => 10 * n + (c.toNat - '0'.toNat)) 0

def wordToken (first : Char) (word : List Char) : Token :=
  if word.all isDigit then
    if digitsValue word < UInt32.size then .int (UInt32.ofNat (digitsValue word)) else .unknown first
  else .ident (String.ofList word)

def signToken : Char → Token
  | '#' => .hash
  | '+' => .plus
  | '|' => .pipe
  | '(' => .openParen
  | ')' => .closeParen
  | '\x7b' => .openBrace
  | '\x7d' => .closeBrace
  | ',' => .comma
  | ':' => .colon
  | '!' => .bang
  | c => .unknown c

def readToken (c : Char) (cs : List Char) : Option Token × List Char :=
  if isBlank c then (none, cs)
  else if c = '/' ∧ cs.head? = some '/' then (none, cs.dropWhile (· ≠ '\n'))
  else if c = '-' ∧ cs.head? = some '>' then (some .arrow, cs.drop 1)
  else if c = '<' ∧ cs.take 2 = ['-', '>'] then (some .twoWay, cs.drop 2)
  else if c = '$' then
    let word := cs.takeWhile isWordChar
    (some (if word = [] then .unknown c else .group (String.ofList word)), cs.dropWhile isWordChar)
  else if isWordChar c then
    (some (wordToken c (c :: cs.takeWhile isWordChar)), cs.dropWhile isWordChar)
  else (some (signToken c), cs)

theorem length_readToken_le (c : Char) (cs : List Char) :
    (readToken c cs).2.length ≤ cs.length := by
  unfold readToken
  repeat' split
  all_goals first
    | exact Nat.le_refl _
    | exact (List.dropWhile_sublist _).length_le
    | (simp only [List.length_drop]; omega)

/-- Never fails: what is outside the grammar becomes an unknown token, which makes the statement
around it malformed. -/
def tokenizeFrom (line : Nat) : List Char → List Lexeme
  | [] => []
  | c :: cs =>
    if c = '\n' then ⟨.newline, line⟩ :: tokenizeFrom (line + 1) cs
    else
      let read := readToken c cs
      match read.1 with
      | none => tokenizeFrom line read.2
      | some t => ⟨t, line⟩ :: tokenizeFrom line read.2
termination_by cs => cs.length
decreasing_by
  · exact Nat.lt_succ_self cs.length
  · exact Nat.lt_succ_of_le (length_readToken_le c cs)
  · exact Nat.lt_succ_of_le (length_readToken_le c cs)

def tokenize (text : String) : List Lexeme := tokenizeFrom 1 text.toList

end WorldShuffle

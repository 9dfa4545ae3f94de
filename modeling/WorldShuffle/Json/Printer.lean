import WorldShuffle.Json.Basic

namespace WorldShuffle

def escapeChar (c : Char) : String :=
  if c = '"' then "\\\""
  else if c = '\\' then "\\\\"
  else if c = '\n' then "\\n"
  else if c = '\r' then "\\r"
  else if c = '\t' then "\\t"
  else if c = '\x08' then "\\b"
  else if c = '\x0c' then "\\f"
  else if c.toNat < 0x10 then "\\u000" ++ hexDigits c.toNat
  else if c.toNat < 0x20 then "\\u00" ++ hexDigits c.toNat
  else c.toString

def escaped (s : String) : String := "\"" ++ String.join (s.toList.map escapeChar) ++ "\""

def Numeral.text (n : Numeral) : String :=
  let fraction := match n.fraction with
    | some ds => "." ++ String.ofList ds
    | none => ""
  let exponent := match n.exponent with
    | some (sign, ds) => "e" ++ String.ofList (sign.toList ++ ds)
    | none => ""
  signText n.negative ++ String.ofList n.whole ++ fraction ++ exponent

mutual

def Json.text : Json → String
  | .null | .broken _ => "null"
  | .bool b => if b then "true" else "false"
  | .num n => n.text
  | .str s => escaped (s.getD "")
  | .arr items _ => "[" ++ ",".intercalate (itemTexts items) ++ "]"
  | .obj members _ => "\x7b" ++ ",".intercalate (memberTexts members) ++ "\x7d"

def itemTexts : List Json → List String
  | [] => []
  | j :: js => j.text :: itemTexts js

def memberTexts : List (Option String × Json) → List String
  | [] => []
  | (k, j) :: js => (escaped (k.getD "") ++ ":" ++ j.text) :: memberTexts js

end

def newLine (depth : Nat) : String := "\n" ++ String.ofList (List.replicate (2 * depth) ' ')

def bracketed (depth : Nat) (opening closing : String) (entries : List String) : String :=
  if entries.isEmpty then opening ++ closing
  else
    let inner := newLine (depth + 1)
    opening ++ inner ++ ("," ++ inner).intercalate entries ++ newLine depth ++ closing

mutual

def Json.indented (depth : Nat) : Json → String
  | .arr items _ => bracketed depth "[" "]" (indentedItems (depth + 1) items)
  | .obj members _ => bracketed depth "\x7b" "\x7d" (indentedMembers (depth + 1) members)
  | j => j.text

def indentedItems (depth : Nat) : List Json → List String
  | [] => []
  | j :: js => j.indented depth :: indentedItems depth js

def indentedMembers (depth : Nat) : List (Option String × Json) → List String
  | [] => []
  | (k, j) :: js => (escaped (k.getD "") ++ ": " ++ j.indented depth) :: indentedMembers depth js

end

end WorldShuffle

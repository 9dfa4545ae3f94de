import WorldShuffle.Json.Number

namespace WorldShuffle

def isJsonSpace (c : Char) : Bool := c == ' ' || c == '\t' || c == '\n' || c == '\r'

def skipSpace (cs : List Char) : List Char := cs.dropWhile isJsonSpace

def hexValue? (c : Char) : Option Nat :=
  if isDigit c then some (c.toNat - '0'.toNat)
  else if 'a' ≤ c ∧ c ≤ 'f' then some (c.toNat - 'a'.toNat + 10)
  else if 'A' ≤ c ∧ c ≤ 'F' then some (c.toNat - 'A'.toNat + 10)
  else none

def hexUnit (cs : List Char) : Except Fault Nat :=
  match (cs.take 4).mapM hexValue? with
  | some [a, b, c, d] => .ok (((a * 16 + b) * 16 + c) * 16 + d)
  | _ => .error (if (String.ofList (cs.take 4)).utf8ByteSize < 4 then .cut else .malformed)

def escapedChar? : Char → Option Char
  | '"' => some '"'
  | '\\' => some '\\'
  | '/' => some '/'
  | 'b' => some '\x08'
  | 'f' => some '\x0c'
  | 'n' => some '\n'
  | 'r' => some '\r'
  | 't' => some '\t'
  | _ => none

def isLeadUnit (n : Nat) : Bool := 0xd800 ≤ n && n < 0xdc00

def isTrailUnit (n : Nat) : Bool := 0xdc00 ≤ n && n < 0xe000

/-- What has been read of a string: its characters reversed, a first half of a surrogate pair that
waits for the second, and whether some half has no other. -/
structure StringSoFar where
  chars : List Char := []
  lead : Option Nat := none
  lone : Bool := false

def StringSoFar.break (s : StringSoFar) (f : Fault) : Break :=
  let read := if s.lone then .malformed else f
  ⟨read, f, read⟩

def StringSoFar.push (s : StringSoFar) (c : Char) : StringSoFar :=
  ⟨c :: s.chars, none, s.lone || s.lead.isSome⟩

def StringSoFar.pushUnit (s : StringSoFar) (n : Nat) : StringSoFar :=
  match s.lead with
  | some lead =>
    if isTrailUnit n then
      ⟨Char.ofNat (0x10000 + (lead - 0xd800) * 0x400 + (n - 0xdc00)) :: s.chars, none, s.lone⟩
    else ⟨s.chars, none, true⟩
  | none =>
    if isLeadUnit n then { s with lead := some n }
    else if isTrailUnit n then { s with lone := true }
    else s.push (Char.ofNat n)

def StringSoFar.text? (s : StringSoFar) : Option String :=
  if s.lone || s.lead.isSome then none else some (String.ofList s.chars.reverse)

def readString (s : StringSoFar) : List Char → Except Break (Option String × List Char)
  | [] => .error (s.break .cut)
  | '"' :: cs => .ok (s.text?, cs)
  | '\\' :: 'u' :: cs =>
    match hexUnit cs with
    | .error f => .error (s.break f)
    | .ok n =>
      match cs with
      | _ :: _ :: _ :: _ :: cs => readString (s.pushUnit n) cs
      | _ => .error (s.break .cut)
  | ['\\'] => .error (s.break .cut)
  | '\\' :: c :: cs =>
    match escapedChar? c with
    | some c => readString (s.push c) cs
    | none => .error (.all .malformed)
  | c :: cs => if c < ' ' then .error (.all .malformed) else readString (s.push c) cs

def expectWord : List Char → List Char → Except Break (List Char)
  | [], cs => .ok cs
  | _ :: _, [] => .error ⟨.cut, .cut, .malformed⟩
  | w :: ws, c :: cs => if c = w then expectWord ws cs else .error (.all .malformed)

abbrev Parsed := Json × Option (List Char)

def parsedWord (value : Json) (word : String) (cs : List Char) : Parsed :=
  match expectWord word.toList cs with
  | .ok cs => (value, some cs)
  | .error b => (.broken b, none)

def parsedNumber (cs : List Char) : Parsed :=
  let (n, rest) := Numeral.ofChars cs
  match n.break? rest with
  | none => (.num n, some rest)
  | some b => (.broken b, none)

def afterComma (f : Fault) : Break := ⟨f, f, .malformed⟩

mutual

def parseValue : Nat → List Char → Parsed
  | 0, _ => (.broken (.all .cut), none)
  | fuel + 1, cs =>
    match skipSpace cs with
    | [] => (.broken (.all .cut), none)
    | 'n' :: cs => parsedWord .null "ull" cs
    | 't' :: cs => parsedWord (.bool true) "rue" cs
    | 'f' :: cs => parsedWord (.bool false) "alse" cs
    | '"' :: cs =>
      match readString {} cs with
      | .ok (s, cs) => (.str s, some cs)
      | .error b => (.broken b, none)
    | '[' :: cs =>
      match skipSpace cs with
      | [] => (.arr [] (some (.all .cut)), none)
      | ']' :: cs => (.arr [] none, some cs)
      | cs =>
        let (items, stop, rest) := parseItems fuel cs
        (.arr items stop, rest)
    | '\x7b' :: cs =>
      match skipSpace cs with
      | [] => (.obj [] (some (.all .cut)), none)
      | '\x7d' :: cs => (.obj [] none, some cs)
      | '"' :: cs =>
        let (members, stop, rest) := parseMembers fuel cs
        (.obj members stop, rest)
      | _ => (.obj [] (some (.all .malformed)), none)
    | c :: cs =>
      if isDigit c || c == '-' then parsedNumber (c :: cs) else (.broken (.all .malformed), none)

def parseItems : Nat → List Char → List Json × Option Break × Option (List Char)
  | 0, _ => ([], some (.all .cut), none)
  | fuel + 1, cs =>
    match parseValue fuel cs with
    | (item, none) => ([item], some (.all .malformed), none)
    | (item, some cs) =>
      match skipSpace cs with
      | [] => ([item], some (.all .cut), none)
      | ']' :: cs => ([item], none, some cs)
      | ',' :: cs =>
        match skipSpace cs with
        | [] => ([item], some (afterComma .cut), none)
        | ']' :: _ => ([item], some (afterComma .malformed), none)
        | cs =>
          let (items, stop, rest) := parseItems fuel cs
          (item :: items, stop, rest)
      | _ => ([item], some (.all .malformed), none)

def parseMembers : Nat → List Char → List (Option String × Json) × Option Break × Option (List Char)
  | 0, _ => ([], some (.all .cut), none)
  | fuel + 1, cs =>
    match readString {} cs with
    | .error b => ([], some b, none)
    | .ok (name, cs) =>
      match skipSpace cs with
      | [] => ([(name, .broken (.all .cut))], some (.all .malformed), none)
      | ':' :: cs =>
        match parseValue fuel cs with
        | (value, none) => ([(name, value)], some (.all .malformed), none)
        | (value, some cs) =>
          match skipSpace cs with
          | [] => ([(name, value)], some (.all .cut), none)
          | '\x7d' :: cs => ([(name, value)], none, some cs)
          | ',' :: cs =>
            match skipSpace cs with
            | [] => ([(name, value)], some (afterComma .cut), none)
            | '"' :: cs =>
              let (members, stop, rest) := parseMembers fuel cs
              ((name, value) :: members, stop.map ({ · with strict := .malformed }), rest)
            | _ => ([(name, value)], some (afterComma .malformed), none)
          | _ => ([(name, value)], some (.all .malformed), none)
      | _ => ([(name, .broken (.all .malformed))], some (.all .malformed), none)

end

def Json.parsePrefix (text : String) : Parsed := parseValue (2 * text.length + 2) text.toList

end WorldShuffle

import WorldShuffle.Json.Reader

namespace WorldShuffle

inductive Segment
  | index (n : Nat)
  | name (s : String)
  deriving DecidableEq

abbrev JsonPath := List Segment

def JsonPath.text (p : JsonPath) : String :=
  if p.isEmpty then "."
  else p.foldl (fun (out : String) s => match s with
    | .index n => s!"{out}[{n}]"
    | .name s => if out.isEmpty then s else s!"{out}.{s}") ""

inductive JsonError
  | fault (f : Fault)
  | data (path : JsonPath) (message : String)

abbrev Decoder (α : Type) := Json → Except JsonError α

def malformed {α : Type} : Except JsonError α := .error (.fault .malformed)

def invalid {α : Type} (message : String) : Except JsonError α := .error (.data [] message)

def invalidType {α : Type} (found : Found) (wanted : String) : Except JsonError α :=
  invalid s!"invalid type: {found.text}, expected {wanted}"

def invalidLength {α : Type} (n : Nat) (wanted : String) : Except JsonError α :=
  invalid s!"invalid length {n}, expected {wanted}"

def under {α : Type} (s : Segment) : Except JsonError α → Except JsonError α
  | .error (.data path message) => .error (.data (s :: path) message)
  | r => r

def foundOf? : Json → Option Found
  | .null => some .null
  | .bool b => some (.bool b)
  | .num n => n.value?.map Number.found
  | .str s => s.map .string
  | .arr .. => some .sequence
  | .obj .. => some .map
  | .broken _ => none

def unexpected {α : Type} (wanted : String) : Json → Except JsonError α
  | .broken b => .error (.fault b.read)
  | j =>
    match foundOf? j with
    | some found => invalidType found wanted
    | none => malformed

mutual

def Json.skipFault? : Json → Option Fault
  | .broken b => some b.skip
  | .arr items stop => (skipItems items).or (stop.map Break.skip)
  | .obj members stop => (skipMembers members).or (stop.map Break.skip)
  | _ => none

def skipItems : List Json → Option Fault
  | [] => none
  | j :: js => j.skipFault?.or (skipItems js)

def skipMembers : List (Option String × Json) → Option Fault
  | [] => none
  | (_, j) :: js => j.skipFault?.or (skipMembers js)

end

def decodeBool : Decoder Bool
  | .bool b => .ok b
  | j => unexpected "a boolean" j

def decodeString : Decoder String
  | .str (some s) => .ok s
  | .str none => malformed
  | j => unexpected "a string" j

def decodeNumber (wanted : String) : Decoder Number
  | .num n =>
    match n.value? with
    | some x => .ok x
    | none => malformed
  | j => unexpected wanted j

def decodeInteger (wanted : String) (least greatest : Int) : Decoder Int := fun j => do
  match (← decodeNumber wanted j).found with
  | .integer n =>
    if least ≤ n ∧ n ≤ greatest then return n
    else invalid s!"invalid value: integer `{n}`, expected {wanted}"
  | found => invalidType found wanted

def decodeTag : Decoder Nat := fun j => Int.toNat <$> decodeInteger "u8" 0 255 j

def decodeCount : Decoder UInt32 := fun j =>
  (UInt32.ofNat ·.toNat) <$> decodeInteger "u32" 0 (UInt32.size - 1) j

def decodeInt32 : Decoder Int32 := fun j =>
  Int32.ofInt <$> decodeInteger "i32" Int32.minValue.toInt Int32.maxValue.toInt j

def decodeSize : Decoder Nat := fun j => Int.toNat <$> decodeInteger "usize" 0 (UInt64.size - 1) j

def decodeFloat32 : Decoder Float32 := fun j => do
  match ← decodeNumber "f32" j with
  | .whole n => return n.toFloat32
  | .negative n => return -n.toFloat32
  | .float x => return toSingle x

def decodeUnit : Decoder Unit
  | .null => .ok ()
  | j => unexpected "unit" j

def decodeOption {α : Type} (decode : Decoder α) : Decoder (Option α)
  | .null => .ok none
  | j => some <$> decode j

def decodeItems {α : Type} (decode : Decoder α) (n : Nat) : List Json → Except JsonError (List α)
  | [] => .ok []
  | j :: js => do
    let a ← under (.index n) (decode j)
    return a :: (← decodeItems decode (n + 1) js)

def checkStop : Option Break → Except JsonError Unit
  | some b => .error (.fault b.read)
  | none => .ok ()

def decodeList {α : Type} (decode : Decoder α) : Decoder (List α)
  | .arr items stop => do
    let as ← decodeItems decode 0 items
    checkStop stop
    return as
  | j => unexpected "a sequence" j

def expectEnd {α : Type} (more : List α) (stop : Option Break) : Except JsonError Unit :=
  if !more.isEmpty then malformed
  else match stop with
    | some b => .error (.fault b.strict)
    | none => .ok ()

def decodePair {α β : Type} (first : Decoder α) (second : Decoder β) : Decoder (α × β)
  | .arr items stop => do
    match items with
    | [] =>
      checkStop stop
      invalidLength 0 "a tuple of size 2"
    | [a] =>
      let _ ← under (.index 0) (first a)
      checkStop stop
      invalidLength 1 "a tuple of size 2"
    | a :: b :: more =>
      let a ← under (.index 0) (first a)
      let b ← under (.index 1) (second b)
      expectEnd more stop
      return (a, b)
  | j => unexpected "a tuple of size 2" j

/-- A field of a record: how its value is put into the record, and whether it may be missing from
an object and from the end of a list. -/
structure Field (σ : Type) where
  name : String
  put : σ → Json → Except JsonError σ
  optional : Bool := false
  trailing : Bool := false

variable {σ : Type}

def missingField? (fields : List (Field σ)) (seen : List String) : Option String :=
  (fields.find? fun f => !f.optional && !seen.contains f.name).map Field.name

def decodeMembers (fields : List (Field σ)) (seen : List String) (r : σ) :
    List (Option String × Json) → Except JsonError (List String × σ)
  | [] => .ok (seen, r)
  | (none, _) :: _ => malformed
  | (some name, j) :: js =>
    match fields.find? (·.name = name) with
    | none =>
      match j.skipFault? with
      | some f => .error (.fault f)
      | none => decodeMembers fields seen r js
    | some field =>
      if seen.contains name then invalid s!"duplicate field `{name}`"
      else do
        let r ← under (.name name) (field.put r j)
        decodeMembers fields (name :: seen) r js

def decodeFields (n : Nat) (r : σ) :
    List (Field σ) → List Json → Except JsonError (σ × List (Field σ) × List Json)
  | [], js => .ok (r, [], js)
  | fs, [] => .ok (r, fs, [])
  | f :: fs, j :: js => do
    let r ← under (.index n) (f.put r j)
    decodeFields (n + 1) r fs js

/-- A record is an object, whose unknown members are passed over, or a list of its fields. -/
def decodeRecord (name : String) (fields : List (Field σ)) (blank : σ) : Decoder σ
  | .obj members stop => do
    let (seen, r) ← decodeMembers fields [] blank members
    checkStop stop
    match missingField? fields seen with
    | some name => invalid s!"missing field `{name}`"
    | none => return r
  | .arr items stop => do
    let (r, left, more) ← decodeFields 0 blank fields items
    if left.isEmpty then
      expectEnd more stop
      return r
    else
      checkStop stop
      match left.findIdx? (!·.trailing) with
      | some i =>
        invalidLength (fields.length - left.length + i)
          s!"struct {name} with {fields.length} elements"
      | none => return r
  | j => unexpected s!"struct {name}" j

structure Variant (α : Type) where
  name : String
  bare : Except JsonError α
  decode : Decoder α

variable {α : Type}

def unitVariant (name : String) (a : α) : Variant α :=
  ⟨name, .ok a, fun j => (fun _ => a) <$> decodeUnit j⟩

def payloadVariant (name : String) (decode : Decoder α) : Variant α :=
  ⟨name, invalid "invalid type: unit variant, expected newtype variant", decode⟩

def variantNamed (variants : List (Variant α)) (name : String) : Except JsonError (Variant α) :=
  match variants.find? (·.name = name) with
  | some v => .ok v
  | none =>
    let names := " or ".intercalate (variants.map fun v => s!"`{v.name}`")
    invalid s!"unknown variant `{name}`, expected {names}"

def decodeVariant (variants : List (Variant α)) : Decoder α
  | .str (some name) => do
    let v ← variantNamed variants name
    under (.name name) v.bare
  | .obj ((some name, j) :: more) stop => do
    let v ← variantNamed variants name
    let a ← under (.name name) (v.decode j)
    expectEnd more stop
    return a
  | .obj [] (some b) => .error (.fault b.read)
  | .broken b => .error (.fault b.strict)
  | _ => malformed

def decodeText (decode : Decoder α) (text : String) : Except JsonError α :=
  decode (Json.parsePrefix text).1

end WorldShuffle

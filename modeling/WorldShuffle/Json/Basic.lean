import WorldShuffle.Decimal.Layout
import WorldShuffle.Text.Quoted

namespace WorldShuffle

inductive Fault
  | malformed
  | cut
  deriving DecidableEq

inductive Found
  | null
  | bool (b : Bool)
  | integer (n : Int)
  | float (x : Float)
  | string (s : String)
  | sequence
  | map

/-- Where a text stops being JSON. The fault depends on what is expected there: `read` where a value
is read, `skip` where one is passed over, and `strict` where only the name of a variant or a closing
bracket may stand. -/
structure Break where
  read : Fault
  skip : Fault
  strict : Fault

structure Numeral where
  negative : Bool := false
  whole : List Char
  fraction : Option (List Char) := none
  exponent : Option (Option Char × List Char) := none

/-- A JSON text as far as it can be read. A string is missing where it holds half a surrogate pair,
and a collection that is not closed carries the place where it stops. -/
inductive Json
  | null
  | bool (b : Bool)
  | num (n : Numeral)
  | str (s : Option String)
  | arr (items : List Json) (stop : Option Break)
  | obj (members : List (Option String × Json)) (stop : Option Break)
  | broken (b : Break)

def Break.all (f : Fault) : Break := ⟨f, f, f⟩

def Found.text : Found → String
  | .null => "null"
  | .bool b => s!"boolean `{b}`"
  | .integer n => s!"integer `{n}`"
  | .float x => s!"floating point `{Layout.double.float x}`"
  | .string s => s!"string {quoted s}"
  | .sequence => "sequence"
  | .map => "map"

namespace Json

def string (s : String) : Json := .str (some s)

def list (items : List Json) : Json := .arr items none

def object (members : List (String × Json)) : Json :=
  .obj (members.map fun (k, v) => (some k, v)) none

def nat (n : Nat) : Json := .num { whole := (toString n).toList }

def int (n : Int) : Json := .num { negative := n < 0, whole := (toString n.natAbs).toList }

def optional {α : Type} (write : α → Json) : Option α → Json
  | none => .null
  | some a => write a

end Json

end WorldShuffle

import WorldShuffle.Json.Basic
import WorldShuffle.Logic.Token

namespace WorldShuffle

def Numeral.ofChars (cs : List Char) : Numeral × List Char :=
  let negative := cs.head? == some '-'
  let cs := if negative then cs.drop 1 else cs
  let whole := cs.takeWhile isDigit
  let cs := cs.dropWhile isDigit
  let dotted := cs.head? == some '.' && !whole.isEmpty
  let fraction := if dotted then some ((cs.drop 1).takeWhile isDigit) else none
  let cs := if dotted then (cs.drop 1).dropWhile isDigit else cs
  let scaled := (cs.head? == some 'e' || cs.head? == some 'E') && !whole.isEmpty &&
    fraction != some []
  if scaled then
    let cs := cs.drop 1
    let sign := cs.head?.filter fun c => c == '+' || c == '-'
    let cs := if sign.isSome then cs.drop 1 else cs
    (⟨negative, whole, fraction, some (sign, cs.takeWhile isDigit)⟩, cs.dropWhile isDigit)
  else (⟨negative, whole, fraction, none⟩, cs)

def Numeral.break? (n : Numeral) (rest : List Char) : Option Break :=
  if n.whole.head? = some '0' ∧ 1 < n.whole.length then some (.all .malformed)
  else if n.whole.isEmpty || n.fraction == some [] || n.exponent.any (·.2.isEmpty) then
    if rest.isEmpty then some ⟨.cut, .malformed, .malformed⟩ else some (.all .malformed)
  else none

inductive Number
  | whole (n : UInt64)
  | negative (n : UInt64)
  | float (x : Float)

def maxSignificand : Nat := UInt64.size - 1

def takeDigits (significand : Nat) : List Char → Nat × Nat
  | [] => (significand, 0)
  | c :: cs =>
    let next := 10 * significand + (c.toNat - '0'.toNat)
    if next ≤ maxSignificand then takeDigits next cs else (significand, cs.length + 1)

def powerOfTen (n : Nat) : Float := Float.ofScientific 1 false n

/-- Multiplies or divides by powers of ten up to the 308th, one rounding each. A result beyond the
largest number is missing. -/
def scaleFloat (x : Float) : Nat → Int → Option Float
  | 0, _ => some x
  | fuel + 1, exponent =>
    if exponent.natAbs ≤ 308 then
      if 0 ≤ exponent then
        let y := x * powerOfTen exponent.natAbs
        if y.isInf then none else some y
      else some (x / powerOfTen exponent.natAbs)
    else if x == 0 then some x
    else if 0 ≤ exponent then none
    else scaleFloat (x / powerOfTen 308) fuel (exponent + 308)

/-- Eight steps suffice, as four divisions by the largest power leave zero. -/
def floatOfParts (significand : Nat) (exponent : Int) : Option Float :=
  scaleFloat significand.toUInt64.toFloat 8 exponent

def maxExponent : Nat := 0x7fffffff

def signFloat (negative : Bool) (x : Float) : Float := if negative then -x else x

def Numeral.value? (n : Numeral) : Option Number :=
  let (significand, dropped) := takeDigits 0 n.whole
  match n.fraction, n.exponent, dropped with
  | none, none, 0 =>
    if !n.negative then some (.whole significand.toUInt64)
    else if 0 < significand ∧ significand ≤ 0x8000000000000000 then
      some (.negative significand.toUInt64)
    else some (.float (-significand.toUInt64.toFloat))
  | fraction, exponent, dropped =>
    let digits := fraction.getD []
    let (significand, ignored) := takeDigits significand digits
    let base : Int := dropped - (digits.length - ignored : Nat)
    let x? := match exponent with
      | none => floatOfParts significand base
      | some (sign, es) =>
        let e := digitsValue es
        if e ≤ maxExponent then
          floatOfParts significand (if sign = some '-' then base - e else base + e)
        else if significand = 0 ∨ sign = some '-' then some 0
        else none
    x?.map fun x => .float (signFloat n.negative x)

def toSingle (x : Float) : Float32 :=
  match Float.Model.UnpackedFloat.unpack .binary64 x.toBits.toBitVec with
  | .finite sign m e _ =>
    .ofBits ⟨Float.Model.UnpackedFloat.pack .binary32 (.round .binary32 sign m e)⟩
  | unpacked => .ofBits ⟨Float.Model.UnpackedFloat.pack .binary32 unpacked⟩

def Number.found : Number → Found
  | .whole n => .integer n.toNat
  | .negative n => .integer (-n.toNat)
  | .float x => .float x

def Numeral.ofText (text : String) : Numeral := (Numeral.ofChars text.toList).1

def Number.numeral : Number → Numeral
  | .whole n => { whole := (toString n.toNat).toList }
  | .negative n => { negative := true, whole := (toString n.toNat).toList }
  | .float x => .ofText (Layout.double.float x)

def Json.float32 (x : Float32) : Json :=
  if x.isFinite then .num (.ofText (Layout.single.float32 x)) else .null

end WorldShuffle

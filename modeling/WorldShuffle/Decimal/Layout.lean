import WorldShuffle.Decimal.Shortest

namespace WorldShuffle

/-- How a number is written: the exponents of the leading digit for which it is positional, whether
a whole number gets a fraction of zero, and which of two equally near decimals stands for it. -/
structure Layout where
  least : Int
  greatest : Int
  keepFraction : Bool
  tie : Tie

def Layout.double : Layout := ⟨-5, 15, true, .even⟩

def Layout.single : Layout := ⟨-6, 12, true, .even⟩

def Layout.plain : Layout := ⟨-400, 400, false, .greater⟩

def zeros (n : Nat) : String := String.ofList (List.replicate n '0')

def Layout.positional (l : Layout) (ds : List Char) (exponent : Int) : String :=
  let whole := exponent.toNat + 1
  if exponent < 0 then "0." ++ zeros (-exponent - 1).toNat ++ String.ofList ds
  else if ds.length ≤ whole then
    String.ofList ds ++ zeros (whole - ds.length) ++ if l.keepFraction then ".0" else ""
  else String.ofList (ds.take whole) ++ "." ++ String.ofList (ds.drop whole)

def scientific (ds : List Char) (exponent : Int) : String :=
  let fraction := if ds.length ≤ 1 then "" else "." ++ String.ofList (ds.drop 1)
  let sign := if exponent < 0 then "-" else "+"
  String.ofList (ds.take 1) ++ fraction ++ "e" ++ sign ++ toString exponent.natAbs

def significantDigits (n : Nat) : List Char :=
  ((toString n).toList.reverse.dropWhile (· == '0')).reverse

def Layout.write (l : Layout) (d : Decimal) : String :=
  let exponent := d.scale + ((toString d.digits).length - 1 : Nat)
  let ds := significantDigits d.digits
  if l.least ≤ exponent ∧ exponent ≤ l.greatest then l.positional ds exponent
  else scientific ds exponent

def Layout.writeZero (l : Layout) : String := if l.keepFraction then "0.0" else "0"

def signText (negative : Bool) : String := if negative then "-" else ""

def isNegative (x : Float) : Bool := x.toBits >>> 63 == 1

def Layout.float (l : Layout) (x : Float) : String :=
  signText (isNegative x) ++ if x == 0 then l.writeZero else l.write ((Dyadic.ofFloat x).shortest l.tie)

def Layout.float32 (l : Layout) (x : Float32) : String :=
  signText (x.toBits >>> 31 == 1) ++
    if x == 0 then l.writeZero else l.write ((Dyadic.ofFloat32 x).shortest l.tie)

end WorldShuffle

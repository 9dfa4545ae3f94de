import WorldShuffle.Decimal.Layout

namespace WorldShuffle

class Weight (ω : Type) extends Add ω, Sub ω, Mul ω, Div ω where
  ofNat : Nat → ω
  least : ω
  /-- Whether the first weight is at least the second. -/
  reaches : ω → ω → Bool
  isPositive : ω → Bool
  text : ω → String

def Weight.floor {ω : Type} [Weight ω] (w : ω) : ω :=
  if Weight.reaches w Weight.least then w else Weight.least

def Weight.fraction {ω : Type} [Weight ω] (w : UInt64) : ω :=
  Weight.ofNat (w.toNat >>> 11) * (Weight.ofNat 1 / Weight.ofNat (1 <<< 53))

def floatText (x : Float) : String :=
  if x.isNaN then "NaN"
  else if x.isInf then (if x < 0 then "-inf" else "inf")
  else Layout.plain.float x

instance : Weight Float where
  ofNat n := n.toUInt64.toFloat
  least := 0.01
  reaches a b := a ≥ b
  isPositive x := x > 0 && x.isFinite
  text := floatText

instance : Weight Rat where
  ofNat n := n
  least := 1 / 100
  reaches a b := a ≥ b
  isPositive x := x > 0
  text x := toString x

end WorldShuffle

namespace WorldShuffle

/-- A positive binary number `m * 2 ^ q`. The next smaller one is half as far away as the next
larger one where `m` is the least of its binade. -/
structure Dyadic where
  m : Nat
  q : Int
  leastOfBinade : Bool

inductive Tie
  | even
  | greater
  deriving DecidableEq

structure Decimal where
  digits : Nat
  scale : Int
  deriving DecidableEq

/-- Splits the bits of a finite nonzero number with `p` bits of fraction below an implicit leading
bit; `low` is the exponent of the smallest numbers. -/
def Dyadic.ofFields (p : Nat) (low : Int) (exponent fraction : Nat) : Dyadic :=
  if exponent = 0 then ⟨fraction, low, false⟩
  else ⟨(1 <<< p) + fraction, low + (exponent - 1 : Nat), fraction = 0 && exponent != 1⟩

def Dyadic.over (quarters : Nat) (q k : Int) : Nat × Nat :=
  ((quarters <<< q.toNat) * Nat.pow 10 (-k).toNat, (4 <<< (-q).toNat) * Nat.pow 10 k.toNat)

/-- Whether `n * 10 ^ k` rounds to `d` to nearest, ties going to even. -/
def Dyadic.admits (d : Dyadic) (n : Nat) (k : Int) : Bool :=
  let (low, unit) := Dyadic.over (4 * d.m - if d.leastOfBinade then 1 else 2) d.q k
  let (high, _) := Dyadic.over (4 * d.m + 2) d.q k
  let n := n * unit
  if d.m % 2 = 0 then low ≤ n && n ≤ high else low < n && n < high

def Tie.takes (tie : Tie) (below : Nat) : Bool :=
  match tie with
  | .even => below % 2 == 0
  | .greater => false

def Dyadic.onGrid? (tie : Tie) (d : Dyadic) (k : Int) : Option Nat :=
  let (value, unit) := Dyadic.over (4 * d.m) d.q k
  let below := value / unit
  let rest := value % unit
  match d.admits below k && below != 0, d.admits (below + 1) k with
  | true, true =>
    if 2 * rest < unit || (2 * rest == unit && tie.takes below) then some below else some (below + 1)
  | true, false => some below
  | false, true => some (below + 1)
  | false, false => none

def Dyadic.firstGrid (tie : Tie) (d : Dyadic) : Nat → Int → Decimal
  | 0, k => ⟨d.m, k⟩
  | fuel + 1, k =>
    match d.onGrid? tie k with
    | some n => ⟨n, k⟩
    | none => d.firstGrid tie fuel (k - 1)

/-- An exponent of ten with `d < 10 ^ k`, as the logarithm of two lies just below 0.30103. -/
def Dyadic.ceiling (d : Dyadic) : Int := (d.m.log2 + 1 + d.q) * 30103 / 100000 + 2

/-- The number with the fewest digits that rounds to `d`, the nearest one of several. Seventeen
digits always do. -/
def Dyadic.shortest (tie : Tie) (d : Dyadic) : Decimal := d.firstGrid tie 30 d.ceiling

def Dyadic.ofFloat (x : Float) : Dyadic :=
  let bits := x.toBits.toNat
  .ofFields 52 (-1074) ((bits >>> 52) % 0x800) (bits % 0x10000000000000)

def Dyadic.ofFloat32 (x : Float32) : Dyadic :=
  let bits := x.toBits.toNat
  .ofFields 23 (-149) ((bits >>> 23) % 0x100) (bits % 0x800000)

end WorldShuffle

import WorldShuffle.Settings.Basic

namespace WorldShuffle

def skipOffset : Nat := 8

def maxSkipFlags : Nat := 64 - skipOffset

structure TooManySkips where
  count : Nat
  deriving DecidableEq

def TooManySkips.message (e : TooManySkips) : String :=
  s!"{e.count} skip settings do not fit in the flag field (max {maxSkipFlags})"

def packBits : List Bool → UInt64
  | [] => 0
  | b :: bs => 2 * packBits bs + if b then 1 else 0

def bitOf (flags : UInt64) (i : Nat) : Bool := flags.toNat.testBit i

namespace Settings

variable (s : Settings)

def switches : List Bool :=
  [s.pool.items, s.pool.abilities, s.pool.toggles, s.pool.shops, s.pool.keys, s.pool.currency,
    s.transitions.mode = .randomized, s.respectObtained] ++ s.skips.map SkipSetting.enabled

def toFlags : Except TooManySkips UInt64 :=
  if maxSkipFlags < s.skips.length then .error ⟨s.skips.length⟩ else .ok (packBits s.switches)

def ofFlags (flags : UInt64) (template : Settings) : Settings :=
  let bit := bitOf flags
  { template with
    pool :=
      { items := bit 0, abilities := bit 1, toggles := bit 2
        shops := bit 3, keys := bit 4, currency := bit 5 }
    transitions :=
      { template.transitions with mode := if bit 6 then .randomized else .vanilla }
    respectObtained := bit 7
    skips := template.skips.zipIdx.map fun (k, i) =>
      if i < maxSkipFlags then { k with enabled := bit (skipOffset + i) } else k }

end Settings

end WorldShuffle

import WorldShuffle.Logic.MacroTable
import WorldShuffle.World.CheckKind

namespace WorldShuffle

structure PoolSettings where
  items : Bool
  abilities : Bool
  toggles : Bool
  shops : Bool
  keys : Bool
  currency : Bool
  deriving DecidableEq

structure StartingItem where
  state : String
  count : UInt32
  deriving DecidableEq

structure SkipSetting where
  name : String
  enabled : Bool
  deriving DecidableEq

inductive TransitionMode
  | vanilla
  | randomized
  deriving DecidableEq

structure TransitionSettings where
  mode : TransitionMode
  swapAttempts : Nat
  deriving DecidableEq

def currentVersion : Nat := 1

structure Settings where
  version : Nat := currentVersion
  name : Option String := none
  pool : PoolSettings :=
    { items := true, abilities := true, toggles := false
      shops := true, keys := true, currency := false }
  startingItems : List StartingItem := []
  skips : List SkipSetting := []
  transitions : TransitionSettings := { mode := .vanilla, swapAttempts := 200 }
  maxAttempts : Nat := 20
  respectObtained : Bool := false
  deriving DecidableEq

def PoolSettings.includes (p : PoolSettings) : CheckKind → Bool
  | .item => p.items
  | .ability => p.abilities
  | .toggle => p.toggles
  | .shop => p.shops
  | .key => p.keys
  | .currency => p.currency

namespace Settings

variable (s : Settings)

def skipEnabled (name : String) : Bool := s.skips.any fun k => k.name = name && k.enabled

/-- The meaning of skip names in logic text, the last setting of a name deciding. -/
def skipTable : Table String Bool := s.skips.foldl (fun t k => t.set k.name k.enabled) {}

def skipPredicate : Skips :=
  let table := s.skipTable
  fun name => table.get? name

def bindMacros (m : MacroTable) : MacroTable :=
  s.skips.foldl (fun m k => if (m.get? k.name).isSome then m.bind k.name k.enabled else m) m

def startingStates : States := .ofList (s.startingItems.map fun i => (i.state, i.count))

end Settings

end WorldShuffle

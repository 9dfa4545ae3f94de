import WorldShuffle.Json.Decoder
import WorldShuffle.Json.Printer
import WorldShuffle.Settings.Basic

namespace WorldShuffle

def poolFields : List (Field PoolSettings) := [
  { name := "items", put := fun p j => return { p with items := ← decodeBool j } },
  { name := "abilities", put := fun p j => return { p with abilities := ← decodeBool j } },
  { name := "toggles", put := fun p j => return { p with toggles := ← decodeBool j } },
  { name := "shops", put := fun p j => return { p with shops := ← decodeBool j } },
  { name := "keys", put := fun p j => return { p with keys := ← decodeBool j } },
  { name := "currency", put := fun p j => return { p with currency := ← decodeBool j } }]

def decodePool : Decoder PoolSettings :=
  decodeRecord "PoolSettings" poolFields ({} : Settings).pool

def startingItemFields : List (Field StartingItem) := [
  { name := "state", put := fun i j => return { i with state := ← decodeString j } },
  { name := "count", put := fun i j => return { i with count := ← decodeCount j } }]

def decodeStartingItem : Decoder StartingItem :=
  decodeRecord "StartingItem" startingItemFields { state := "", count := 0 }

def skipFields : List (Field SkipSetting) := [
  { name := "name", put := fun k j => return { k with name := ← decodeString j } },
  { name := "enabled", put := fun k j => return { k with enabled := ← decodeBool j } }]

def decodeSkip : Decoder SkipSetting :=
  decodeRecord "SkipSetting" skipFields { name := "", enabled := false }

def decodeMode : Decoder TransitionMode :=
  decodeVariant [unitVariant "Vanilla" .vanilla, unitVariant "Randomized" .randomized]

def transitionFields : List (Field TransitionSettings) := [
  { name := "mode", put := fun t j => return { t with mode := ← decodeMode j } },
  { name := "swap_attempts", put := fun t j => return { t with swapAttempts := ← decodeSize j } }]

def decodeTransitions : Decoder TransitionSettings :=
  decodeRecord "TransitionSettings" transitionFields ({} : Settings).transitions

def settingsFields : List (Field Settings) := [
  { name := "version", put := fun s j => return { s with version := ← decodeSize j } },
  { name := "name", put := fun s j => return { s with name := ← decodeOption decodeString j }
    optional := true },
  { name := "pool_settings", put := fun s j => return { s with pool := ← decodePool j } },
  { name := "starting_items"
    put := fun s j => return { s with startingItems := ← decodeList decodeStartingItem j }
    optional := true, trailing := true },
  { name := "skip_settings", put := fun s j => return { s with skips := ← decodeList decodeSkip j }
    optional := true, trailing := true },
  { name := "transition_settings"
    put := fun s j => return { s with transitions := ← decodeTransitions j } },
  { name := "max_attempts", put := fun s j => return { s with maxAttempts := ← decodeSize j }
    optional := true, trailing := true },
  { name := "respect_obtained", put := fun s j => return { s with respectObtained := ← decodeBool j }
    optional := true, trailing := true }]

def decodeSettings : Decoder Settings := decodeRecord "RandomizerSettings" settingsFields {}

def Settings.parse (text : String) : Except JsonError Settings := decodeText decodeSettings text

def TransitionMode.name : TransitionMode → String
  | .vanilla => "Vanilla"
  | .randomized => "Randomized"

def PoolSettings.json (p : PoolSettings) : Json := .object [
  ("items", .bool p.items),
  ("abilities", .bool p.abilities),
  ("toggles", .bool p.toggles),
  ("shops", .bool p.shops),
  ("keys", .bool p.keys),
  ("currency", .bool p.currency)]

def TransitionSettings.json (t : TransitionSettings) : Json := .object [
  ("mode", .string t.mode.name),
  ("swap_attempts", .nat t.swapAttempts)]

def StartingItem.json (i : StartingItem) : Json := .object [
  ("state", .string i.state),
  ("count", .nat i.count.toNat)]

def SkipSetting.json (k : SkipSetting) : Json := .object [
  ("name", .string k.name),
  ("enabled", .bool k.enabled)]

def Settings.json (s : Settings) : Json := .object [
  ("version", .nat s.version),
  ("name", Json.optional .string s.name),
  ("pool_settings", s.pool.json),
  ("starting_items", .list (s.startingItems.map StartingItem.json)),
  ("skip_settings", .list (s.skips.map SkipSetting.json)),
  ("transition_settings", s.transitions.json),
  ("max_attempts", .nat s.maxAttempts),
  ("respect_obtained", .bool s.respectObtained)]

end WorldShuffle

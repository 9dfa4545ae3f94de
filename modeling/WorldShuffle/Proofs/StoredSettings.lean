import WorldShuffle.Proofs.Records
import WorldShuffle.Proofs.Settling
import WorldShuffle.Settings.Upgrade

namespace WorldShuffle

variable {j j' : Json} {d : Nat}

def countJson (c : UInt32) : Json := .nat c.toNat

theorem stores_count (c : UInt32) : Stores countJson decodeCount c where
  written := Json.written_nat _
  decoded := by
    have hlt := c.toNat_lt
    have hsize : (UInt32.size : Int) = 0x100000000 := rfl
    have hsize' : (UInt64.size : Int) = 0x10000000000000000 := rfl
    rw [decodeCount, countJson, Json.nat_eq_int,
      decodeInteger_int (by omega) (by omega) (by omega) (by omega)]
    exact congrArg Except.ok (by simp)

namespace Json

theorem settle_nat {n : Nat} (h : n < UInt64.size) : (Json.nat n).settle d = .ok (.nat n) := by
  rw [nat, settle, value?_natural h]
  simp only [Number.numeral, Nat.toUInt64_eq, UInt64.toNat_ofNat_of_lt' h]

theorem settle_string (s : String) : (Json.string s).settle d = .ok (.string s) := by
  rw [string, settle]

theorem settle_bool (b : Bool) : (Json.bool b).settle d = .ok (.bool b) := by rw [settle]

theorem settle_optional_string (o : Option String) :
    (Json.optional .string o).settle d = .ok (Json.optional .string o) := by
  cases o with
  | none => rw [optional, settle]
  | some s => exact settle_string s

theorem settle_list {α : Type} {encode encode' : α → Json} {as : List α}
    (h : ∀ a ∈ as, (encode a).settle (d + 1) = .ok (encode' a)) :
    (listJson encode as).settle (d + 2) = .ok (listJson encode' as) := by
  refine settle_arr_eq_ok.2 ⟨d, as.map encode', rfl, rfl, ?_, rfl⟩
  rw [List.forall₂_map_left_iff, List.forall₂_map_right_iff, List.forall₂_same]
  exact h

/-- The members of an object are read one by one, and ordered by their names. -/
theorem settle_object {ms ms' sorted : List (String × Json)}
    (h : List.Forall₂ (fun m m' => m.1 = m'.1 ∧ m.2.settle (d + 1) = .ok m'.2) ms ms')
    (hsort : sortMembers ms' = sorted.map fun m => (some m.1, m.2)) :
    (Json.object ms).settle (d + 2) = .ok (.object sorted) := by
  refine settle_obj_eq_ok.2 ⟨d, ms', rfl, rfl, ?_, by rw [hsort]; rfl⟩
  rw [List.forall₂_map_left_iff]
  exact h.imp fun m m' hm => ⟨congrArg some hm.1, hm.2⟩

theorem settle_object_of_fixed {ms sorted : List (String × Json)}
    (h : ∀ m ∈ ms, m.2.settle (d + 1) = .ok m.2)
    (hsort : sortMembers ms = sorted.map fun m => (some m.1, m.2)) :
    (Json.object ms).settle (d + 2) = .ok (.object sorted) :=
  settle_object (List.forall₂_same.2 fun m hm => ⟨rfl, h m hm⟩) hsort

end Json

def PoolSettings.sorted (p : PoolSettings) : Json := .object [
  ("abilities", .bool p.abilities),
  ("currency", .bool p.currency),
  ("items", .bool p.items),
  ("keys", .bool p.keys),
  ("shops", .bool p.shops),
  ("toggles", .bool p.toggles)]

theorem PoolSettings.settle_json (p : PoolSettings) : p.json.settle (d + 2) = .ok p.sorted :=
  Json.settle_object_of_fixed (by simp [Json.settle_bool]) (by cbv)

theorem PoolSettings.stores_sorted (p : PoolSettings) : Stores sorted decodePool p := by
  have hputs : Puts ({} : Settings).pool
      [(poolFields[1], .bool p.abilities), (poolFields[5], .bool p.currency),
        (poolFields[0], .bool p.items), (poolFields[4], .bool p.keys),
        (poolFields[3], .bool p.shops), (poolFields[2], .bool p.toggles)] p :=
    .field (stores_bool _) rfl <| .field (stores_bool _) rfl <| .field (stores_bool _) rfl <|
      .field (stores_bool _) rfl <| .field (stores_bool _) rfl <| .field (stores_bool _) rfl (.nil p)
  exact hputs.stores_of_perm (by decide) (by simp) (of_decide_eq_true rfl) rfl

theorem PoolSettings.stores (p : PoolSettings) : Stores PoolSettings.json decodePool p := by
  have hputs : Puts ({} : Settings).pool
      (poolFields.zip [.bool p.items, .bool p.abilities, .bool p.toggles, .bool p.shops,
        .bool p.keys, .bool p.currency]) p :=
    .field (stores_bool _) rfl <| .field (stores_bool _) rfl <| .field (stores_bool _) rfl <|
      .field (stores_bool _) rfl <| .field (stores_bool _) rfl <| .field (stores_bool _) rfl (.nil p)
  exact hputs.stores (by decide) rfl rfl

def StartingItem.sorted (i : StartingItem) : Json := .object [
  ("count", .nat i.count.toNat),
  ("state", .string i.state)]

theorem StartingItem.settle_json (i : StartingItem) : i.json.settle (d + 2) = .ok i.sorted := by
  have hcount : i.count.toNat < UInt64.size := Nat.lt_trans i.count.toNat_lt (by decide)
  have hsort (state count : Json) : sortMembers [("state", state), ("count", count)] =
      [(some "count", count), (some "state", state)] := by cbv
  refine Json.settle_object_of_fixed ?_ (hsort _ _)
  simp [Json.settle_string, Json.settle_nat hcount]

theorem StartingItem.stores (i : StartingItem) : Stores StartingItem.json decodeStartingItem i := by
  have hputs : Puts { state := "", count := 0 }
      (startingItemFields.zip [.string i.state, countJson i.count]) i :=
    .field (stores_string i.state) rfl <| .field (stores_count i.count) rfl (.nil i)
  exact hputs.stores (by decide) rfl rfl

theorem StartingItem.stores_sorted (i : StartingItem) : Stores sorted decodeStartingItem i := by
  have hputs : Puts { state := "", count := 0 }
      [(startingItemFields[1], countJson i.count), (startingItemFields[0], .string i.state)] i :=
    .field (stores_count i.count) rfl <| .field (stores_string i.state) rfl (.nil i)
  exact hputs.stores_of_perm (by decide) (by simp) (of_decide_eq_true rfl) rfl

def SkipSetting.sorted (k : SkipSetting) : Json := .object [
  ("enabled", .bool k.enabled),
  ("name", .string k.name)]

theorem SkipSetting.settle_json (k : SkipSetting) : k.json.settle (d + 2) = .ok k.sorted :=
  Json.settle_object_of_fixed (by simp [Json.settle_string, Json.settle_bool]) (by cbv)

theorem SkipSetting.stores (k : SkipSetting) : Stores SkipSetting.json decodeSkip k := by
  have hputs : Puts { name := "", enabled := false }
      (skipFields.zip [.string k.name, .bool k.enabled]) k :=
    .field (stores_string k.name) rfl <| .field (stores_bool k.enabled) rfl (.nil k)
  exact hputs.stores (by decide) rfl rfl

theorem SkipSetting.stores_sorted (k : SkipSetting) : Stores sorted decodeSkip k := by
  have hputs : Puts { name := "", enabled := false }
      [(skipFields[1], .bool k.enabled), (skipFields[0], .string k.name)] k :=
    .field (stores_bool k.enabled) rfl <| .field (stores_string k.name) rfl (.nil k)
  exact hputs.stores_of_perm (by decide) (by simp) (of_decide_eq_true rfl) rfl

def TransitionMode.json (m : TransitionMode) : Json := .string m.name

theorem TransitionMode.stores (m : TransitionMode) : Stores TransitionMode.json decodeMode m where
  written := Json.written_string _
  decoded := by cases m <;> rfl

theorem TransitionSettings.settle_json {t : TransitionSettings} (h : t.swapAttempts < UInt64.size) :
    t.json.settle (d + 2) = .ok t.json := by
  have hsort (mode swaps : Json) : sortMembers [("mode", mode), ("swap_attempts", swaps)] =
      [(some "mode", mode), (some "swap_attempts", swaps)] := by cbv
  refine Json.settle_object_of_fixed ?_ (hsort _ _)
  simp [Json.settle_string, Json.settle_nat h]

theorem TransitionSettings.stores {t : TransitionSettings} (h : t.swapAttempts < UInt64.size) :
    Stores TransitionSettings.json decodeTransitions t := by
  have hputs : Puts ({} : Settings).transitions
      (transitionFields.zip [t.mode.json, .nat t.swapAttempts]) t :=
    .field t.mode.stores rfl <| .field (stores_size h) rfl (.nil t)
  exact hputs.stores (by decide) rfl rfl

namespace Settings

variable {s : Settings}

structure Fits (s : Settings) : Prop where
  version : s.version < UInt64.size
  swapAttempts : s.transitions.swapAttempts < UInt64.size
  maxAttempts : s.maxAttempts < UInt64.size

def sorted (s : Settings) : Json := .object [
  ("max_attempts", .nat s.maxAttempts),
  ("name", Json.optional .string s.name),
  ("pool_settings", s.pool.sorted),
  ("respect_obtained", .bool s.respectObtained),
  ("skip_settings", listJson SkipSetting.sorted s.skips),
  ("starting_items", listJson StartingItem.sorted s.startingItems),
  ("transition_settings", s.transitions.json),
  ("version", .nat s.version)]

theorem settle_json (h : s.Fits) : s.json.settle (d + 5) = .ok s.sorted := by
  have hitems : (listJson StartingItem.json s.startingItems).settle (d + 4) =
      .ok (listJson StartingItem.sorted s.startingItems) := Json.settle_list fun i _ => i.settle_json
  have hskips : (listJson SkipSetting.json s.skips).settle (d + 4) =
      .ok (listJson SkipSetting.sorted s.skips) := Json.settle_list fun k _ => k.settle_json
  have hsort (version name pool items skips transitions attempts respect : Json) :
      sortMembers [("version", version), ("name", name), ("pool_settings", pool),
        ("starting_items", items), ("skip_settings", skips), ("transition_settings", transitions),
        ("max_attempts", attempts), ("respect_obtained", respect)] =
      [(some "max_attempts", attempts), (some "name", name), (some "pool_settings", pool),
        (some "respect_obtained", respect), (some "skip_settings", skips),
        (some "starting_items", items), (some "transition_settings", transitions),
        (some "version", version)] := by
    simp only [sortMembers, setMember, List.foldl_cons, List.foldl_nil, Option.some.injEq,
      String.reduceEq, String.reduceLT, Option.getD_some, if_true, if_false]
  refine Json.settle_object ?_ (hsort _ _ s.pool.sorted (listJson StartingItem.sorted s.startingItems)
    (listJson SkipSetting.sorted s.skips) _ _ _)
  exact .cons ⟨rfl, Json.settle_nat h.version⟩ <|
    .cons ⟨rfl, Json.settle_optional_string s.name⟩ <| .cons ⟨rfl, s.pool.settle_json⟩ <|
    .cons ⟨rfl, hitems⟩ <| .cons ⟨rfl, hskips⟩ <|
    .cons ⟨rfl, TransitionSettings.settle_json h.swapAttempts⟩ <|
    .cons ⟨rfl, Json.settle_nat h.maxAttempts⟩ <|
    .cons ⟨rfl, Json.settle_bool s.respectObtained⟩ .nil

theorem stores (h : s.Fits) : Stores Settings.json decodeSettings s := by
  have hputs : Puts {} (settingsFields.zip [.nat s.version, Json.optional .string s.name, s.pool.json,
      listJson StartingItem.json s.startingItems, listJson SkipSetting.json s.skips,
      s.transitions.json, .nat s.maxAttempts, .bool s.respectObtained]) s :=
    .field (stores_size h.version) rfl <| .field (stores_optional_string s.name) rfl <|
      .field s.pool.stores rfl <| .field (stores_list fun i _ => i.stores) rfl <|
      .field (stores_list fun k _ => k.stores) rfl <|
      .field (TransitionSettings.stores h.swapAttempts) rfl <|
      .field (stores_size h.maxAttempts) rfl <| .field (stores_bool s.respectObtained) rfl (.nil s)
  exact hputs.stores (by decide) rfl rfl

theorem stores_sorted (h : s.Fits) : Stores sorted decodeSettings s := by
  have hputs : Puts {} [(settingsFields[6], .nat s.maxAttempts),
      (settingsFields[1], Json.optional .string s.name), (settingsFields[2], s.pool.sorted),
      (settingsFields[7], .bool s.respectObtained),
      (settingsFields[4], listJson SkipSetting.sorted s.skips),
      (settingsFields[3], listJson StartingItem.sorted s.startingItems),
      (settingsFields[5], s.transitions.json), (settingsFields[0], .nat s.version)] s :=
    .field (stores_size h.maxAttempts) rfl <| .field (stores_optional_string s.name) rfl <|
      .field s.pool.stores_sorted rfl <| .field (stores_bool s.respectObtained) rfl <|
      .field (stores_list fun k _ => k.stores_sorted) rfl <|
      .field (stores_list fun i _ => i.stores_sorted) rfl <|
      .field (TransitionSettings.stores h.swapAttempts) rfl <| .field (stores_size h.version) rfl (.nil s)
  exact hputs.stores_of_perm (by decide) (by simp) (of_decide_eq_true rfl) rfl

end Settings

end WorldShuffle

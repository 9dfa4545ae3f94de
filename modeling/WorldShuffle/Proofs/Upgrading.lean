import WorldShuffle.Proofs.Decoding
import WorldShuffle.Proofs.StoredSettings

namespace WorldShuffle

variable {text out name : String} {s s' : Settings} {t : TransitionSettings} {j : Json}
  {ms ms' : List (Option String × Json)} {stop : Option Break}

theorem swapAttempts_lt (h : decodeTransitions j = .ok t) : t.swapAttempts < UInt64.size := by
  refine decodeRecord_keeps (P := fun t => t.swapAttempts < UInt64.size) ?_ (by decide) h
  refine List.forall_mem_cons.2 ⟨?_, List.forall_mem_singleton.2 ?_⟩
  · intro t j t' ht hput
    obtain ⟨m, -, hput⟩ := bind_eq_ok hput
    obtain rfl := Except.ok.inj hput
    exact ht
  · intro t j t' _ hput
    obtain ⟨n, hn, hput⟩ := bind_eq_ok hput
    obtain rfl := Except.ok.inj hput
    exact decodeSize_lt hn

namespace Settings

inductive Change (s : Settings) (j : Json) : String → Settings → Prop
  | version {n : Nat} : decodeSize j = .ok n → Change s j "version" { s with version := n }
  | transitions {t : TransitionSettings} : decodeTransitions j = .ok t →
      Change s j "transition_settings" { s with transitions := t }
  | maxAttempts {n : Nat} : decodeSize j = .ok n → Change s j "max_attempts" { s with maxAttempts := n }
  | other {name : String} {s' : Settings} : name ≠ "version" → name ≠ "transition_settings" →
      s'.version = s.version → s'.transitions = s.transitions → s'.maxAttempts = s.maxAttempts →
      Change s j name s'

theorem change_of_put {f : Field Settings} (hf : f ∈ settingsFields) (h : f.put s j = .ok s') :
    s.Change j f.name s' := by
  simp only [settingsFields, List.mem_cons, List.not_mem_nil, or_false] at hf
  rcases hf with rfl | rfl | rfl | rfl | rfl | rfl | rfl | rfl <;>
    obtain ⟨a, ha, h⟩ := bind_eq_ok h <;> obtain rfl := Except.ok.inj h
  any_goals exact .other (by decide) (by decide) rfl rfl rfl
  · exact .version ha
  · exact .transitions ha
  · exact .maxAttempts ha

theorem Change.fits (h : s.Change j name s') (hs : s.Fits) : s'.Fits := by
  cases h with
  | version hn => exact { hs with version := decodeSize_lt hn }
  | transitions ht => exact { hs with swapAttempts := swapAttempts_lt ht }
  | maxAttempts hn => exact { hs with maxAttempts := decodeSize_lt hn }
  | other _ _ hversion htransitions hattempts =>
    exact ⟨hversion ▸ hs.version, htransitions ▸ hs.swapAttempts, hattempts ▸ hs.maxAttempts⟩

theorem Change.version_eq (h : s.Change j name s') (hname : name ≠ "version") :
    s'.version = s.version := by
  cases h with
  | version => exact absurd rfl hname
  | transitions => rfl
  | maxAttempts => rfl
  | other _ _ hversion => exact hversion

theorem Change.transitions_eq (h : s.Change j name s') (hname : name ≠ "transition_settings") :
    s'.transitions = s.transitions := by
  cases h with
  | version => rfl
  | transitions => exact absurd rfl hname
  | maxAttempts => rfl
  | other _ _ _ htransitions => exact htransitions

theorem fits_of_decode (h : decodeSettings j = .ok s) : s.Fits :=
  decodeRecord_keeps (fun _ hf _ _ _ hs hput => (change_of_put hf hput).fits hs)
    ⟨by decide, by decide, by decide⟩ h

theorem version_of_decode {n : Nat} (hn : n < UInt64.size)
    (hversion : ms.find? (·.1 = some "version") = some (some "version", .nat n))
    (h : decodeSettings (.obj ms stop) = .ok s) : s.version = n := by
  obtain ⟨seen, h⟩ := decodeRecord_obj_eq_ok h
  refine decodeMembers_makes (P := fun s => s.version = n) (f := settingsFields[0]) rfl hversion ?_ ?_ h
  · intro r r₁ hput
    obtain ⟨k, hk, hput⟩ := bind_eq_ok hput
    obtain rfl := Except.ok.inj hput
    exact Except.ok.inj (hk.symm.trans (stores_size hn).decoded)
  · intro f hf hname r j r₁ hr hput
    exact ((change_of_put hf hput).version_eq hname).trans hr

theorem transitions_of_decode (ht : t.swapAttempts < UInt64.size)
    (htransitions : ms.find? (·.1 = some "transition_settings") =
      some (some "transition_settings", t.json))
    (h : decodeSettings (.obj ms stop) = .ok s) : s.transitions = t := by
  obtain ⟨seen, h⟩ := decodeRecord_obj_eq_ok h
  refine decodeMembers_makes (P := fun s => s.transitions = t) (f := settingsFields[5]) rfl
    htransitions ?_ ?_ h
  · intro r r₁ hput
    obtain ⟨u, hu, hput⟩ := bind_eq_ok hput
    obtain rfl := Except.ok.inj hput
    exact Except.ok.inj (hu.symm.trans (TransitionSettings.stores ht).decoded)
  · intro f hf hname r j r₁ hr hput
    exact ((change_of_put hf hput).transitions_eq hname).trans hr

end Settings

theorem upgradeTransitions_of_any (h : ms.any (·.1 = some "transition_settings") = true) :
    upgradeTransitions ms = ms := if_pos h

theorem find?_upgradeTransitions (h : ms.any (·.1 = some "transition_settings") = false) :
    ∃ t : TransitionSettings, t.swapAttempts = 200 ∧
      (t.mode = .randomized ↔
        (ms.find? (·.1 = some "randomize_transitions")).map Prod.snd = some (.bool true)) ∧
      (upgradeTransitions ms).find? (·.1 = some "transition_settings") =
        some (some "transition_settings", t.json) := by
  rw [upgradeTransitions, if_neg (Bool.eq_false_iff.1 h)]
  refine ⟨_, rfl, ?_, find?_setMember _ _ _⟩
  dsimp only
  split
  · rename_i hfind
    rw [hfind]
    exact iff_of_true rfl rfl
  · rename_i hfind
    refine iff_of_false nofun ?_
    intro h
    obtain ⟨⟨name, j⟩, hm, rfl⟩ := Option.map_eq_some_iff.1 h
    exact hfind _ hm

theorem WrittenMembers.upgradeTransitions (h : WrittenMembers ms) :
    WrittenMembers (upgradeTransitions ms) := by
  rw [WorldShuffle.upgradeTransitions]
  split
  · exact h
  · have hrest : WrittenMembers (ms.filter (·.1 ≠ some "randomize_transitions")) := fun m hm =>
      h m (List.mem_of_mem_filter hm)
    have hattempts : 200 < UInt64.size := by decide
    exact hrest.set (TransitionSettings.stores hattempts).written

theorem upgradeJson_eq_ok {j' : Json} (h : upgradeJson j = .ok j') :
    ∃ ms stop, j = .obj ms stop ∧
      j' = .obj (setMember "version" (.nat currentVersion) (upgradeTransitions ms)) none := by
  cases j with
  | obj ms stop =>
    obtain ⟨ms', hms, h⟩ := bind_eq_ok h
    obtain rfl := Except.ok.inj h
    rw [upgradeMembers] at hms
    split at hms
    · exact ⟨ms, stop, rfl, by rw [Except.ok.inj hms]⟩
    · cases hms
  | _ => cases h

theorem upgradeJson_written {j' : Json} (hparse : Json.parse text = .ok j)
    (h : upgradeJson j = .ok j') : j'.Written := by
  obtain ⟨ms, stop, rfl, rfl⟩ := upgradeJson_eq_ok h
  obtain ⟨raw, ms, -, hms, rfl⟩ := Json.settle_eq_obj (Json.parse_eq_ok hparse)
  have hsorted := writtenMembers_settled hms fun _ _ => Json.settle_written
  exact (hsorted.upgradeTransitions.set (Json.written_nat currentVersion)).written

theorem upgradeText_eq_ok : Settings.upgradeText text = .ok (out, s) ↔
    ∃ j j', Json.parse text = .ok j ∧ upgradeJson j = .ok j' ∧ decodeSettings j' = .ok s ∧
      out = s.json.text := by
  constructor
  · intro h
    obtain ⟨j, hparse, h⟩ := bind_eq_ok h
    obtain ⟨j', hupgrade, h⟩ := bind_eq_ok h
    obtain ⟨s', hread, h⟩ := bind_eq_ok h
    obtain ⟨rfl, rfl⟩ := Prod.mk.inj (Except.ok.inj h)
    have hparse := mapError_eq_ok hparse
    have hread := mapError_eq_ok hread
    rw [Settings.parse, (upgradeJson_written hparse hupgrade).decodeText] at hread
    exact ⟨j, j', hparse, hupgrade, hread, rfl⟩
  · rintro ⟨j, j', hparse, hupgrade, hread, rfl⟩
    have hdecode : Settings.parse j'.text = .ok s :=
      ((upgradeJson_written hparse hupgrade).decodeText decodeSettings).trans hread
    simp only [Settings.upgradeText, hparse, hupgrade, hdecode, bind, Except.bind, Except.mapError, pure,
      Except.pure]

theorem transitions_of_upgrade (h : Settings.upgradeText text = .ok (out, s)) :
    ∃ members, (Json.parsePrefix text).1 = .obj members none ∧
      (lastValue? "transition_settings" members = none →
        s.transitions.swapAttempts = 200 ∧ (s.transitions.mode = .randomized ↔
          lastValue? "randomize_transitions" members = some (.bool true))) := by
  obtain ⟨j, j', hparse, hupgrade, hread, -⟩ := upgradeText_eq_ok.1 h
  obtain ⟨settled, stop, rfl, rfl⟩ := upgradeJson_eq_ok hupgrade
  obtain ⟨raw, ms, hraw, hms, rfl⟩ := Json.settle_eq_obj (Json.parse_eq_ok hparse)
  refine ⟨raw, hraw, fun hnone => ?_⟩
  obtain ⟨t, hattempts, hmode, hfind⟩ := find?_upgradeTransitions (any_settled hms hnone)
  have hdecoded : s.transitions = t := by
    refine Settings.transitions_of_decode (by rw [hattempts]; decide) ?_ hread
    rw [find?_setMember_of_ne (by decide)]
    exact hfind
  rw [hdecoded, hmode, settled_eq_bool hms]
  exact ⟨hattempts, Iff.rfl⟩

theorem upgradeJson_sorted (h : s.version = currentVersion) : upgradeJson s.sorted = .ok s.sorted := by
  rw [Settings.sorted, Json.object, upgradeJson, upgradeMembers, upgradeTransitions_of_any (by simp),
    if_pos (by simp)]
  simp only [List.map_cons, List.map_nil, setMember, h, Option.some.injEq, String.reduceEq,
    String.reduceLT, Option.getD_some, if_true, if_false]
  rfl

theorem upgradeText_spelled (hversion : s.version = currentVersion) (hfits : s.Fits)
    (h : s.json.Spelled text.toList) : Settings.upgradeText text = .ok (s.json.text, s) :=
  upgradeText_eq_ok.2 ⟨s.sorted, s.sorted, h.parse.trans (Settings.settle_json hfits),
    upgradeJson_sorted hversion, (Settings.stores_sorted hfits).decoded, rfl⟩

/-- An upgrade gives settings of the current version, which their text is read as, and which upgrading
that text gives again with the same text. Settings that are of the current version, however they are
written, stay as they are, and settings without transitions take them from the switch, where the last
value of a name counts. -/
theorem upgrade_idempotent :
    (∀ text out s, Settings.upgradeText text = .ok (out, s) →
      s.version = currentVersion ∧ Settings.parse out = .ok s ∧
      Settings.upgradeText out = .ok (out, s) ∧
      ∃ members, (Json.parsePrefix text).1 = .obj members none ∧
        (lastValue? "transition_settings" members = none →
          s.transitions.swapAttempts = 200 ∧ (s.transitions.mode = .randomized ↔
            lastValue? "randomize_transitions" members = some (.bool true)))) ∧
    ∀ s : Settings, s.version = currentVersion → s.Fits →
      ∀ text, s.json.Spelled text.toList → Settings.upgradeText text = .ok (s.json.text, s) := by
  refine ⟨fun text out s h => ?_, fun s hversion hfits text => upgradeText_spelled hversion hfits⟩
  obtain ⟨j, j', -, hupgrade, hread, rfl⟩ := upgradeText_eq_ok.1 h
  obtain ⟨ms, stop, rfl, rfl⟩ := upgradeJson_eq_ok hupgrade
  have hversion : s.version = currentVersion :=
    Settings.version_of_decode (by decide) (find?_setMember _ _ _) hread
  have hfits := Settings.fits_of_decode hread
  have hstores := Settings.stores hfits
  refine ⟨hversion, hstores.decodeText, ?_, transitions_of_upgrade h⟩
  exact upgradeText_spelled hversion hfits hstores.written

def oldPreset : Json := .object [
  ("version", .nat 0),
  ("name", .string "old"),
  ("pool_settings", ({} : Settings).pool.sorted),
  ("randomize_transitions", .bool false),
  ("note", .string ""),
  ("randomize_transitions", .bool true)]

theorem upgrade_idempotent_oldPreset :
    let s : Settings := { name := some "old", transitions := ⟨.randomized, 200⟩ }
    Settings.upgradeText oldPreset.text = .ok (s.json.text, s) ∧
      s.version = currentVersion ∧ Settings.parse s.json.text = .ok s ∧
      Settings.upgradeText s.json.text = .ok (s.json.text, s) ∧
      Settings.upgradeText (" " ++ s.json.text) = .ok (s.json.text, s) ∧
      s.transitions.swapAttempts = 200 ∧ s.transitions.mode = .randomized := by
  intro s
  have hwritten : oldPreset.Written := Json.written_object <| by
    simp [Json.written_nat, Json.written_string, Json.written_bool,
      (PoolSettings.stores_sorted _).written]
  have hsettle : oldPreset.settle maxJsonDepth = .ok (.object [
      ("name", .string "old"),
      ("note", .string ""),
      ("pool_settings", s.pool.sorted),
      ("randomize_transitions", .bool true),
      ("version", .nat 0)]) := by
    have hversion : (Json.nat 0).settle 127 = .ok (.nat 0) := Json.settle_nat (by decide)
    have hpool (p : PoolSettings) : p.sorted.settle 127 = .ok p.sorted :=
      Json.settle_object_of_fixed (by simp [Json.settle_bool]) (by cbv)
    refine Json.settle_object_of_fixed ?_ ?_
    · simp [Json.settle_string, Json.settle_bool, hversion, hpool]
    · simp only [sortMembers, setMember, List.foldl_cons, List.foldl_nil, List.map_cons, List.map_nil,
        Option.some.injEq, String.reduceEq, String.reduceLT, Option.getD_some, if_true, if_false]
      rfl
  have hread : decodeSettings (.object [
      ("name", .string "old"),
      ("note", .string ""),
      ("pool_settings", s.pool.sorted),
      ("transition_settings", s.transitions.json),
      ("version", .nat 1)]) = .ok s := eq_ok_of_toOption (by decide +kernel)
  have hupgrade : Settings.upgradeText oldPreset.text = .ok (s.json.text, s) :=
    upgradeText_eq_ok.2 ⟨_, _, hwritten.parse.trans hsettle, rfl, hread, rfl⟩
  have hfits : s.Fits := ⟨by decide, by decide, by decide⟩
  obtain ⟨hversion, hparse, hagain, members, hmembers, hswitch⟩ := upgrade_idempotent.1 _ _ _ hupgrade
  rw [hwritten.parsePrefix] at hmembers
  obtain ⟨rfl, -⟩ := Json.obj.inj hmembers
  obtain ⟨hattempts, hmode⟩ := hswitch rfl
  have hspelled : s.json.Spelled (" " ++ s.json.text).toList := by
    rw [String.toList_append]
    exact .blank (by simp [Blank, isJsonSpace]) (Settings.stores hfits).written
  have hblank := upgrade_idempotent.2 s rfl hfits _ hspelled
  exact ⟨hupgrade, hversion, hparse, hagain, hblank, hattempts, hmode.2 rfl⟩

end WorldShuffle

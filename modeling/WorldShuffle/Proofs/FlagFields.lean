import Mathlib
import WorldShuffle.Settings.Flags

namespace WorldShuffle

variable {s t : Settings} {flags : UInt64} {bs : List Bool} {i : Nat}

theorem toNat_packBits_cons (b : Bool) (bs : List Bool) :
    (packBits (b :: bs)).toNat = (2 * (packBits bs).toNat + b.toNat) % 2 ^ 64 := by
  rw [packBits, UInt64.toNat_add, UInt64.toNat_mul]
  cases b <;> simp

theorem bitOf_packBits (bs : List Bool) (i : Nat) :
    bitOf (packBits bs) i = (decide (i < 64) && bs[i]?.getD false) := by
  induction bs generalizing i with
  | nil => simp [bitOf, packBits]
  | cons b bs ih =>
    rw [bitOf, toNat_packBits_cons, Nat.testBit_mod_two_pow]
    cases i with
    | zero => cases b <;> simp [Nat.testBit_zero, Nat.add_mod]
    | succ i =>
      -- the flag in front moves the others up by one bit
      have hhalf : (2 * (packBits bs).toNat + b.toNat) / 2 = (packBits bs).toNat := by
        cases b <;> simp
        omega
      have hi := ih i
      rw [bitOf] at hi
      rw [Nat.testBit_succ, hhalf, hi, List.getElem?_cons_succ]
      by_cases hlt : i + 1 < 64
      · simp [hlt, Nat.lt_of_succ_lt hlt]
      · simp [hlt]

theorem map_bitOf_packBits (h : bs.length ≤ 64) :
    (List.range bs.length).map (bitOf (packBits bs)) = bs := by
  refine List.ext_getElem (by simp) fun i hi hi' => ?_
  rw [List.getElem_map, List.getElem_range, bitOf_packBits, List.getElem?_eq_getElem hi']
  simpa using fun _ => Nat.lt_of_lt_of_le hi' h

namespace Settings

structure Alike (s t : Settings) : Prop where
  version : s.version = t.version
  name : s.name = t.name
  startingItems : s.startingItems = t.startingItems
  skips : s.skips.map SkipSetting.name = t.skips.map SkipSetting.name
  swapAttempts : s.transitions.swapAttempts = t.transitions.swapAttempts
  maxAttempts : s.maxAttempts = t.maxAttempts

theorem Alike.length_eq (h : s.Alike t) : s.skips.length = t.skips.length := by
  simpa using congrArg List.length h.skips

theorem length_switches (s : Settings) : s.switches.length = skipOffset + s.skips.length := by
  simp [switches, skipOffset]
  omega

theorem eq_of_skips {ks ks' : List SkipSetting}
    (hname : ks.map SkipSetting.name = ks'.map SkipSetting.name)
    (henabled : ks.map SkipSetting.enabled = ks'.map SkipSetting.enabled) : ks = ks' := by
  induction ks generalizing ks' with
  | nil => simpa using hname.symm
  | cons k ks ih =>
    cases ks' with
    | nil => cases hname
    | cons k' ks' =>
      obtain ⟨hn, hns⟩ := List.cons.inj hname
      obtain ⟨he, hes⟩ := List.cons.inj henabled
      rw [ih hns hes]
      cases k
      cases k'
      cases hn
      cases he
      rfl

theorem Alike.eq_of_switches (h : s.Alike t) (hs : s.switches = t.switches) : s = t := by
  obtain ⟨version, name, pool, items, skips, ⟨mode, attempts⟩, maxAttempts, respect⟩ := s
  obtain ⟨version', name', pool', items', skips', ⟨mode', attempts'⟩, maxAttempts', respect'⟩ := t
  obtain ⟨hversion, hname, hitems, hskips, hattempts, hmax⟩ := h
  cases hversion
  cases hname
  cases hitems
  cases hattempts
  cases hmax
  obtain ⟨items, abilities, toggles, shops, keys, currency⟩ := pool
  obtain ⟨items', abilities', toggles', shops', keys', currency'⟩ := pool'
  simp only [switches, List.cons_append, List.nil_append, List.cons.injEq] at hs
  obtain ⟨rfl, rfl, rfl, rfl, rfl, rfl, hmode, rfl, henabled⟩ := hs
  obtain rfl : mode = mode' := by
    cases mode <;> cases mode' <;> first | rfl | cases hmode
  obtain rfl : skips = skips' := eq_of_skips hskips henabled
  rfl

theorem alike_ofFlags (flags : UInt64) (t : Settings) : (ofFlags flags t).Alike t where
  version := rfl
  name := rfl
  startingItems := rfl
  skips := by
    refine List.ext_getElem (by simp [ofFlags]) fun i hi hi' => ?_
    simp only [ofFlags, List.getElem_map, List.getElem_zipIdx]
    split <;> rfl
  swapAttempts := rfl
  maxAttempts := rfl

/-- Each switch of settings that come from a flag field is the bit in its place. -/
theorem switches_ofFlags (flags : UInt64) (h : t.skips.length ≤ maxSkipFlags) :
    (ofFlags flags t).switches = (List.range (skipOffset + t.skips.length)).map (bitOf flags) := by
  have hskips : (ofFlags flags t).skips.map SkipSetting.enabled =
      (List.range t.skips.length).map fun i => bitOf flags (skipOffset + i) := by
    refine List.ext_getElem (by simp [ofFlags]) fun i hi hi' => ?_
    have hlt : i < maxSkipFlags := Nat.lt_of_lt_of_le (by simpa using hi') h
    simp [ofFlags, hlt]
  have hmode : decide ((ofFlags flags t).transitions.mode = .randomized) = bitOf flags 6 := by
    cases hbit : bitOf flags 6 <;> simp [ofFlags, hbit]
  rw [switches, hskips, hmode, List.range_add, List.map_append, List.map_map]
  rfl

theorem toFlags_eq_error {e : TooManySkips} :
    s.toFlags = .error e ↔ maxSkipFlags < s.skips.length ∧ e = ⟨s.skips.length⟩ := by
  rw [toFlags]
  split
  · simp [*, eq_comm]
  · simp [*]

theorem toFlags_eq_ok (h : s.skips.length ≤ maxSkipFlags) : s.toFlags = .ok (packBits s.switches) :=
  if_neg (Nat.not_lt.2 h)

theorem length_switches_le (h : s.skips.length ≤ maxSkipFlags) : s.switches.length ≤ 64 := by
  rw [length_switches]
  simp only [maxSkipFlags, skipOffset] at h ⊢
  omega

theorem Alike.ofFlags_packBits (h : s.Alike t) (hs : s.skips.length ≤ maxSkipFlags) :
    ofFlags (packBits s.switches) t = s := by
  have hback := alike_ofFlags (packBits s.switches) t
  have hlength := h.length_eq
  refine Alike.eq_of_switches ⟨?_, ?_, ?_, ?_, ?_, ?_⟩ ?_
  · exact hback.version.trans h.version.symm
  · exact hback.name.trans h.name.symm
  · exact hback.startingItems.trans h.startingItems.symm
  · exact hback.skips.trans h.skips.symm
  · exact hback.swapAttempts.trans h.swapAttempts.symm
  · exact hback.maxAttempts.trans h.maxAttempts.symm
  · rw [switches_ofFlags _ (hlength ▸ hs), ← hlength, ← length_switches,
      map_bitOf_packBits (length_switches_le hs)]

/-- The settings that come from a flag field are packed into its lower bits. -/
theorem bitOf_packBits_ofFlags (flags : UInt64) (h : t.skips.length ≤ maxSkipFlags) (i : Nat) :
    bitOf (packBits (ofFlags flags t).switches) i =
      (decide (i < skipOffset + t.skips.length) && bitOf flags i) := by
  have hle : skipOffset + t.skips.length ≤ 64 := length_switches t ▸ length_switches_le h
  rw [bitOf_packBits, switches_ofFlags flags h, List.getElem?_map]
  by_cases hi : i < skipOffset + t.skips.length
  · simp [hi, Nat.lt_of_lt_of_le hi hle]
  · rw [List.getElem?_eq_none (by simpa using hi)]
    simp [hi]

end Settings

/-- A flag field loses nothing of what it packs. Its bits are the switches of the settings in order; it
is read back into any settings that differ from the packed ones only in what is on and off. What is
read from any field is packed into the same field again, but for the bits behind those of the skips.
Packing fails just if there are more skips than bits for them. -/
theorem flags_exact :
    (∀ (s : Settings) (e : TooManySkips), s.toFlags = .error e ↔
      maxSkipFlags < s.skips.length ∧ e = ⟨s.skips.length⟩) ∧
    (∀ s t : Settings, s.skips.length ≤ maxSkipFlags → s.Alike t →
      ∃ flags, s.toFlags = .ok flags ∧ Settings.ofFlags flags t = s ∧
        ∀ i, bitOf flags i = s.switches[i]?.getD false) ∧
    ∀ (flags : UInt64) (t : Settings), t.skips.length ≤ maxSkipFlags →
      ∃ flags', (Settings.ofFlags flags t).toFlags = .ok flags' ∧
        flags'.toNat = flags.toNat % 2 ^ (skipOffset + t.skips.length) ∧
        ∀ i, bitOf flags' i = (decide (i < skipOffset + t.skips.length) && bitOf flags i) := by
  refine ⟨fun s e => Settings.toFlags_eq_error, fun s t hs h => ?_, fun flags t ht => ?_⟩
  · refine ⟨_, Settings.toFlags_eq_ok hs, h.ofFlags_packBits hs, fun i => ?_⟩
    rw [bitOf_packBits]
    by_cases hi : i < s.switches.length
    · simp [Nat.lt_of_lt_of_le hi (Settings.length_switches_le hs)]
    · simp [List.getElem?_eq_none (Nat.le_of_not_lt hi)]
  · have hlength := (Settings.alike_ofFlags flags t).length_eq
    have hbits := Settings.bitOf_packBits_ofFlags flags ht
    refine ⟨_, Settings.toFlags_eq_ok (hlength ▸ ht), Nat.eq_of_testBit_eq fun i => ?_, hbits⟩
    rw [Nat.testBit_mod_two_pow]
    exact hbits i

def ledgeClip : Settings where
  skips := [⟨"LedgeClip", true⟩, ⟨"WallJump", false⟩]
  respectObtained := true

def wallJump : Settings where
  pool :=
    { items := false, abilities := true, toggles := true
      shops := false, keys := false, currency := true }
  skips := [⟨"LedgeClip", false⟩, ⟨"WallJump", true⟩]
  transitions := { mode := .randomized, swapAttempts := 200 }

theorem flags_exact_ledgeClip :
    ledgeClip.skips.length ≤ maxSkipFlags ∧ ledgeClip.Alike wallJump ∧
    ledgeClip.toFlags = .ok 411 ∧ Settings.ofFlags 411 wallJump = ledgeClip ∧
    ∃ flags, (Settings.ofFlags 0xFFFFFFFFFFFFFD9B wallJump).toFlags = .ok flags ∧
      flags.toNat = 411 := by
  have hle : ledgeClip.skips.length ≤ maxSkipFlags := by decide
  have halike : ledgeClip.Alike wallJump := ⟨rfl, rfl, rfl, rfl, rfl, rfl⟩
  obtain ⟨-, hpack, hread⟩ := flags_exact
  obtain ⟨flags, hflags, hback, -⟩ := hpack ledgeClip wallJump hle halike
  obtain ⟨flags', hflags', hlow, -⟩ := hread 0xFFFFFFFFFFFFFD9B wallJump (by decide)
  have h411 : ledgeClip.toFlags = .ok 411 := by decide
  obtain rfl : flags = 411 := Except.ok.inj (hflags.symm.trans h411)
  exact ⟨hle, halike, h411, hback, flags', hflags', hlow.trans (by decide)⟩

end WorldShuffle

namespace WorldShuffle

/-! The states of a generator are the multiples of the first by powers of one factor, modulo `2 ^ 128`.
The factor is one more than an odd multiple of four, so that the powers of it whose exponents double come
to one more than odd multiples of eight, sixteen and so on. Adding the right ones of these exponents
corrects one bit of a state after the other: an odd state leads to every other that agrees with it in
the lowest two bits. -/

def multiplier : BitVec 128 := 0x2360ED051FC65DA44385DF649FCCF645

def stride : Nat → BitVec 128
  | 0 => 1#128
  | k + 1 => multiplier * stride k

def doubled : Nat → BitVec 128
  | 0 => 1
  | j + 1 => 2 * doubled j

theorem stride_add (j k : Nat) : stride (j + k) = stride j * stride k := by
  induction j with
  | zero => simp [stride]
  | succ j ih => rw [Nat.succ_add, stride, stride, ih, BitVec.mul_assoc]

theorem exists_eq_doubled (c : BitVec 128) : ∃ d, c = 2 * d ∨ c = 1 + 2 * d := by
  refine ⟨c >>> 1, ?_⟩
  have hhalf : (c >>> 1).toNat = c.toNat / 2 := by
    rw [BitVec.toNat_ushiftRight, Nat.shiftRight_succ, Nat.shiftRight_zero]
  bv_omega

theorem stride_shift (j : Nat) : ∃ u, stride (1 <<< j) = 1 + doubled (j + 2) * (1 + 2 * u) := by
  induction j with
  | zero => exact ⟨multiplier >>> 3, by decide⟩
  | succ j ih =>
    obtain ⟨u, hu⟩ := ih
    refine ⟨u + doubled j * (1 + 2 * u) * (1 + 2 * u), ?_⟩
    rw [Nat.shiftLeft_succ, Nat.two_mul, stride_add, hu]
    simp only [doubled]
    grind

theorem lift_bit (t e d u : BitVec 128) :
    (1 + 2 * t + 4 * e * (1 + 2 * d)) * (1 + 4 * e * (1 + 2 * u)) =
      1 + 2 * t + 8 * e * (1 + d + t + u + 2 * t * u + 2 * e * (1 + 2 * d) * (1 + 2 * u)) := by
  grind

theorem exists_stride (t c : BitVec 128) (j : Nat) : ∃ k < 1 <<< j, ∃ c',
    (1 + 2 * t + 4 * c) * stride k = 1 + 2 * t + doubled (j + 2) * c' := by
  induction j with
  | zero => exact ⟨0, by decide, c, BitVec.mul_one _⟩
  | succ j ih =>
    obtain ⟨k, hk, c', hc⟩ := ih
    have hfour : doubled (j + 2) = 4 * doubled j := by
      simp only [doubled]
      grind
    have height : doubled (j + 3) = 8 * doubled j := by
      simp only [doubled]
      grind
    rw [Nat.shiftLeft_succ]
    obtain ⟨d, rfl | rfl⟩ := exists_eq_doubled c'
    · refine ⟨k, by omega, d, ?_⟩
      rw [hc, hfour, height]
      grind
    · obtain ⟨u, hu⟩ := stride_shift j
      refine ⟨k + 1 <<< j, by omega, 1 + d + t + u + 2 * t * u +
        2 * doubled j * (1 + 2 * d) * (1 + 2 * u), ?_⟩
      rw [stride_add, ← BitVec.mul_assoc, hc, hu, hfour, height]
      exact lift_bit t (doubled j) d u

theorem exists_stride_eq (t c : BitVec 128) :
    ∃ k < 1 <<< 126, (1 + 2 * t + 4 * c) * stride k = 1 + 2 * t := by
  obtain ⟨k, hk, c', hc⟩ := exists_stride t c 126
  have hzero : doubled 128 = 0 := by decide +kernel
  refine ⟨k, hk, ?_⟩
  rw [hc, hzero]
  grind

theorem exists_equal_halves {state : BitVec 128} (hodd : state.toNat % 2 = 1) :
    ∃ k < 1 <<< 126, state * stride k = 0x10000000000000001 ∨
      state * stride k = 0x30000000000000003 := by
  obtain ⟨d, rfl | rfl⟩ := exists_eq_doubled state
  · bv_omega
  obtain ⟨e, rfl | rfl⟩ := exists_eq_doubled d
  · obtain ⟨k, hk, heq⟩ := exists_stride_eq 0x8000000000000000 (e - 0x4000000000000000)
    refine ⟨k, hk, Or.inl ?_⟩
    rw [← (by grind : 1 + 2 * 0x8000000000000000 + 4 * (e - 0x4000000000000000) = 1 + 2 * (2 * e)), heq]
    decide
  · obtain ⟨k, hk, heq⟩ := exists_stride_eq 0x18000000000000001 (e - 0xC000000000000000)
    refine ⟨k, hk, Or.inr ?_⟩
    rw [← (by grind : 1 + 2 * 0x18000000000000001 + 4 * (e - 0xC000000000000000) =
      1 + 2 * (1 + 2 * e)), heq]
    decide

end WorldShuffle

import ModelAudit.Proofs.Decimal.Rounding

namespace ModelAudit.Binary64

theorem eq_of_magnitude {x y : Binary64} (hn : x.negative = y.negative)
    (hm : x.magnitude = y.magnitude) : x = y := by
  cases x
  cases y
  simp_all

-- A number is a multiple of its last place.
structure IsScaled (x : Binary64) (m : Nat) (e : Int) : Prop where
  least     : -1074 ≤ e
  fits      : m < 2 * binade
  finest    : e = -1074 ∨ binade ≤ m
  magnitude : m + (e + 1074).toNat * binade = x.magnitude

theorem isScaled (x : Binary64) : x.IsScaled x.scaled.1 x.scaled.2 := by
  unfold scaled
  split
  case isTrue h => exact ⟨Int.le_refl _, by dsimp; omega, .inl rfl, by simp⟩
  case isFalse h =>
    have hb : 0 < binade := by decide
    have hq : 1 ≤ x.magnitude / binade := (Nat.one_le_div_iff hb).mpr (Nat.not_lt.mp h)
    have hr : x.magnitude % binade < binade := Nat.mod_lt _ hb
    refine ⟨by dsimp; omega, by dsimp; omega, .inr (Nat.le_add_left ..), ?_⟩
    obtain ⟨k, hk⟩ : ∃ k, x.magnitude / binade = k + 1 := ⟨_, (Nat.sub_add_cancel hq).symm⟩
    have he : (((k + 1 : Nat) : Int) - 1075 + 1074).toNat = k := by omega
    have hd := Nat.div_add_mod x.magnitude binade
    rw [hk, Nat.mul_succ] at hd
    dsimp only
    rw [hk, he, Nat.mul_comm k]
    omega

namespace IsScaled

variable {x : Binary64} {m : Nat} {e : Int}

theorem ne_zero (h : x.IsScaled m e) (hx : x.magnitude ≠ 0) : m ≠ 0 := by
  rintro rfl
  have hm := h.magnitude
  cases h.finest
  case inl he => simp [he] at hm; omega
  case inr hb => exact absurd hb (by decide)

theorem two_pow_mul_zpow (e : Int) : (2 : ℚ) ^ (-e).toNat * 2 ^ e = 2 ^ e.toNat := by
  rw [two_zpow, mul_div_cancel₀ _ (by positivity)]

-- In the units of its last place the number is whole, and the place below would be too fine.
theorem isLastPlace (h : x.IsScaled m e) : IsLastPlace (m * 2 ^ e.toNat) (2 ^ (-e).toNat) e := by
  have hp : 0 < 2 ^ (-e).toNat := Nat.two_pow_pos _
  refine ⟨h.least, ?fits, fun e' hl he => Nat.not_lt.mp fun hu => ?finest⟩
  case fits =>
    have hm : (m : ℚ) < (2 * binade : Nat) := by exact_mod_cast h.fits
    rw [units_lt_iff hp, Nat.cast_mul, Nat.cast_pow, Nat.cast_pow, Nat.cast_ofNat, mul_assoc,
      two_pow_mul_zpow]
    exact mul_lt_mul_of_pos_right hm (by positivity)
  case finest =>
    have hb : (binade : ℚ) ≤ m := by
      have hb : binade ≤ m := h.finest.resolve_left (by omega)
      exact_mod_cast hb
    rw [units_lt_iff hp, Nat.cast_mul, Nat.cast_pow, Nat.cast_pow, Nat.cast_ofNat] at hu
    refine lt_irrefl ((m : ℚ) * 2 ^ e.toNat) ?_
    calc (m : ℚ) * 2 ^ e.toNat < (2 * binade : Nat) * 2 ^ (-e).toNat * 2 ^ e' := hu
      _ ≤ (2 * binade : Nat) * 2 ^ (-e).toNat * 2 ^ (e - 1) :=
        mul_le_mul_of_nonneg_left (zpow_le_zpow_right₀ (by norm_num) (by omega)) (by positivity)
      _ = binade * (2 ^ (-e).toNat * 2 ^ e) := by
        rw [zpow_sub_one₀ (by norm_num), Nat.cast_mul, Nat.cast_ofNat]
        ring
      _ ≤ m * 2 ^ e.toNat := by
        rw [two_pow_mul_zpow]
        exact mul_le_mul_of_nonneg_right hb (by positivity)

theorem roundDiv_eq (m : Nat) (e : Int) :
    roundDiv (m * 2 ^ e.toNat * 2 ^ (-e).toNat) (2 ^ (-e).toNat * 2 ^ e.toNat) = m := by
  have hp : 0 < 2 ^ (-e).toNat * 2 ^ e.toNat := Nat.mul_pos (Nat.two_pow_pos _) (Nat.two_pow_pos _)
  have hn : m * 2 ^ e.toNat * 2 ^ (-e).toNat = 2 ^ (-e).toNat * 2 ^ e.toNat * m := by ac_rfl
  have h := roundDiv_mul_left hp m 1
  rwa [Nat.mul_one, roundDiv_one, ← hn] at h

theorem ofFraction?_eq (h : x.IsScaled m e) (hx : x.magnitude ≠ 0) :
    ofFraction? x.negative (m * 2 ^ e.toNat) (2 ^ (-e).toNat) = some x := by
  have hm : m * 2 ^ e.toNat ≠ 0 := Nat.mul_ne_zero (h.ne_zero hx) (Nat.two_pow_pos _).ne'
  rw [ofFraction?_of_isLastPlace _ hm (Nat.two_pow_pos _) h.isLastPlace, roundDiv_eq, h.magnitude]
  exact ofMagnitude?_self x

end IsScaled

theorem le_log2_exact {m b : Nat} (hm : m ≠ 0) : b ≤ (m * 5 ^ b).log2 := by
  have h : 2 ^ b ≤ 5 ^ b := Nat.pow_le_pow_left (by decide) b
  exact (Nat.le_log2 (Nat.mul_ne_zero hm (Nat.pow_pos (by decide)).ne')).mpr <|
    Nat.le_trans h (Nat.le_mul_of_pos_left _ (Nat.pos_of_ne_zero hm))

theorem ofDecimal?_exact {x : Binary64} (hx : x.magnitude ≠ 0) :
    ofDecimal? x.negative x.exact = some x := by
  have hs := x.isScaled
  have hm : x.scaled.1 * 2 ^ x.scaled.2.toNat ≠ 0 :=
    Nat.mul_ne_zero (hs.ne_zero hx) (Nat.two_pow_pos _).ne'
  have hf : decimalFraction x.exact =
      (5 ^ (-x.scaled.2).toNat * (x.scaled.1 * 2 ^ x.scaled.2.toNat),
        5 ^ (-x.scaled.2).toNat * 2 ^ (-x.scaled.2).toNat) := by
    simp only [decimalFraction, exact, Nat.pow_eq, Int.toNat_neg_natCast, Int.neg_neg,
      Int.toNat_natCast, Nat.pow_zero, Nat.mul_one, ← Nat.mul_pow]
    rw [Nat.mul_comm]
  have hl := le_log2_exact (b := (-x.scaled.2).toNat) hm
  rw [ofDecimal?_eq_ofFraction?, hf, ofFraction?_mul_left (Nat.pow_pos (by decide)) _ _
    (Nat.two_pow_pos _)]
  · exact hs.ofFraction?_eq hx
  · exact Nat.mul_ne_zero hm (Nat.pow_pos (by decide)).ne'
  · simp only [exact]; omega
  · simp only [exact, Nat.pow_eq]; omega

theorem readsBack_shortest {x : Binary64} (hx : x.magnitude ≠ 0) : x.ReadsBack x.shortest := by
  rw [shortest, if_neg hx]
  cases hf : (List.range 22).findSome? fun i : Nat => x.hit? (x.coarsest - i)
  case none => exact congrArg (Option.map _) (ofDecimal?_exact hx)
  case some d =>
    have ⟨_, _, h⟩ := List.exists_of_findSome?_eq_some hf
    exact readsBack_of_hit? h

-- A number other than zero is what its shortest decimal is read as.
theorem ofDecimal?_shortest {x : Binary64} (hx : x.magnitude ≠ 0) :
    ofDecimal? x.negative x.shortest = some x := by
  obtain ⟨y, hy, hm⟩ := Option.map_eq_some_iff.mp (readsBack_shortest hx)
  rw [hy, eq_of_magnitude (negative_of_ofDecimal? hy) hm]

end ModelAudit.Binary64

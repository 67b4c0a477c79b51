import ModelAudit.Decimal.Shortest
import Mathlib.Algebra.Order.Field.Power
import Mathlib.Data.Rat.Cast.Order
import Mathlib.Tactic.Linarith
import Mathlib.Tactic.Ring

namespace ModelAudit

theorem roundDiv_mul_left {k : Nat} (hk : 0 < k) (num den : Nat) :
    roundDiv (k * num) (k * den) = roundDiv num den := by
  have hq : k * num / (k * den) = num / den := Nat.mul_div_mul_left _ _ hk
  have hr : k * num % (k * den) = k * (num % den) := Nat.mul_mod_mul_left ..
  have hl : 2 * (k * (num % den)) < k * den ↔ 2 * (num % den) < den := by
    rw [Nat.mul_left_comm]
    exact Nat.mul_lt_mul_left hk
  have he : 2 * (k * (num % den)) = k * den ↔ 2 * (num % den) = den := by
    rw [Nat.mul_left_comm]
    exact Nat.mul_right_inj hk.ne'
  simp only [roundDiv, hq, hr, hl, he]

theorem roundDiv_one (num : Nat) : roundDiv num 1 = num := by
  simp [roundDiv, Nat.mod_one]

namespace Binary64

-- How often the unit with the given exponent goes into a fraction.
def units (num den : Nat) (e : Int) : Nat :=
  num * 2 ^ (-e).toNat / (den * 2 ^ e.toNat)

-- The last place of a fraction is the finest unit of the format that goes into it less than 2 ^ 53 times.
structure IsLastPlace (num den : Nat) (e : Int) : Prop where
  least  : -1074 ≤ e
  fits   : units num den e < 2 * binade
  finest : ∀ e', -1074 ≤ e' → e' < e → 2 * binade ≤ units num den e'

variable {num den : Nat} {e e' : Int}

theorem IsLastPlace.unique (h : IsLastPlace num den e) (h' : IsLastPlace num den e') : e = e' := by
  rcases lt_trichotomy e e' with hl | he | hl
  · exact absurd h.fits <| Nat.not_lt.mpr <| h'.finest _ h.least hl
  · exact he
  · exact absurd h'.fits <| Nat.not_lt.mpr <| h.finest _ h'.least hl

theorem two_zpow (e : Int) : (2 : ℚ) ^ e = 2 ^ e.toNat / 2 ^ (-e).toNat := by
  rcases Int.le_total 0 e with h | h
  · lift e to Nat using h
    simp
  · obtain ⟨n, rfl⟩ : ∃ n : Nat, e = -n := ⟨(-e).toNat, by omega⟩
    simp

theorem units_lt_iff (hd : 0 < den) {n : Nat} :
    units num den e < n ↔ (num : ℚ) < n * den * 2 ^ e := by
  have hb : 0 < den * 2 ^ e.toNat := Nat.mul_pos hd (Nat.two_pow_pos _)
  rw [units, Nat.div_lt_iff_lt_mul hb, two_zpow, ← mul_div_assoc, lt_div_iff₀ (by positivity)]
  rw [← Nat.cast_lt (α := ℚ)]
  push_cast
  rw [mul_assoc]

theorem units_antitone (hd : 0 < den) (he : e ≤ e') : units num den e' ≤ units num den e := by
  have h : (num : ℚ) < (units num den e + 1 : Nat) * den * 2 ^ e :=
    (units_lt_iff hd).mp (Nat.lt_succ_self _)
  refine Nat.le_of_lt_succ <| (units_lt_iff hd).mpr <| lt_of_lt_of_le h ?_
  exact mul_le_mul_of_nonneg_left (zpow_le_zpow_right₀ (by norm_num) he) (by positivity)

theorem cast_two_mul_binade : ((2 * binade : Nat) : ℚ) = 2 ^ (53 : Int) := by
  norm_num [binade]

theorem lt_two_zpow_log2 (hd : den ≠ 0) :
    (num : ℚ) < den * 2 ^ ((num.log2 : Int) - den.log2 + 1) := by
  have hn' : (num : ℚ) < 2 ^ (num.log2 + 1) := by exact_mod_cast Nat.lt_log2_self
  have hd' : (2 : ℚ) ^ den.log2 ≤ den := by exact_mod_cast Nat.log2_self_le hd
  calc (num : ℚ) < 2 ^ (num.log2 + 1) := hn'
    _ = 2 ^ den.log2 * 2 ^ ((num.log2 : Int) - den.log2 + 1) := by
      rw [← zpow_natCast, ← zpow_natCast, ← zpow_add₀ (by norm_num)]
      congr 1
      push_cast
      ring
    _ ≤ den * 2 ^ ((num.log2 : Int) - den.log2 + 1) :=
      mul_le_mul_of_nonneg_right hd' (by positivity)

theorem two_zpow_log2_lt (hn : num ≠ 0) :
    (den : ℚ) * 2 ^ ((num.log2 : Int) - den.log2 - 1) < num := by
  have hn' : (2 : ℚ) ^ num.log2 ≤ num := by exact_mod_cast Nat.log2_self_le hn
  have hd' : (den : ℚ) < 2 ^ (den.log2 + 1) := by exact_mod_cast Nat.lt_log2_self
  calc (den : ℚ) * 2 ^ ((num.log2 : Int) - den.log2 - 1)
      < 2 ^ (den.log2 + 1) * 2 ^ ((num.log2 : Int) - den.log2 - 1) :=
        mul_lt_mul_of_pos_right hd' (by positivity)
    _ = 2 ^ num.log2 := by
      rw [← zpow_natCast, ← zpow_natCast, ← zpow_add₀ (by norm_num)]
      congr 1
      push_cast
      ring
    _ ≤ num := hn'

-- The place that the number of binary digits leads to, and the one above it if that is too fine.
def guess (num den : Nat) : Int :=
  max ((num.log2 : Int) - den.log2 - 53) (-1074)

def lastPlace (num den : Nat) : Int :=
  if units num den (guess num den) < 2 * binade then guess num den else guess num den + 1

theorem units_succ_guess_lt (hd : 0 < den) : units num den (guess num den + 1) < 2 * binade := by
  rw [units_lt_iff hd]
  have hl : (num.log2 : Int) - den.log2 + 1 ≤ 53 + (guess num den + 1) := by
    simp only [guess]
    omega
  calc (num : ℚ) < den * 2 ^ ((num.log2 : Int) - den.log2 + 1) := lt_two_zpow_log2 hd.ne'
    _ ≤ den * 2 ^ (53 + (guess num den + 1)) :=
      mul_le_mul_of_nonneg_left (zpow_le_zpow_right₀ (by norm_num) hl) (by positivity)
    _ = (2 * binade : Nat) * den * 2 ^ (guess num den + 1) := by
      rw [cast_two_mul_binade, zpow_add₀ (by norm_num)]
      ring

theorem le_units_of_lt_guess (hn : num ≠ 0) (hd : 0 < den) (hl : -1074 ≤ e)
    (he : e < guess num den) : 2 * binade ≤ units num den e := by
  refine Nat.not_lt.mp fun h => ?_
  rw [units_lt_iff hd] at h
  have hg : 53 + e ≤ (num.log2 : Int) - den.log2 - 1 := by
    simp only [guess] at he
    omega
  refine lt_irrefl (num : ℚ) ?_
  calc (num : ℚ) < (2 * binade : Nat) * den * 2 ^ e := h
    _ = den * 2 ^ (53 + e) := by
      rw [cast_two_mul_binade, zpow_add₀ (by norm_num)]
      ring
    _ ≤ den * 2 ^ ((num.log2 : Int) - den.log2 - 1) :=
      mul_le_mul_of_nonneg_left (zpow_le_zpow_right₀ (by norm_num) hg) (by positivity)
    _ < num := two_zpow_log2_lt hn

theorem isLastPlace_lastPlace (hn : num ≠ 0) (hd : 0 < den) :
    IsLastPlace num den (lastPlace num den) := by
  have hg : -1074 ≤ guess num den := Int.le_max_right ..
  unfold lastPlace
  split
  case isTrue hf => exact ⟨hg, hf, fun e' hl he => le_units_of_lt_guess hn hd hl he⟩
  case isFalse hf =>
    refine ⟨by omega, units_succ_guess_lt hd, fun e' hl he => ?_⟩
    exact Nat.le_trans (Nat.not_lt.mp hf) <| units_antitone hd (by omega)

theorem ofFraction?_of_isLastPlace (negative : Bool) (hn : num ≠ 0) (hd : 0 < den)
    (h : IsLastPlace num den e) : ofFraction? negative num den =
      ofMagnitude? negative (roundDiv (num * 2 ^ (-e).toNat) (den * 2 ^ e.toNat) +
        (e + 1074).toNat * binade) := by
  have he : lastPlace num den = e := (isLastPlace_lastPlace hn hd).unique h
  subst he
  rw [ofFraction?, if_neg hn]
  rfl

theorem units_mul_left {k : Nat} (hk : 0 < k) (num den : Nat) (e : Int) :
    units (k * num) (k * den) e = units num den e := by
  rw [units, units, Nat.mul_assoc, Nat.mul_assoc, Nat.mul_div_mul_left _ _ hk]

-- Only the value of a fraction counts.
theorem ofFraction?_mul_left {k : Nat} (hk : 0 < k) (negative : Bool) (num : Nat) (hd : 0 < den) :
    ofFraction? negative (k * num) (k * den) = ofFraction? negative num den := by
  by_cases hn : num = 0
  case pos => simp [ofFraction?, hn]
  case neg =>
    have h := isLastPlace_lastPlace hn hd
    have h' : IsLastPlace (k * num) (k * den) (lastPlace num den) := by
      refine ⟨h.least, ?_, fun e' hl he => ?_⟩
      · rw [units_mul_left hk]
        exact h.fits
      · rw [units_mul_left hk]
        exact h.finest e' hl he
    rw [ofFraction?_of_isLastPlace negative (Nat.mul_ne_zero hk.ne' hn) (Nat.mul_pos hk hd) h',
      ofFraction?_of_isLastPlace negative hn hd h, Nat.mul_assoc, Nat.mul_assoc, roundDiv_mul_left hk]

-- The cases that are decided without the power of ten are left aside.
theorem ofDecimal?_eq_ofFraction? {d : Decimal} (negative : Bool) (hd : d.digits ≠ 0)
    (hl : d.exponent ≤ 310) (hs : -330 ≤ d.exponent + d.digits.log2) :
    ofDecimal? negative d =
      ofFraction? negative (decimalFraction d).1 (decimalFraction d).2 := by
  rw [ofDecimal?, if_neg hd, if_neg (by omega), if_neg (by omega)]

theorem decimalFraction_den_pos (d : Decimal) : 0 < (decimalFraction d).2 :=
  Nat.pow_pos (by decide)

-- A whole number may be written with a zero behind the point.
theorem ofDecimal?_tenth (negative : Bool) {n k : Nat} (hn : n ≠ 0) (hk : k ≤ 310) :
    ofDecimal? negative ⟨n * 10 ^ (k + 1), -1⟩ = ofDecimal? negative ⟨n, k⟩ := by
  have hm : n * 10 ^ (k + 1) ≠ 0 := Nat.mul_ne_zero hn (Nat.pow_pos (by decide)).ne'
  have hf : decimalFraction ⟨n * 10 ^ (k + 1), -1⟩ = (10 * (n * 10 ^ k), 10 * 1) := by
    simp [decimalFraction, Nat.pow_succ, Nat.mul_left_comm, Nat.mul_comm]
  have hf' : decimalFraction ⟨n, k⟩ = (n * 10 ^ k, 1) := by
    simp [decimalFraction]
  rw [ofDecimal?_eq_ofFraction? negative hm (by simp) (by dsimp; omega),
    ofDecimal?_eq_ofFraction? negative hn (by dsimp; omega) (by dsimp; omega), hf, hf']
  exact ofFraction?_mul_left (by decide) negative _ (by decide)

section Inversion

variable {negative : Bool} {x : Binary64} {d : Decimal}

theorem ofMagnitude?_self (x : Binary64) : ofMagnitude? x.negative x.magnitude = some x :=
  dif_pos x.magnitude_lt

theorem ofMagnitude?_eq_some {magnitude : Nat} (h : ofMagnitude? negative magnitude = some x) :
    x.negative = negative ∧ x.magnitude = magnitude := by
  unfold ofMagnitude? at h
  split at h <;> cases h
  exact ⟨rfl, rfl⟩

theorem negative_of_ofFraction? (h : ofFraction? negative num den = some x) :
    x.negative = negative := by
  unfold ofFraction? at h
  split at h
  · cases h
    rfl
  · exact (ofMagnitude?_eq_some h).left

-- A decimal that is read as some number other than zero is read as the number nearest to its fraction.
theorem ofFraction?_of_ofDecimal? (h : ofDecimal? negative d = some x) (hx : x.magnitude ≠ 0) :
    d.digits ≠ 0 ∧
      ofFraction? negative (decimalFraction d).1 (decimalFraction d).2 = some x := by
  unfold ofDecimal? at h
  split at h
  · cases h
    exact absurd rfl hx
  · rename_i hd
    split at h
    · cases h
    · split at h
      · cases h
        exact absurd rfl hx
      · exact ⟨hd, h⟩

theorem decimalFraction_num_ne_zero (h : d.digits ≠ 0) : (decimalFraction d).1 ≠ 0 :=
  Nat.mul_ne_zero h (Nat.pow_pos (by decide)).ne'

-- What is larger than any number of the format is not read as one.
theorem lt_of_ofFraction? (hn : num ≠ 0) (hd : 0 < den)
    (h : ofFraction? negative num den = some x) : num < 2 ^ 1025 * den := by
  have hl := isLastPlace_lastPlace hn hd
  rw [ofFraction?_of_isLastPlace negative hn hd hl] at h
  have ⟨_, hm⟩ := ofMagnitude?_eq_some h
  have hc : (lastPlace num den + 1074).toNat * binade < 2047 * binade :=
    Nat.lt_of_le_of_lt (hm ▸ Nat.le_add_left ..) x.magnitude_lt
  have he : lastPlace num den ≤ 972 := by
    have := Nat.lt_of_mul_lt_mul_right hc
    omega
  have hf := (units_lt_iff hd).mp hl.fits
  rw [← Nat.cast_lt (α := ℚ)]
  calc (num : ℚ) < (2 * binade : Nat) * den * 2 ^ lastPlace num den := hf
    _ ≤ (2 * binade : Nat) * den * 2 ^ (972 : Int) :=
      mul_le_mul_of_nonneg_left (zpow_le_zpow_right₀ (by norm_num) he) (by positivity)
    _ = 2 ^ ((1025 : Nat) : Int) * den := by
      rw [cast_two_mul_binade, mul_right_comm, ← zpow_add₀ (by norm_num), Nat.cast_ofNat]
      norm_num only
    _ = (2 ^ 1025 * den : Nat) := by rw [Nat.cast_mul, Nat.cast_pow, zpow_natCast, Nat.cast_ofNat]

theorem negative_of_ofDecimal? (h : ofDecimal? negative d = some x) : x.negative = negative := by
  unfold ofDecimal? at h
  split at h
  · cases h
    rfl
  · split at h
    · cases h
    · split at h
      · cases h
        rfl
      · exact negative_of_ofFraction? h

end Inversion

end Binary64

end ModelAudit

import Mathlib.Algebra.Order.Field.Power
import Mathlib.Data.Rat.Cast.Order
import Mathlib.Tactic.Linarith
import Mathlib.Tactic.Ring
import Morphology.Number.Binary64

/-! Integers as binary64 numbers. An integer is rounded to 53 significant bits, a tie to the even one; numbers whose
mantissas are normal are the same just where their values are. So two integers are told apart as binary64 numbers unless
they are rounded to one, which no two different ones below `2 ^ 53` are. -/

namespace Morphology.Binary64

/-! ## Rounding to 53 bits -/

section Quotient

variable {num den : Nat}

theorem divHalfEven_one (num : Nat) : divHalfEven num 1 = num := by
  simp [divHalfEven, Nat.mod_one]

theorem le_divHalfEven (num den : Nat) : num / den ≤ divHalfEven num den := by
  simp only [divHalfEven]
  split <;> omega

theorem divHalfEven_le (num den : Nat) : divHalfEven num den ≤ num / den + 1 := by
  simp only [divHalfEven]
  split <;> omega

/-- The quotient that is taken is a nearest one. -/
theorem two_mul_divHalfEven (hden : 0 < den) :
    2 * num ≤ 2 * (divHalfEven num den * den) + den ∧ 2 * (divHalfEven num den * den) ≤ 2 * num + den := by
  have hnum := Nat.div_add_mod' num den
  have hmod := Nat.mod_lt num hden
  simp only [divHalfEven]
  split
  · omega
  · rw [Nat.add_one_mul (num / den) den]
    omega

end Quotient

/-- The last of the 53 bits that are kept of `num`. -/
def lastPlace (num : Nat) : Nat := 2 ^ (num.log2 - 52)

/-- The mantissa of `num` in units of the last place. -/
def roundedMantissa (num : Nat) : Nat := divHalfEven num (lastPlace num)

/-- The integer with 53 significant bits that is nearest to `n`. -/
def rounded (n : Int) : Int := n.sign * (roundedMantissa n.natAbs * lastPlace n.natAbs : Nat)

section Rounded

variable {num : Nat} {n : Int}

theorem lastPlace_pos (num : Nat) : 0 < lastPlace num := Nat.two_pow_pos _

theorem roundedMantissa_le (num : Nat) : roundedMantissa num ≤ 2 * leastNormal := by
  have hlt : num / lastPlace num < 2 ^ 53 := by
    rw [Nat.div_lt_iff_lt_mul (lastPlace_pos num), lastPlace, ← Nat.pow_add]
    exact Nat.lt_of_lt_of_le Nat.lt_log2_self (Nat.pow_le_pow_right (by decide) (by omega))
  exact (divHalfEven_le _ _).trans hlt

/-- From the 53rd bit on no mantissa is too short. -/
theorem le_roundedMantissa (h : 52 ≤ num.log2) : leastNormal ≤ roundedMantissa num := by
  have hne : num ≠ 0 := by
    rintro rfl
    simp at h
  refine le_trans ?_ (le_divHalfEven num (lastPlace num))
  rw [Nat.le_div_iff_mul_le (lastPlace_pos num), lastPlace, show leastNormal = 2 ^ 52 from rfl, ← Nat.pow_add,
    Nat.add_sub_cancel' h]
  exact Nat.log2_self_le hne

theorem roundedMantissa_of_lt (h : num.log2 < 53) : roundedMantissa num = num ∧ lastPlace num = 1 := by
  have hplace : lastPlace num = 1 := by
    rw [lastPlace, Nat.sub_eq_zero_of_le (Nat.le_of_lt_succ h), Nat.pow_zero]
  exact ⟨by rw [roundedMantissa, hplace, divHalfEven_one], hplace⟩

theorem log2_lt_of_lt {bits : Nat} (hbits : 0 < bits) (h : num < 2 ^ bits) : num.log2 < bits := by
  by_cases hzero : num = 0
  · simpa [hzero] using hbits
  · exact (Nat.log2_lt hzero).mpr h

theorem rounded_of_lt (h : n.natAbs < 2 ^ 53) : rounded n = n := by
  obtain ⟨hmantissa, hplace⟩ := roundedMantissa_of_lt (log2_lt_of_lt (by decide) h)
  rw [rounded, hmantissa, hplace, Nat.mul_one, Int.sign_mul_natAbs]

theorem le_natAbs_rounded (h : 2 ^ 53 ≤ n.natAbs) : 2 ^ 53 ≤ (rounded n).natAbs := by
  have hne : n.natAbs ≠ 0 := by omega
  have hlog : 53 ≤ n.natAbs.log2 := (Nat.le_log2 hne).mpr h
  have hmantissa : 2 ^ 52 ≤ roundedMantissa n.natAbs := le_roundedMantissa (by omega)
  have hplace : 2 ^ 1 ≤ lastPlace n.natAbs := Nat.pow_le_pow_right (by decide) (by omega)
  rw [rounded, Int.natAbs_mul, Int.natAbs_sign_of_ne_zero (Int.natAbs_ne_zero.mp hne), Nat.one_mul, Int.natAbs_natCast]
  exact Nat.mul_le_mul hmantissa hplace

/-- Nothing else is rounded to an integer of at most 53 bits. -/
theorem rounded_eq_iff_of_lt {i j : Int} (h : i.natAbs < 2 ^ 53) : rounded j = rounded i ↔ j = i := by
  constructor
  · intro heq
    rw [rounded_of_lt h] at heq
    by_cases hj : j.natAbs < 2 ^ 53
    · rwa [rounded_of_lt hj] at heq
    · have hle := le_natAbs_rounded (Nat.le_of_not_lt hj)
      rw [heq] at hle
      omega
  · rintro rfl
    rfl

/-- Rounding changes an integer by half a unit of the last place at most. -/
theorem two_mul_rounded_sub_le (n : Int) : |2 * rounded n - 2 * n| ≤ lastPlace n.natAbs := by
  obtain ⟨hle, hge⟩ := @two_mul_divHalfEven n.natAbs _ (lastPlace_pos n.natAbs)
  have hrounded : rounded n = n.sign * (divHalfEven n.natAbs (lastPlace n.natAbs) * lastPlace n.natAbs : Nat) := rfl
  rw [abs_le, hrounded]
  rcases lt_trichotomy n 0 with hn | rfl | hn
  · rw [Int.sign_eq_neg_one_of_neg hn]
    omega
  · simp
  · rw [Int.sign_eq_one_of_pos hn]
    omega

theorem lastPlace_le (h : num < 2 ^ 64) : lastPlace num ≤ 2 ^ 11 := by
  have hlog := log2_lt_of_lt (by decide) h
  exact Nat.pow_le_pow_right (by decide) (by omega)

/-- Integers of 64 bits that are rounded to one lie close together. -/
theorem abs_sub_le_of_rounded_eq {i j : Int} (hi : i.natAbs < 2 ^ 64) (hj : j.natAbs < 2 ^ 64)
    (h : rounded j = rounded i) : |j - i| ≤ 2 ^ 11 := by
  have hplace := lastPlace_le hi
  have hplace' := lastPlace_le hj
  have hnear := abs_le.mp (two_mul_rounded_sub_le i)
  have hnear' := abs_le.mp (two_mul_rounded_sub_le j)
  rw [abs_le]
  omega

end Rounded

/-! ## Values -/

def value (x : Binary64) : ℚ := (if x.negative then -1 else 1) * x.mantissa * 2 ^ x.exponent

/-- Nothing, or a mantissa of 53 bits. -/
def IsNormal (x : Binary64) : Prop := x.mantissa = 0 ∨ leastNormal ≤ x.mantissa ∧ x.mantissa < 2 * leastNormal

/-- Of two mantissas of 53 bits, the one with the greater exponent makes the greater number. -/
theorem exponent_le_of_le {m m' : Nat} {q q' : Int} (hm : leastNormal ≤ m) (hm' : m' < 2 * leastNormal)
    (h : (m : ℚ) * 2 ^ q ≤ m' * 2 ^ q') : q ≤ q' := by
  by_contra hlt
  have hpow : (2 : ℚ) ^ (q' + 1) ≤ 2 ^ q := zpow_le_zpow_right₀ (by norm_num) (by omega)
  have hstep : (2 : ℚ) ^ (q' + 1) = 2 ^ q' * 2 := zpow_add_one₀ (by norm_num) q'
  have hpos : (0 : ℚ) < 2 ^ q' := zpow_pos (by norm_num) q'
  have hm : (leastNormal : ℚ) ≤ m := by exact_mod_cast hm
  have hm' : (m' : ℚ) < 2 * leastNormal := by exact_mod_cast hm'
  have hless : (m' : ℚ) * 2 ^ q' < m * 2 ^ q :=
    calc (m' : ℚ) * 2 ^ q' < 2 * leastNormal * 2 ^ q' := by gcongr
      _ = leastNormal * 2 ^ (q' + 1) := by rw [hstep]; ring
      _ ≤ m * 2 ^ q := by gcongr
  exact absurd h (not_le.mpr hless)

section Same

variable {x y : Binary64}

theorem abs_value (x : Binary64) : |x.value| = x.mantissa * 2 ^ x.exponent := by
  have hpos : (0 : ℚ) ≤ x.mantissa * 2 ^ x.exponent := by positivity
  unfold value
  split
  · rw [neg_one_mul, neg_mul, abs_neg, abs_of_nonneg hpos]
  · rw [one_mul, abs_of_nonneg hpos]

theorem value_eq_zero : x.value = 0 ↔ x.mantissa = 0 := by
  have hpow : (2 : ℚ) ^ x.exponent ≠ 0 := (zpow_pos (by norm_num) _).ne'
  rw [← abs_eq_zero, abs_value]
  simp [hpow]

theorem same_iff : x.same y = true ↔ x = y ∨ x.mantissa = 0 ∧ y.mantissa = 0 := by
  simp [same]

/-- Normal numbers are the same just where their values are equal. -/
theorem same_iff_value (hx : x.IsNormal) (hy : y.IsNormal) : x.same y = true ↔ x.value = y.value := by
  rw [same_iff]
  constructor
  · rintro (rfl | ⟨hx₀, hy₀⟩)
    · rfl
    · rw [value_eq_zero.mpr hx₀, value_eq_zero.mpr hy₀]
  · intro h
    by_cases hzero : x.mantissa = 0
    · exact .inr ⟨hzero, value_eq_zero.mp (h ▸ value_eq_zero.mpr hzero)⟩
    · have hzero' : y.mantissa ≠ 0 := fun hy₀ => hzero (value_eq_zero.mp (h.trans (value_eq_zero.mpr hy₀)))
      obtain ⟨hle, hlt⟩ := hx.resolve_left hzero
      obtain ⟨hle', hlt'⟩ := hy.resolve_left hzero'
      have habs : (x.mantissa : ℚ) * 2 ^ x.exponent = y.mantissa * 2 ^ y.exponent := by
        rw [← abs_value, ← abs_value, h]
      have hexponent : x.exponent = y.exponent :=
        le_antisymm (exponent_le_of_le hle hlt' habs.le) (exponent_le_of_le hle' hlt habs.ge)
      have hmantissa : x.mantissa = y.mantissa := by
        rw [hexponent] at habs
        exact_mod_cast mul_right_cancel₀ (zpow_pos (by norm_num : (0 : ℚ) < 2) y.exponent).ne' habs
      have hnegative : x.negative = y.negative := by
        by_contra hne
        have hopposite : x.value = -y.value := by
          unfold value
          rw [hexponent, hmantissa]
          cases hsign : x.negative <;> cases hsign' : y.negative <;> simp_all
        have hnone : y.value = 0 := by linarith
        exact hzero' (value_eq_zero.mp hnone)
      obtain ⟨_, _, _⟩ := x
      obtain ⟨_, _, _⟩ := y
      cases hexponent
      cases hmantissa
      cases hnegative
      exact .inl rfl

end Same

/-! ## Integers -/

section Integers

variable {num : Nat} {n : Int}

theorem scale_of_le {e : Int} (h : 0 ≤ e) : scale num 1 e = (num, 2 ^ e.toNat) := by
  rw [scale, if_pos h, Nat.shiftLeft_eq, Nat.one_mul]

theorem scale_of_lt {e : Int} (h : e < 0) : scale num 1 e = (num * 2 ^ (-e).toNat, 1) := by
  rw [scale, if_neg (by omega), Nat.shiftLeft_eq]

/-- The exponent of the last one of 53 bits. -/
theorem exponentFor_one (h : num ≠ 0) : exponentFor num 1 = (num.log2 : Int) - 52 := by
  have hle := Nat.log2_self_le h
  have hestimate : 2 ^ 53 ≤ (scale num 1 (num.log2 - 53)).1 / (scale num 1 (num.log2 - 53)).2 := by
    by_cases hsign : 0 ≤ (num.log2 : Int) - 53
    · rw [scale_of_le hsign, Nat.le_div_iff_mul_le (Nat.two_pow_pos _), ← Nat.pow_add]
      exact le_trans (Nat.pow_le_pow_right (by decide) (by omega)) hle
    · rw [scale_of_lt (by omega), Nat.div_one]
      refine le_trans ?_ (Nat.mul_le_mul_right _ hle)
      rw [← Nat.pow_add]
      exact Nat.pow_le_pow_right (by decide) (by omega)
  have hestimate : 2 * leastNormal ≤ _ := hestimate
  simp only [exponentFor, show Nat.log2 1 = 0 by decide, Nat.cast_zero, sub_zero, if_pos hestimate, leastExponent]
  omega

/-- The mantissa that is found at that exponent has the value of the rounded one. -/
theorem divHalfEven_scale (h : num ≠ 0) {a b : Nat} (hscale : scale num 1 (num.log2 - 52) = (a, b)) :
    (divHalfEven a b : ℚ) * 2 ^ ((num.log2 : Int) - 52) = (roundedMantissa num * lastPlace num : Nat) ∧
      leastNormal ≤ divHalfEven a b ∧ divHalfEven a b ≤ 2 * leastNormal := by
  by_cases hlog : 52 ≤ num.log2
  · have hexponent : (num.log2 : Int) - 52 = (num.log2 - 52 : Nat) := by omega
    rw [scale_of_le (by omega), hexponent, Int.toNat_natCast] at hscale
    cases hscale
    refine ⟨?_, le_roundedMantissa hlog, roundedMantissa_le num⟩
    rw [hexponent, zpow_natCast, Nat.cast_mul, lastPlace, Nat.cast_pow, Nat.cast_ofNat]
    rfl
  · have hexponent : (-((num.log2 : Int) - 52)).toNat = 52 - num.log2 := by omega
    rw [scale_of_lt (by omega), hexponent] at hscale
    cases hscale
    obtain ⟨hmantissa, hplace⟩ := @roundedMantissa_of_lt num (by omega)
    rw [divHalfEven_one, hmantissa, hplace, Nat.mul_one, Nat.cast_mul, Nat.cast_pow, Nat.cast_ofNat, mul_assoc,
      ← zpow_natCast, ← zpow_add₀ (by norm_num)]
    refine ⟨?_, ?_, ?_⟩
    · rw [show ((52 - num.log2 : Nat) : Int) + ((num.log2 : Int) - 52) = 0 by omega, zpow_zero, mul_one]
    · refine le_trans ?_ (Nat.mul_le_mul_right _ (Nat.log2_self_le h))
      rw [← Nat.pow_add, Nat.add_sub_cancel' (by omega)]
      exact le_rfl
    · refine le_trans (Nat.mul_le_mul_right _ Nat.lt_log2_self.le) ?_
      rw [← Nat.pow_add, show num.log2 + 1 + (52 - num.log2) = 53 by omega]
      exact le_rfl

/-- An integer of 64 bits becomes the number of the value it is rounded to. -/
theorem ofInt_spec (h : n.natAbs < 2 ^ 64) : (ofInt n).IsNormal ∧ (ofInt n).value = rounded n := by
  by_cases hzero : n = 0
  · subst hzero
    refine ⟨.inl rfl, ?_⟩
    rw [value_eq_zero.mpr rfl]
    simp [rounded]
  · have hne : n.natAbs ≠ 0 := Int.natAbs_ne_zero.mpr hzero
    have hlog : n.natAbs.log2 < 64 := (Nat.log2_lt hne).mpr h
    have hsign : (if decide (n < 0) = true then -1 else 1 : ℚ) = n.sign := by
      rcases lt_or_gt_of_ne hzero with hn | hn
      · simp [hn, Int.sign_eq_neg_one_of_neg hn]
      · simp [hn.not_gt, Int.sign_eq_one_of_pos hn]
    cases hscale : scale n.natAbs 1 (n.natAbs.log2 - 52) with
    | mk a b =>
      obtain ⟨hvalue, hle, hle'⟩ := divHalfEven_scale hne hscale
      have hrounded : (rounded n : ℚ) = n.sign * (divHalfEven a b * 2 ^ ((n.natAbs.log2 : Int) - 52)) := by
        rw [hvalue, rounded, Int.cast_mul, Int.cast_natCast]
      simp only [ofInt, ofQuotient?, if_neg hne, exponentFor_one hne, hscale]
      by_cases htop : divHalfEven a b = 2 * leastNormal
      · simp only [htop, if_true, greatestExponent]
        rw [if_pos (by omega), Option.getD_some, hrounded, htop]
        refine ⟨.inr ⟨le_rfl, show leastNormal < 2 * leastNormal by decide⟩, ?_⟩
        rw [value, hsign, zpow_add_one₀ (by norm_num)]
        push_cast
        ring
      · simp only [htop, if_false, greatestExponent]
        rw [if_pos (by omega), Option.getD_some, hrounded]
        refine ⟨.inr ⟨hle, lt_of_le_of_ne hle' htop⟩, ?_⟩
        simp only [value, hsign, mul_assoc]

/-- Integers are told apart as binary64 numbers just where they are rounded to different ones. -/
theorem same_ofInt_iff {m n : Int} (hm : m.natAbs < 2 ^ 64) (hn : n.natAbs < 2 ^ 64) :
    (ofInt m).same (ofInt n) = true ↔ rounded m = rounded n := by
  obtain ⟨hnormal, hvalue⟩ := ofInt_spec hm
  obtain ⟨hnormal', hvalue'⟩ := ofInt_spec hn
  rw [same_iff_value hnormal hnormal', hvalue, hvalue', Int.cast_inj]

end Integers

end Morphology.Binary64

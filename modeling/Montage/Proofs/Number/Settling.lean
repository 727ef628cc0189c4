import Mathlib.Algebra.Order.Field.Basic
import Montage.Proofs.Number.Exact
import Montage.Proofs.Number.Representable

/-!
Contract: what a division toward zero leaves over, and that a number that was fitted to its bounds is left
alone by a second fitting.

Owns:
- the remainder of any numbers, by their exact values;
- the integer part of a rational, and how far it may be from the rational;
- the remainder of exact numbers: it is smaller than the divisor and no larger than the dividend, and what
  is smaller than the divisor is its own remainder;
- the numbers of which this is true (`Scalar.Settles`), exact ones and machine ones;
- the fittings of sizes, percentages and angles as such.

Does **not** own: the elements whose numbers are fitted (`Montage.Proofs.Edit.Properties`).

Sizes and percentages are only compared, so they settle whatever the numbers are like. An angle is divided
by a full turn. What is left over has no more digits than the angle, so a machine computes it without
rounding, and a second division finds it smaller than a full turn.
-/

set_option autoImplicit false

namespace Montage

/-! ## Remainders -/

namespace Scalar

variable {α : Type} [Scalar α] {x y : α} {p q : ℚ}

/-- The remainder of a finite number, by what is left of its value. -/
theorem remainder_of_exact (isFirst : exact x = .fin p) (isSecond : exact y = .fin q) (nonzero : q ≠ 0) :
    remainder x y =
      if p - q * (Rounding.towardZero (p / q) : ℚ) = 0 then zeroLike x
      else ofRat (p - q * (Rounding.towardZero (p / q) : ℚ)) := by
  simp only [remainder, isFirst, isSecond, if_neg nonzero]

/-- The remainder of what is no finite number is none either. -/
theorem remainder_of_not_finite (infinite : isFinite x = false) (isSecond : exact y = .fin q) :
    remainder x y = 0 / 0 := by
  unfold isFinite at infinite
  unfold remainder
  rw [isSecond]
  cases isFirst : exact x with
  | fin p =>
      rw [isFirst] at infinite
      cases infinite
  | nan | negInf | posInf => rfl

end Scalar

namespace Extended

/-- What is dropped toward zero is a fraction with the sign of the number. -/
theorem sub_towardZero (q : ℚ) :
    q - (Rounding.towardZero q : ℚ) = (q.num.tmod q.den : ℤ) / q.den := by
  have nonzero : (q.den : ℚ) ≠ 0 := by exact_mod_cast q.den_nz
  have parts := Int.mul_tdiv_add_tmod q.num q.den
  have cast : ((q.den * q.num.tdiv q.den + q.num.tmod q.den : ℤ) : ℚ) = q.num := by rw [parts]
  push_cast at cast
  rw [eq_div_iff nonzero, sub_mul, Rat.mul_den_eq_num, Rounding.towardZero]
  linarith

theorem abs_sub_towardZero (q : ℚ) : |q - (Rounding.towardZero q : ℚ)| < 1 := by
  have positive : (0 : ℚ) < q.den := by exact_mod_cast q.den_pos
  have below := Int.tmod_lt_of_pos q.num (b := q.den) (by exact_mod_cast q.den_pos)
  have above := Int.lt_tmod_of_pos q.num (b := q.den) (by exact_mod_cast q.den_pos)
  rw [sub_towardZero, abs_lt, lt_div_iff₀ positive, div_lt_iff₀ positive, neg_one_mul, one_mul]
  exact ⟨by exact_mod_cast above, by exact_mod_cast below⟩

theorem towardZero_of_abs_lt {q : ℚ} (small : |q| < 1) : Rounding.towardZero q = 0 := by
  have positive : (0 : ℚ) < q.den := by exact_mod_cast q.den_pos
  have quotient : |(q.num : ℚ)| < q.den := by
    rw [← Rat.num_div_den q, abs_div, abs_of_pos positive, div_lt_one positive] at small
    exact small
  have shorter : |q.num| < q.den := by exact_mod_cast quotient
  have bounds := abs_lt.mp shorter
  unfold Rounding.towardZero
  rcases le_or_gt 0 q.num with nonneg | negative
  · exact Int.tdiv_eq_zero_of_lt nonneg bounds.2
  · have mirrored := Int.tdiv_eq_zero_of_lt (neg_nonneg.mpr negative.le) (neg_lt.mp bounds.1)
    rwa [Int.neg_tdiv, neg_eq_zero] at mirrored

theorem towardZero_div_of_abs_lt {p q : ℚ} (positive : 0 < q) (less : |p| < q) :
    Rounding.towardZero (p / q) = 0 := by
  apply towardZero_of_abs_lt
  rwa [abs_div, abs_of_pos positive, div_lt_one positive]

theorem remainder_fin (p : ℚ) {q : ℚ} (nonzero : q ≠ 0) :
    Scalar.remainder (fin p) (fin q) = fin (p - q * (Rounding.towardZero (p / q) : ℚ)) := by
  rw [Scalar.remainder_of_exact rfl rfl nonzero]
  split
  · rename_i whole
    rw [whole, Scalar.zeroLike, zero_eq, one_eq, fin_sub_fin, fin_mul_fin, zero_mul, ite_self]
  · rfl

/-- A turn is less than a full one. -/
theorem abs_remainder_lt (p : ℚ) {q : ℚ} (positive : 0 < q) :
    |p - q * (Rounding.towardZero (p / q) : ℚ)| < q := by
  have rest : p - q * (Rounding.towardZero (p / q) : ℚ) =
      q * (p / q - (Rounding.towardZero (p / q) : ℚ)) := by
    rw [mul_sub, mul_div_cancel₀ p positive.ne']
  rw [rest, abs_mul, abs_of_pos positive]
  exact mul_lt_of_lt_one_right positive (abs_sub_towardZero _)

/-- What is left over is no larger than what was divided. -/
theorem abs_remainder_le (p : ℚ) {q : ℚ} (positive : 0 < q) :
    |p - q * (Rounding.towardZero (p / q) : ℚ)| ≤ |p| := by
  rcases lt_or_ge |p| q with less | turned
  · rw [towardZero_div_of_abs_lt positive less, Int.cast_zero, mul_zero, sub_zero]
  · exact (abs_remainder_lt p positive).le.trans turned

theorem remainder_of_abs_lt {p q : ℚ} (positive : 0 < q) (less : |p| < q) :
    Scalar.remainder (fin p) (fin q) = fin p := by
  rw [remainder_fin p positive.ne', towardZero_div_of_abs_lt positive less, Int.cast_zero, mul_zero,
    sub_zero]

end Extended

/-! ## Fittings -/

namespace Scalar

/-- Numbers whose largest percentages are not below zero, and whose angles stay what they are once whole
turns are taken off them. -/
class Settles (α : Type) [Scalar α] : Prop where
  hundred_nonneg : ¬ (100 : α) < 0
  maximumVolume_nonneg : ¬ (maximumVolume : α) < 0
  remainder_remainder (x : α) : remainder (remainder x 360) 360 = remainder x 360

end Scalar

section Fittings

variable {α : Type} [Scalar α]

theorem atLeastOne_atLeastOne (x : α) : atLeastOne (atLeastOne x) = atLeastOne x := by
  unfold atLeastOne Scalar.max
  by_cases missing : Scalar.isNaN x = true
  · simp [missing]
  · by_cases small : x < 1
    · simp [missing, small]
    · simp [missing, small]

theorem percentage_percentage {largest : α} (nonneg : ¬ largest < 0) (x : α) :
    percentage largest (percentage largest x) = percentage largest x := by
  unfold percentage Scalar.clamp
  by_cases negative : x < 0
  · by_cases above : largest < 0
    · exact (nonneg above).elim
    · simp [negative, above]
  · by_cases above : largest < x
    · simp [negative, above, nonneg]
    · simp [negative, above]

end Fittings

/-! ## Exact numbers -/

namespace Extended

theorem remainder_remainder (x : Extended) :
    Scalar.remainder (Scalar.remainder x 360) 360 = Scalar.remainder x 360 := by
  cases x with
  | fin p =>
      have positive : (0 : ℚ) < 360 := by norm_num
      rw [fullTurn_eq, remainder_fin p positive.ne', remainder_of_abs_lt positive (abs_remainder_lt p positive)]
  | nan | negInf | posInf => decide +kernel

instance : Scalar.Settles Extended where
  hundred_nonneg := by decide +kernel
  maximumVolume_nonneg := by decide +kernel
  remainder_remainder := remainder_remainder

end Extended

/-! ## Machine numbers -/

namespace Binary64

/-- What is left of a representable angle is representable. -/
theorem Representable.turned {p : ℚ} (representable : Representable p) :
    Representable (p - 360 * (Rounding.towardZero (p / 360) : ℚ)) := by
  obtain ⟨m, e, isValue, few, least, most⟩ := representable
  have positive : (0 : ℚ) < 360 := by norm_num
  have less := Extended.abs_remainder_lt p positive
  have atMost := Extended.abs_remainder_le p positive
  generalize Rounding.towardZero (p / 360) = turns at less atMost ⊢
  rcases le_total e 3 with fine | coarse
  -- A full turn is a whole number of units, and what is left counts no more of them than the angle did.
  · obtain ⟨places, isPlaces⟩ := Int.eq_ofNat_of_zero_le (sub_nonneg.mpr fine)
    have unit : (0 : ℚ) < 2 ^ e := by positivity
    have turn : (360 : ℚ) = (45 * 2 ^ places : ℤ) * 2 ^ e := by
      have power : (2 : ℚ) ^ places * 2 ^ e = 8 := by
        rw [← zpow_natCast, ← zpow_add₀ two_ne_zero, ← isPlaces, sub_add_cancel]
        norm_num
      push_cast
      rw [mul_assoc, power]
      norm_num
    have rest : p - 360 * (turns : ℚ) = (m - 45 * 2 ^ places * turns : ℤ) * 2 ^ e := by
      rw [isValue, turn]
      push_cast
      ring
    refine ⟨_, e, rest, ?_, least, most⟩
    rw [rest, isValue, abs_mul, abs_mul, mul_le_mul_iff_left₀ (abs_pos.mpr unit.ne')] at atMost
    have fewer : |m - 45 * 2 ^ places * turns| ≤ |m| := by exact_mod_cast atMost
    rw [Int.abs_eq_natAbs, Int.abs_eq_natAbs] at fewer
    omega
  -- The angle and a full turn are both multiples of eight.
  · obtain ⟨places, isPlaces⟩ := Int.eq_ofNat_of_zero_le (sub_nonneg.mpr coarse)
    have rest : p - 360 * (turns : ℚ) = (m * 2 ^ places - 45 * turns : ℤ) * 2 ^ (3 : ℤ) := by
      have power : (2 : ℚ) ^ e = 2 ^ places * 2 ^ (3 : ℤ) := by
        rw [← zpow_natCast, ← zpow_add₀ two_ne_zero, ← isPlaces, sub_add_cancel]
      rw [isValue, power]
      push_cast
      ring
    refine ⟨_, 3, rest, ?_, by decide, by decide⟩
    rw [rest, abs_mul, show |(2 : ℚ) ^ (3 : ℤ)| = 8 by norm_num] at less
    have few : |((m * 2 ^ places - 45 * turns : ℤ) : ℚ)| < 45 := by linarith
    have narrow : |m * 2 ^ places - 45 * turns| < 45 := by exact_mod_cast few
    rw [Int.abs_eq_natAbs] at narrow
    omega

theorem zeroLike_zeroLike (x : Float) : Scalar.zeroLike (Scalar.zeroLike x) = Scalar.zeroLike x := by
  unfold Scalar.zeroLike
  cases Scalar.isNegative x <;> decide +kernel

theorem exact_zeroLike (x : Float) : Scalar.exact (Scalar.zeroLike x) = .fin 0 := by
  unfold Scalar.zeroLike
  cases Scalar.isNegative x <;> decide +kernel

/-- Whole turns are taken off a machine number once. -/
theorem remainder_remainder {turn : Float} (isTurn : Scalar.exact turn = .fin 360) (x : Float) :
    Scalar.remainder (Scalar.remainder x turn) turn = Scalar.remainder x turn := by
  have positive : (0 : ℚ) < 360 := by norm_num
  cases finite : Scalar.isFinite x with
  | false =>
      rw [Scalar.remainder_of_not_finite finite isTurn]
      exact Scalar.remainder_of_not_finite (by decide +kernel) isTurn
  | true =>
      obtain ⟨p, isExact⟩ := (Scalar.isFinite_iff_exact x).mp finite
      have less := Extended.abs_remainder_lt p positive
      have representable := (representable_of_exact isExact).turned
      rw [Scalar.remainder_of_exact isExact isTurn positive.ne']
      generalize p - 360 * (Rounding.towardZero (p / 360) : ℚ) = rest at less representable ⊢
      have kept : rest - 360 * (Rounding.towardZero (rest / 360) : ℚ) = rest := by
        rw [Extended.towardZero_div_of_abs_lt positive less, Int.cast_zero, mul_zero, sub_zero]
      by_cases whole : rest = 0
      · rw [whole] at kept
        rw [if_pos whole, Scalar.remainder_of_exact (exact_zeroLike x) isTurn positive.ne', if_pos kept,
          zeroLike_zeroLike]
      · have unrounded : Scalar.exact (Scalar.ofRat rest : Float) = .fin rest :=
          exact_nearest representable whole
        rw [if_neg whole, Scalar.remainder_of_exact unrounded isTurn positive.ne', kept, if_neg whole]

instance : Scalar.Settles Float where
  hundred_nonneg := by decide +kernel
  maximumVolume_nonneg := by decide +kernel
  remainder_remainder := remainder_remainder (by decide +kernel)

end Binary64

end Montage

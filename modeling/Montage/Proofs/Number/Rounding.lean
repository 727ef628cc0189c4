import Mathlib.Algebra.Order.Field.Rat
import Mathlib.Algebra.Ring.Parity
import Mathlib.Tactic.FieldSimp
import Mathlib.Tactic.Linarith
import Mathlib.Tactic.Positivity
import Mathlib.Tactic.Ring
import Mathlib.Tactic.GCongr
import Montage.Number.Rounding

/-!
Contract: numbers rounded to a few decimal places.

Owns:
- nearest whole numbers that are even where two are equally near (`IsNearestEven`), and that they grow
  with the number they are near to;
- the decimal that a number is rounded to (`rounded`), and that a number of half a unit or less becomes a
  zero;
- that this decimal is one of the nearest (`IsNearestUnits`);
- nearest whole numbers that are further from zero where two are equally near (`IsNearestAway`).

Does **not** own: the text of that decimal (`Montage.Proofs.Number.Compact`).
-/

set_option autoImplicit false

namespace Montage.Rounding

/-- A whole number at most one half away, and an even one if it is just that far. -/
structure IsNearestEven (x : ℚ) (n : ℕ) : Prop where
  below : n - 1 / 2 ≤ x
  above : x ≤ n + 1 / 2
  even : x = n - 1 / 2 ∨ x = n + 1 / 2 → Even n

theorem IsNearestEven.mono {x y : ℚ} {m n : ℕ} (first : IsNearestEven x m)
    (second : IsNearestEven y n) (grows : x ≤ y) : m ≤ n := by
  by_contra falls
  have next : n + 1 ≤ m := not_le.mp falls
  have apart : (n : ℚ) + 1 ≤ m := by exact_mod_cast next
  have below := first.below
  have above := second.above
  -- There is room for both numbers only halfway between two neighbours, of which one is odd.
  have firstEven : Even m := first.even (Or.inl (by linarith))
  have secondEven : Even n := second.even (Or.inr (by linarith))
  have neighbours : (m : ℚ) = (n + 1 : ℕ) := by
    push_cast
    linarith
  rw [Nat.cast_inj] at neighbours
  rw [neighbours, Nat.even_add_one] at firstEven
  exact firstEven secondEven

theorem isNearestEven_succ_iff {x : ℚ} {n : ℕ} :
    IsNearestEven x (n + 1) ↔
      n + 1 / 2 ≤ x ∧ x ≤ n + 3 / 2 ∧ (x = n + 1 / 2 ∨ x = n + 3 / 2 → Even (n + 1)) := by
  have lower : ((n + 1 : ℕ) : ℚ) - 1 / 2 = n + 1 / 2 := by
    push_cast
    ring
  have upper : ((n + 1 : ℕ) : ℚ) + 1 / 2 = n + 3 / 2 := by
    push_cast
    ring
  constructor
  · rintro ⟨below, above, even⟩
    rw [lower] at below even
    rw [upper] at above even
    exact ⟨below, above, even⟩
  · rintro ⟨below, above, even⟩
    rw [← lower] at below even
    rw [← upper] at above even
    exact ⟨below, above, even⟩

theorem quotientHalfEven_isNearestEven {denominator : ℕ} (positive : 0 < denominator)
    (numerator : ℕ) :
    IsNearestEven (numerator / denominator) (quotientHalfEven numerator denominator) := by
  obtain ⟨whole, isWhole⟩ : ∃ whole, whole = numerator / denominator := ⟨_, rfl⟩
  obtain ⟨rest, isRest⟩ : ∃ rest, rest = numerator % denominator := ⟨_, rfl⟩
  have unit : (0 : ℚ) < denominator := by exact_mod_cast positive
  have parts : (numerator : ℚ) = denominator * whole + rest := by
    rw [isWhole, isRest]
    exact_mod_cast (Nat.div_add_mod numerator denominator).symm
  have value : (numerator / denominator : ℚ) = whole + rest / denominator := by
    rw [parts]
    field_simp
  have nonneg : (0 : ℚ) ≤ rest / denominator := by positivity
  have small : (rest / denominator : ℚ) < 1 := by
    rw [div_lt_one unit]
    exact_mod_cast isRest ▸ Nat.mod_lt numerator positive
  have compared : (2 * rest < denominator ↔ (rest / denominator : ℚ) < 1 / 2) ∧
      (denominator < 2 * rest ↔ 1 / 2 < (rest / denominator : ℚ)) := by
    rw [div_lt_div_iff₀ unit two_pos, div_lt_div_iff₀ two_pos unit, one_mul, mul_comm 2 rest]
    exact_mod_cast And.intro Iff.rfl Iff.rfl
  rw [value]
  simp only [quotientHalfEven, ← isWhole, ← isRest, compared.1, compared.2]
  split_ifs with lower upper even
  · refine ⟨by linarith, by linarith, ?_⟩
    rintro (halfway | halfway) <;> linarith
  · rw [isNearestEven_succ_iff]
    refine ⟨by linarith, by linarith, ?_⟩
    rintro (halfway | halfway) <;> linarith
  · exact ⟨by linarith, by linarith, fun _ => Nat.even_iff.mpr even⟩
  · rw [isNearestEven_succ_iff]
    exact ⟨by linarith, by linarith, fun _ => Nat.even_add_one.mpr (mt Nat.even_iff.mp even)⟩

/-- The magnitude of a rational is a quotient of naturals. -/
theorem abs_eq_natAbs_div (q : ℚ) : |q| = q.num.natAbs / q.den := by
  rw [Nat.cast_natAbs, Int.cast_abs]
  conv_lhs => rw [← Rat.num_div_den q, abs_div, Nat.abs_cast]

theorem scaled_isNearestEven (places : ℕ) (q : ℚ) :
    IsNearestEven (|q| * 10 ^ places) (scaled places q) := by
  have magnitude : |q| * 10 ^ places = (q.num.natAbs * tenTo places : ℕ) / q.den := by
    have unit : ((tenTo places : ℕ) : ℚ) = 10 ^ places := by
      rw [tenTo, Nat.pow_eq, Nat.cast_pow]
      rfl
    rw [abs_eq_natAbs_div, div_mul_eq_mul_div, Nat.cast_mul, unit]
  rw [magnitude]
  exact quotientHalfEven_isNearestEven q.den_pos _

theorem scaled_mono (places : ℕ) {p q : ℚ} (grows : |p| ≤ |q|) : scaled places p ≤ scaled places q :=
  (scaled_isNearestEven places p).mono (scaled_isNearestEven places q) (by gcongr)

/-- A number is rounded to no unit exactly if it is at most half of one. -/
theorem scaled_eq_zero_iff (places : ℕ) (q : ℚ) :
    scaled places q = 0 ↔ |q| ≤ 1 / 2 / 10 ^ places := by
  have unit : (0 : ℚ) < 10 ^ places := by positivity
  have near := scaled_isNearestEven places q
  rw [le_div_iff₀ unit]
  constructor
  · intro zero
    simpa [zero] using near.above
  · intro small
    have below := near.below
    have atMostOne : (scaled places q : ℚ) ≤ 1 := by linarith
    rcases Nat.le_one_iff_eq_zero_or_eq_one.mp (by exact_mod_cast atMostOne) with zero | one
    · exact zero
    · -- One is odd, so that half a unit is rounded down.
      rw [one, Nat.cast_one] at below
      have even := near.even (Or.inl (by rw [one, Nat.cast_one]; linarith))
      rw [one] at even
      exact absurd even Nat.not_even_one

theorem scaled_zero (places : ℕ) : scaled places 0 = 0 := by
  have nearest := (scaled_isNearestEven places 0).below
  rw [abs_zero, zero_mul] at nearest
  have small : (scaled places 0 : ℚ) < 1 := by linarith
  exact Nat.lt_one_iff.mp (by exact_mod_cast small)

/-- A number rounded to decimal places. -/
def rounded (places : ℕ) (q : ℚ) : ℚ :=
  (if q < 0 then -(scaled places q : ℚ) else scaled places q) / 10 ^ places

theorem rounded_mono (places : ℕ) : Monotone (rounded places) := by
  intro p q grows
  unfold rounded
  gcongr
  by_cases first : p < 0
  · rw [if_pos first]
    by_cases second : q < 0
    · have magnitudes : scaled places q ≤ scaled places p :=
        scaled_mono places (by rw [abs_of_neg first, abs_of_neg second]; linarith)
      rw [if_pos second, neg_le_neg_iff]
      exact_mod_cast magnitudes
    · rw [if_neg second]
      have negative : -(scaled places p : ℚ) ≤ 0 := neg_nonpos.mpr (Nat.cast_nonneg _)
      exact negative.trans (Nat.cast_nonneg _)
  · have second : ¬ q < 0 := by linarith
    have magnitudes : scaled places p ≤ scaled places q :=
      scaled_mono places (by
        rw [abs_of_nonneg (not_lt.mp first), abs_of_nonneg (not_lt.mp second)]
        exact grows)
    rw [if_neg first, if_neg second]
    exact_mod_cast magnitudes

/-- A whole number of units of the last place at most one half away, and an even one if it is just that
far. -/
structure IsNearestUnits (places : ℕ) (q : ℚ) (units : ℤ) : Prop where
  near : |q * 10 ^ places - units| ≤ 1 / 2
  even : |q * 10 ^ places - units| = 1 / 2 → Even units

/-- A number is rounded to the nearest units of its last place, and to even ones where two are equally
near. -/
theorem rounded_isNearestUnits (places : ℕ) (q : ℚ) :
    ∃ units : ℤ, IsNearestUnits places q units ∧ rounded places q = units / 10 ^ places := by
  obtain ⟨below, above, even⟩ := scaled_isNearestEven places q
  -- The distance is that of the magnitudes, whatever the sign.
  have nearest (units : ℤ) (parity : Even units ↔ Even (scaled places q))
      (distance : |q * 10 ^ places - units| = |(|q| * 10 ^ places - scaled places q)|) :
      IsNearestUnits places q units := by
    constructor
    · rw [distance, abs_le]
      constructor <;> linarith
    · rw [distance, parity, abs_eq (by norm_num)]
      rintro (halfway | halfway)
      · exact even (Or.inr (by linarith))
      · exact even (Or.inl (by linarith))
  by_cases negative : q < 0
  · refine ⟨-(scaled places q : ℤ), nearest _ ?_ ?_, ?_⟩
    · rw [even_neg, Int.even_coe_nat]
    · rw [abs_of_neg negative, ← abs_neg]
      push_cast
      ring_nf
    · rw [rounded, if_pos negative]
      push_cast
      rfl
  · refine ⟨scaled places q, nearest _ (Int.even_coe_nat _) ?_, ?_⟩
    · rw [abs_of_nonneg (not_lt.mp negative), Int.cast_natCast]
    · rw [rounded, if_neg negative, Int.cast_natCast]

/-- Rounding moves a number by no more than half a unit of its last place. -/
theorem abs_rounded_sub_le (places : ℕ) (q : ℚ) :
    |rounded places q - q| ≤ 1 / 2 / 10 ^ places := by
  have unit : (0 : ℚ) < 10 ^ places := by positivity
  obtain ⟨units, nearest, value⟩ := rounded_isNearestUnits places q
  calc |rounded places q - q| = |q * 10 ^ places - units| / 10 ^ places := by
        rw [value, abs_sub_comm, ← abs_of_pos unit, ← abs_div, abs_of_pos unit, sub_div,
          mul_div_cancel_right₀ _ unit.ne']
    _ ≤ 1 / 2 / 10 ^ places := by gcongr; exact nearest.near

theorem rounded_eq_zero_iff (places : ℕ) (q : ℚ) :
    rounded places q = 0 ↔ |q| ≤ 1 / 2 / 10 ^ places := by
  have unit : (10 : ℚ) ^ places ≠ 0 := by positivity
  rw [← scaled_eq_zero_iff, rounded, div_eq_zero_iff, or_iff_left unit]
  split
  · rw [neg_eq_zero, Nat.cast_eq_zero]
  · rw [Nat.cast_eq_zero]

/-! ## Whole numbers -/

/-- A whole number at most one half away, and the one further from zero if two are just that far. -/
structure IsNearestAway (q : ℚ) (n : ℤ) : Prop where
  near : |q - n| ≤ 1 / 2
  away : |q - n| = 1 / 2 → |q| ≤ |(n : ℚ)|

theorem IsNearestAway.mono {p q : ℚ} {m n : ℤ} (first : IsNearestAway p m)
    (second : IsNearestAway q n) (grows : p ≤ q) : m ≤ n := by
  by_contra falls
  have next : (n : ℚ) + 1 ≤ m := by exact_mod_cast not_le.mp falls
  obtain ⟨firstNear, -⟩ := abs_le.mp first.near
  obtain ⟨-, secondNear⟩ := abs_le.mp second.near
  -- There is room for both numbers only halfway between two neighbours, of which one is nearer to zero.
  have halfway : q = n + 1 / 2 := by linarith
  have same : p = n + 1 / 2 := by linarith
  have neighbour : (m : ℚ) = n + 1 := by linarith
  have below : |q - n| = 1 / 2 := by rw [halfway, add_sub_cancel_left, abs_of_pos one_half_pos]
  have above : |p - m| = 1 / 2 := by
    rw [same, neighbour, add_sub_add_left_eq_sub, abs_of_neg (by norm_num)]
    norm_num
  have farBelow := second.away below
  have farAbove := first.away above
  rw [halfway] at farBelow
  rw [same, neighbour] at farAbove
  rcases le_or_gt 0 n with nonneg | negative
  · have nonneg : (0 : ℚ) ≤ n := by exact_mod_cast nonneg
    rw [abs_of_nonneg (by linarith), abs_of_nonneg nonneg] at farBelow
    linarith
  · have negative : (n : ℚ) + 1 ≤ 0 := by exact_mod_cast negative
    rw [abs_of_neg (by linarith), abs_of_nonpos negative] at farAbove
    linarith

theorem quotientHalfUp_bounds {denominator : ℕ} (positive : 0 < denominator) (numerator : ℕ) :
    (quotientHalfUp numerator denominator : ℚ) - 1 / 2 ≤ numerator / denominator ∧
      (numerator / denominator : ℚ) < quotientHalfUp numerator denominator + 1 / 2 := by
  obtain ⟨whole, isWhole⟩ : ∃ whole, whole = quotientHalfUp numerator denominator := ⟨_, rfl⟩
  have unit : (0 : ℚ) < denominator := by exact_mod_cast positive
  have twice : 0 < 2 * denominator := by omega
  have lower : whole * (2 * denominator) ≤ 2 * numerator + denominator :=
    isWhole ▸ Nat.div_mul_le_self _ _
  have upper : 2 * numerator + denominator < (whole + 1) * (2 * denominator) :=
    isWhole ▸ Nat.lt_mul_of_div_lt (Nat.lt_succ_self _) twice
  have lower : (whole : ℚ) * (2 * denominator) ≤ 2 * numerator + denominator := by exact_mod_cast lower
  have upper : (2 * numerator + denominator : ℚ) < (whole + 1) * (2 * denominator) := by
    exact_mod_cast upper
  rw [← isWhole, le_div_iff₀ unit, div_lt_iff₀ unit]
  constructor <;> linarith

theorem halfAway_isNearestAway (q : ℚ) : IsNearestAway q (halfAway q) := by
  obtain ⟨whole, isWhole⟩ : ∃ whole, whole = quotientHalfUp q.num.natAbs q.den := ⟨_, rfl⟩
  obtain ⟨below, above⟩ := quotientHalfUp_bounds q.den_pos q.num.natAbs
  rw [← abs_eq_natAbs_div, ← isWhole] at below above
  -- The distance is that of the magnitudes, whatever the sign.
  have nearest (n : ℤ) (magnitude : |(n : ℚ)| = whole) (distance : |q - n| = |(|q| - whole)|) :
      IsNearestAway q n := by
    constructor
    · rw [distance, abs_le]
      constructor <;> linarith
    · rw [distance, magnitude, abs_eq one_half_pos.le]
      rintro (upper | lower) <;> linarith
  unfold halfAway
  rw [← isWhole]
  by_cases negative : q < 0
  · rw [if_pos negative]
    refine nearest _ ?_ ?_
    · rw [Int.cast_neg, abs_neg, Int.cast_natCast, Nat.abs_cast]
    · rw [abs_of_neg negative, ← abs_neg]
      push_cast
      ring_nf
  · rw [if_neg negative]
    refine nearest _ ?_ ?_
    · rw [Int.cast_natCast, Nat.abs_cast]
    · rw [abs_of_nonneg (not_lt.mp negative), Int.cast_natCast]

/-- The nearest whole number is at most one half away. -/
theorem abs_halfAway_sub_le (q : ℚ) : |(halfAway q : ℚ) - q| ≤ 1 / 2 := by
  rw [abs_sub_comm]
  exact (halfAway_isNearestAway q).near

theorem halfAway_mono {p q : ℚ} (grows : p ≤ q) : halfAway p ≤ halfAway q :=
  (halfAway_isNearestAway p).mono (halfAway_isNearestAway q) grows

theorem halfAway_intCast (n : ℤ) : halfAway (n : ℚ) = n := by
  have whole (m : ℕ) : quotientHalfUp m 1 = m := by
    unfold quotientHalfUp
    omega
  unfold halfAway
  simp only [Rat.num_intCast, Rat.den_intCast, whole]
  split
  · rename_i negative
    have below : n < 0 := by exact_mod_cast negative
    omega
  · rename_i nonneg
    have above : 0 ≤ n := by exact_mod_cast not_lt.mp nonneg
    omega

theorem towardZero_intCast (n : ℤ) : towardZero (n : ℚ) = n := by
  unfold towardZero
  simp

end Montage.Rounding

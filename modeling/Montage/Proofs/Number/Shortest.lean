import Montage.Number.Shortest
import Montage.Proofs.Number.Representable

/-!
Contract: the digits that are found for a binary number.

Owns:
- the place of the first digit (`magnitude_spec`);
- that seventeen digits suffice, and that the decimal that is found is at most half a unit of the last binary
  place away from the number (`digits_spec`).

Does **not** own: that no fewer digits would do, and the layouts in which digits are written.

A power of ten is compared with a power of two through two fractions near to their ratio: 93 binary places
hold fewer numbers than 28 decimal ones, and 103 binary places hold more than 31.
-/

set_option autoImplicit false

namespace Montage.Shortest

/-! ## Powers of two and of ten -/

theorem two_zpow_le_ten_zpow {a b : ℤ} (rising : 28 * a ≤ 93 * b) (falling : 31 * a ≤ 103 * b) :
    (2 : ℚ) ^ a ≤ 10 ^ b := by
  have power (k : ℕ) : ((2 : ℚ) ^ a) ^ k = 2 ^ (k * a) := by
    rw [← zpow_natCast, ← zpow_mul, mul_comm]
  obtain ⟨n, rfl | rfl⟩ := b.eq_nat_or_neg
  · have powers : ((2 : ℚ) ^ a) ^ 28 ≤ (10 ^ (n : ℤ)) ^ 28 := by
      calc ((2 : ℚ) ^ a) ^ 28 = 2 ^ (28 * a) := power 28
        _ ≤ 2 ^ (93 * (n : ℤ)) := by gcongr; norm_num
        _ = (2 ^ 93) ^ n := by rw [zpow_mul, zpow_natCast]; rfl
        _ ≤ (10 ^ 28) ^ n := by gcongr; norm_num
        _ = (10 ^ (n : ℤ)) ^ 28 := by rw [zpow_natCast, pow_right_comm]
    exact (pow_le_pow_iff_left₀ (by positivity) (by positivity) (by decide)).mp powers
  · have powers : ((2 : ℚ) ^ a) ^ 31 ≤ (10 ^ (-(n : ℤ))) ^ 31 := by
      calc ((2 : ℚ) ^ a) ^ 31 = 2 ^ (31 * a) := power 31
        _ ≤ 2 ^ (103 * -(n : ℤ)) := by gcongr; norm_num
        _ = ((2 ^ 103) ^ n)⁻¹ := by rw [mul_neg, zpow_neg, zpow_mul, zpow_natCast]; rfl
        _ ≤ ((10 ^ 31) ^ n)⁻¹ := by gcongr; norm_num
        _ = (10 ^ (-(n : ℤ))) ^ 31 := by rw [zpow_neg, zpow_natCast, inv_pow, pow_right_comm]
    exact (pow_le_pow_iff_left₀ (by positivity) (by positivity) (by decide)).mp powers

theorem ten_zpow_le_two_zpow {a b : ℤ} (rising : 93 * b ≤ 28 * a) (falling : 103 * b ≤ 31 * a) :
    (10 : ℚ) ^ b ≤ 2 ^ a := by
  have inverse : (2 : ℚ) ^ (-a) ≤ 10 ^ (-b) := two_zpow_le_ten_zpow (by omega) (by omega)
  rwa [zpow_neg, zpow_neg, inv_le_inv₀ (by positivity) (by positivity)] at inverse

/-! ## Points of a decimal grid -/

section Grid

/-- A power is a quotient of two natural ones, one of which is one. -/
theorem zpow_eq_div (base : ℚ) (exponent : ℤ) :
    base ^ exponent = base ^ exponent.toNat / base ^ (-exponent).toNat := by
  obtain ⟨n, rfl | rfl⟩ := exponent.eq_nat_or_neg
  · rw [zpow_natCast, Int.toNat_natCast, Int.toNat_neg_natCast, pow_zero, div_one]
  · rw [zpow_neg, zpow_natCast, neg_neg, Int.toNat_natCast, Int.toNat_neg_natCast, pow_zero, one_div]

theorem ten_zpow_eq (grid : ℤ) :
    (10 : ℚ) ^ grid = (tenTo grid.toNat : ℕ) / (tenTo (-grid).toNat : ℕ) := by
  have power (n : ℕ) : ((tenTo n : ℕ) : ℚ) = 10 ^ n := by exact_mod_cast rfl
  rw [power, power, zpow_eq_div]

variable {unit : ℕ} (positive : 0 < unit)

include positive

theorem div_le_mul_ten_iff (low point : ℕ) (grid : ℤ) :
    (low / unit : ℚ) ≤ point * 10 ^ grid ↔
      low * tenTo (-grid).toNat ≤ point * unit * tenTo grid.toNat := by
  have divisor : (0 : ℚ) < unit := by exact_mod_cast positive
  have scale : (0 : ℚ) < (tenTo (-grid).toNat : ℕ) := by exact_mod_cast Nat.pow_pos (by decide)
  rw [ten_zpow_eq, mul_div_assoc', div_le_div_iff₀ divisor scale, mul_right_comm]
  exact_mod_cast Iff.rfl

theorem mul_ten_le_div_iff (high point : ℕ) (grid : ℤ) :
    (point : ℚ) * 10 ^ grid ≤ high / unit ↔
      point * unit * tenTo grid.toNat ≤ high * tenTo (-grid).toNat := by
  have divisor : (0 : ℚ) < unit := by exact_mod_cast positive
  have scale : (0 : ℚ) < (tenTo (-grid).toNat : ℕ) := by exact_mod_cast Nat.pow_pos (by decide)
  rw [ten_zpow_eq, mul_div_assoc', div_le_div_iff₀ scale divisor, mul_right_comm]
  exact_mod_cast Iff.rfl

end Grid

namespace Interval

variable {i : Interval} {point : ℕ} {grid : ℤ} (positive : 0 < i.unit)

include positive

theorem between_of_holds (holds : i.holds point grid = true) :
    (i.low / i.unit : ℚ) ≤ point * 10 ^ grid ∧ (point : ℚ) * 10 ^ grid ≤ i.high / i.unit := by
  rw [div_le_mul_ten_iff positive, mul_ten_le_div_iff positive]
  simp only [Interval.holds] at holds
  split at holds <;> simp only [Bool.and_eq_true, decide_eq_true_eq] at holds <;> omega

theorem holds_of_between (above : (i.low / i.unit : ℚ) < point * 10 ^ grid)
    (below : (point : ℚ) * 10 ^ grid < i.high / i.unit) : i.holds point grid = true := by
  rw [← not_le, mul_ten_le_div_iff positive] at above
  rw [← not_le, div_le_mul_ten_iff positive] at below
  simp only [Interval.holds]
  split <;> simp only [Bool.and_eq_true, decide_eq_true_eq] <;> omega

/-- The number of an interval. -/
def center (i : Interval) : ℚ := i.value / i.unit

end Interval

/-! ## The place of the first digit -/

/-- The place found is that of the first digit. -/
theorem magnitude_spec {i : Interval} (positive : 0 < i.unit) (nonzero : 0 < i.value)
    (least : (2 : ℚ) ^ (-1100 : ℤ) ≤ i.center) (most : i.center ≤ 2 ^ (1100 : ℤ)) :
    10 ^ (magnitude i - 1) ≤ i.center ∧ i.center < 10 ^ magnitude i := by
  obtain ⟨binary, isBinary⟩ : ∃ binary : ℤ, binary = (Nat.log2 i.value : ℤ) - Nat.log2 i.unit := ⟨_, rfl⟩
  obtain ⟨low, high⟩ := Binary64.quotient_bounds nonzero positive
  rw [← isBinary, ← Interval.center] at low high
  have above : -1102 ≤ binary := by
    have powers := (zpow_lt_zpow_iff_right₀ one_lt_two).mp (least.trans_lt high)
    omega
  have below : binary ≤ 1101 := by
    have powers := (zpow_lt_zpow_iff_right₀ one_lt_two).mp (low.trans_le most)
    omega
  -- The estimate is at most one place too low, or one too high.
  obtain ⟨estimate, isEstimate⟩ : ∃ estimate : ℤ, estimate = binary * 30103 / 100000 := ⟨_, rfl⟩
  have start : (10 : ℚ) ^ (estimate - 2) ≤ i.center :=
    (ten_zpow_le_two_zpow (by omega) (by omega)).trans low.le
  have stop : i.center < 10 ^ (estimate + 2) :=
    high.trans_le (two_zpow_le_ten_zpow (by omega) (by omega))
  have isBelow (place : ℤ) : decide (i.value * tenTo (-place).toNat < i.unit * tenTo place.toNat) =
      decide (i.center < 10 ^ place) := by
    have compared := mul_ten_le_div_iff positive i.value 1 place
    rw [Nat.cast_one, one_mul, one_mul] at compared
    rw [decide_eq_decide, ← not_le, ← not_le, ← compared, Interval.center]
  have found : magnitude i = ([estimate - 1, estimate, estimate + 1].find? fun place =>
      decide (i.center < 10 ^ place)).getD (estimate + 2) := by
    unfold magnitude
    simp only [← isBinary, ← isEstimate, isBelow]
  have isPlace {place : ℤ} (same : magnitude i = place) (above : (10 : ℚ) ^ (place - 1) ≤ i.center)
      (below : i.center < 10 ^ place) :
      10 ^ (magnitude i - 1) ≤ i.center ∧ i.center < 10 ^ magnitude i := same ▸ ⟨above, below⟩
  rcases lt_or_ge i.center (10 ^ (estimate - 1)) with first | first
  · exact isPlace (by simp [found, first]) (by rwa [sub_sub]) first
  rcases lt_or_ge i.center (10 ^ estimate) with second | second
  · exact isPlace (by simp [found, first.not_gt, second]) first second
  rcases lt_or_ge i.center (10 ^ (estimate + 1)) with third | third
  · exact isPlace (by simp [found, first.not_gt, second.not_gt, third]) (by rwa [add_sub_cancel_right])
      third
  · have before : estimate + 2 - 1 = estimate + 1 := by ring
    exact isPlace (by simp [found, first.not_gt, second.not_gt, third.not_gt]) (by rwa [before]) stop

/-! ## The point that is found -/

theorem quotient_cases (tie : Tie) {denominator : ℕ} (positive : 0 < denominator) (numerator : ℕ) :
    tie.quotient numerator denominator = numerator / denominator ∨
      tie.quotient numerator denominator = numerator / denominator + 1 := by
  cases tie with
  | toEven =>
      simp only [Tie.quotient, Rounding.quotientHalfEven]
      split_ifs <;> simp
  | up =>
      have rest := Nat.mod_lt numerator positive
      have parts : 2 * numerator + denominator =
          2 * denominator * (numerator / denominator) + (2 * (numerator % denominator) + denominator) := by
        conv_lhs => rw [← Nat.div_add_mod numerator denominator]
        ring
      have few : (2 * (numerator % denominator) + denominator) / (2 * denominator) < 2 :=
        Nat.div_lt_of_lt_mul (by omega)
      simp only [Tie.quotient, Rounding.quotientHalfUp]
      rw [parts, Nat.mul_add_div (by omega)]
      generalize (2 * (numerator % denominator) + denominator) / (2 * denominator) = carry at few
      omega

section Candidate

variable {i : Interval} {tie : Tie} {grid : ℤ} (positive : 0 < i.unit)

include positive

/-- The number of an interval lies between two neighbours of the grid. -/
theorem center_between (grid : ℤ) :
    let floor := i.value * tenTo (-grid).toNat / (i.unit * tenTo grid.toNat)
    (floor : ℚ) * 10 ^ grid ≤ i.center ∧ i.center < (floor + 1 : ℕ) * 10 ^ grid := by
  intro floor
  have divisor : 0 < i.unit * tenTo grid.toNat := Nat.mul_pos positive (Nat.pow_pos (by decide))
  constructor
  · rw [Interval.center, mul_ten_le_div_iff positive, Nat.mul_assoc]
    exact Nat.div_mul_le_self _ _
  · rw [← not_le, Interval.center, mul_ten_le_div_iff positive, Nat.mul_assoc, not_le]
    exact Nat.lt_mul_of_div_lt (Nat.lt_succ_self _) divisor

/-- A point that is found lies in the interval, and not beyond the next one behind the number. -/
theorem candidate_spec {point : ℕ} (found : candidate tie i grid = some point) :
    i.holds point grid = true ∧ (point : ℚ) * 10 ^ grid ≤ i.center + 10 ^ grid := by
  have divisor : 0 < i.unit * tenTo grid.toNat := Nat.mul_pos positive (Nat.pow_pos (by decide))
  have between := (center_between positive grid).1
  have quotients := quotient_cases tie divisor (i.value * tenTo (-grid).toNat)
  unfold candidate at found
  simp only at found between
  generalize i.value * tenTo (-grid).toNat / (i.unit * tenTo grid.toNat) = floor at *
  have reached (isNear : point = floor ∨ point = floor + 1) :
      (point : ℚ) * 10 ^ grid ≤ i.center + 10 ^ grid := by
    have unit : (0 : ℚ) < 10 ^ grid := by positivity
    rcases isNear with rfl | rfl
    · linarith
    · push_cast
      linarith
  split_ifs at found with both below above
  · obtain rfl := Option.some.inj found
    rw [Bool.and_eq_true] at both
    refine ⟨?_, reached quotients⟩
    rcases quotients with same | same
    · exact same ▸ both.1
    · exact same ▸ both.2
  · obtain rfl := Option.some.inj found
    exact ⟨below, reached (Or.inl rfl)⟩
  · obtain rfl := Option.some.inj found
    exact ⟨above, reached (Or.inr rfl)⟩

/-- A grid whose points are closer than the ends of the interval has a point in it. -/
theorem isSome_candidate (low : (i.low / i.unit : ℚ) < i.center) (high : i.center < (i.high / i.unit : ℚ))
    (dense : (10 : ℚ) ^ grid < i.high / i.unit - i.low / i.unit) :
    (candidate tie i grid).isSome = true := by
  obtain ⟨below, above⟩ := center_between positive grid
  unfold candidate
  simp only at below above ⊢
  generalize i.value * tenTo (-grid).toNat / (i.unit * tenTo grid.toNat) = floor at *
  have holds : i.holds floor grid = true ∨ i.holds (floor + 1) grid = true := by
    rcases lt_or_ge (i.low / i.unit : ℚ) (floor * 10 ^ grid) with inside | outside
    · exact Or.inl (Interval.holds_of_between positive inside (below.trans_lt high))
    · -- The point below is outside, so the one above is closer to it than the upper end.
      refine Or.inr (Interval.holds_of_between positive (low.trans above) ?_)
      push_cast
      linarith
  split_ifs with both first second
  · rfl
  · rfl
  · rfl
  · exact (holds.elim first second).elim

end Candidate

/-! ## The digits of a number -/

section Digits

variable {significand : ℕ} {exponent : ℤ}

/-- The ends of an interval are half a unit of the last place away from the number, or a quarter on one
side. -/
theorem interval_ends (positive : 0 < significand) (exponent : ℤ) (narrowBelow : Bool) :
    let i := interval significand exponent narrowBelow
    0 < i.unit ∧ i.center = significand * 2 ^ exponent ∧
      (i.high / i.unit : ℚ) = (significand + 1 / 2) * 2 ^ exponent ∧
      (i.low / i.unit : ℚ) = (significand - if narrowBelow then 1 / 4 else 1 / 2) * 2 ^ exponent := by
  obtain ⟨factor, isFactor⟩ : ∃ factor, factor = if 0 ≤ exponent then twoTo exponent.toNat else 1 :=
    ⟨_, rfl⟩
  obtain ⟨unit, isUnit⟩ : ∃ unit, unit = if 0 ≤ exponent then 4 else 4 * twoTo (-exponent).toNat :=
    ⟨_, rfl⟩
  have power (n : ℕ) : ((twoTo n : ℕ) : ℚ) = 2 ^ n := by exact_mod_cast rfl
  have quarter : (factor / unit : ℚ) = 2 ^ exponent / 4 := by
    rw [isFactor, isUnit, zpow_eq_div]
    split_ifs with whole
    · rw [power, Int.toNat_eq_zero.mpr (by omega : -exponent ≤ 0), pow_zero, div_one, Nat.cast_ofNat]
    · rw [Int.toNat_eq_zero.mpr (by omega : exponent ≤ 0), Nat.cast_mul, power, pow_zero, div_div,
        mul_comm (2 ^ _), Nat.cast_one, Nat.cast_ofNat]
  have unitPositive : 0 < unit := by
    rw [isUnit]
    split
    · decide
    · exact Nat.mul_pos (by decide) (Nat.pow_pos (by decide))
  have lower : ((4 * significand - if narrowBelow then 1 else 2 : ℕ) : ℚ) =
      4 * (significand - if narrowBelow then 1 / 4 else 1 / 2) := by
    split
    · rw [Nat.cast_sub (by omega)]
      push_cast
      ring
    · rw [Nat.cast_sub (by omega)]
      push_cast
      ring
  unfold interval
  simp only [Interval.center, ← isFactor, ← isUnit]
  refine ⟨unitPositive, ?_, ?_, ?_⟩
  · rw [Nat.cast_mul, mul_div_assoc, quarter]
    push_cast
    ring
  · rw [Nat.cast_mul, mul_div_assoc, quarter]
    push_cast
    ring
  · rw [Nat.cast_mul, mul_div_assoc, quarter, lower]
    ring

/-- The place of the first digit of a number. -/
theorem magnitude_interval (positive : 0 < significand) (few : significand < 2 ^ 53)
    (least : -1074 ≤ exponent) (most : exponent ≤ 971) (narrowBelow : Bool) :
    let i := interval significand exponent narrowBelow
    10 ^ (magnitude i - 1) ≤ i.center ∧ i.center < 10 ^ magnitude i := by
  intro i
  obtain ⟨unit, center, -, -⟩ := interval_ends positive exponent narrowBelow
  have ulp : (0 : ℚ) < 2 ^ exponent := by positivity
  have whole : (1 : ℚ) ≤ significand := by exact_mod_cast positive
  have limit : (significand : ℚ) ≤ 2 ^ 53 := by exact_mod_cast few.le
  have nonzero : 0 < i.value := by
    refine Nat.pos_of_ne_zero fun zero => ?_
    have somewhere : 0 < i.center := by
      rw [center]
      positivity
    rw [Interval.center, zero, Nat.cast_zero, zero_div] at somewhere
    exact lt_irrefl _ somewhere
  refine magnitude_spec unit nonzero ?_ ?_ <;> rw [center]
  · calc (2 : ℚ) ^ (-1100 : ℤ) ≤ 2 ^ exponent := by
          gcongr
          · norm_num
          · omega
      _ ≤ significand * 2 ^ exponent := le_mul_of_one_le_left ulp.le whole
  · calc significand * (2 : ℚ) ^ exponent ≤ 2 ^ (53 : ℤ) * 2 ^ (971 : ℤ) := by
          gcongr
          · exact_mod_cast limit
          · norm_num
      _ = 2 ^ (1024 : ℤ) := by rw [← zpow_add₀ two_ne_zero]; rfl
      _ ≤ 2 ^ (1100 : ℤ) := by gcongr <;> norm_num

/-- Seventeen places from the first digit on, the points of the grid are closer than the ends of the
interval. -/
theorem isSome_candidate_seventeen (tie : Tie) {narrowBelow : Bool} (positive : 0 < significand)
    (few : significand < 2 ^ 53) (narrow : narrowBelow = true → significand = 2 ^ 52)
    (first : 10 ^ (magnitude (interval significand exponent narrowBelow) - 1) ≤
      (interval significand exponent narrowBelow).center) :
    (candidate tie (interval significand exponent narrowBelow)
      (magnitude (interval significand exponent narrowBelow) - 17)).isSome = true := by
  obtain ⟨unit, center, high, low⟩ := interval_ends positive exponent narrowBelow
  generalize interval significand exponent narrowBelow = i at *
  have ulp : (0 : ℚ) < 2 ^ exponent := by positivity
  obtain ⟨margin, isMargin⟩ : ∃ margin : ℚ, margin = if narrowBelow then 1 / 4 else 1 / 2 := ⟨_, rfl⟩
  rw [← isMargin] at low
  have wide : (significand : ℚ) / 10 ^ 16 < 1 / 2 + margin ∧ 0 < margin := by
    rw [isMargin]
    split
    · rename_i isNarrow
      rw [narrow isNarrow]
      norm_num
    · have limit : (significand : ℚ) < 2 ^ 53 := by exact_mod_cast few
      rw [div_lt_iff₀ (by positivity)]
      constructor <;> linarith
  refine isSome_candidate unit ?_ ?_ ?_
  · rw [low, center]
    gcongr
    linarith
  · rw [high, center]
    gcongr
    linarith
  · calc (10 : ℚ) ^ (magnitude i - 17) = 10 ^ (magnitude i - 1) / 10 ^ (16 : ℤ) := by
          rw [← zpow_sub₀ (by norm_num), sub_sub]
          rfl
      _ ≤ i.center / 10 ^ (16 : ℤ) := by gcongr
      _ = significand / 10 ^ 16 * 2 ^ exponent := by rw [center]; ring
      _ < (1 / 2 + margin) * 2 ^ exponent := by gcongr; exact wide.1
      _ = i.high / i.unit - i.low / i.unit := by rw [high, low]; ring

/-- The digits are those of a candidate on one of the seventeen grids that are searched, once there is one on
the last of them. -/
theorem digits_eq_of_candidate (tie : Tie) {narrowBelow : Bool}
    (last : (candidate tie (interval significand exponent narrowBelow)
      (magnitude (interval significand exponent narrowBelow) - 17)).isSome = true) :
    ∃ (point : ℕ) (grid : ℤ), digits tie significand exponent narrowBelow =
        ⟨significant point, (Nat.toDigits 10 point).length + grid⟩ ∧
      magnitude (interval significand exponent narrowBelow) ≤ 17 + grid ∧
      candidate tie (interval significand exponent narrowBelow) grid = some point := by
  unfold digits
  simp only
  generalize interval significand exponent narrowBelow = i at *
  have found : ((List.range 17).findSome? fun (count : Nat) =>
      (candidate tie i (magnitude i - (count + 1 : Nat))).map fun (point : Nat) =>
        (point, magnitude i - (count + 1 : Nat))).isSome = true := by
    rw [List.findSome?_isSome_iff]
    refine ⟨16, by decide, ?_⟩
    rwa [Option.isSome_map]
  obtain ⟨⟨point, grid⟩, isFound⟩ := Option.isSome_iff_exists.mp found
  obtain ⟨count, member, isCandidate⟩ := List.exists_of_findSome?_eq_some isFound
  obtain ⟨found, isPoint, same⟩ := Option.map_eq_some_iff.mp isCandidate
  obtain ⟨isSame, isGrid⟩ := Prod.mk.inj same
  rw [isSame, isGrid] at isPoint
  have less : count < 17 := List.mem_range.mp member
  rw [isFound]
  refine ⟨point, grid, rfl, ?_, isPoint⟩
  rw [← isGrid]
  push_cast
  omega

/-- The decimal that is found for a number: a point of a grid that is at most half a unit of the last place
away from it, and has seventeen digits at most. -/
theorem digits_spec (tie : Tie) {narrowBelow : Bool} (positive : 0 < significand)
    (few : significand < 2 ^ 53) (narrow : narrowBelow = true → significand = 2 ^ 52)
    (least : -1074 ≤ exponent) (most : exponent ≤ 971) :
    ∃ (point : ℕ) (grid : ℤ), digits tie significand exponent narrowBelow =
        ⟨significant point, (Nat.toDigits 10 point).length + grid⟩ ∧
      0 < point ∧ point ≤ 10 ^ 17 ∧
      |(point : ℚ) * 10 ^ grid - significand * 2 ^ exponent| ≤ 1 / 2 * 2 ^ exponent := by
  obtain ⟨unit, center, high, low⟩ := interval_ends positive exponent narrowBelow
  obtain ⟨first, last⟩ := magnitude_interval positive few least most narrowBelow
  obtain ⟨point, grid, isFound, fine, isPoint⟩ :=
    digits_eq_of_candidate tie (isSome_candidate_seventeen tie positive few narrow first)
  refine ⟨point, grid, isFound, ?_⟩
  generalize interval significand exponent narrowBelow = i at *
  obtain ⟨holds, reached⟩ := candidate_spec unit isPoint
  obtain ⟨above, below⟩ := Interval.between_of_holds unit holds
  rw [low] at above
  rw [high] at below
  have ulp : (0 : ℚ) < 2 ^ exponent := by positivity
  have step : (0 : ℚ) < 10 ^ grid := by positivity
  have margins : (if narrowBelow then 1 / 4 else 1 / 2 : ℚ) ≤ 1 / 2 := by split <;> norm_num
  generalize (if narrowBelow then 1 / 4 else 1 / 2 : ℚ) = margin at above margins
  refine ⟨Nat.pos_of_ne_zero fun zero => ?_, ?_, ?_⟩
  · have whole : (1 : ℚ) ≤ significand := by exact_mod_cast positive
    have inside : (0 : ℚ) < (significand - margin) * 2 ^ exponent := mul_pos (by linarith) ulp
    rw [zero, Nat.cast_zero, zero_mul] at above
    exact absurd inside (not_lt.mpr above)
  · have scaled : i.center < 10 ^ 17 * 10 ^ grid := by
      refine last.trans_le ?_
      rw [← zpow_natCast, ← zpow_add₀ (by norm_num)]
      exact zpow_le_zpow_right₀ (by norm_num) fine
    have bounded : (point : ℚ) < 10 ^ 17 + 1 :=
      lt_of_mul_lt_mul_right (by linarith : (point : ℚ) * 10 ^ grid < (10 ^ 17 + 1) * 10 ^ grid) step.le
    exact Nat.le_of_lt_succ (by exact_mod_cast bounded)
  · have inner : margin * 2 ^ exponent ≤ 1 / 2 * 2 ^ exponent := by gcongr
    rw [abs_le]
    constructor <;> linarith

end Digits

end Montage.Shortest

import Montage.Json.Number
import Montage.Proofs.Number.Quotient
import Montage.Proofs.Number.Shortest

/-!
Contract: a significand times a power of ten as a machine number.

Owns:
- machine numbers near to a rational (`Near`): up to some roundings of the last place, and some halves of the
  least unit;
- that naturals of 64 bits and powers of ten are rounded once, and how products and quotients add to the
  distance;
- that reading a number in scaled form ends near to it (`near_scale?`).

Does **not** own: the digits that give the significand (`Montage.Proofs.Json.Real`).

A reader takes a significand and a power of ten, each of them rounded, and rounds their product or quotient
again. Far below one it divides twice.
-/

set_option autoImplicit false

namespace Montage

namespace Binary64

open Float.Model (Format UnpackedFloat totalExponent)
open Float.Model.UnpackedFloat

/-! ## Near numbers -/

/-- How much of a number is lost at most when it is rounded to its last place. -/
def lastPlace : ℚ := 1 / 2 ^ 53

/-- How much is lost at most when a number is rounded to the least unit of all. -/
def leastHalf : ℚ := 1 / 2 ^ 1075

theorem lastPlace_pos : 0 < lastPlace := by
  unfold lastPlace
  positivity

theorem lastPlace_small : lastPlace ≤ 1 / 1000 := by norm_num [lastPlace]

theorem leastHalf_pos : 0 < leastHalf := by
  unfold leastHalf
  positivity

/-- A finite machine number, away from a value by so many roundings to the last place and so many to the
least unit. -/
def Near (roundings floors : ℕ) (x : Float) (value : ℚ) : Prop :=
  ∃ r, exact x = .fin r ∧ |r - value| ≤ roundings * (lastPlace * value) + floors * leastHalf

theorem near_once_iff {x : Float} {value : ℚ} :
    Near 1 0 x value ↔ ∃ r, exact x = .fin r ∧ |r - value| ≤ lastPlace * value := by
  simp only [Near, Nat.cast_one, one_mul, Nat.cast_zero, zero_mul, add_zero]

theorem near_exact {x : Float} {value : ℚ} (isExact : exact x = .fin value) (nonneg : 0 ≤ value) :
    Near 1 0 x value := by
  refine near_once_iff.mpr ⟨value, isExact, ?_⟩
  rw [sub_self, abs_zero]
  exact mul_nonneg lastPlace_pos.le nonneg

theorem Near.mono {k l m n : ℕ} {x : Float} {value : ℚ} (near : Near k l x value) (roundings : k ≤ m)
    (floors : l ≤ n) (nonneg : 0 ≤ value) : Near m n x value := by
  obtain ⟨r, isExact, distance⟩ := near
  have loss : 0 ≤ lastPlace * value := mul_nonneg lastPlace_pos.le nonneg
  have floor := leastHalf_pos.le
  refine ⟨r, isExact, distance.trans (add_le_add ?_ ?_)⟩
  · exact mul_le_mul_of_nonneg_right (by exact_mod_cast roundings) loss
  · exact mul_le_mul_of_nonneg_right (by exact_mod_cast floors) floor

namespace RoundsTo

variable {value : ℚ} {unit : ℤ} {r : ℕ}

theorem near_value (rounds : RoundsTo value unit r) (nonneg : 0 ≤ value) :
    |(r : ℚ) * 2 ^ unit - value| ≤ lastPlace * value + leastHalf := by
  have part : lastPlace * value = value / 2 ^ 53 := one_div_mul_eq_div _ _
  rw [part]
  rcases rounds.near with near | ⟨-, near⟩
  · exact near.trans (le_add_of_nonneg_right leastHalf_pos.le)
  · exact near.trans (le_add_of_nonneg_left (by positivity))

end RoundsTo

/-- What is rounded from one on, and not beyond the largest number. -/
theorem near_of_roundsTo {x : Float} {value : ℚ} {unit : ℤ} {r : ℕ} (rounds : RoundsTo value unit r)
    (isExact : exact x = if (r : ℚ) * 2 ^ unit < 2 ^ 1024 then .fin (r * 2 ^ unit) else .posInf)
    (large : 1 ≤ value) (inRange : value < 2 ^ 1024 - 2 ^ 970) : Near 1 0 x value := by
  have below : (r : ℚ) * 2 ^ unit < 2 ^ 1024 := not_le.mp fun beyond =>
    not_le.mpr inRange (rounds.overflows_iff.mp beyond)
  rw [if_pos below] at isExact
  have part : lastPlace * value = value / 2 ^ 53 := one_div_mul_eq_div _ _
  exact near_once_iff.mpr ⟨_, isExact, part ▸ rounds.near_of_one_le large⟩

/-- The largest power of ten in range is not rounded to an infinity. -/
theorem ten_pow_lt : (10 : ℚ) ^ 308 < 2 ^ 1024 - 2 ^ 970 := by
  have digits : (10 : ℕ) ^ 308 + 2 ^ 970 < 2 ^ 1024 := by decide +kernel
  have digits : ((10 ^ 308 + 2 ^ 970 : ℕ) : ℚ) < (2 ^ 1024 : ℕ) := Nat.cast_lt.mpr digits
  rw [Nat.cast_add, Nat.cast_pow, Nat.cast_pow, Nat.cast_pow, Nat.cast_ofNat, Nat.cast_ofNat] at digits
  exact lt_sub_iff_add_lt.mpr digits

/-- Scientific notation without a fraction is rounded from the product. -/
theorem near_scientific {n places : ℕ} (isLong : ¬ (n < 2 ^ 53 ∧ places ≤ 22)) (positive : 0 < n)
    (few : places ≤ 308) (inRange : (n * 10 ^ places : ℚ) < 2 ^ 1024 - 2 ^ 970) :
    Near 1 0 (Float.ofScientific n false places) (n * 10 ^ places) := by
  have power : 0 < 10 ^ places := by positivity
  have notShort : implicitBit ≤ n <<< 53 * 10 ^ places ∨ (-53 : ℤ) ≤ -1074 := by
    left
    rw [Nat.shiftLeft_eq]
    calc implicitBit ≤ 2 ^ 53 := by decide
      _ ≤ n * 2 ^ 53 := Nat.le_mul_of_pos_left _ positive
      _ ≤ n * 2 ^ 53 * 10 ^ places := Nat.le_mul_of_pos_right _ power
  obtain ⟨unit, r, rounds, isExact⟩ := valueOf_roundWithAccuracy notShort
  have value : ((n <<< 53 * 10 ^ places : ℕ) : ℚ) * 2 ^ (-53 : ℤ) = n * 10 ^ places := by
    rw [Nat.shiftLeft_eq, zpow_neg]
    push_cast
    field_simp
  rw [value] at rounds
  have large : (1 : ℚ) ≤ n * 10 ^ places := by exact_mod_cast Nat.mul_pos positive power
  refine near_of_roundsTo rounds ?_ large inRange
  rw [exact_eq_valueOf, unpack_scientific isLong positive.ne' few, isExact]

/-- Powers of ten are rounded. -/
theorem near_power {places : ℕ} (few : places ≤ 308) :
    Near 1 0 (Float.ofScientific 1 false places) (10 ^ places) := by
  by_cases short : places ≤ 22
  · have table : ∀ k < 23, exact (Float.ofScientific 1 false k) = .fin (10 ^ k) := by decide +kernel
    exact near_exact (table places (by omega)) (by positivity)
  · have inRange : ((1 : ℕ) * 10 ^ places : ℚ) < 2 ^ 1024 - 2 ^ 970 := by
      calc ((1 : ℕ) * 10 ^ places : ℚ) ≤ 10 ^ 308 := by
            rw [Nat.cast_one, one_mul]
            gcongr
            norm_num
        _ < 2 ^ 1024 - 2 ^ 970 := ten_pow_lt
    have rounds := near_scientific (n := 1) (by omega) one_pos few inRange
    rwa [Nat.cast_one, one_mul] at rounds

theorem exact_toFloat {n : ℕ} (positive : 0 < n) (narrow : n < 2 ^ 53) :
    exact n.toUInt64.toFloat = .fin n := by
  have same : n.toUInt64.toNat = n := UInt64.toNat_ofNat_of_lt' (narrow.trans (by decide))
  -- A natural is widened before it is rounded, by the places that the format has to spare.
  obtain ⟨places, isPlaces⟩ : ∃ places,
      places = (0 - Format.binary64.targetExponent (totalExponent n 0)).toNat := ⟨_, rfl⟩
  have target : Format.binary64.targetExponent (totalExponent n 0) =
      max ((n.log2 : Int) + 1 + 0 - 53) (-1074) := rfl
  have digits : n.log2 < 53 := (Nat.log2_lt positive.ne').mpr narrow
  have all : n.log2 + places = 52 := by omega
  have compared : compare (n : Int) 0 = .gt := compare_gt_iff_gt.mpr (by omega)
  have rounded : UnpackedFloat.normalize .binary64 (n : Int) 0 .positive =
      roundWithAccuracy .binary64 .positive (n <<< places) (0 - places) .exact := by
    unfold UnpackedFloat.normalize
    rw [compared, isPlaces]
    rfl
  have notShort : implicitBit ≤ n <<< places ∨ (0 - places : ℤ) ≤ -1074 := by
    left
    rw [Nat.shiftLeft_eq]
    calc implicitBit = 2 ^ n.log2 * 2 ^ places := by rw [← Nat.pow_add, all]
      _ ≤ n * 2 ^ places := Nat.mul_le_mul_right _ (Nat.log2_self_le positive.ne')
  obtain ⟨unit, r, rounds, isExact⟩ := valueOf_roundWithAccuracy notShort
  have value : ((n <<< places : ℕ) : ℚ) * 2 ^ (0 - places : ℤ) = n := by
    rw [Nat.shiftLeft_eq, zero_sub, zpow_neg, zpow_natCast]
    push_cast
    field_simp
  rw [value] at rounds
  have kept := rounds.eq_of_representable (m := n) (e := 0) (by rw [zpow_zero, mul_one]) narrow (by decide)
  have small : (n : ℚ) < 2 ^ 1024 := by
    have less : (n : ℚ) < 2 ^ 53 := by exact_mod_cast narrow
    exact less.trans_le (pow_le_pow_right₀ one_le_two (by decide))
  rw [kept, if_pos small] at isExact
  have packed : exact n.toUInt64.toFloat = valueOf (unpack .binary64 (pack .binary64
      (UnpackedFloat.normalize .binary64 (n.toUInt64.toNat : Int) 0 .positive))) := exact_eq_valueOf _
  rw [packed, same, rounded, isExact]

theorem near_ofNat {n : ℕ} (positive : 0 < n) (narrow : n < 2 ^ 64) :
    Near 1 0 (Float.ofNat n) n := by
  show Near 1 0 (Float.ofScientific n false 0) n
  have inRange : (n : ℚ) < 2 ^ 1024 - 2 ^ 970 := by
    have less : (n : ℚ) < 2 ^ 64 := by exact_mod_cast narrow
    have power : (2 : ℚ) ^ 64 ≤ 10 ^ 308 := by
      calc (2 : ℚ) ^ 64 ≤ 10 ^ 64 := by gcongr; norm_num
        _ ≤ 10 ^ 308 := pow_le_pow_right₀ (by norm_num) (by decide)
    exact less.trans (power.trans_lt ten_pow_lt)
  by_cases small : n < 2 ^ 53 ∧ 0 ≤ 22
  · unfold Float.ofScientific
    rw [dif_pos small]
    have one : exact (Float.exactlyRepresentablePowersOfTen[0]) = .fin 1 := by
      have isOne : exact (Float.ofBits 4607182418800017408) = .fin 1 := by decide +kernel
      exact isOne
    obtain ⟨unit, r, rounds, isExact⟩ := exact_mul_of_pos (exact_toFloat positive small.1) one
      (by exact_mod_cast positive) one_pos
    rw [mul_one] at rounds
    have large : (1 : ℚ) ≤ n := by exact_mod_cast positive
    exact near_of_roundsTo rounds isExact large inRange
  · have rounds := near_scientific small positive (by decide) (by rwa [pow_zero, mul_one])
    rwa [pow_zero, mul_one] at rounds

/-! ## Products and quotients -/

section Errors

variable {a b p q error : ℚ} (positive : 0 < p) (nonzero : 0 < q) (second : |b - q| ≤ lastPlace * q)

include positive nonzero second

theorem abs_mul_sub_mul_le (first : |a - p| ≤ lastPlace * p) :
    |a * b - p * q| ≤ 2 * (lastPlace * (p * q)) + lastPlace * (lastPlace * (p * q)) := by
  have smallPositive := lastPlace_pos
  have above : |b| ≤ q * (1 + lastPlace) := by
    rw [abs_le]
    obtain ⟨low, high⟩ := abs_le.mp second
    have loss : 0 < lastPlace * q := by positivity
    constructor <;> linarith
  calc |a * b - p * q| = |(a - p) * b + p * (b - q)| := by ring_nf
    _ ≤ |a - p| * |b| + p * |b - q| := by
        refine (abs_add_le _ _).trans_eq ?_
        rw [abs_mul, abs_mul, abs_of_pos positive]
    _ ≤ lastPlace * p * (q * (1 + lastPlace)) + p * (lastPlace * q) := by gcongr
    _ = 2 * (lastPlace * (p * q)) + lastPlace * (lastPlace * (p * q)) := by ring

theorem abs_div_sub_div_le (first : |a - p| ≤ error) :
    |a / b - p / q| ≤ (error + lastPlace * p) / q * (1 + 2 * lastPlace) := by
  obtain ⟨small, smallPositive⟩ := And.intro lastPlace_small lastPlace_pos
  have errorNonneg : 0 ≤ error := (abs_nonneg _).trans first
  have loss : lastPlace * q ≤ 1 / 1000 * q := by gcongr
  have secondPositive : 0 < b := by linarith [(abs_le.mp second).1]
  have inverse : 1 / b ≤ (1 + 2 * lastPlace) / q := by
    rw [div_le_div_iff₀ secondPositive nonzero]
    nlinarith [(abs_le.mp second).1]
  calc |a / b - p / q| = |(a - p) * q + p * (q - b)| * (1 / b) / q := by
        rw [div_sub_div _ _ secondPositive.ne' nonzero.ne', abs_div,
          abs_of_pos (mul_pos secondPositive nonzero), mul_one_div, div_div]
        ring_nf
    _ ≤ (|a - p| * q + p * |b - q|) * ((1 + 2 * lastPlace) / q) / q := by
        gcongr
        refine (abs_add_le _ _).trans_eq ?_
        rw [abs_mul, abs_mul, abs_of_pos nonzero, abs_of_pos positive, abs_sub_comm q]
    _ ≤ (error * q + p * (lastPlace * q)) * ((1 + 2 * lastPlace) / q) / q := by gcongr
    _ = (error + lastPlace * p) / q * (1 + 2 * lastPlace) := by field_simp

end Errors

section Operations

variable {x y : Float} {p q : ℚ}

/-- A number that is off by few roundings is positive with its value. -/
theorem pos_of_near {a loss : ℚ} (first : |a - p| ≤ loss) (less : loss < p) : 0 < a := by
  linarith [(abs_le.mp first).1]

theorem lastPlace_mul_lt (positive : 0 < p) : lastPlace * p < p :=
  mul_lt_of_lt_one_left positive (lastPlace_small.trans_lt (by norm_num))

/-- The product of rounded numbers is rounded once more. -/
theorem near_mul (first : Near 1 0 x p) (second : Near 1 0 y q) (positive : 0 < p) (nonzero : 0 < q)
    (inRange : p * q * (1 + 3 * lastPlace) < 2 ^ 1024 - 2 ^ 970) : Near 4 1 (x * y) (p * q) := by
  obtain ⟨a, isFirst, nearFirst⟩ := near_once_iff.mp first
  obtain ⟨b, isSecond, nearSecond⟩ := near_once_iff.mp second
  obtain ⟨small, smallPositive⟩ := And.intro lastPlace_small lastPlace_pos
  have firstPositive := pos_of_near nearFirst (lastPlace_mul_lt positive)
  have secondPositive := pos_of_near nearSecond (lastPlace_mul_lt nonzero)
  have distance := abs_mul_sub_mul_le positive nonzero nearSecond nearFirst
  have loss : 0 < lastPlace * (p * q) := by positivity
  have twice : lastPlace * (lastPlace * (p * q)) ≤ 1 / 1000 * (lastPlace * (p * q)) := by gcongr
  have product : a * b ≤ p * q * (1 + 3 * lastPlace) := by linarith [(abs_le.mp distance).2]
  obtain ⟨unit, r, rounds, isExact⟩ := exact_mul_of_pos isFirst isSecond firstPositive secondPositive
  have below : (r : ℚ) * 2 ^ unit < 2 ^ 1024 := not_le.mp fun beyond =>
    not_le.mpr (product.trans_lt inRange) (rounds.overflows_iff.mp beyond)
  rw [if_pos below] at isExact
  refine ⟨_, isExact, ?_⟩
  have last := rounds.near_value (mul_pos firstPositive secondPositive).le
  have lost : lastPlace * (a * b) ≤ lastPlace * (p * q) + 3 * (lastPlace * (lastPlace * (p * q))) := by
    calc lastPlace * (a * b) ≤ lastPlace * (p * q * (1 + 3 * lastPlace)) := by gcongr
      _ = lastPlace * (p * q) + 3 * (lastPlace * (lastPlace * (p * q))) := by ring
  push_cast
  calc |(r : ℚ) * 2 ^ unit - p * q|
      ≤ |(r : ℚ) * 2 ^ unit - a * b| + |a * b - p * q| := abs_sub_le _ _ _
    _ ≤ 4 * (lastPlace * (p * q)) + 1 * leastHalf := by linarith

section Quotients

variable {a b : ℚ} {k : ℕ} {floor : ℚ}

/-- What a quotient by a number of at least one loses, as a part of the quotient. -/
theorem abs_div_sub_div_le_of_whole (positive : 0 < p) (whole : 1 ≤ q) (floorNonneg : 0 ≤ floor)
    (first : |a - p| ≤ k * (lastPlace * p) + floor) (second : |b - q| ≤ lastPlace * q) :
    |a / b - p / q| ≤ ((k + 1) * (lastPlace * (p / q)) + floor) * (1 + 2 * lastPlace) := by
  have nonzero : 0 < q := by linarith
  have smallPositive := lastPlace_pos
  refine (abs_div_sub_div_le positive nonzero second first).trans ?_
  gcongr
  calc (k * (lastPlace * p) + floor + lastPlace * p) / q
      = (k + 1) * (lastPlace * (p / q)) + floor / q := by ring
    _ ≤ (k + 1) * (lastPlace * (p / q)) + floor := by
        gcongr
        exact div_le_self floorNonneg whole

/-- A quotient by a number of about one at least is in range. -/
theorem div_lt_of_near (first : a ≤ 2 * p) (second : |b - q| ≤ lastPlace * q) (whole : 1 ≤ q)
    (inRange : p ≤ 2 ^ 64) : a / b < 2 ^ 1024 - 2 ^ 970 := by
  have small := lastPlace_small
  have halved : lastPlace * q ≤ 1 / 1000 * q := by gcongr
  have secondPositive : 0 < b := by linarith [(abs_le.mp second).1]
  have bounded : a / b ≤ 10 ^ 20 := by
    rw [div_le_iff₀ secondPositive]
    linarith [(abs_le.mp second).1]
  have power : (10 : ℚ) ^ 20 ≤ 10 ^ 308 := pow_le_pow_right₀ (by norm_num) (by decide)
  exact bounded.trans_lt (power.trans_lt ten_pow_lt)

end Quotients

/-- A quotient by a rounded number is rounded once more. -/
theorem near_div {k l : ℕ} (first : Near k l x p) (second : Near 1 0 y q) (few : k ≤ 100)
    (distinct : l * leastHalf < p / 2) (whole : 1 ≤ q) (inRange : p ≤ 2 ^ 64) :
    Near (k + 3) (2 * l + 1) (x / y) (p / q) := by
  obtain ⟨a, isFirst, nearFirst⟩ := first
  obtain ⟨b, isSecond, nearSecond⟩ := near_once_iff.mp second
  obtain ⟨small, smallPositive⟩ := And.intro lastPlace_small lastPlace_pos
  obtain ⟨floor, isFloor⟩ : ∃ floor, floor = l * leastHalf := ⟨_, rfl⟩
  have floorNonneg : 0 ≤ floor := isFloor ▸ mul_nonneg (Nat.cast_nonneg l) leastHalf_pos.le
  have count : (k : ℚ) ≤ 100 := by exact_mod_cast few
  rw [← isFloor] at nearFirst distinct
  have positive : 0 < p := by linarith
  have nonzero : 0 < q := by linarith
  have firstLoss : k * (lastPlace * p) ≤ p / 10 := by
    calc k * (lastPlace * p) ≤ 100 * (1 / 1000 * p) := by gcongr
      _ = p / 10 := by ring
  have firstPositive := pos_of_near nearFirst (by linarith)
  have secondPositive := pos_of_near nearSecond (lastPlace_mul_lt nonzero)
  have distance := abs_div_sub_div_le_of_whole positive whole floorNonneg nearFirst nearSecond
  obtain ⟨loss, isLoss⟩ : ∃ loss, loss = (k + 1) * (lastPlace * (p / q)) + floor := ⟨_, rfl⟩
  rw [← isLoss] at distance
  have lossNonneg : 0 ≤ loss := by
    rw [isLoss]
    positivity
  obtain ⟨unit, r, rounds, isExact⟩ := exact_div_of_pos isFirst isSecond firstPositive secondPositive
  have twofold : a ≤ 2 * p := by linarith [(abs_le.mp nearFirst).2]
  have below : (r : ℚ) * 2 ^ unit < 2 ^ 1024 := not_le.mp fun beyond =>
    not_le.mpr (div_lt_of_near twofold nearSecond whole inRange) (rounds.overflows_iff.mp beyond)
  rw [if_pos below] at isExact
  refine ⟨_, isExact, ?_⟩
  have last := rounds.near_value (div_pos firstPositive secondPositive).le
  have quotient : lastPlace * (a / b) ≤ lastPlace * (p / q) + lastPlace * (loss * (1 + 2 * lastPlace)) := by
    rw [← mul_add]
    gcongr
    linarith [(abs_le.mp distance).2]
  have again : lastPlace * loss ≤ 1 / 1000 * loss := by gcongr
  have twice : lastPlace * (lastPlace * loss) ≤ 1 / 1000 * (1 / 1000 * loss) := by gcongr
  have part : 0 ≤ lastPlace * (p / q) := by positivity
  have few : k * (lastPlace * (p / q)) ≤ 100 * (lastPlace * (p / q)) := by gcongr
  push_cast
  calc |(r : ℚ) * 2 ^ unit - p / q|
      ≤ |(r : ℚ) * 2 ^ unit - a / b| + |a / b - p / q| := abs_sub_le _ _ _
    _ ≤ (k + 3) * (lastPlace * (p / q)) + (2 * l + 1) * leastHalf := by
        have counted : (2 * l + 1) * leastHalf = 2 * floor + leastHalf := by rw [isFloor]; ring
        rw [counted]
        linarith

end Operations

end Binary64

/-! ## Reading a number in scaled form -/

namespace Json.Number

open Binary64

/-- The number of a significand and a power of ten. -/
def scaledValue (significand : ℕ) (exponent : ℤ) : ℚ := significand * 10 ^ exponent

theorem isInf_of_exact {x : Float} {r : ℚ} (isExact : Binary64.exact x = .fin r) : x.isInf = false := by
  unfold Binary64.exact at isExact
  split_ifs at isExact with nan infinite
  · exact Bool.not_eq_true _ ▸ infinite
  · exact Bool.not_eq_true _ ▸ infinite

theorem isZero_iff_exact {x : Float} {r : ℚ} (isExact : Binary64.exact x = .fin r) :
    (x == 0.0) = true ↔ r = 0 := by
  have zero : Binary64.exact 0.0 = .fin 0 := by decide +kernel
  show (x.toModel.unpack.compare (0.0 : Float).toModel.unpack == some .eq) = true ↔ _
  rw [compare_eq_order (stands_bitsOf x) (stands_bitsOf 0.0), ← exact_eq_valueOf, ← exact_eq_valueOf,
    isExact, zero, order, beq_iff_eq, Option.some.injEq, compare_eq_iff_eq]

section Scaling

variable {significand : ℕ} {exponent : ℤ} (positive : 0 < significand) (few : significand ≤ 10 ^ 17)

include positive few

theorem near_significand : Near 1 0 (Float.ofNat significand) significand :=
  near_ofNat positive (few.trans_lt (by decide))

/-- With a power of ten that is not negative, the significand is multiplied by it. -/
theorem near_scale?_up (nonneg : 0 ≤ exponent) (small : exponent ≤ 308)
    (inRange : scaledValue significand exponent * (1 + 3 * lastPlace) < 2 ^ 1024 - 2 ^ 970) :
    ∃ y, scale? significand exponent = some y ∧ Near 4 1 y (scaledValue significand exponent) := by
  obtain ⟨places, rfl⟩ := Int.eq_ofNat_of_zero_le nonneg
  have value : scaledValue significand places = significand * 10 ^ places := by
    rw [scaledValue, zpow_natCast]
  rw [value] at inRange ⊢
  have near := near_mul (near_significand positive few) (near_power (by omega : places ≤ 308))
    (by exact_mod_cast positive) (by positivity) inRange
  have ⟨r, isExact, _⟩ := near
  refine ⟨_, ?_, near⟩
  simp only [scale?, if_neg (not_lt.mpr nonneg), if_pos small, Int.natAbs_natCast,
    isInf_of_exact isExact, Bool.false_eq_true, if_false]

omit positive few in
/-- A whole number divided by the largest power of ten is above the least unit. -/
theorem leastHalf_lt (whole : (1 : ℚ) ≤ significand) :
    ((2 * 0 + 1 : ℕ) : ℚ) * leastHalf < (significand : ℚ) / 10 ^ 308 / 2 := by
  have power : (10 : ℚ) ^ 308 * 2 < 2 ^ 1075 := by
    calc (10 : ℚ) ^ 308 * 2 < 2 ^ 1024 * 2 := by
          gcongr
          exact ten_pow_lt.trans_le (sub_le_self _ (by positivity))
      _ = 2 ^ 1025 := (pow_succ 2 1024).symm
      _ ≤ 2 ^ 1075 := pow_le_pow_right₀ one_le_two (by decide)
  calc ((2 * 0 + 1 : ℕ) : ℚ) * leastHalf = 1 / 2 ^ 1075 := by
        rw [mul_zero, zero_add, Nat.cast_one, one_mul, leastHalf]
    _ < 1 / (10 ^ 308 * 2) := one_div_lt_one_div_of_lt (by positivity) power
    _ ≤ significand / (10 ^ 308 * 2) := by gcongr
    _ = significand / 10 ^ 308 / 2 := (div_div _ _ _).symm

/-- With a negative power of ten, the significand is divided by it, at once or in two steps. -/
theorem near_scale?_down (negative : exponent < 0) (small : -616 ≤ exponent) :
    ∃ y, scale? significand exponent = some y ∧ Near 7 3 y (scaledValue significand exponent) := by
  obtain ⟨places, isPlaces⟩ : ∃ places, places = exponent.natAbs := ⟨_, rfl⟩
  have value : scaledValue significand exponent = significand / 10 ^ places := by
    have isExponent : exponent = -(places : ℤ) := by omega
    rw [scaledValue, isExponent, zpow_neg, zpow_natCast, div_eq_mul_inv]
  have isScaled : scale? significand exponent = some (scaleDown (Float.ofNat significand) places) := by
    rw [scale?, if_pos negative, isPlaces]
  refine ⟨_, isScaled, ?_⟩
  have start := near_significand positive few
  have whole : (1 : ℚ) ≤ significand := by exact_mod_cast positive
  have inRange : (significand : ℚ) ≤ 2 ^ 64 := by
    have limit : (significand : ℚ) ≤ 10 ^ 17 := by exact_mod_cast few
    exact limit.trans (by norm_num)
  have atLeastOne (n : ℕ) : (1 : ℚ) ≤ 10 ^ n := one_le_pow₀ (by norm_num)
  have distinct : ((0 : ℕ) : ℚ) * leastHalf < (significand : ℚ) / 2 := by
    rw [Nat.cast_zero, zero_mul]
    positivity
  rw [value]
  by_cases short : places ≤ 308
  · have near := near_div start (near_power short) (by decide) distinct (atLeastOne places) inRange
    rw [scaleDown, if_pos short]
    exact near.mono (by decide) (by decide) (by positivity)
  · have near := near_div start (near_power le_rfl) (by decide) distinct (atLeastOne 308) inRange
    have between : (significand : ℚ) / 10 ^ 308 ≤ 2 ^ 64 :=
      (div_le_self (by positivity) (atLeastOne 308)).trans inRange
    have again := near_div near (near_power (by omega : places - 308 ≤ 308)) (by decide)
      (leastHalf_lt whole) (atLeastOne (places - 308)) between
    have parts : (significand : ℚ) / 10 ^ places = significand / 10 ^ 308 / 10 ^ (places - 308) := by
      rw [div_div, ← pow_add, Nat.add_sub_cancel' (by omega)]
    have notZero : (Float.ofNat significand == 0.0) = false := by
      obtain ⟨r, isExact, distance⟩ := near_once_iff.mp start
      have loss : lastPlace * significand ≤ 1 / 1000 * significand := by
        gcongr
        exact lastPlace_small
      have nonzero : r ≠ 0 := by
        rintro rfl
        linarith [(abs_le.mp distance).1]
      exact Bool.eq_false_iff.mpr (mt (isZero_iff_exact isExact).mp nonzero)
    rw [parts, scaleDown, if_neg short, notZero, if_neg Bool.false_ne_true, scaleDown,
      if_pos (by omega)]
    exact again

end Scaling

theorem scaledValue_pos {significand : ℕ} (positive : 0 < significand) (exponent : ℤ) :
    0 < scaledValue significand exponent := by
  have whole : (0 : ℚ) < significand := by exact_mod_cast positive
  exact mul_pos whole (by positivity)

theorem leastHalf_eq : leastHalf = 1 / 2 * 2 ^ (-1074 : ℤ) := RoundsTo.half_least_eq

theorem leastHalf_eq_zpow : leastHalf = 2 ^ (-1075 : ℤ) := by
  rw [leastHalf_eq, one_div, ← zpow_neg_one, ← zpow_add₀ two_ne_zero]
  rfl

/-- The power of ten of a decimal is bounded by its number. -/
theorem exponent_bounds {significand : ℕ} {exponent : ℤ} (positive : 0 < significand)
    (few : significand ≤ 10 ^ 17) (above : leastHalf ≤ scaledValue significand exponent)
    (below : scaledValue significand exponent < 2 ^ 1024) : -616 ≤ exponent ∧ exponent ≤ 308 := by
  have whole : (1 : ℚ) ≤ significand := by exact_mod_cast positive
  have limit : (significand : ℚ) ≤ 10 ^ (17 : ℤ) := by exact_mod_cast few
  constructor
  · by_contra! small
    have power : scaledValue significand exponent ≤ 2 ^ (-1076 : ℤ) := by
      calc scaledValue significand exponent ≤ 10 ^ (17 : ℤ) * 10 ^ (-617 : ℤ) := by
            unfold scaledValue
            gcongr
            · norm_num
            · omega
        _ = 10 ^ (-600 : ℤ) := by rw [← zpow_add₀ (by norm_num)]; rfl
        _ ≤ 2 ^ (-1076 : ℤ) := Shortest.ten_zpow_le_two_zpow (by decide) (by decide)
    have less : (2 : ℚ) ^ (-1076 : ℤ) < leastHalf := by
      rw [leastHalf_eq_zpow]
      exact zpow_lt_zpow_right₀ one_lt_two (by decide)
    exact absurd (above.trans power) (not_le.mpr less)
  · by_contra! large
    have power : (2 : ℚ) ^ 1024 ≤ scaledValue significand exponent := by
      calc (2 : ℚ) ^ (1024 : ℤ) ≤ 10 ^ (309 : ℤ) := Shortest.two_zpow_le_ten_zpow (by decide) (by decide)
        _ ≤ 1 * 10 ^ exponent := by
            rw [one_mul]
            exact zpow_le_zpow_right₀ (by norm_num) large
        _ ≤ scaledValue significand exponent := by
            unfold scaledValue
            gcongr
    exact not_lt.mpr power below

/-- Half a last place is a rounding to it, or to the least unit of all. -/
theorem half_last_place_le {m : ℕ} {e : ℤ} (full : 2 ^ 52 ≤ m ∨ e = -1074) :
    1 / 2 * 2 ^ e ≤ lastPlace * (m * 2 ^ e) + leastHalf := by
  have small := lastPlace_pos
  have ulp : (0 : ℚ) < 2 ^ e := by positivity
  rcases full with full | rfl
  · have full : (2 ^ 52 : ℚ) ≤ m := by exact_mod_cast full
    have part : 1 / 2 ≤ lastPlace * m := by
      calc (1 / 2 : ℚ) = lastPlace * 2 ^ 52 := by norm_num [lastPlace]
        _ ≤ lastPlace * m := by gcongr
    calc 1 / 2 * 2 ^ e ≤ lastPlace * m * 2 ^ e := by gcongr
      _ = lastPlace * (m * 2 ^ e) := by ring
      _ ≤ _ := le_add_of_nonneg_right leastHalf_pos.le
  · rw [← leastHalf_eq]
    exact le_add_of_nonneg_left (by positivity)

/-- What is near to a rounded value is near to the value. -/
theorem near_of_rounded {y : Float} {v q : ℚ} (near : Near 7 3 y v) (positive : 0 < q)
    (rounded : |v - q| ≤ lastPlace * q + leastHalf) : Near 9 5 y q := by
  obtain ⟨r, isExact, distance⟩ := near
  obtain ⟨small, smallPositive⟩ := And.intro lastPlace_small lastPlace_pos
  have floor := leastHalf_pos
  have again : lastPlace * v ≤ lastPlace * q + lastPlace * (lastPlace * q + leastHalf) := by
    rw [← mul_add]
    gcongr
    linarith [(abs_le.mp rounded).2]
  have twice : lastPlace * (lastPlace * q) ≤ 1 / 1000 * (lastPlace * q) := by gcongr
  have tiny : lastPlace * leastHalf ≤ 1 / 1000 * leastHalf :=
    mul_le_mul_of_nonneg_right small floor.le
  have loss : 0 < lastPlace * q := by positivity
  refine ⟨r, isExact, ?_⟩
  push_cast at distance ⊢
  calc |r - q| ≤ |r - v| + |v - q| := abs_sub_le _ _ _
    _ ≤ 9 * (lastPlace * q) + 5 * leastHalf := by linarith

/-- A decimal that is at most half a last place away from a machine number is read near to that number. -/
theorem near_scale? {significand : ℕ} {exponent : ℤ} (positive : 0 < significand)
    (few : significand ≤ 10 ^ 17) {m : ℕ} {e : ℤ} (nonzero : 0 < m) (narrow : m < 2 ^ 53)
    (full : 2 ^ 52 ≤ m ∨ e = -1074) (least : -1074 ≤ e)
    (inRange : (m + 7 / 2 : ℚ) * 2 ^ e < 2 ^ 1024 - 2 ^ 970)
    (close : |scaledValue significand exponent - m * 2 ^ e| ≤ 1 / 2 * 2 ^ e) :
    ∃ y, scale? significand exponent = some y ∧ Near 9 5 y (m * 2 ^ e) := by
  have decimalPositive := scaledValue_pos positive exponent
  obtain ⟨v, isValue⟩ : ∃ v, v = scaledValue significand exponent := ⟨_, rfl⟩
  rw [← isValue] at close decimalPositive
  have ulp : (0 : ℚ) < 2 ^ e := by positivity
  have whole : (1 : ℚ) ≤ m := by exact_mod_cast nonzero
  have limit : (m + 1 / 2 : ℚ) ≤ 2 ^ 53 := by
    have less : (m + 1 : ℚ) ≤ 2 ^ 53 := by exact_mod_cast narrow
    linarith
  obtain ⟨low, high⟩ := abs_le.mp close
  have smallPositive := lastPlace_pos
  have above : leastHalf ≤ v := by
    calc leastHalf = 1 / 2 * 2 ^ (-1074 : ℤ) := leastHalf_eq
      _ ≤ 1 / 2 * 2 ^ e := by
          gcongr
          norm_num
      _ ≤ (m - 1 / 2 : ℚ) * 2 ^ e := by
          gcongr
          linarith
      _ ≤ v := by linarith
  -- Three roundings of a number below the end of a binade are at most three units of its last place.
  have room : v * (1 + 3 * lastPlace) < 2 ^ 1024 - 2 ^ 970 := by
    refine lt_of_le_of_lt ?_ inRange
    calc v * (1 + 3 * lastPlace) ≤ (m + 1 / 2) * 2 ^ e * (1 + 3 * lastPlace) := by
          gcongr
          linarith
      _ = (m + 1 / 2 + 3 * ((m + 1 / 2) / 2 ^ 53)) * 2 ^ e := by unfold lastPlace; ring
      _ ≤ (m + 1 / 2 + 3 * 1) * 2 ^ e := by
          gcongr
          exact (div_le_one (by positivity)).mpr limit
      _ = (m + 7 / 2) * 2 ^ e := by ring
  have below : v < 2 ^ 1024 := by
    have grown : v ≤ v * (1 + 3 * lastPlace) := le_mul_of_one_le_right decimalPositive.le (by linarith)
    exact (grown.trans_lt room).trans_le (sub_le_self _ (by positivity))
  obtain ⟨atLeast, atMost⟩ := exponent_bounds positive few (isValue ▸ above) (isValue ▸ below)
  have rounded := close.trans (half_last_place_le full)
  have number : (0 : ℚ) < m * 2 ^ e := mul_pos (by linarith) ulp
  rcases lt_or_ge exponent 0 with negative | nonneg
  · obtain ⟨y, isScaled, near⟩ := near_scale?_down positive few negative atLeast
    exact ⟨y, isScaled, near_of_rounded (isValue ▸ near) number rounded⟩
  · obtain ⟨y, isScaled, near⟩ := near_scale?_up positive few nonneg atMost (isValue ▸ room)
    have near := near.mono (by decide : 4 ≤ 7) (by decide : 1 ≤ 3) (isValue ▸ decimalPositive.le)
    exact ⟨y, isScaled, near_of_rounded (isValue ▸ near) number rounded⟩

end Json.Number

end Montage

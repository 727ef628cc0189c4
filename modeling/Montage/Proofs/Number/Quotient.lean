import Montage.Proofs.Number.Product

/-!
Contract: quotients and products of machine numbers are rounded to the nearest number.

Owns:
- what is left of a number whose binary digits are cut off, with the two bits that tell how it goes on
  (`CutFrom`);
- the unit and the whole number of units that a positive number is rounded to (`RoundsTo`);
- how far a number is moved by rounding (`RoundsTo.near`);
- that a quotient or a product of positive numbers is rounded so (`exact_div_of_pos`, `exact_mul_of_pos`),
  when a quotient becomes a zero or an infinity (`div_pos_iff`), and when it is exact;
- that halving and doubling are exact away from the ends of the range.

Does **not** own: products with a factor below one, whatever their signs (`Montage.Proofs.Number.Product`).
-/

set_option autoImplicit false

namespace Montage.Binary64

open Float.Model (Format UnpackedFloat totalExponent)
open Float.Model.UnpackedFloat
open Rounding (IsNearestEven)

/-! ## Digits that are cut off -/

/-- A significand with its round bit and its sticky bit, and the number that it is cut from, in units of the
last place. -/
inductive CutFrom (x : ℚ) : ExtendedMantissa → Prop
  | exact {m : ℕ} (same : x = m) : CutFrom x ⟨m, false, false⟩
  | low {m : ℕ} (above : m < x) (below : x < m + 1 / 2) : CutFrom x ⟨m, false, true⟩
  | half {m : ℕ} (same : x = m + 1 / 2) : CutFrom x ⟨m, true, false⟩
  | high {m : ℕ} (above : m + 1 / 2 < x) (below : x < m + 1) : CutFrom x ⟨m, true, true⟩

section CutFrom

variable {x : ℚ} {em : ExtendedMantissa}

theorem CutFrom.bounds (cut : CutFrom x em) : em.mantissa ≤ x ∧ x < em.mantissa + 1 := by
  cases cut <;> constructor <;> simp only <;> linarith

theorem shiftRightOne_even (k : ℕ) (roundBit stickyBit : Bool) :
    ExtendedMantissa.shiftRightOne ⟨2 * k, roundBit, stickyBit⟩ = ⟨k, false, roundBit || stickyBit⟩ := by
  simp [ExtendedMantissa.shiftRightOne]

theorem shiftRightOne_odd (k : ℕ) (roundBit stickyBit : Bool) :
    ExtendedMantissa.shiftRightOne ⟨2 * k + 1, roundBit, stickyBit⟩ =
      ⟨k, true, roundBit || stickyBit⟩ := by
  have half : (2 * k + 1) / 2 = k := by omega
  simp [ExtendedMantissa.shiftRightOne, half]

/-- Cutting off one more digit halves the number in units of the last place. -/
theorem CutFrom.shiftRightOne (cut : CutFrom x em) : CutFrom (x / 2) em.shiftRightOne := by
  obtain ⟨m, roundBit, stickyBit⟩ := em
  -- The digit that is cut off says in which half of the new unit the number lies.
  obtain ⟨k, rfl | rfl⟩ := Nat.even_or_odd' m
  · rw [shiftRightOne_even]
    cases cut with
    | exact same =>
        push_cast at same
        exact .exact (by linarith)
    | low above below =>
        push_cast at above below
        exact .low (by linarith) (by linarith)
    | half same =>
        push_cast at same
        exact .low (by linarith) (by linarith)
    | high above below =>
        push_cast at above below
        exact .low (by linarith) (by linarith)
  · rw [shiftRightOne_odd]
    cases cut with
    | exact same =>
        push_cast at same
        exact .half (by linarith)
    | low above below =>
        push_cast at above below
        exact .high (by linarith) (by linarith)
    | half same =>
        push_cast at same
        exact .high (by linarith) (by linarith)
    | high above below =>
        push_cast at above below
        exact .high (by linarith) (by linarith)

theorem CutFrom.shiftRight (cut : CutFrom x em) (places : ℕ) :
    CutFrom (x / 2 ^ places) (em >>> places) := by
  induction places with
  | zero => rwa [pow_zero, div_one]
  | succ places inductionHypothesis =>
      rw [pow_succ, ← div_div]
      exact inductionHypothesis.shiftRightOne

/-- The two bits are enough to find the nearest whole number, and the even one of two. -/
theorem CutFrom.isNearestEven (cut : CutFrom x em) : IsNearestEven x em.roundedMantissa := by
  cases cut with
  | @exact m same =>
      show IsNearestEven x m
      refine ⟨by linarith, by linarith, ?_⟩
      rintro (halfway | halfway) <;> linarith
  | @low m above below =>
      show IsNearestEven x m
      refine ⟨by linarith, by linarith, ?_⟩
      rintro (halfway | halfway) <;> linarith
  | @half m same =>
      show IsNearestEven x (m + m % 2)
      rcases Nat.mod_two_eq_zero_or_one m with even | odd
      · rw [even, Nat.add_zero]
        exact ⟨by linarith, by linarith, fun _ => Nat.even_iff.mpr even⟩
      · rw [odd, Rounding.isNearestEven_succ_iff]
        exact ⟨by linarith, by linarith, fun _ => by rw [Nat.even_add_one, Nat.even_iff]; omega⟩
  | @high m above below =>
      show IsNearestEven x (m + 1)
      rw [Rounding.isNearestEven_succ_iff]
      refine ⟨by linarith, by linarith, ?_⟩
      rintro (halfway | halfway) <;> linarith

/-- A quotient of naturals is cut to its whole part, by what its remainder is. -/
theorem cutFrom_quotient {divisor : ℕ} (positive : 0 < divisor) (dividend : ℕ) :
    CutFrom (dividend / divisor) (ExtendedMantissa.ofMantissaAndAccuracy (dividend / divisor)
      (accuracyOfFraction (dividend % divisor) divisor)) := by
  obtain ⟨whole, isWhole⟩ : ∃ whole, whole = dividend / divisor := ⟨_, rfl⟩
  obtain ⟨rest, isRest⟩ : ∃ rest, rest = dividend % divisor := ⟨_, rfl⟩
  have unit : (0 : ℚ) < divisor := by exact_mod_cast positive
  have parts : (dividend : ℚ) = divisor * whole + rest := by
    rw [isWhole, isRest]
    exact_mod_cast (Nat.div_add_mod dividend divisor).symm
  have value : (dividend / divisor : ℚ) = whole + rest / divisor := by
    rw [parts]
    field_simp
  have small : (rest / divisor : ℚ) < 1 := by
    rw [div_lt_one unit]
    exact_mod_cast isRest ▸ Nat.mod_lt dividend positive
  rw [← isWhole, ← isRest, value, accuracyOfFraction]
  by_cases zero : rest = 0
  · rw [if_pos zero, zero]
    exact .exact (by simp)
  · have something : (0 : ℚ) < rest / divisor :=
      div_pos (by exact_mod_cast Nat.pos_of_ne_zero zero) unit
    rw [if_neg zero]
    rcases lt_trichotomy (2 * rest) divisor with less | same | more
    · have low : (rest / divisor : ℚ) < 1 / 2 := by
        rw [div_lt_div_iff₀ unit two_pos, one_mul, mul_comm]
        exact_mod_cast less
      rw [compare_lt_iff_lt.mpr less]
      exact .low (by linarith) (by linarith)
    · have half : (rest / divisor : ℚ) = 1 / 2 := by
        rw [div_eq_div_iff unit.ne' two_ne_zero, one_mul, mul_comm]
        exact_mod_cast same
      rw [compare_eq_iff_eq.mpr same]
      exact .half (by linarith)
    · have high : (1 / 2 : ℚ) < rest / divisor := by
        rw [div_lt_div_iff₀ two_pos unit, one_mul, mul_comm _ (2 : ℚ)]
        exact_mod_cast more
      rw [compare_gt_iff_gt.mpr more]
      exact .high (by linarith) (by linarith)

end CutFrom

/-! ## Rounding -/

/-- A positive number is rounded to a whole number of units, the nearest one. The unit leaves room for 53
digits, and there are so many unless it is the least unit of all. -/
structure RoundsTo (value : ℚ) (unit : ℤ) (r : ℕ) : Prop where
  lowest : -1074 ≤ unit
  nearest : IsNearestEven (value / 2 ^ unit) r
  below : value / 2 ^ unit < 2 ^ 53
  normal : 2 ^ 52 ≤ value / 2 ^ unit ∨ unit = -1074

theorem isNearestEven_natCast (n : ℕ) : IsNearestEven n n :=
  ⟨by linarith, by linarith, by rintro (halfway | halfway) <;> linarith⟩

namespace RoundsTo

variable {value : ℚ} {unit : ℤ} {r : ℕ}

theorem le_full (rounds : RoundsTo value unit r) : r ≤ 2 ^ 53 :=
  rounds.nearest.mono (isNearestEven_natCast (2 ^ 53)) (by exact_mod_cast rounds.below.le)

theorem full_le (rounds : RoundsTo value unit r) : 2 ^ 52 ≤ r ∨ unit = -1074 :=
  rounds.normal.imp_left fun full =>
    (isNearestEven_natCast (2 ^ 52)).mono rounds.nearest (by exact_mod_cast full)

/-- In case of a carry, the digit that is shifted out is a zero. -/
theorem shift_eq (rounds : RoundsTo value unit r) :
    ((r / 2 ^ excess r unit : ℕ) : ℚ) * 2 ^ (unit + excess r unit) = r * 2 ^ unit := by
  have lowest := rounds.lowest
  rcases rounds.le_full.lt_or_eq with less | carry
  · have few : r.log2 ≤ 52 := by
      rcases Nat.eq_zero_or_pos r with rfl | positive
      · exact Nat.zero_le _
      · exact Nat.le_of_lt_succ ((Nat.log2_lt positive.ne').mpr less)
    have none : excess r unit = 0 := by
      unfold excess
      omega
    rw [none, pow_zero, Nat.div_one, Nat.cast_zero, add_zero]
  · have one : excess r unit = 1 := by
      unfold excess
      rw [carry, Nat.log2_two_pow]
      omega
    rw [one, carry, Nat.cast_one, zpow_add_one₀ two_ne_zero]
    norm_num
    ring

end RoundsTo

/-- What is cut off a significand that is not too short is rounded. -/
theorem roundWithAccuracy_roundsTo (s : Sign) {x : ℚ} {m : ℕ} {e : ℤ} {accuracy : Accuracy}
    (cut : CutFrom x (ExtendedMantissa.ofMantissaAndAccuracy m accuracy))
    (notShort : implicitBit ≤ m ∨ e ≤ -1074) :
    ∃ unit r, RoundsTo (x * 2 ^ e) unit r ∧
      (r = 0 ∧ roundWithAccuracy .binary64 s m e accuracy = .zero s ∨
        ∃ k g positive, Canonical k g ∧ (k : ℚ) * 2 ^ g = r * 2 ^ unit ∧
          roundWithAccuracy .binary64 s m e accuracy = .finite s k g positive) := by
  obtain ⟨r, isRounded⟩ : ∃ r, (ExtendedMantissa.ofMantissaAndAccuracy m accuracy >>>
      excess m e).roundedMantissa = r := ⟨_, rfl⟩
  have shifted := cut.shiftRight (excess m e)
  have bounds := shifted.bounds
  rw [mantissa_shiftRight, mantissa_ofMantissaAndAccuracy] at bounds
  have kept := canonical_shift notShort
  have scale : x * 2 ^ e / 2 ^ (e + excess m e) = x / 2 ^ excess m e := by
    rw [zpow_add₀ two_ne_zero, zpow_natCast]
    field_simp
  have rounds : RoundsTo (x * 2 ^ e) (e + excess m e) r := by
    refine ⟨kept.lowest, ?_, ?_, kept.normal.imp_left fun normal => ?_⟩ <;> rw [scale]
    · exact isRounded ▸ shifted.isNearestEven
    · have small : ((m / 2 ^ excess m e + 1 : ℕ) : ℚ) ≤ 2 ^ 53 := by exact_mod_cast kept.small
      push_cast at small
      linarith [bounds.2]
    · have full : (2 ^ 52 : ℚ) ≤ (m / 2 ^ excess m e : ℕ) := by exact_mod_cast normal
      linarith [bounds.1]
  have again : Canonical (r / 2 ^ excess r (e + excess m e))
      (e + excess m e + excess r (e + excess m e)) :=
    canonical_shift (rounds.full_le.imp id le_of_eq)
  refine ⟨_, r, rounds, ?_⟩
  rcases roundWithAccuracy_eq s isRounded with ⟨isNone, isZero⟩ | ⟨positive, isFinite⟩
  · refine Or.inl ⟨?_, isZero⟩
    have value := rounds.shift_eq
    rw [isNone, Nat.cast_zero, zero_mul, zero_eq_mul] at value
    exact_mod_cast value.resolve_right (by positivity)
  · exact Or.inr ⟨_, _, positive, again, rounds.shift_eq, isFinite⟩

/-! ## Quotients -/

section Division

variable {m n : ℕ} {e f : ℤ}

/-- Widening the dividend moves the point of the quotient. -/
theorem widened_quotient (alsoPositive : 0 < n) {places : ℕ} {start : ℤ}
    (moved : e = (places : ℤ) + start + f) :
    ((m <<< places : ℕ) : ℚ) / n * 2 ^ start = m * 2 ^ e / (n * 2 ^ f) := by
  have divisor : (0 : ℚ) < n := by exact_mod_cast alsoPositive
  rw [Nat.shiftLeft_eq, moved, zpow_add₀ two_ne_zero, zpow_add₀ two_ne_zero, zpow_natCast]
  push_cast
  field_simp

/-- A quotient has 53 digits if the dividend has so many more than the divisor. -/
theorem implicitBit_le_quotient (positive : 0 < m) (alsoPositive : 0 < n) {places : ℕ}
    (digits : (52 : ℤ) ≤ (m.log2 : ℤ) - n.log2 - 1 + places) : implicitBit ≤ (m <<< places) / n := by
  have divisor : (0 : ℚ) < n := by exact_mod_cast alsoPositive
  have least := (quotient_bounds positive alsoPositive).1
  have full : (2 : ℚ) ^ (52 : ℤ) ≤ (m <<< places : ℕ) / n := by
    calc (2 : ℚ) ^ (52 : ℤ) ≤ 2 ^ ((m.log2 : ℤ) - n.log2 - 1 + places) := by
          gcongr
          norm_num
      _ = 2 ^ ((m.log2 : ℤ) - n.log2 - 1) * 2 ^ places := by rw [zpow_add₀ two_ne_zero, zpow_natCast]
      _ ≤ m / n * 2 ^ places := by gcongr
      _ = (m <<< places : ℕ) / n := by
          rw [Nat.shiftLeft_eq]
          push_cast
          ring
  rw [le_div_iff₀ divisor] at full
  exact (Nat.le_div_iff_mul_le alsoPositive).mpr (by exact_mod_cast full)

/-- The dividend is widened until the quotient has 53 digits, or down to the least unit of all. -/
theorem div_roundsTo (s t : Sign) (positive : 0 < m) (alsoPositive : 0 < n) :
    ∃ unit r, RoundsTo (m * 2 ^ e / (n * 2 ^ f)) unit r ∧
      (r = 0 ∧ UnpackedFloat.div .binary64 (.finite s m e positive) (.finite t n f alsoPositive) =
          .zero (s / t) ∨
        ∃ k g nonzero, Canonical k g ∧ (k : ℚ) * 2 ^ g = r * 2 ^ unit ∧
          UnpackedFloat.div .binary64 (.finite s m e positive) (.finite t n f alsoPositive) =
            .finite (s / t) k g nonzero) := by
  obtain ⟨start, isStart⟩ : ∃ start, start = min (e - f)
    (Format.binary64.targetExponent (totalExponent m e - totalExponent n f)) := ⟨_, rfl⟩
  have target : Format.binary64.targetExponent (totalExponent m e - totalExponent n f) =
      max ((m.log2 : ℤ) + 1 + e - (n.log2 + 1 + f) - 53) (-1074) := rfl
  obtain ⟨places, isPlaces⟩ := Int.eq_ofNat_of_zero_le (a := e - f - start) (by omega)
  have quotient : UnpackedFloat.div .binary64 (.finite s m e positive) (.finite t n f alsoPositive) =
      roundWithAccuracy .binary64 (s / t) ((m <<< places) / n) start
        (accuracyOfFraction ((m <<< places) % n) n) := by
    rw [show places = (e - f - start).toNat by omega, isStart]
    rfl
  have notShort : implicitBit ≤ (m <<< places) / n ∨ start ≤ -1074 := by
    by_cases low : start ≤ -1074
    · exact Or.inr low
    · exact Or.inl (implicitBit_le_quotient positive alsoPositive (by omega))
  rw [quotient, ← widened_quotient alsoPositive (by omega : e = (places : ℤ) + start + f)]
  exact roundWithAccuracy_roundsTo (s / t) (cutFrom_quotient alsoPositive (m <<< places)) notShort

/-- A number beyond the greatest exponent is packed as an infinity. -/
theorem valueOf_unpack_pack_overflow (positive : 0 < m) (outOfRange : 971 < e) :
    valueOf (unpack .binary64 (pack .binary64 (.finite .positive m e positive))) = .posInf := by
  have overflows : 2 ^ Format.binary64.exponentBits ≤
      (e + Format.binary64.exponentBias + Format.binary64.mantissaBitsWithoutImplicit).toNat + 1 := by
    show 2048 ≤ (e + 1023 + 52).toNat + 1
    omega
  simp only [pack, if_pos overflows]
  rfl

/-- Canonical numbers are out of range from a power of two on. -/
theorem Canonical.inRange_iff (canonical : Canonical m e) : (m : ℚ) * 2 ^ e < 2 ^ 1024 ↔ e ≤ 971 := by
  constructor
  · intro small
    by_contra above
    have full : 2 ^ 52 ≤ m := canonical.normal.resolve_right (by omega)
    have large : (2 : ℚ) ^ (1024 : ℤ) ≤ m * 2 ^ e := by
      calc (2 : ℚ) ^ (1024 : ℤ) = 2 ^ (52 : ℤ) * 2 ^ (972 : ℤ) := by rw [← zpow_add₀ two_ne_zero]; rfl
        _ ≤ m * 2 ^ e := by
            gcongr
            · exact_mod_cast full
            · norm_num
            · omega
    exact absurd small (not_lt.mpr (by exact_mod_cast large))
  · intro inRange
    have small : (m : ℚ) * 2 ^ e < 2 ^ (1024 : ℤ) := by
      calc (m : ℚ) * 2 ^ e < 2 ^ (53 : ℤ) * 2 ^ (971 : ℤ) := by
            refine mul_lt_mul_of_lt_of_le_of_nonneg_of_pos ?_ ?_ (by positivity) (by positivity)
            · exact_mod_cast canonical.small
            · gcongr
              norm_num
        _ = 2 ^ (1024 : ℤ) := by rw [← zpow_add₀ two_ne_zero]; rfl
    exact_mod_cast small

end Division

theorem exact_div (x y : Float) :
    exact (x / y) = valueOf (unpack .binary64 (pack .binary64
      (UnpackedFloat.div .binary64 x.toModel.unpack y.toModel.unpack))) := exact_eq_valueOf _

/-- A positive machine number is unpacked to its digits. -/
theorem unpack_of_pos {x : Float} {p : ℚ} (isExact : exact x = .fin p) (positive : 0 < p) :
    ∃ m e nonzero, x.toModel.unpack = .finite .positive m e nonzero ∧ Canonical m e ∧ e ≤ 971 ∧
      (m : ℚ) * 2 ^ e = p := by
  obtain ⟨s, -, rfl⟩ | ⟨s, m, e, nonzero, unpacked, canonical, inRange, rfl⟩ := unpack_of_exact isExact
  · exact (lt_irrefl _ positive).elim
  · obtain rfl := sign_eq_positive nonzero positive.le
    exact ⟨m, e, nonzero, unpacked, canonical, inRange, by rw [Sign.apply, Int.cast_natCast]⟩

/-- What a positive number is rounded to is packed without loss, or as an infinity if it is out of range. -/
theorem valueOf_rounded {unit : ℤ} {r : ℕ} {s : Sign} {u : UnpackedFloat}
    (rounded : r = 0 ∧ u = .zero s ∨ ∃ k g positive, Canonical k g ∧ (k : ℚ) * 2 ^ g = r * 2 ^ unit ∧
      u = .finite .positive k g positive) :
    valueOf (unpack .binary64 (pack .binary64 u)) =
      if (r : ℚ) * 2 ^ unit < 2 ^ 1024 then .fin (r * 2 ^ unit) else .posInf := by
  obtain ⟨rfl, rfl⟩ | ⟨k, g, left, canonical, same, rfl⟩ := rounded
  · rw [valueOf_unpack_pack_zero, Nat.cast_zero, zero_mul, if_pos (by positivity)]
  · rw [← same]
    by_cases inRange : g ≤ 971
    · rw [valueOf_unpack_pack left canonical inRange, if_pos (canonical.inRange_iff.mpr inRange),
        Sign.apply, Int.cast_natCast]
    · rw [valueOf_unpack_pack_overflow left (not_le.mp inRange),
        if_neg (mt canonical.inRange_iff.mp inRange)]

/-- The quotient of two positive machine numbers is rounded to the nearest one, and is infinite if that is
out of range. -/
theorem exact_div_of_pos {x y : Float} {p q : ℚ} (isFirst : exact x = .fin p)
    (isSecond : exact y = .fin q) (positive : 0 < p) (nonzero : 0 < q) :
    ∃ unit r, RoundsTo (p / q) unit r ∧
      exact (x / y) = if (r : ℚ) * 2 ^ unit < 2 ^ 1024 then .fin (r * 2 ^ unit) else .posInf := by
  obtain ⟨m, e, someDigits, first, -, -, rfl⟩ := unpack_of_pos isFirst positive
  obtain ⟨n, f, alsoDigits, second, -, -, rfl⟩ := unpack_of_pos isSecond nonzero
  rw [exact_div, first, second]
  obtain ⟨unit, r, rounds, rounded⟩ :=
    div_roundsTo (e := e) (f := f) .positive .positive someDigits alsoDigits
  exact ⟨unit, r, rounds, valueOf_rounded rounded⟩

/-- A significand that is not too short is rounded without sign as a number of that many units. -/
theorem valueOf_roundWithAccuracy {m : ℕ} {e : ℤ} (notShort : implicitBit ≤ m ∨ e ≤ -1074) :
    ∃ unit r, RoundsTo (m * 2 ^ e) unit r ∧
      valueOf (unpack .binary64 (pack .binary64 (roundWithAccuracy .binary64 .positive m e .exact))) =
        if (r : ℚ) * 2 ^ unit < 2 ^ 1024 then .fin (r * 2 ^ unit) else .posInf := by
  have whole : CutFrom (m : ℚ) (ExtendedMantissa.ofMantissaAndAccuracy m .exact) := .exact rfl
  obtain ⟨unit, r, rounds, rounded⟩ := roundWithAccuracy_roundsTo .positive whole notShort
  exact ⟨unit, r, rounds, valueOf_rounded rounded⟩

/-- The product of two positive machine numbers is rounded to the nearest one, and is infinite if that is
out of range. -/
theorem exact_mul_of_pos {x y : Float} {p q : ℚ} (isFirst : exact x = .fin p)
    (isSecond : exact y = .fin q) (positive : 0 < p) (nonzero : 0 < q) :
    ∃ unit r, RoundsTo (p * q) unit r ∧
      exact (x * y) = if (r : ℚ) * 2 ^ unit < 2 ^ 1024 then .fin (r * 2 ^ unit) else .posInf := by
  obtain ⟨m, e, someDigits, first, canonical, -, rfl⟩ := unpack_of_pos isFirst positive
  obtain ⟨n, f, alsoDigits, second, alsoCanonical, -, rfl⟩ := unpack_of_pos isSecond nonzero
  have notShort : implicitBit ≤ m * n ∨ e + f ≤ -1074 := by
    rcases canonical.normal with full | rfl
    · exact Or.inl (full.trans (Nat.le_mul_of_pos_right m alsoDigits))
    rcases alsoCanonical.normal with full | rfl
    · exact Or.inl (full.trans (Nat.le_mul_of_pos_left n someDigits))
    · exact Or.inr (by decide)
  obtain ⟨unit, r, rounds, rounded⟩ := valueOf_roundWithAccuracy notShort
  have product : ((m * n : ℕ) : ℚ) * 2 ^ (e + f) = m * 2 ^ e * (n * 2 ^ f) := by
    rw [zpow_add₀ two_ne_zero]
    push_cast
    ring
  have result : exact (x * y) = valueOf (unpack .binary64 (pack .binary64
      (UnpackedFloat.mul .binary64 x.toModel.unpack y.toModel.unpack))) := exact_eq_valueOf _
  rw [product] at rounds
  rw [result, first, second]
  exact ⟨unit, r, rounds, rounded⟩

/-! ## What is lost -/

namespace RoundsTo

variable {value : ℚ} {unit : ℤ} {r : ℕ}

theorem half_least_eq : (1 / 2 ^ 1075 : ℚ) = 1 / 2 * 2 ^ (-1074 : ℤ) := by
  calc (1 / 2 ^ 1075 : ℚ) = 2 ^ (-1075 : ℤ) := by rw [zpow_neg, one_div]; norm_cast
    _ = 2 ^ (-1 : ℤ) * 2 ^ (-1074 : ℤ) := by rw [← zpow_add₀ two_ne_zero]; rfl
    _ = 1 / 2 * 2 ^ (-1074 : ℤ) := by rw [zpow_neg_one, one_div]

theorem abs_sub_le_half (rounds : RoundsTo value unit r) :
    |(r : ℚ) * 2 ^ unit - value| ≤ 1 / 2 * 2 ^ unit := by
  have scale : (0 : ℚ) < 2 ^ unit := by positivity
  have near : |(r : ℚ) - value / 2 ^ unit| ≤ 1 / 2 :=
    abs_le.mpr ⟨by linarith [rounds.nearest.above], by linarith [rounds.nearest.below]⟩
  calc |(r : ℚ) * 2 ^ unit - value| = |(r : ℚ) - value / 2 ^ unit| * 2 ^ unit := by
        rw [← abs_of_pos scale, ← abs_mul, abs_of_pos scale, sub_mul, div_mul_cancel₀ _ scale.ne']
    _ ≤ 1 / 2 * 2 ^ unit := by gcongr

/-- Rounding moves a number by a small part of it, or by half of the least unit. -/
theorem near (rounds : RoundsTo value unit r) :
    |(r : ℚ) * 2 ^ unit - value| ≤ value / 2 ^ 53 ∨
      unit = -1074 ∧ |(r : ℚ) * 2 ^ unit - value| ≤ 1 / 2 ^ 1075 := by
  have half := rounds.abs_sub_le_half
  rcases rounds.normal with full | rfl
  · left
    rw [le_div_iff₀ (by positivity)] at full
    linarith
  · right
    rw [half_least_eq]
    exact ⟨rfl, half⟩

/-- From one on, rounding moves a number by a small part of it. -/
theorem near_of_one_le (rounds : RoundsTo value unit r) (large : 1 ≤ value) :
    |(r : ℚ) * 2 ^ unit - value| ≤ value / 2 ^ 53 := by
  rcases rounds.near with near | ⟨rfl, -⟩
  · exact near
  · have below := rounds.below
    rw [div_lt_iff₀ (by positivity)] at below
    have small : (2 : ℚ) ^ 53 * 2 ^ (-1074 : ℤ) ≤ 1 := by
      calc (2 : ℚ) ^ 53 * 2 ^ (-1074 : ℤ) = 2 ^ (53 : ℤ) * 2 ^ (-1074 : ℤ) := rfl
        _ = 2 ^ (-1021 : ℤ) := by rw [← zpow_add₀ two_ne_zero]; rfl
        _ ≤ 1 := zpow_le_one_of_nonpos₀ (by norm_num) (by decide)
    linarith

/-- A number is rounded to a zero exactly if it is at most half of the least unit. -/
theorem eq_zero_iff (rounds : RoundsTo value unit r) : r = 0 ↔ value ≤ 1 / 2 ^ 1075 := by
  rw [half_least_eq]
  constructor
  · rintro rfl
    have least : unit = -1074 := rounds.full_le.resolve_left (by decide)
    have above := rounds.nearest.above
    rwa [least, Nat.cast_zero, zero_add, div_le_iff₀ (by positivity)] at above
  · intro small
    have nothing : IsNearestEven (1 / 2) 0 := ⟨by norm_num, by norm_num, fun _ => Even.zero⟩
    refine Nat.le_zero.mp (rounds.nearest.mono nothing ?_)
    rw [div_le_iff₀ (by positivity)]
    calc value ≤ 1 / 2 * 2 ^ (-1074 : ℤ) := small
      _ ≤ 1 / 2 * 2 ^ unit := by
          gcongr
          · norm_num
          · exact rounds.lowest

/-- There is a carry exactly if the number is at least halfway to it: of the two numbers that are equally
near there, the carry is the even one. -/
theorem carries_iff (rounds : RoundsTo value unit r) : 2 ^ 53 ≤ r ↔ 2 ^ 53 - 1 / 2 ≤ value / 2 ^ unit := by
  have tie : IsNearestEven (2 ^ 53 - 1 / 2) (2 ^ 53) :=
    ⟨by norm_num, by norm_num, fun _ => by decide⟩
  constructor
  · intro carry
    have carry : (2 : ℚ) ^ 53 ≤ r := by exact_mod_cast carry
    linarith only [carry, rounds.nearest.below]
  · exact tie.mono rounds.nearest

theorem eq_mul_unit_of_value (value : ℚ) (unit : ℤ) : value = value / 2 ^ unit * 2 ^ unit :=
  (div_mul_cancel₀ _ (by positivity)).symm

/-- A number and what it is rounded to are at most 53 digits of their unit, or of a coarser one. -/
theorem le_of_unit_le (rounds : RoundsTo value unit r) {coarser : ℤ} (below : unit ≤ coarser) :
    (r : ℚ) * 2 ^ unit ≤ 2 ^ 53 * 2 ^ coarser ∧ value ≤ 2 ^ 53 * 2 ^ coarser := by
  have full : (r : ℚ) ≤ 2 ^ 53 := by exact_mod_cast rounds.le_full
  have less := rounds.below.le
  have units : (2 : ℚ) ^ unit ≤ 2 ^ coarser := zpow_le_zpow_right₀ one_le_two below
  constructor
  · gcongr
  · rw [eq_mul_unit_of_value value unit]
    gcongr

/-- Above the least unit, they are at least 52 digits of their unit, or of a finer one. -/
theorem le_of_le_unit (rounds : RoundsTo value unit r) {finer : ℤ} (above : finer ≤ unit)
    (notLeast : unit ≠ -1074) :
    2 ^ 52 * 2 ^ finer ≤ (r : ℚ) * 2 ^ unit ∧ 2 ^ 52 * 2 ^ finer ≤ value := by
  have full : (2 : ℚ) ^ 52 ≤ r := by exact_mod_cast rounds.full_le.resolve_right notLeast
  have more := rounds.normal.resolve_right notLeast
  have units : (2 : ℚ) ^ finer ≤ 2 ^ unit := zpow_le_zpow_right₀ one_le_two above
  constructor
  · gcongr
  · rw [eq_mul_unit_of_value value unit]
    gcongr

/-- A number is rounded out of range exactly if it is at least halfway from the greatest machine number to
the power of two behind it. -/
theorem overflows_iff (rounds : RoundsTo value unit r) :
    2 ^ 1024 ≤ (r : ℚ) * 2 ^ unit ↔ 2 ^ 1024 - 2 ^ 970 ≤ value := by
  -- Named, since that power is too large to be computed.
  obtain ⟨half, isHalf⟩ : ∃ half : ℚ, 2 ^ 970 = half := ⟨_, rfl⟩
  have positive : 0 < half := isHalf ▸ by positivity
  have here : (2 : ℚ) ^ (970 : ℤ) = half := by rw [← isHalf, zpow_ofNat]
  have next : (2 : ℚ) ^ (971 : ℤ) = half * 2 := by rw [← here, ← zpow_add_one₀ two_ne_zero]; rfl
  have afterNext : (2 : ℚ) ^ (972 : ℤ) = half * 2 * 2 := by
    rw [← next, ← zpow_add_one₀ two_ne_zero]
    rfl
  have limit : (2 : ℚ) ^ 1024 = 2 ^ 54 * half := by rw [← isHalf, ← pow_add]
  rw [limit, isHalf]
  rcases lt_trichotomy unit 971 with less | rfl | more
  · obtain ⟨rounded, valued⟩ := rounds.le_of_unit_le (Int.le_of_lt_add_one less : unit ≤ 970)
    rw [here] at rounded valued
    constructor <;> intro large <;> linarith only [large, rounded, valued, positive]
  · -- In the greatest unit, that power of two is reached by a carry.
    have carried : 2 ^ 54 * half ≤ (r : ℚ) * (half * 2) ↔ 2 ^ 53 ≤ r := by
      rw [mul_comm half, ← mul_assoc, mul_le_mul_iff_left₀ positive]
      constructor
      · intro large
        have large : (2 : ℚ) ^ 53 ≤ r := by linarith only [large]
        exact_mod_cast large
      · intro carry
        have carry : (2 : ℚ) ^ 53 ≤ r := by exact_mod_cast carry
        linarith only [carry]
    rw [next, carried, rounds.carries_iff, next, le_div_iff₀ (by positivity)]
    constructor <;> intro large <;> linarith only [large]
  · obtain ⟨rounded, valued⟩ := rounds.le_of_le_unit (by omega : 972 ≤ unit) (by omega)
    rw [afterNext] at rounded valued
    exact iff_of_true (by linarith only [rounded]) (by linarith only [valued, positive])

/-- A number of at most 53 digits is not rounded. -/
theorem eq_of_representable (rounds : RoundsTo value unit r) {m : ℕ} {e : ℤ} (isValue : value = m * 2 ^ e)
    (few : m < 2 ^ 53) (least : -1074 ≤ e) : (r : ℚ) * 2 ^ unit = value := by
  have coarser : unit ≤ e := by
    rcases rounds.normal with full | isLeast
    · rw [le_div_iff₀ (by positivity), isValue] at full
      have narrow : (m : ℚ) < 2 ^ (53 : ℤ) := by exact_mod_cast few
      have compared : (2 : ℚ) ^ (52 + unit) < 2 ^ (53 + e) := by
        calc (2 : ℚ) ^ (52 + unit) = 2 ^ (52 : ℤ) * 2 ^ unit := zpow_add₀ two_ne_zero _ _
          _ ≤ m * 2 ^ e := full
          _ < 2 ^ (53 : ℤ) * 2 ^ e := by gcongr
          _ = 2 ^ (53 + e) := (zpow_add₀ two_ne_zero _ _).symm
      have := (zpow_lt_zpow_iff_right₀ one_lt_two).mp compared
      omega
    · omega
  have whole := eq_mul_unit m coarser
  have nearest := rounds.nearest
  rw [isValue, whole, mul_div_cancel_right₀ _ (by positivity)] at nearest
  have same := le_antisymm (nearest.mono (isNearestEven_natCast _) le_rfl)
    ((isNearestEven_natCast _).mono nearest le_rfl)
  rw [same, isValue, whole]

end RoundsTo

section Positive

variable {x y : Float} {p q : ℚ}

/-- The quotient of positive machine numbers is finite and positive exactly if the exact quotient is above
half of the least unit and less than halfway from the greatest machine number to the power of two behind
it. It is never negative. -/
theorem div_pos_iff (isFirst : exact x = .fin p) (isSecond : exact y = .fin q) (positive : 0 < p)
    (nonzero : 0 < q) :
    .fin 0 ≤ exact (x / y) ∧
      ((∃ v, exact (x / y) = .fin v ∧ 0 < v) ↔ 1 / 2 ^ 1075 < p / q ∧ p / q < 2 ^ 1024 - 2 ^ 970) := by
  obtain ⟨unit, r, rounds, isQuotient⟩ := exact_div_of_pos isFirst isSecond positive nonzero
  have nonneg : (0 : ℚ) ≤ r * 2 ^ unit := by positivity
  have kept : 1 / 2 ^ 1075 < p / q ↔ r ≠ 0 := by rw [Ne, rounds.eq_zero_iff, not_le]
  have fits : p / q < 2 ^ 1024 - 2 ^ 970 ↔ (r : ℚ) * 2 ^ unit < 2 ^ 1024 := by
    rw [← not_le, ← rounds.overflows_iff, not_le]
  rw [isQuotient, kept, fits]
  by_cases inRange : (r : ℚ) * 2 ^ unit < 2 ^ 1024
  · rw [if_pos inRange]
    refine ⟨(Extended.fin_le_fin _ _).mpr nonneg, ?_⟩
    constructor
    · rintro ⟨v, isValue, positive⟩
      obtain rfl := Extended.fin.inj isValue
      refine ⟨?_, inRange⟩
      rintro rfl
      rw [Nat.cast_zero, zero_mul] at positive
      exact lt_irrefl _ positive
    · rintro ⟨something, -⟩
      have something : (0 : ℚ) < r := by exact_mod_cast Nat.pos_of_ne_zero something
      exact ⟨_, rfl, by positivity⟩
  · rw [if_neg inRange]
    exact ⟨rfl, iff_of_false (fun ⟨v, isValue, _⟩ => nomatch isValue) fun both => inRange both.2⟩

/-- A quotient that is a machine number is not rounded. -/
theorem exact_div_of_representable (isFirst : exact x = .fin p) (isSecond : exact y = .fin q)
    (positive : 0 < p) (nonzero : 0 < q) {m : ℕ} {e : ℤ} (isQuotient : p / q = m * 2 ^ e)
    (few : m < 2 ^ 53) (least : -1074 ≤ e) (inRange : p / q < 2 ^ 1024) :
    exact (x / y) = .fin (p / q) := by
  obtain ⟨unit, r, rounds, isRounded⟩ := exact_div_of_pos isFirst isSecond positive nonzero
  rw [isRounded, rounds.eq_of_representable isQuotient few least, if_pos inRange]

/-! ## Doubling and halving -/

/-- A number above two is halved without loss. -/
theorem exact_div_two (isExact : exact x = .fin p) (isTwo : exact y = .fin 2) (above : 2 < p) :
    exact (x / y) = .fin (p / 2) := by
  have positive : 0 < p := two_pos.trans above
  obtain ⟨m, e, -, -, canonical, inRange, isValue⟩ := unpack_of_pos isExact positive
  -- A number above two has room below its last place.
  have room : -1074 ≤ e - 1 := by
    by_contra low
    have least : e = -1074 := by have := canonical.lowest; omega
    have tiny : (m : ℚ) * 2 ^ e < 2 ^ (53 : ℤ) * 2 ^ (-53 : ℤ) := by
      refine mul_lt_mul_of_lt_of_le_of_nonneg_of_pos ?_ ?_ (by positivity) (by positivity)
      · exact_mod_cast canonical.small
      · exact zpow_le_zpow_right₀ one_le_two (by omega)
    rw [isValue, ← zpow_add₀ two_ne_zero, add_neg_cancel, zpow_zero] at tiny
    linarith only [above, tiny]
  refine exact_div_of_representable isExact isTwo positive two_pos (m := m) (e := e - 1) ?_
    canonical.small room ?_
  · rw [← isValue, zpow_sub_one₀ two_ne_zero, ← mul_assoc, div_eq_mul_inv]
  · have small := canonical.inRange_iff.mpr inRange
    rw [isValue] at small
    exact (half_lt_self positive).trans small

/-- The quotient of a zero is one. -/
theorem exact_div_of_zero (zero : exact x = .fin 0) (isSecond : exact y = .fin q) (nonzero : 0 < q) :
    exact (x / y) = .fin 0 := by
  obtain ⟨n, f, digits, second, -⟩ := unpack_of_pos isSecond nonzero
  rw [exact_div, second]
  rw [exact_eq_valueOf] at zero
  generalize x.toModel.unpack = u at zero ⊢
  cases u with
  | zero s =>
      have isQuotient : UnpackedFloat.div .binary64 (.zero s) (.finite .positive n f digits) =
          .zero (s / .positive) := rfl
      rw [isQuotient, valueOf_unpack_pack_zero]
  | infinity s => cases s <;> cases zero
  | notANumber => cases zero
  | finite s m e something =>
      have isNothing : s.apply m * (2 : ℚ) ^ e = 0 := Extended.fin.inj zero
      have unit : (2 : ℚ) ^ e ≠ 0 := by positivity
      have noDigits := (mul_eq_zero.mp isNothing).resolve_right unit
      cases s <;> simp only [Sign.apply] at noDigits <;> norm_cast at noDigits <;> omega

/-- A number below one half is doubled without loss. -/
theorem exact_div_half (isExact : exact x = .fin p) (isHalf : exact y = .fin (1 / 2)) (nonneg : 0 ≤ p)
    (below : p < 1 / 2) : exact (x / y) = .fin (p * 2) := by
  have double : p / (1 / 2) = p * 2 := by rw [one_div, div_inv_eq_mul]
  rcases nonneg.eq_or_lt with rfl | positive
  · rw [exact_div_of_zero isExact isHalf (by norm_num), zero_mul]
  · obtain ⟨m, e, -, -, canonical, inRange, isValue⟩ := unpack_of_pos isExact positive
    rw [← double]
    refine exact_div_of_representable isExact isHalf positive (by norm_num) (m := m) (e := e + 1) ?_
      canonical.small (by have := canonical.lowest; omega) ?_
    · rw [double, ← isValue, zpow_add_one₀ two_ne_zero, ← mul_assoc]
    · rw [double]
      exact (by linarith only [below] : p * 2 < 1).trans (one_lt_pow₀ one_lt_two (by decide))

/-- An infinity is not halved. -/
theorem exact_div_two_of_infinite (infinite : exact x = .posInf) (isTwo : exact y = .fin 2) :
    exact (x / y) = .posInf := by
  obtain ⟨n, f, digits, second, -⟩ := unpack_of_pos isTwo two_pos
  rw [exact_div, second]
  rw [exact_eq_valueOf] at infinite
  generalize x.toModel.unpack = u at infinite ⊢
  cases u with
  | infinity s =>
      cases s with
      | positive =>
          have isQuotient : UnpackedFloat.div .binary64 (.infinity .positive)
              (.finite .positive n f digits) = .infinity .positive := rfl
          rw [isQuotient]
          rfl
      | negative => cases infinite
  | _ => cases infinite

end Positive

end Montage.Binary64

import Montage.Proofs.Number.Binary64

/-!
Contract: which machine numbers stay within range.

Owns:
- numbers with a bound on the power of two that their last place counts (`UnitAtMost`);
- that rounding, packing, products and quotients keep to such bounds, generous ones;
- the powers of ten within machine range, as divisors.

Does **not** own: the numbers that a text stands for (`Montage.Proofs.Json.Document`), and how close a
rounded number is to the exact one.

A number is out of range only if its last place counts too much, so bounds on that place tell what stays
finite. They need not be sharp, because the numbers in question are far from both ends of the range.
-/

set_option autoImplicit false

namespace Montage.Binary64

open Float.Model (Format UnpackedFloat totalExponent)
open Float.Model.UnpackedFloat

/-- Zero, or a finite number whose last place counts at most that power of two. -/
inductive UnitAtMost (bound : Int) : UnpackedFloat → Prop
  | zero (s : Sign) : UnitAtMost bound (.zero s)
  | finite {s : Sign} {m : Nat} {e : Int} {positive : 0 < m} (atMost : e ≤ bound) :
      UnitAtMost bound (.finite s m e positive)

/-- A number other than zero whose last place counts at least that power of two. -/
inductive UnitAtLeast (bound : Int) : UnpackedFloat → Prop
  | finite {s : Sign} {m : Nat} {e : Int} {positive : 0 < m} (atLeast : bound ≤ e) :
      UnitAtLeast bound (.finite s m e positive)

instance (bound : Int) : DecidablePred (UnitAtLeast bound)
  | .finite _ _ e _ =>
      if atLeast : bound ≤ e then isTrue (.finite atLeast)
      else isFalse fun | .finite isAtLeast => atLeast isAtLeast
  | .infinity _ | .notANumber | .zero _ => isFalse nofun

variable {bound : Int}

theorem UnitAtMost.mono {other : Int} {u : UnpackedFloat} (unit : UnitAtMost bound u)
    (le : bound ≤ other) : UnitAtMost other u := by
  cases unit with
  | zero s => exact .zero s
  | finite atMost => exact .finite (atMost.trans le)

theorem UnitAtMost.isFinite {u : UnpackedFloat} (unit : UnitAtMost bound u) : u.isFinite = true := by
  cases unit <;> rfl

theorem UnitAtLeast.isFinite {u : UnpackedFloat} (unit : UnitAtLeast bound u) : u.isFinite = true := by
  cases unit
  rfl

/-! ## Packing -/

/-- The last place of packed bits is told by their exponent field. -/
theorem unitAtMost_unpack (b : BitVec Format.binary64.numBits)
    (field : (unpackExponent b).toNat < 0x7FF)
    (within : ((unpackExponent b).toNat : Int) ≤ bound + 1075) (least : -1074 ≤ bound) :
    UnitAtMost bound (unpack .binary64 b) := by
  rw [unpackExponent_toNat] at field within
  have stands := stands_unpack b
  generalize unpack .binary64 b = u at stands ⊢
  cases stands with
  | infinity full => omega
  | notANumber full => omega
  | zero => exact .zero _
  | subnormal => exact .finite least
  | normal notEmpty => exact .finite (by omega)

/-- A number in range is packed with its exponent if it fills the format, and with an empty field if not. -/
theorem unpackExponent_pack {s : Sign} {m : Nat} {e : Int} (positive : 0 < m) (inRange : e ≤ 971) :
    (unpackExponent (pack .binary64 (.finite s m e positive))).toNat =
      if m.log2 + 1 = Format.binary64.mantissaBits then (e + 1075).toNat else 0 := by
  have biased : (e + Format.binary64.exponentBias + Format.binary64.mantissaBitsWithoutImplicit).toNat =
      (e + 1075).toNat := by
    show (e + 1023 + 52).toNat = _
    rw [Int.add_assoc]
    rfl
  have fits : ¬ 2 ^ Format.binary64.exponentBits ≤ (e + 1075).toNat + 1 := by
    show ¬ 2048 ≤ (e + 1075).toNat + 1
    omega
  simp only [pack, biased, if_neg fits]
  split
  · rw [unpackExponent_packComponents, BitVec.toNat_ofNat]
    exact Nat.mod_eq_of_lt (by show _ < 2048; omega)
  · rw [unpackExponent_packComponents]
    rfl

theorem unitAtMost_pack {u : UnpackedFloat} (unit : UnitAtMost bound u) (least : -1074 ≤ bound)
    (inRange : bound ≤ 971) : UnitAtMost bound (unpack .binary64 (pack .binary64 u)) := by
  cases unit with
  | zero s => cases s <;> exact .zero _
  | @finite s m e positive atMost =>
      have field : (unpackExponent (pack .binary64 (.finite s m e positive))).toNat ≤
          (e + 1075).toNat := by
        rw [unpackExponent_pack positive (atMost.trans inRange)]
        split <;> omega
      exact unitAtMost_unpack _ (by omega) (by omega) least

/-- What is packed comes back as a number, though perhaps as an infinite one. -/
theorem isFinite_unpack_pack {u : UnpackedFloat} (finite : u.isFinite = true)
    (inRange : (unpack .binary64 (pack .binary64 u)).isInf = false) :
    (unpack .binary64 (pack .binary64 u)).isFinite = true := by
  cases u with
  | infinity s => cases finite
  | notANumber => cases finite
  | zero s => cases s <;> rfl
  | finite s m e positive =>
      by_cases small : e ≤ 971
      · have unit : UnitAtMost 971 (.finite s m e positive) := .finite small
        exact (unitAtMost_pack unit (by decide) le_rfl).isFinite
      · -- Such a number is packed as an infinite one.
        have overflows : 2 ^ Format.binary64.exponentBits ≤
            (e + Format.binary64.exponentBias + Format.binary64.mantissaBitsWithoutImplicit).toNat
              + 1 := by
          show 2048 ≤ (e + 1023 + 52).toNat + 1
          omega
        simp only [pack, if_pos overflows] at inRange
        cases s <;> cases inRange

/-! ## Rounding -/

theorem mantissa_shiftRight (em : ExtendedMantissa) (places : Nat) :
    (em >>> places).mantissa = em.mantissa / 2 ^ places := by
  induction places with
  | zero => exact (Nat.div_one _).symm
  | succ places inductionHypothesis =>
      show (em >>> places).mantissa / 2 = _
      rw [inductionHypothesis, Nat.div_div_eq_div_mul, Nat.pow_succ]

theorem mantissa_ofMantissaAndAccuracy (m : Nat) (accuracy : Accuracy) :
    (ExtendedMantissa.ofMantissaAndAccuracy m accuracy).mantissa = m := by
  rcases accuracy with _ | order
  · rfl
  · cases order <;> rfl

theorem roundedMantissa_bounds (em : ExtendedMantissa) :
    em.mantissa ≤ em.roundedMantissa ∧ em.roundedMantissa ≤ em.mantissa + 1 := by
  obtain ⟨m, round, sticky⟩ := em
  cases round <;> cases sticky <;>
    simp only [ExtendedMantissa.roundedMantissa, ExtendedMantissa.accuracy,
      Accuracy.roundToNearestEven] <;> omega

/-- The places that are shifted out of a number, so that it fits the format. -/
def excess (m : Nat) (e : Int) : Nat :=
  (max ((m.log2 : Int) + 1 + e - 53) (-1074) - e).toNat

/-- Rounding shifts out what does not fit, rounds, and shifts once more in case of a carry. -/
theorem roundWithAccuracy_eq (s : Sign) {m r : Nat} {e : Int} {accuracy : Accuracy}
    (isRounded : (ExtendedMantissa.ofMantissaAndAccuracy m accuracy >>> excess m e).roundedMantissa = r) :
    r / 2 ^ excess r (e + excess m e) = 0 ∧ roundWithAccuracy .binary64 s m e accuracy = .zero s ∨
      ∃ positive, roundWithAccuracy .binary64 s m e accuracy =
        .finite s (r / 2 ^ excess r (e + excess m e))
          (e + excess m e + excess r (e + excess m e)) positive := by
  have again : (ExtendedMantissa.ofMantissaAndAccuracy r .exact >>>
      excess r (e + excess m e)).mantissa = r / 2 ^ excess r (e + excess m e) := by
    rw [mantissa_shiftRight, mantissa_ofMantissaAndAccuracy]
  have outcome : roundWithAccuracy .binary64 s m e accuracy =
      if zero : (ExtendedMantissa.ofMantissaAndAccuracy r .exact >>>
        excess r (e + excess m e)).mantissa = 0 then .zero s
      else .finite s _ (e + excess m e + excess r (e + excess m e)) (Nat.pos_of_ne_zero zero) := by
    rw [← isRounded]
    rfl
  rw [outcome]
  simp only [again]
  by_cases zero : r / 2 ^ excess r (e + excess m e) = 0
  · exact Or.inl ⟨zero, dif_pos zero⟩
  · exact Or.inr ⟨Nat.pos_of_ne_zero zero, dif_neg zero⟩

/-- Rounding adds one to what is kept, or nothing. -/
theorem roundWithAccuracy_cases (s : Sign) (m : Nat) (e : Int) (accuracy : Accuracy) :
    ∃ r, m / 2 ^ excess m e ≤ r ∧ r ≤ m / 2 ^ excess m e + 1 ∧
      (r / 2 ^ excess r (e + excess m e) = 0 ∧
          roundWithAccuracy .binary64 s m e accuracy = .zero s ∨
        ∃ positive, roundWithAccuracy .binary64 s m e accuracy =
          .finite s (r / 2 ^ excess r (e + excess m e))
            (e + excess m e + excess r (e + excess m e)) positive) := by
  have bounds := roundedMantissa_bounds (ExtendedMantissa.ofMantissaAndAccuracy m accuracy >>> excess m e)
  rw [mantissa_shiftRight, mantissa_ofMantissaAndAccuracy] at bounds
  exact ⟨_, bounds.1, bounds.2, roundWithAccuracy_eq s rfl⟩

theorem unitAtMost_roundWithAccuracy {s : Sign} {m width : Nat} {e : Int} {accuracy : Accuracy}
    (narrow : m < 2 ^ width) :
    UnitAtMost (max e (max (width + e) (-1074)) + width)
      (roundWithAccuracy .binary64 s m e accuracy) := by
  obtain ⟨r, -, oneMore, ⟨-, isZero⟩ | ⟨positive, isFinite⟩⟩ := roundWithAccuracy_cases s m e accuracy
  · rw [isZero]
    exact .zero s
  · rw [isFinite]
    have places : m.log2 ≤ width := by
      by_cases zero : m = 0
      · rw [zero]
        exact Nat.zero_le width
      · exact ((Nat.log2_lt zero).mpr narrow).le
    -- A carry leaves a digit, so that it cannot shift out more places than there are.
    have few : excess r (e + excess m e) ≤ width := by
      have kept : 2 ^ excess r (e + excess m e) ≤ r := by
        by_contra less
        exact positive.ne' (Nat.div_eq_of_lt (Nat.not_le.mp less))
      have fewer := Nat.div_le_self m (2 ^ excess m e)
      exact (Nat.pow_le_pow_iff_right (by decide)).mp (by omega : _ ≤ 2 ^ width)
    have shifted : (excess m e : Int) ≤ max 0 (max ((m.log2 : Int) + 1 + e - 53) (-1074) - e) := by
      unfold excess
      omega
    exact .finite (by omega)

/-! ## Products and quotients -/

/-- A number of that range whose significand fits the format, as all unpacked ones do. -/
theorem mantissa_lt_of_stands {bits : Nat} {s : Sign} {m : Nat} {e : Int} {positive : 0 < m}
    (stands : Stands bits (.finite s m e positive)) : m < 2 ^ 53 :=
  stands.canonical.small

theorem unitAtMost_mul {a b : Nat} {u v : UnpackedFloat} {p q : Int} (first : Stands a u)
    (second : Stands b v) (isFirst : UnitAtMost p u) (isSecond : UnitAtMost q v) :
    UnitAtMost (max (p + q + 212) (-968)) (UnpackedFloat.mul .binary64 u v) := by
  cases isFirst with
  | zero s => cases isSecond <;> exact .zero _
  | @finite s m e positive low =>
      cases isSecond with
      | zero t => exact .zero _
      | @finite t n f alsoPositive alsoLow =>
          have narrow : m * n < 2 ^ 53 * 2 ^ 53 :=
            Nat.mul_lt_mul'' (mantissa_lt_of_stands first) (mantissa_lt_of_stands second)
          rw [← Nat.pow_add] at narrow
          refine (unitAtMost_roundWithAccuracy narrow).mono ?_
          omega

theorem isFinite_roundWithAccuracy (s : Sign) (m : Nat) (e : Int) (accuracy : Accuracy) :
    (roundWithAccuracy .binary64 s m e accuracy).isFinite = true := by
  obtain ⟨r, -, -, ⟨-, isZero⟩ | ⟨positive, isFinite⟩⟩ := roundWithAccuracy_cases s m e accuracy
  · rw [isZero]
    rfl
  · rw [isFinite]
    rfl

theorem isFinite_mul {u v : UnpackedFloat} (first : u.isFinite = true) (second : v.isFinite = true) :
    (UnpackedFloat.mul .binary64 u v).isFinite = true := by
  cases u with
  | infinity s => cases first
  | notANumber => cases first
  | zero s =>
      cases v with
      | infinity t => cases second
      | notANumber => cases second
      | zero t => rfl
      | finite t n f positive => rfl
  | finite s m e positive =>
      cases v with
      | infinity t => cases second
      | notANumber => cases second
      | zero t => rfl
      | finite t n f alsoPositive => exact isFinite_roundWithAccuracy _ _ _ _

theorem unitAtMost_div {a b : Nat} {u v : UnpackedFloat} {p q : Int} (first : Stands a u)
    (second : Stands b v) (isFirst : UnitAtMost p u) (isSecond : UnitAtLeast q v) :
    UnitAtMost (max (p - q + 316) (-916)) (UnpackedFloat.div .binary64 u v) := by
  cases isSecond with
  | @finite t n f alsoPositive high =>
      cases isFirst with
      | zero s => exact .zero _
      | @finite s m e positive low =>
          have narrow : m < 2 ^ 53 := mantissa_lt_of_stands first
          have few : n.log2 < 53 :=
            (Nat.log2_lt alsoPositive.ne').mpr (mantissa_lt_of_stands second)
          -- The dividend is widened as far as the quotient needs.
          obtain ⟨start, isStart⟩ : ∃ start, start = min (e - f)
            (Format.binary64.targetExponent (totalExponent m e - totalExponent n f)) := ⟨_, rfl⟩
          have atLeast : e - f - 105 ≤ start := by
            have target : Format.binary64.targetExponent (totalExponent m e - totalExponent n f) =
                max ((m.log2 : Int) + 1 + e - (n.log2 + 1 + f) - 53) (-1074) := rfl
            omega
          have widened : (m <<< (e - f - start).toNat) / n < 2 ^ 158 := by
            have shifted : m <<< (e - f - start).toNat < 2 ^ 53 * 2 ^ 105 := by
              rw [Nat.shiftLeft_eq]
              have power : 2 ^ (e - f - start).toNat ≤ 2 ^ 105 :=
                Nat.pow_le_pow_right (by decide) (by omega)
              exact Nat.mul_lt_mul_of_lt_of_le narrow power (by positivity)
            rw [← Nat.pow_add] at shifted
            exact (Nat.div_le_self _ _).trans_lt shifted
          have quotient : UnpackedFloat.div .binary64 (.finite s m e positive)
              (.finite t n f alsoPositive) = roundWithAccuracy .binary64 (s / t)
                ((m <<< (e - f - start).toNat) / n) start
                (accuracyOfFraction ((m <<< (e - f - start).toNat) % n) n) := by
            rw [isStart]
            rfl
          rw [quotient]
          refine (unitAtMost_roundWithAccuracy widened).mono ?_
          omega

/-! ## Powers of ten -/

/-- A significand that is wide enough fills the format after rounding. -/
theorem roundWithAccuracy_normal (s : Sign) {m : Nat} {e : Int} (accuracy : Accuracy)
    (wide : 52 ≤ m.log2) (notTiny : -1074 ≤ (m.log2 : Int) - 52 + e) :
    ∃ n f positive, roundWithAccuracy .binary64 s m e accuracy = .finite s n f positive ∧
      n.log2 = 52 ∧ (m.log2 : Int) - 52 + e ≤ f ∧ f ≤ (m.log2 : Int) - 51 + e := by
  have shift : excess m e = m.log2 - 52 := by
    unfold excess
    omega
  have notZero : m ≠ 0 := by
    rintro rfl
    exact absurd wide (by decide)
  have lower : 2 ^ 52 ≤ m / 2 ^ (m.log2 - 52) := by
    rw [Nat.le_div_iff_mul_le (by positivity), ← Nat.pow_add, Nat.add_sub_cancel' wide]
    exact Nat.log2_self_le notZero
  have upper : m / 2 ^ (m.log2 - 52) < 2 ^ 53 := by
    rw [Nat.div_lt_iff_lt_mul (by positivity), ← Nat.pow_add]
    have all : 53 + (m.log2 - 52) = m.log2 + 1 := by omega
    rw [all]
    exact Nat.lt_log2_self
  obtain ⟨r, atLeast, atMost, outcome⟩ := roundWithAccuracy_cases s m e accuracy
  rw [shift] at atLeast atMost outcome
  have start : e + ((m.log2 - 52 : Nat) : Int) = (m.log2 : Int) - 52 + e := by omega
  rw [start] at outcome
  rcases (by omega : r < 2 ^ 53 ∨ r = 2 ^ 53) with fits | carries
  · have width : r.log2 = 52 := (Nat.log2_eq_iff (by omega)).mpr ⟨by omega, fits⟩
    have noCarry : excess r ((m.log2 : Int) - 52 + e) = 0 := by
      unfold excess
      omega
    rw [noCarry, Nat.pow_zero, Nat.div_one] at outcome
    rcases outcome with ⟨isZero, -⟩ | ⟨positive, rounded⟩
    · omega
    · exact ⟨_, _, positive, rounded, width, by omega, by omega⟩
  · have width : r.log2 = 53 := by
      rw [carries]
      exact Nat.log2_two_pow
    have carry : excess r ((m.log2 : Int) - 52 + e) = 1 := by
      unfold excess
      omega
    rw [carry, carries] at outcome
    rcases outcome with ⟨isZero, -⟩ | ⟨positive, rounded⟩
    · exact absurd isZero (by decide)
    · have half : 2 ^ 53 / 2 ^ 1 = 2 ^ 52 := rfl
      exact ⟨_, _, positive, rounded, half ▸ Nat.log2_two_pow, by omega, by omega⟩

/-- A number that fills the format keeps its last place when it is packed. -/
theorem unitAtLeast_pack {s : Sign} {m : Nat} {e : Int} (positive : 0 < m) (full : m.log2 = 52)
    (least : -1074 ≤ e) (inRange : e ≤ 971) (atLeast : bound ≤ e) :
    UnitAtLeast bound (unpack .binary64 (pack .binary64 (.finite s m e positive))) := by
  have fills : m.log2 + 1 = Format.binary64.mantissaBits := by
    rw [full]
    rfl
  have field : (unpackExponent (pack .binary64 (.finite s m e positive))).toNat =
      (e + 1075).toNat := by
    rw [unpackExponent_pack positive inRange, if_pos fills]
  have stands := stands_unpack (pack .binary64 (.finite s m e positive))
  rw [unpackExponent_toNat] at field
  generalize pack .binary64 (.finite s m e positive) = b at stands field ⊢
  generalize unpack .binary64 b = u at stands ⊢
  cases stands with
  | infinity full => omega
  | notANumber full => omega
  | zero isEmpty => omega
  | subnormal isEmpty => omega
  | normal notEmpty => exact .finite (by omega)

/-- A natural times a power of ten is rounded once. -/
theorem ofScientific_whole {n places : Nat} (notZero : n ≠ 0) (inRange : places ≤ 308) :
    ofScientific .binary64 n (Int.ofNat places) =
      roundWithAccuracy .binary64 .positive (n <<< 53 * 10 ^ places) (-53) .exact := by
  have notHuge : ¬ Int.ofNat places > 2 ^ Format.binary64.exponentBits := by
    show ¬ (places : Int) > 2048
    omega
  have notTiny : ¬ Int.ofNat places < -((2 ^ Format.binary64.exponentBits : Int) + Nat.log2 n) := by
    show ¬ (places : Int) < -(2048 + (n.log2 : Int))
    omega
  have whole : 0 ≤ Int.ofNat places := Int.natCast_nonneg places
  unfold ofScientific
  rw [dif_neg notZero, if_neg notHuge, if_neg notTiny, if_pos whole]
  rfl

/-- Beyond a table of small numbers, a natural times a power of ten is rounded from the product. -/
theorem unpack_scientific {n places : Nat} (isLong : ¬ (n < 2 ^ 53 ∧ places ≤ 22)) (notZero : n ≠ 0)
    (inRange : places ≤ 308) :
    (Float.ofScientific n false places).toModel.unpack =
      unpack .binary64 (pack .binary64
        (roundWithAccuracy .binary64 .positive (n <<< 53 * 10 ^ places) (-53) .exact)) := by
  unfold Float.ofScientific
  rw [dif_neg isLong, ← ofScientific_whole notZero inRange]
  rfl

-- Thirty-one digits are less than a hundred and three bits.
theorem log2_power (places scale : Nat) :
    31 * (2 ^ scale * 10 ^ places).log2 ≤ scale * 31 + 103 * places := by
  have notZero : 2 ^ scale * 10 ^ places ≠ 0 := by positivity
  have atLeast : (2 ^ (2 ^ scale * 10 ^ places).log2) ^ 31 ≤ (2 ^ scale * 10 ^ places) ^ 31 :=
    Nat.pow_le_pow_left (Nat.log2_self_le notZero) 31
  have digits : (10 ^ places) ^ 31 ≤ (2 ^ 103) ^ places := by
    rw [Nat.pow_right_comm]
    exact Nat.pow_le_pow_left (by decide) places
  have all : (2 ^ scale * 10 ^ places) ^ 31 ≤ 2 ^ (scale * 31 + 103 * places) := by
    rw [Nat.mul_pow, Nat.pow_add, Nat.pow_mul 2 103, Nat.pow_mul 2 scale]
    exact Nat.mul_le_mul le_rfl digits
  rw [← Nat.pow_mul] at atLeast
  have exponents := (Nat.pow_le_pow_iff_right (by decide)).mp (atLeast.trans all)
  omega

/-- Powers of ten in range are numbers, and not too small to divide by. -/
theorem unitAtLeast_power {places : Nat} (inRange : places ≤ 308) :
    UnitAtLeast (-52) (Float.ofScientific 1 false places).toModel.unpack := by
  by_cases short : places ≤ 22
  · have table : ∀ k < 23, UnitAtLeast (-52) (Float.ofScientific 1 false k).toModel.unpack := by
      decide +kernel
    exact table places (by omega)
  by_cases last : places = 308
  · rw [last]
    decide +kernel
  · -- Any other power is so far from the largest number that a carry does no harm.
    have least : 2 ^ 53 * 10 ^ 0 ≤ 2 ^ 53 * 10 ^ places :=
      Nat.mul_le_mul_left _ (Nat.pow_le_pow_right (by decide) (Nat.zero_le places))
    have scaled : 1 <<< 53 * 10 ^ places = 2 ^ 53 * 10 ^ places := rfl
    have notZero : 2 ^ 53 * 10 ^ places ≠ 0 := by positivity
    have wide : 53 ≤ (2 ^ 53 * 10 ^ places).log2 := (Nat.le_log2 notZero).mpr least
    have narrow := log2_power places 53
    obtain ⟨n, f, positive, rounded, full, low, high⟩ :=
      roundWithAccuracy_normal .positive (m := 2 ^ 53 * 10 ^ places) (e := -53) .exact (by omega)
        (by omega)
    rw [unpack_scientific (by omega) one_ne_zero inRange, scaled, rounded]
    exact unitAtLeast_pack positive full (by omega) (by omega) (by omega)

/-! ## Machine numbers -/

variable {x y : Float}

theorem unitAtMost_floatMul {p q : Int} (isFirst : UnitAtMost p x.toModel.unpack)
    (isSecond : UnitAtMost q y.toModel.unpack) (inRange : p + q ≤ 759) :
    UnitAtMost (max (p + q + 212) (-968)) (x * y).toModel.unpack := by
  have product := unitAtMost_mul (stands_bitsOf x) (stands_bitsOf y) isFirst isSecond
  exact unitAtMost_pack product (by omega) (by omega)

theorem unitAtMost_floatDiv {p q : Int} (isFirst : UnitAtMost p x.toModel.unpack)
    (isSecond : UnitAtLeast q y.toModel.unpack) (inRange : p - q ≤ 655) :
    UnitAtMost (max (p - q + 316) (-916)) (x / y).toModel.unpack := by
  have quotient := unitAtMost_div (stands_bitsOf x) (stands_bitsOf y) isFirst isSecond
  exact unitAtMost_pack quotient (by omega) (by omega)

/-- A product of finite numbers is finite unless it is too large. -/
theorem isFinite_floatMul (first : Scalar.isFinite x = true) (second : Scalar.isFinite y = true)
    (inRange : (x * y).isInf = false) : Scalar.isFinite (x * y) = true := by
  rw [isFinite_iff_unpack] at first second ⊢
  exact isFinite_unpack_pack (isFinite_mul first second) inRange

/-- A finite number of the format counts at most that power of two in its last place. -/
theorem unitAtMost_unpack_of_isFinite {b : BitVec Format.binary64.numBits}
    (finite : (unpack .binary64 b).isFinite = true) : UnitAtMost 971 (unpack .binary64 b) := by
  have field := (unpackExponent b).isLt
  by_cases last : (unpackExponent b).toNat = 0x7FF
  · have full : unpackExponent b = -1#_ := BitVec.eq_of_toNat_eq last
    unfold unpack at finite
    rw [if_pos full] at finite
    split at finite <;> cases finite
  · have below : (unpackExponent b).toNat < 0x800 := field
    exact unitAtMost_unpack b (by omega) (by omega) (by decide)

theorem unitAtMost_neg {u : UnpackedFloat} (unit : UnitAtMost bound u) :
    UnitAtMost bound (UnpackedFloat.neg u) := by
  cases unit with
  | zero s => exact .zero _
  | finite atMost => exact .finite atMost

theorem isFinite_floatNeg (finite : Scalar.isFinite x = true) : Scalar.isFinite (-x) = true := by
  rw [isFinite_iff_unpack] at finite ⊢
  have unit : UnitAtMost 971 x.toModel.unpack := unitAtMost_unpack_of_isFinite finite
  have opposite := unitAtMost_neg unit
  exact (unitAtMost_pack opposite (by decide) le_rfl).isFinite

theorem unitAtMost_normalize {n : Nat} (narrow : n < 2 ^ 64) :
    UnitAtMost 234 (UnpackedFloat.normalize .binary64 (n : Int) 0 .positive) := by
  by_cases zero : n = 0
  · rw [zero]
    exact .zero _
  -- A natural is widened before it is rounded, by the places that the format has to spare.
  obtain ⟨places, isPlaces⟩ : ∃ places,
      places = (0 - Format.binary64.targetExponent (totalExponent n 0)).toNat := ⟨_, rfl⟩
  have few : places ≤ 52 := by
    have target : Format.binary64.targetExponent (totalExponent n 0) =
        max ((n.log2 : Int) + 1 + 0 - 53) (-1074) := rfl
    omega
  have widened : n <<< places < 2 ^ 64 * 2 ^ 52 := by
    rw [Nat.shiftLeft_eq]
    have power : 2 ^ places ≤ 2 ^ 52 := Nat.pow_le_pow_right (by decide) few
    exact Nat.mul_lt_mul_of_lt_of_le narrow power (by positivity)
  rw [← Nat.pow_add] at widened
  have positive : compare (n : Int) 0 = .gt := compare_gt_iff_gt.mpr (by omega)
  have rounded : UnpackedFloat.normalize .binary64 (n : Int) 0 .positive =
      roundWithAccuracy .binary64 .positive (n <<< places) (0 - places) .exact := by
    unfold UnpackedFloat.normalize
    rw [positive, isPlaces]
    rfl
  rw [rounded]
  refine (unitAtMost_roundWithAccuracy widened).mono ?_
  omega

/-- Naturals of 64 bits are far from the end of the range. -/
theorem unitAtMost_ofNat {n : Nat} (narrow : n < 2 ^ 64) :
    UnitAtMost 400 (Float.ofNat n).toModel.unpack := by
  show UnitAtMost 400 (Float.ofScientific n false 0).toModel.unpack
  by_cases small : n < 2 ^ 53 ∧ 0 ≤ 22
  · unfold Float.ofScientific
    rw [dif_pos small]
    have one : UnitAtMost (-52) (Float.exactlyRepresentablePowersOfTen[0]).toModel.unpack := by
      have isNumber : UnitAtMost (-52) (Float.ofBits 4607182418800017408).toModel.unpack :=
        unitAtMost_unpack _ (by decide +kernel) (by decide +kernel) (by decide)
      exact isNumber
    have rounded : UnitAtMost 234 (n.toUInt64.toFloat).toModel.unpack :=
      unitAtMost_pack (unitAtMost_normalize (UInt64.toNat_lt _)) (by decide) (by decide)
    exact (unitAtMost_floatMul rounded one (by decide)).mono (by decide)
  · have widened : n <<< 53 * 10 ^ 0 < 2 ^ 64 * 2 ^ 53 := by
      rw [Nat.shiftLeft_eq, Nat.pow_zero, Nat.mul_one]
      exact Nat.mul_lt_mul_of_pos_right narrow (by decide)
    rw [← Nat.pow_add] at widened
    rw [unpack_scientific small (by omega) (by decide)]
    -- The product is kept closed, for its logarithm does not compute.
    generalize n <<< 53 * 10 ^ 0 = product at widened
    exact unitAtMost_pack ((unitAtMost_roundWithAccuracy widened).mono (by decide)) (by decide)
      (by decide)

/-! ## Whole numbers -/

theorem isFinite_ofBits {b : UInt64} (field : b.toNat / implicitBit % 0x800 < 0x7FF) :
    Scalar.isFinite (Float.ofBits b) = true := by
  let bits : BitVec Format.binary64.numBits := b.toBitVec
  have within : (unpackExponent bits).toNat < 0x7FF := by
    rw [unpackExponent_toNat]
    exact field
  have unit : UnitAtMost 971 (unpack .binary64 bits) :=
    unitAtMost_unpack bits within (by omega) (by decide)
  rw [isFinite_iff_unpack]
  exact (unitAtMost_pack unit (by decide) le_rfl).isFinite

theorem quotientHalfEven_le (numerator denominator : Nat) :
    Rounding.quotientHalfEven numerator denominator ≤ numerator / denominator + 1 := by
  simp only [Rounding.quotientHalfEven]
  split_ifs <;> omega

/-- The bits of a natural of 64 bits are those of a finite number. -/
theorem nearestBits_lt {n : Nat} (narrow : n < 2 ^ 64) :
    nearestBits n 1 < 0x7FF0000000000000 := by
  by_cases zero : n = 0
  · rw [zero]
    decide
  have top : n.log2 < 64 := (Nat.log2_lt zero).mpr narrow
  have below : n < 2 ^ (n.log2 + 1) := Nat.lt_log2_self
  obtain ⟨exponent, isExponent⟩ : ∃ exponent, exponent = unitExponent n 1 := ⟨_, rfl⟩
  have estimate : exponent = n.log2 - 53 ∨ exponent = n.log2 - 52 := by
    have one : Nat.log2 1 = 0 := rfl
    rw [isExponent]
    simp only [unitExponent, one]
    split <;> omega
  -- The unit is chosen so that the significand has fifty-four digits at most.
  have divided : n / 2 ^ exponent.toNat < 2 ^ 54 := by
    rw [Nat.div_lt_iff_lt_mul (by positivity), ← Nat.pow_add]
    exact below.trans_le (Nat.pow_le_pow_right (by decide) (by omega))
  have multiplied (negative : exponent < 0) : n * 2 ^ (-exponent).toNat < 2 ^ 54 := by
    have product := Nat.mul_lt_mul_of_pos_right below (Nat.two_pow_pos (-exponent).toNat)
    rw [← Nat.pow_add] at product
    exact product.trans_le (Nat.pow_le_pow_right (by decide) (by omega))
  obtain ⟨significand, isSignificand⟩ : ∃ significand, significand =
      if 0 ≤ exponent then Rounding.quotientHalfEven n (1 * twoTo exponent.toNat)
      else Rounding.quotientHalfEven (n * twoTo (-exponent).toNat) 1 := ⟨_, rfl⟩
  have few : significand ≤ 2 ^ 54 := by
    rw [isSignificand]
    split_ifs with whole
    · have rounded := quotientHalfEven_le n (1 * twoTo exponent.toNat)
      rw [Nat.one_mul] at rounded ⊢
      have less : n / twoTo exponent.toNat < 2 ^ 54 := divided
      omega
    · have rounded := quotientHalfEven_le (n * twoTo (-exponent).toNat) 1
      rw [Nat.div_one] at rounded
      have less : n * twoTo (-exponent).toNat < 2 ^ 54 := multiplied (by omega)
      omega
  have bits : (exponent + 1074).toNat * implicitBit + significand < 0x7FF0000000000000 := by
    unfold implicitBit
    omega
  unfold nearestBits
  rw [if_neg zero]
  simp only [← isExponent, ← isSignificand]
  rw [if_neg (by omega)]
  exact bits

/-- A whole number of 64 bits has a finite number nearest to it. -/
theorem isFinite_ofInt {n : Int} (narrow : n.natAbs < 2 ^ 64) :
    Scalar.isFinite (Scalar.ofInt n : Float) = true := by
  have bits := nearestBits_lt narrow
  apply isFinite_ofBits
  have same : (n : ℚ).num.natAbs = n.natAbs ∧ (n : ℚ).den = 1 := ⟨rfl, rfl⟩
  rw [same.1, same.2]
  split_ifs
  · rw [UInt64.toNat_ofNat']
    unfold implicitBit signValue
    omega
  · rw [UInt64.toNat_ofNat']
    unfold implicitBit
    omega

end Montage.Binary64

import Montage.Proofs.Number.Range
import Montage.Proofs.Number.Rounding

/-!
Contract: the machine number nearest to a machine number's value is that number.

Owns:
- the unit that a quotient is rounded to, told by bounds on the quotient;
- what a finite number is unpacked to (`unpack_of_exact`);
- the rationals that machine numbers stand for (`Representable`), and that none of them is rounded.

Does **not** own: how other rationals are rounded.
-/

set_option autoImplicit false

namespace Montage.Binary64

open Float.Model (Format UnpackedFloat)
open Float.Model.UnpackedFloat

/-! ## Units -/

section Units

variable {n d : Nat}

/-- A quotient of naturals lies within a factor of two of the quotient of their leading powers of two. -/
theorem quotient_bounds (positive : 0 < n) (nonzero : 0 < d) :
    (2 : ℚ) ^ ((n.log2 : ℤ) - d.log2 - 1) < n / d ∧ (n / d : ℚ) < 2 ^ ((n.log2 : ℤ) - d.log2 + 1) := by
  have divisor : (0 : ℚ) < d := by exact_mod_cast nonzero
  have leastN : (2 : ℚ) ^ (n.log2 : ℤ) ≤ n := by exact_mod_cast Nat.log2_self_le positive.ne'
  have mostN : (n : ℚ) < 2 ^ ((n.log2 : ℤ) + 1) := by exact_mod_cast Nat.lt_log2_self (n := n)
  have leastD : (2 : ℚ) ^ (d.log2 : ℤ) ≤ d := by exact_mod_cast Nat.log2_self_le nonzero.ne'
  have mostD : (d : ℚ) < 2 ^ ((d.log2 : ℤ) + 1) := by exact_mod_cast Nat.lt_log2_self (n := d)
  constructor
  · rw [lt_div_iff₀ divisor]
    calc (2 : ℚ) ^ ((n.log2 : ℤ) - d.log2 - 1) * d
        < 2 ^ ((n.log2 : ℤ) - d.log2 - 1) * 2 ^ ((d.log2 : ℤ) + 1) := by gcongr
      _ = 2 ^ (n.log2 : ℤ) := by rw [← zpow_add₀ two_ne_zero]; congr 1; ring
      _ ≤ n := leastN
  · rw [div_lt_iff₀ divisor]
    calc (n : ℚ) < 2 ^ ((n.log2 : ℤ) + 1) := mostN
      _ = 2 ^ ((n.log2 : ℤ) - d.log2 + 1) * 2 ^ (d.log2 : ℤ) := by
          rw [← zpow_add₀ two_ne_zero]; congr 1; ring
      _ ≤ 2 ^ ((n.log2 : ℤ) - d.log2 + 1) * d := by gcongr

/-- The test by which a unit is found too small is a comparison of the quotient with a power of two. -/
theorem unitTooSmall_iff (nonzero : 0 < d) (estimate : ℤ) :
    (if 0 ≤ estimate then decide (d * twoTo (53 + estimate.toNat) ≤ n)
      else decide (d * twoTo 53 ≤ n * twoTo (-estimate).toNat)) = true ↔
      (2 : ℚ) ^ (53 + estimate) ≤ n / d := by
  have divisor : (0 : ℚ) < d := by exact_mod_cast nonzero
  rw [le_div_iff₀ divisor]
  split
  · rename_i nonneg
    obtain ⟨places, rfl⟩ := Int.eq_ofNat_of_zero_le nonneg
    have power : (2 : ℚ) ^ (53 + (places : ℤ)) = 2 ^ (53 + places) := by exact_mod_cast rfl
    rw [decide_eq_true_iff, Int.toNat_natCast, power, mul_comm]
    exact_mod_cast Iff.rfl
  · rename_i negative
    obtain ⟨places, isPlaces⟩ := Int.eq_ofNat_of_zero_le (a := -estimate) (by omega)
    have power : (2 : ℚ) ^ (53 + estimate) = 2 ^ 53 / 2 ^ places := by
      rw [show 53 + estimate = (53 : ℤ) - (places : ℤ) by omega, zpow_sub₀ two_ne_zero]
      exact_mod_cast rfl
    rw [decide_eq_true_iff, isPlaces, Int.toNat_natCast, power, div_mul_eq_mul_div,
      div_le_iff₀ (by positivity), mul_comm d]
    exact_mod_cast Iff.rfl

/-- The unit of a quotient gives it a significand of at most 53 digits, and of exactly so many unless the
unit is the least one. -/
theorem unitExponent_spec (positive : 0 < n) (nonzero : 0 < d) :
    -1074 ≤ unitExponent n d ∧ (n / d : ℚ) < 2 ^ (53 + unitExponent n d) ∧
      (unitExponent n d = -1074 ∨ (2 : ℚ) ^ (52 + unitExponent n d) ≤ n / d) := by
  obtain ⟨least, most⟩ := quotient_bounds positive nonzero
  obtain ⟨estimate, isEstimate⟩ : ∃ estimate : ℤ, estimate = (n.log2 : ℤ) - d.log2 - 53 := ⟨_, rfl⟩
  have tooSmall := unitTooSmall_iff (n := n) nonzero estimate
  have grows : Monotone fun e : ℤ => (2 : ℚ) ^ e := zpow_right_mono₀ one_le_two
  -- Before the least unit counts, the quotient has exactly 53 digits.
  obtain ⟨unit, isUnit, below, above⟩ : ∃ unit : ℤ, unitExponent n d = max unit (-1074) ∧
      (n / d : ℚ) < 2 ^ (53 + unit) ∧ (2 : ℚ) ^ (52 + unit) ≤ n / d := by
    by_cases larger : (2 : ℚ) ^ (53 + estimate) ≤ n / d
    · refine ⟨estimate + 1, ?_, ?_, ?_⟩
      · unfold unitExponent
        simp only [← isEstimate, tooSmall.mpr larger, if_true]
      · rw [show 53 + (estimate + 1) = (n.log2 : ℤ) - d.log2 + 1 by omega]
        exact most
      · rw [show 52 + (estimate + 1) = 53 + estimate by omega]
        exact larger
    · refine ⟨estimate, ?_, not_le.mp larger, ?_⟩
      · unfold unitExponent
        simp only [← isEstimate, Bool.eq_false_iff.mpr (mt tooSmall.mp larger), Bool.false_eq_true, if_false]
      · rw [show 52 + estimate = (n.log2 : ℤ) - d.log2 - 1 by omega]
        exact least.le
  rw [isUnit]
  refine ⟨le_max_right _ _, below.trans_le (grows (by omega)), ?_⟩
  rcases le_total unit (-1074) with low | high
  · exact Or.inl (max_eq_right low)
  · rw [max_eq_left high]
    exact Or.inr above

end Units

/-! ## Nearest numbers -/

/-- The rationals that machine numbers stand for: 53 binary digits at most, none of them out of range. -/
def Representable (q : ℚ) : Prop :=
  ∃ m e : ℤ, q = m * 2 ^ e ∧ m.natAbs < 2 ^ 53 ∧ -1074 ≤ e ∧ e ≤ 971

/-- A finite machine number is unpacked to a zero, or to a sign and digits of the format. -/
theorem unpack_of_exact {x : Float} {q : ℚ} (isExact : exact x = .fin q) :
    (∃ s, x.toModel.unpack = .zero s ∧ q = 0) ∨
      ∃ (s : Sign) (m : ℕ) (e : ℤ) (positive : 0 < m), x.toModel.unpack = .finite s m e positive ∧
        Canonical m e ∧ e ≤ 971 ∧ q = s.apply m * 2 ^ e := by
  have finite : x.toModel.unpack.isFinite = true :=
    (isFinite_iff_unpack x).mp ((Scalar.isFinite_iff_exact x).mpr ⟨q, isExact⟩)
  have unit : UnitAtMost 971 x.toModel.unpack := unitAtMost_unpack_of_isFinite finite
  have stands := stands_bitsOf x
  rw [exact_eq_valueOf] at isExact
  generalize x.toModel.unpack = u at isExact unit stands ⊢
  cases unit with
  | zero s => exact Or.inl ⟨s, rfl, (Extended.fin.inj isExact).symm⟩
  | @finite s m e positive atMost =>
      exact Or.inr ⟨s, m, e, positive, rfl, stands.canonical, atMost, (Extended.fin.inj isExact).symm⟩

/-- A finite machine number has a representable value. -/
theorem representable_of_exact {x : Float} {q : ℚ} (isExact : exact x = .fin q) : Representable q := by
  obtain ⟨s, -, rfl⟩ | ⟨s, m, e, -, -, canonical, atMost, rfl⟩ := unpack_of_exact isExact
  · exact ⟨0, 0, by norm_num, by decide, by decide, by decide⟩
  · have small := canonical.small
    unfold implicitBit at small
    refine ⟨s.apply m, e, rfl, ?_, canonical.lowest, atMost⟩
    cases s <;> simp only [Sign.apply] <;> omega

/-- A finite number apart from zero consists of a sign, a significand and an exponent of the format. -/
theorem parts_of_exact {x : Float} {q : ℚ} (isExact : exact x = .fin q) (nonzero : q ≠ 0) :
    Canonical (parts x).significand (parts x).exponent ∧ (parts x).exponent ≤ 971 ∧
      0 < (parts x).significand ∧
      q = if signBit x then -(parts x).magnitude else (parts x).magnitude := by
  obtain ⟨s, -, isZero⟩ | ⟨s, m, e, positive, unpacked, canonical, atMost, rfl⟩ := unpack_of_exact isExact
  · exact (nonzero isZero).elim
  have stands := stands_bitsOf x
  have bits : x.toBits.toNat = bitsOf x := rfl
  unfold signBit parts
  rw [bits]
  rw [unpacked] at stands
  cases stands with
  | subnormal field positive =>
      rw [if_pos field]
      exact ⟨canonical, atMost, positive, (signed_eq _ ⟨_, _⟩).symm⟩
  | normal field positive =>
      rw [if_neg field]
      exact ⟨canonical, atMost, positive, (signed_eq _ ⟨_, _⟩).symm⟩

section Nearest

variable {n d : Nat}

/-- A quotient of few digits is a whole number of its units. -/
theorem exists_canonical (positive : 0 < n) (nonzero : 0 < d) {m : ℕ} {e : ℤ}
    (same : (n / d : ℚ) = m * 2 ^ e) (few : m < 2 ^ 53) (least : -1074 ≤ e) (most : e ≤ 971) :
    ∃ k : ℕ, (n / d : ℚ) = k * 2 ^ unitExponent n d ∧ Canonical k (unitExponent n d) ∧
      unitExponent n d ≤ 971 := by
  obtain ⟨lowest, below, normal⟩ := unitExponent_spec positive nonzero
  have narrow : (m : ℚ) < 2 ^ (53 : ℤ) := by exact_mod_cast few
  -- A unit above the least one leaves 53 digits, and in the given unit there are not more of them.
  have coarser : unitExponent n d ≤ e := by
    rcases normal with isLeast | full
    · omega
    · have compared : (2 : ℚ) ^ (52 + unitExponent n d) < 2 ^ (53 + e) := by
        calc (2 : ℚ) ^ (52 + unitExponent n d) ≤ n / d := full
          _ = m * 2 ^ e := same
          _ < 2 ^ (53 : ℤ) * 2 ^ e := by gcongr
          _ = 2 ^ (53 + e) := (zpow_add₀ two_ne_zero _ _).symm
      have := (zpow_lt_zpow_iff_right₀ one_lt_two).mp compared
      omega
  obtain ⟨places, isPlaces⟩ := Int.eq_ofNat_of_zero_le (sub_nonneg.mpr coarser)
  have whole : (n / d : ℚ) = (m * 2 ^ places : ℕ) * 2 ^ unitExponent n d := by
    rw [same, show e = (places : ℤ) + unitExponent n d by omega, zpow_add₀ two_ne_zero]
    push_cast
    rw [zpow_natCast, mul_assoc]
  have unit : (0 : ℚ) < 2 ^ unitExponent n d := by positivity
  refine ⟨m * 2 ^ places, whole, ⟨?_, lowest, ?_⟩, coarser.trans most⟩
  · rw [whole, zpow_add₀ two_ne_zero, mul_lt_mul_iff_left₀ unit] at below
    exact_mod_cast below
  · rcases normal with isLeast | full
    · exact Or.inr isLeast
    · rw [whole, zpow_add₀ two_ne_zero, mul_le_mul_iff_left₀ unit] at full
      exact Or.inl (by exact_mod_cast full)

theorem quotientHalfEven_mul (k : Nat) {denominator : Nat} (positive : 0 < denominator) :
    Rounding.quotientHalfEven (k * denominator) denominator = k := by
  unfold Rounding.quotientHalfEven
  simp [Nat.mul_div_cancel _ positive, positive]

theorem significand_eq (nonzero : 0 < d) {k : ℕ} {unit : ℤ} (whole : (n / d : ℚ) = k * 2 ^ unit) :
    (if 0 ≤ unit then Rounding.quotientHalfEven n (d * twoTo unit.toNat)
      else Rounding.quotientHalfEven (n * twoTo (-unit).toNat) d) = k := by
  have divisor : (d : ℚ) ≠ 0 := by exact_mod_cast nonzero.ne'
  rw [div_eq_iff divisor] at whole
  split
  · rename_i nonneg
    obtain ⟨places, rfl⟩ := Int.eq_ofNat_of_zero_le nonneg
    have product : n = k * (d * 2 ^ places) := by
      rw [zpow_natCast] at whole
      have scaled : (n : ℚ) = k * (d * 2 ^ places) := by rw [whole]; ring
      exact_mod_cast scaled
    rw [Int.toNat_natCast, product]
    exact quotientHalfEven_mul k (by positivity)
  · rename_i negative
    obtain ⟨places, isPlaces⟩ := Int.eq_ofNat_of_zero_le (a := -unit) (by omega)
    have product : n * 2 ^ places = k * d := by
      have power : (2 : ℚ) ^ unit * 2 ^ places = 1 := by
        rw [← zpow_natCast, ← zpow_add₀ two_ne_zero, ← isPlaces, add_neg_cancel, zpow_zero]
      have scaled : (n : ℚ) * 2 ^ places = k * d := by
        rw [whole, mul_right_comm, mul_assoc (k : ℚ), power, mul_one]
      exact_mod_cast scaled
    rw [isPlaces, Int.toNat_natCast]
    show Rounding.quotientHalfEven (n * 2 ^ places) d = k
    rw [product]
    exact quotientHalfEven_mul k nonzero

theorem nearestBits_eq (positive : 0 < n) (nonzero : 0 < d) {k : ℕ}
    (whole : (n / d : ℚ) = k * 2 ^ unitExponent n d) (canonical : Canonical k (unitExponent n d))
    (most : unitExponent n d ≤ 971) :
    nearestBits n d = (unitExponent n d + 1074).toNat * implicitBit + k := by
  have lowest := canonical.lowest
  have small := canonical.small
  have inRange : ¬ 0x7FF0000000000000 ≤ (unitExponent n d + 1074).toNat * implicitBit + k := by
    unfold implicitBit at small ⊢
    omega
  unfold nearestBits
  rw [if_neg positive.ne']
  simp only [significand_eq nonzero whole]
  exact if_neg inRange

/-- The fields of a canonical number stand for it, with the sign that goes with them. -/
theorem valueOf_stands {bits k : ℕ} {unit : ℤ} {u : UnpackedFloat} (stands : Stands bits u)
    (canonical : Canonical k unit) (most : unit ≤ 971) (nonzero : 0 < k)
    (fields : bits % signValue = (unit + 1074).toNat * implicitBit + k) :
    valueOf u = .fin ((signOf bits).apply k * 2 ^ unit) := by
  have lowest := canonical.lowest
  have small := canonical.small
  have normal := canonical.normal
  unfold implicitBit at small normal fields
  unfold signValue at fields
  cases stands with
  | infinity field fraction =>
      unfold implicitBit at field fraction
      omega
  | notANumber field fraction =>
      unfold implicitBit at field fraction
      omega
  | zero field fraction =>
      unfold implicitBit at field fraction
      omega
  | subnormal field positive =>
      unfold implicitBit at field
      have isUnit : unit = -1074 := by omega
      have isSignificand : bits % implicitBit = k := by
        unfold implicitBit
        omega
      show Extended.fin ((signOf bits).apply (bits % implicitBit : ℕ) * 2 ^ (-1074 : ℤ)) = _
      rw [isUnit, isSignificand]
  | normal field positive =>
      unfold implicitBit at field
      have isUnit : ((bits / implicitBit % 0x800 : ℕ) : ℤ) - 1075 = unit := by
        unfold implicitBit
        omega
      have isSignificand : bits % implicitBit + implicitBit = k := by
        unfold implicitBit
        omega
      show Extended.fin ((signOf bits).apply (bits % implicitBit + implicitBit : ℕ) *
        2 ^ (((bits / implicitBit % 0x800 : ℕ) : ℤ) - 1075)) = _
      rw [isUnit, isSignificand]

/-- A number in range has the exact value that its bits stand for. -/
theorem exact_ofBits {b : UInt64} (field : b.toNat / implicitBit % 0x800 < 0x7FF) :
    exact (Float.ofBits b) = valueOf (unpack .binary64 b.toBitVec) := by
  let bits : BitVec Format.binary64.numBits := b.toBitVec
  have valid : Format.binary64.Valid bits := by
    constructor
    intro full
    have isFull : 0x7FF = b.toNat / implicitBit % 0x800 := by
      have isField := unpackExponent_toNat bits
      rw [full] at isField
      exact isField
    exact (field.ne isFull.symm).elim
  have kept : pack .binary64 (unpack .binary64 bits) = bits := pack_unpack_of_valid valid
  rw [exact_eq_valueOf]
  show valueOf (unpack .binary64 (pack .binary64 (unpack .binary64 bits))) = _
  rw [kept]

/-- The number nearest to a rational has the bits of its magnitude, and the sign bit if it is negative. -/
theorem nearest_eq (q : ℚ) {low : ℕ} (packed : nearestBits q.num.natAbs q.den = low)
    (inRange : low < 0x7FF0000000000000) :
    ∃ bits, bits % signValue = low ∧ signOf bits = (if q < 0 then .negative else .positive) ∧
      ∃ u, Stands bits u ∧ exact (nearest q) = valueOf u := by
  obtain ⟨bits, isBits⟩ : ∃ bits, bits = if q < 0 then low + signValue else low := ⟨_, rfl⟩
  -- The sign is the topmost bit, so it changes neither the exponent nor the significand.
  have narrow : bits < 2 ^ 64 ∧ bits % signValue = low ∧ bits / implicitBit % 0x800 < 0x7FF := by
    unfold signValue at isBits ⊢
    unfold implicitBit
    split at isBits <;> omega
  have word : (UInt64.ofNat bits).toNat = bits := UInt64.toNat_ofNat_of_lt' narrow.1
  have isNearest : nearest q = Float.ofBits (UInt64.ofNat bits) := by
    unfold nearest
    rw [packed, isBits]
  have stands := stands_unpack (UInt64.ofNat bits).toBitVec
  have isSign : signOf bits = if q < 0 then .negative else .positive := by
    unfold signOf
    unfold signValue at isBits ⊢
    split at isBits
    · rename_i negative
      rw [if_pos negative, if_pos (by omega)]
    · rename_i nonneg
      rw [if_neg nonneg, if_neg (by omega)]
  refine ⟨bits, narrow.2.1, isSign, unpack .binary64 (UInt64.ofNat bits).toBitVec, ?_, ?_⟩
  · have same : (UInt64.ofNat bits).toBitVec.toNat = bits := word
    rwa [same] at stands
  · rw [isNearest]
    exact exact_ofBits (by rw [word]; exact narrow.2.2)

/-- No representable rational is rounded. -/
theorem exact_nearest {q : ℚ} (representable : Representable q) (nonzero : q ≠ 0) :
    exact (nearest q) = .fin q := by
  obtain ⟨m, e, isValue, few, least, most⟩ := representable
  have isMagnitude : |q| = m.natAbs * 2 ^ e := by
    rw [isValue, abs_mul, abs_of_pos (show (0 : ℚ) < 2 ^ e by positivity), Nat.cast_natAbs, Int.cast_abs]
  have positive : 0 < q.num.natAbs := Int.natAbs_pos.mpr (Rat.num_ne_zero.mpr nonzero)
  have magnitude : (q.num.natAbs / q.den : ℚ) = |q| := (Rounding.abs_eq_natAbs_div q).symm
  obtain ⟨k, whole, canonical, inRange⟩ :=
    exists_canonical positive q.den_pos (magnitude.trans isMagnitude) few least most
  have packed := nearestBits_eq positive q.den_pos whole canonical inRange
  rw [magnitude] at whole
  have digits : 0 < k := by
    rw [Nat.pos_iff_ne_zero]
    rintro rfl
    rw [Nat.cast_zero, zero_mul, abs_eq_zero] at whole
    exact nonzero whole
  have low : (unitExponent q.num.natAbs q.den + 1074).toNat * implicitBit + k < 0x7FF0000000000000 := by
    have lowest := canonical.lowest
    have small := canonical.small
    unfold implicitBit at small ⊢
    omega
  obtain ⟨bits, fields, isSign, u, stands, isExact⟩ := nearest_eq q packed low
  rw [isExact, valueOf_stands stands canonical inRange digits fields, isSign]
  split
  · rename_i negative
    rw [Sign.apply, Int.cast_neg, Int.cast_natCast, neg_mul, ← whole, abs_of_neg negative, neg_neg]
  · rename_i nonneg
    rw [Sign.apply, Int.cast_natCast, ← whole, abs_of_nonneg (not_lt.mp nonneg)]

end Nearest

end Montage.Binary64

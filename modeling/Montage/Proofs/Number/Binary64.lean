import Mathlib
import Montage.Number.Binary64
import Montage.Proofs.Number.Faithful

/-!
Contract: machine numbers are ordered by their exact values.

Owns:
- what 64 bits stand for, and that this is the exact value that the library reads off them;
- the order of machine numbers as that of their exact values;
- the instance of `Scalar.Faithful` on `Float`.

Does **not** own: how operations round; nothing here depends on it.

A finite machine number is a significand times a power of two. Of the spellings that the format allows,
the exponent is the least one, so that numbers can be compared by their exponents first.
-/

set_option autoImplicit false

namespace Montage.Binary64

open Float.Model (Format UnpackedFloat)
open Float.Model.UnpackedFloat (Sign unpackMantissa unpackExponent unpackSign)

/-! ## The fields of a word -/

theorem unpackMantissa_toNat (b : BitVec Format.binary64.numBits) :
    (unpackMantissa b).toNat = b.toNat % implicitBit := by
  simp [unpackMantissa, BitVec.extractLsb]

theorem unpackExponent_toNat (b : BitVec Format.binary64.numBits) :
    (unpackExponent b).toNat = b.toNat / implicitBit % 0x800 := by
  simp [unpackExponent, BitVec.extractLsb, Nat.shiftRight_eq_div_pow]

theorem unpackSign_toNat (b : BitVec Format.binary64.numBits) :
    (unpackSign b).toNat = b.toNat / signValue := by
  have small : b.toNat < 2 ^ 64 := b.isLt
  simp [unpackSign, BitVec.extractLsb, Nat.shiftRight_eq_div_pow]
  omega

/-- The sign that the leading bit stands for. -/
def signOf (bits : Nat) : Sign := if bits / signValue = 1 then .negative else .positive

/-- What 64 bits stand for, by the field of the exponent and the fraction. -/
inductive Stands (bits : Nat) : UnpackedFloat → Prop
  | infinity (field : bits / implicitBit % 0x800 = 0x7FF) (fraction : bits % implicitBit = 0) :
      Stands bits (.infinity (signOf bits))
  | notANumber (field : bits / implicitBit % 0x800 = 0x7FF) (fraction : bits % implicitBit ≠ 0) :
      Stands bits .notANumber
  | zero (field : bits / implicitBit % 0x800 = 0) (fraction : bits % implicitBit = 0) :
      Stands bits (.zero (signOf bits))
  | subnormal (field : bits / implicitBit % 0x800 = 0) (positive : 0 < bits % implicitBit) :
      Stands bits (.finite (signOf bits) (bits % implicitBit) (-1074) positive)
  | normal (field : bits / implicitBit % 0x800 ≠ 0)
      (positive : 0 < bits % implicitBit + implicitBit) :
      Stands bits
        (.finite (signOf bits) (bits % implicitBit + implicitBit)
          ((bits / implicitBit % 0x800 : Nat) - 1075) positive)

theorem stands_unpack (b : BitVec Format.binary64.numBits) :
    Stands b.toNat (UnpackedFloat.unpack .binary64 b) := by
  have isSign : Sign.ofBitVec (unpackSign b) = signOf b.toNat := by
    unfold Sign.ofBitVec signOf
    rw [← unpackSign_toNat b]
    rcases BitVec.eq_zero_or_eq_one (unpackSign b) with same | same <;> rw [same] <;> rfl
  have isField := unpackExponent_toNat b
  have isFraction := unpackMantissa_toNat b
  have lastField : unpackExponent b = -1#_ ↔ b.toNat / implicitBit % 0x800 = 0x7FF := by
    rw [← isField, ← BitVec.toNat_inj]
    rfl
  have noField : unpackExponent b = 0#_ ↔ b.toNat / implicitBit % 0x800 = 0 := by
    rw [← isField, ← BitVec.toNat_inj]
    rfl
  have noFraction : unpackMantissa b = 0#_ ↔ b.toNat % implicitBit = 0 := by
    rw [← isFraction, ← BitVec.toNat_inj]
    rfl
  fun_cases UnpackedFloat.unpack .binary64 b with
  | case1 m e s sign isLast isZero =>
      rw [show sign = signOf b.toNat from isSign]
      exact .infinity (lastField.mp isLast) (noFraction.mp isZero)
  | case2 m e isLast notZero => exact .notANumber (lastField.mp isLast) (mt noFraction.mpr notZero)
  | case3 m e s sign notLast isFirst isZero =>
      rw [show sign = signOf b.toNat from isSign]
      exact .zero (noField.mp isFirst) (noFraction.mp isZero)
  | case4 m e exponent s sign notLast isFirst notZero =>
      have isLowest : exponent + 1 = -1074 := by
        have field : e.toNat = 0 := isField.trans (noField.mp isFirst)
        have : exponent = e.toNat - (1075 : Int) := rfl
        omega
      have positive : 0 < b.toNat % implicitBit := Nat.pos_of_ne_zero (mt noFraction.mpr notZero)
      have same : UnpackedFloat.finite sign m.toNat (exponent + 1) (isFraction ▸ positive) =
          .finite (signOf b.toNat) (b.toNat % implicitBit) (-1074) positive := by
        rw [UnpackedFloat.finite.injEq]
        exact ⟨isSign, isFraction, isLowest⟩
      rw [same]
      exact .subnormal (noField.mp isFirst) positive
  | case5 m e exponent s sign notLast notFirst =>
      have significand : (1#1 ++ m).toNat = b.toNat % implicitBit + implicitBit := by
        rw [BitVec.toNat_append, ← Nat.shiftLeft_add_eq_or_of_lt m.isLt, ← isFraction]
        exact Nat.add_comm _ _
      have isExponent : exponent = (b.toNat / implicitBit % 0x800 : Nat) - (1075 : Int) := by
        rw [← isField]
        rfl
      have positive : 0 < b.toNat % implicitBit + implicitBit := Nat.add_pos_right _ (by decide)
      have same : UnpackedFloat.finite sign (1#1 ++ m).toNat exponent (significand ▸ positive) =
          .finite (signOf b.toNat) (b.toNat % implicitBit + implicitBit)
            ((b.toNat / implicitBit % 0x800 : Nat) - 1075) positive := by
        rw [UnpackedFloat.finite.injEq]
        exact ⟨isSign, significand, isExponent⟩
      rw [same]
      exact .normal (mt noField.mpr notFirst) positive

/-- The bits of a machine number. -/
def bitsOf (x : Float) : Nat := x.toModel.toBits.toBitVec.toNat

theorem stands_bitsOf (x : Float) : Stands (bitsOf x) x.toModel.unpack :=
  stands_unpack _

/-! ## Exact values -/

theorem magnitude_eq (p : Parts) : p.magnitude = p.significand * (2 : ℚ) ^ p.exponent := by
  unfold Parts.magnitude
  by_cases whole : 0 ≤ p.exponent
  · have isNat : p.exponent = (p.exponent.toNat : ℤ) := (Int.toNat_of_nonneg whole).symm
    rw [if_pos whole, isNat, zpow_natCast, Int.toNat_natCast]
    exact_mod_cast rfl
  · have isNat : p.exponent = -((-p.exponent).toNat : ℤ) := by omega
    rw [if_neg whole, Rat.mkRat_eq_div, isNat, zpow_neg, zpow_natCast, neg_neg, Int.toNat_natCast,
      div_eq_mul_inv]
    norm_num

def valueOf : UnpackedFloat → Extended
  | .notANumber => .nan
  | .infinity .negative => .negInf
  | .infinity .positive => .posInf
  | .zero _ => .fin 0
  | .finite sign significand exponent _ => .fin (sign.apply significand * (2 : ℚ) ^ exponent)

theorem signed_eq (bits : Nat) (p : Parts) :
    (if decide (bits / signValue = 1) = true then -p.magnitude else p.magnitude) =
      (signOf bits).apply p.significand * (2 : ℚ) ^ p.exponent := by
  rw [magnitude_eq]
  unfold signOf
  by_cases negative : bits / signValue = 1 <;> simp [negative, Sign.apply]

/-- The exact value that is read off the bits is the one they stand for. -/
theorem exact_eq_valueOf (x : Float) : exact x = valueOf x.toModel.unpack := by
  have bits : x.toBits.toNat = bitsOf x := rfl
  have notNumber : x.isNaN = x.toModel.unpack.isNaN := rfl
  have infinite : x.isInf = x.toModel.unpack.isInf := rfl
  have stands := stands_bitsOf x
  unfold exact signBit parts
  rw [notNumber, infinite, bits]
  generalize bitsOf x = n at stands ⊢
  generalize x.toModel.unpack = u at stands ⊢
  cases stands with
  | infinity field fraction =>
      unfold signOf
      by_cases negative : n / signValue = 1 <;>
        simp [negative, UnpackedFloat.isNaN, UnpackedFloat.isInf, valueOf]
  | notANumber field fraction => rfl
  | zero field fraction =>
      show Extended.fin (if _ then -Parts.magnitude (if _ then _ else _) else _) = .fin 0
      rw [signed_eq, if_pos field, fraction]
      cases signOf n <;> simp [Sign.apply]
  | subnormal field positive =>
      show Extended.fin (if _ then -Parts.magnitude (if _ then _ else _) else _) = .fin _
      rw [signed_eq, if_pos field]
  | normal field positive =>
      show Extended.fin (if _ then -Parts.magnitude (if _ then _ else _) else _) = .fin _
      rw [signed_eq, if_neg field]

/-! ## Order -/

/-- A significand with the least exponent that the format has for it. -/
structure Canonical (significand : Nat) (exponent : Int) : Prop where
  small : significand < 2 * implicitBit
  lowest : -1074 ≤ exponent
  normal : implicitBit ≤ significand ∨ exponent = -1074

section Finite

variable {bits : Nat} {sign : Sign} {significand : Nat} {exponent : Int} {positive : 0 < significand}

theorem Stands.canonical (stands : Stands bits (.finite sign significand exponent positive)) :
    Canonical significand exponent := by
  have small : bits % implicitBit < implicitBit := Nat.mod_lt _ (by decide)
  cases stands with
  | subnormal field positive => exact ⟨by omega, le_rfl, Or.inr rfl⟩
  | normal field positive => exact ⟨by omega, by omega, Or.inl (Nat.le_add_left _ _)⟩

end Finite

theorem magnitude_lt {m n : Nat} {e f : Int} (first : Canonical m e) (second : Canonical n f)
    (below : e < f) : (m : ℚ) * 2 ^ e < n * 2 ^ f := by
  have significands : (m : ℚ) < 2 * n := by
    have normal : implicitBit ≤ n := second.normal.resolve_right (by have := first.lowest; omega)
    have : m < 2 * n := by have := first.small; omega
    exact_mod_cast this
  calc (m : ℚ) * 2 ^ e < 2 * n * 2 ^ e := by gcongr
    _ = n * 2 ^ (e + 1) := by rw [zpow_add_one₀ two_ne_zero]; ring
    _ ≤ n * 2 ^ f := by gcongr <;> [norm_num; omega]

/-- Canonical numbers are compared by their exponents and then by their significands. -/
theorem compare_magnitude {m n : Nat} {e f : Int} (first : Canonical m e) (second : Canonical n f) :
    (compare e f).then (compare m n) = compare ((m : ℚ) * 2 ^ e) (n * 2 ^ f) := by
  rcases lt_trichotomy e f with below | rfl | above
  · rw [compare_lt_iff_lt.mpr below, compare_lt_iff_lt.mpr (magnitude_lt first second below)]
    rfl
  · have unit : (0 : ℚ) < 2 ^ e := by positivity
    rw [compare_eq_iff_eq.mpr rfl]
    show compare m n = _
    rcases lt_trichotomy m n with less | rfl | greater
    · have scaled : (m : ℚ) * 2 ^ e < n * 2 ^ e := by gcongr
      rw [compare_lt_iff_lt.mpr less, compare_lt_iff_lt.mpr scaled]
    · rw [compare_eq_iff_eq.mpr rfl, compare_eq_iff_eq.mpr rfl]
    · have scaled : (n : ℚ) * 2 ^ e < m * 2 ^ e := by gcongr
      rw [compare_gt_iff_gt.mpr greater, compare_gt_iff_gt.mpr scaled]
  · rw [compare_gt_iff_gt.mpr above, compare_gt_iff_gt.mpr (magnitude_lt second first above)]
    rfl

theorem compare_neg_neg (p q : ℚ) : compare (-p) (-q) = (compare p q).swap := by
  rcases lt_trichotomy p q with less | rfl | greater
  · rw [compare_lt_iff_lt.mpr less, compare_gt_iff_gt.mpr (neg_lt_neg less)]
    rfl
  · rw [compare_eq_iff_eq.mpr rfl, compare_eq_iff_eq.mpr rfl]
    rfl
  · rw [compare_gt_iff_gt.mpr greater, compare_lt_iff_lt.mpr (neg_lt_neg greater)]
    rfl

/-- How two exact values compare, if they do. -/
def order : Extended → Extended → Option Ordering
  | .nan, _ => none
  | _, .nan => none
  | .fin p, .fin q => some (compare p q)
  | .negInf, .negInf => some .eq
  | .posInf, .posInf => some .eq
  | .negInf, _ => some .lt
  | _, .negInf => some .gt
  | .posInf, _ => some .gt
  | _, .posInf => some .lt

theorem order_eq_lt_iff (a b : Extended) : order a b = some .lt ↔ a < b := by
  show _ ↔ Extended.less a b = true
  cases a <;> cases b <;> simp [order, Extended.less, compare_lt_iff_lt]

theorem order_isLE_iff (a b : Extended) : (order a b).any (·.isLE) = true ↔ a ≤ b := by
  show _ ↔ Extended.atMost a b = true
  cases a <;> cases b <;> simp [order, Extended.atMost, Ordering.isLE_iff_ne_gt, compare_gt_iff_gt]

/-- Finite numbers other than zeros compare as their values do. -/
theorem compare_finite {a b : Nat} {s t : Sign} {m n : Nat} {e f : Int} {first : 0 < m} {second : 0 < n}
    (isFirst : Stands a (.finite s m e first)) (isSecond : Stands b (.finite t n f second)) :
    UnpackedFloat.compare (.finite s m e first) (.finite t n f second) =
      some (compare ((s.apply m : ℤ) * (2 : ℚ) ^ e) ((t.apply n : ℤ) * (2 : ℚ) ^ f)) := by
  have magnitudes := compare_magnitude isFirst.canonical isSecond.canonical
  have firstPositive : (0 : ℚ) < m * 2 ^ e := by positivity
  have secondPositive : (0 : ℚ) < n * 2 ^ f := by positivity
  cases s <;> cases t <;>
    simp only [UnpackedFloat.compare, Sign.apply, Int.cast_neg, Int.cast_natCast, neg_mul,
      compare_neg_neg, magnitudes]
  · rw [compare_lt_iff_lt.mpr (by linarith)]
  · rw [compare_gt_iff_gt.mpr (by linarith)]

/-- Machine numbers compare as their values do. -/
theorem compare_eq_order {a b : Nat} {u v : UnpackedFloat} (first : Stands a u) (second : Stands b v) :
    u.compare v = order (valueOf u) (valueOf v) := by
  cases u with
  | infinity s =>
      cases s <;> rcases v with t | _ | t | ⟨t, n, f, positive⟩ <;> first | rfl | (cases t <;> rfl)
  | notANumber => rfl
  | zero s =>
      rcases v with t | _ | t | ⟨t, n, f, positive⟩
      · cases t <;> rfl
      · rfl
      · exact congrArg some (compare_eq_iff_eq.mpr rfl).symm
      · have magnitude : (0 : ℚ) < n * 2 ^ f := by positivity
        cases t <;> simp only [UnpackedFloat.compare, valueOf, order, Sign.apply, Int.cast_neg,
          Int.cast_natCast, neg_mul]
        · rw [compare_gt_iff_gt.mpr (by linarith)]
        · rw [compare_lt_iff_lt.mpr (by linarith)]
  | finite s m e positive =>
      rcases v with t | _ | t | ⟨t, n, f, positive⟩
      · cases t <;> cases s <;> rfl
      · rfl
      · have magnitude : (0 : ℚ) < m * 2 ^ e := by positivity
        cases s <;> simp only [UnpackedFloat.compare, valueOf, order, Sign.apply, Int.cast_neg,
          Int.cast_natCast, neg_mul]
        · rw [compare_lt_iff_lt.mpr (by linarith)]
        · rw [compare_gt_iff_gt.mpr (by linarith)]
      · exact compare_finite first second

theorem lt_iff_exact (x y : Float) : x < y ↔ exact x < exact y := by
  rw [exact_eq_valueOf, exact_eq_valueOf, ← order_eq_lt_iff,
    ← compare_eq_order (stands_bitsOf x) (stands_bitsOf y)]
  show decide (x.toModel < y.toModel) = true ↔ _
  rw [decide_eq_true_iff]
  show (x.toModel.unpack.compare y.toModel.unpack == some .lt) = true ↔ _
  rw [beq_iff_eq]

theorem le_iff_exact (x y : Float) : x ≤ y ↔ exact x ≤ exact y := by
  rw [exact_eq_valueOf, exact_eq_valueOf, ← order_isLE_iff,
    ← compare_eq_order (stands_bitsOf x) (stands_bitsOf y)]
  show decide (x.toModel ≤ y.toModel) = true ↔ _
  rw [decide_eq_true_iff]
  rfl

/-! ## Identity -/

/-- A number other than zero is known from its exact value. -/
theorem eq_of_exact_eq {x y : Float} {q : ℚ} (isFirst : exact x = .fin q) (isSecond : exact y = .fin q)
    (nonzero : q ≠ 0) : x = y := by
  have zero : exact 0 = .fin 0 := by decide +kernel
  have negativeZero : exact (-0) = .fin 0 := by decide +kernel
  have equal : (x == y) = true := by
    show (x.toModel.unpack.compare y.toModel.unpack == some .eq) = true
    rw [compare_eq_order (stands_bitsOf x) (stands_bitsOf y), ← exact_eq_valueOf, ← exact_eq_valueOf,
      isFirst, isSecond, order, compare_eq_iff_eq.mpr rfl]
    rfl
  rcases (Float.beq_iff_ne_nan_and_eq.mp equal).2.2 with same | ⟨rfl, -⟩ | ⟨rfl, -⟩
  · exact same
  · rw [zero] at isFirst
    exact (nonzero (Extended.fin.inj isFirst).symm).elim
  · rw [negativeZero] at isFirst
    exact (nonzero (Extended.fin.inj isFirst).symm).elim

/-! ## Differences -/

/-- What is no finite number leaves no finite difference. -/
theorem sub_cases (u v : UnpackedFloat) :
    u.isFinite = true ∧ v.isFinite = true ∨ UnpackedFloat.sub .binary64 u v = .notANumber ∨
      ∃ s, UnpackedFloat.sub .binary64 u v = .infinity s := by
  rcases u with s | _ | s | ⟨s, m, e, positive⟩ <;> rcases v with t | _ | t | ⟨t, n, f, positive⟩
  -- The signs decide between two infinities; elsewhere the first that is not finite does.
  case infinity.infinity => cases s <;> cases t <;> first
    | exact Or.inr (Or.inl rfl)
    | exact Or.inr (Or.inr ⟨_, rfl⟩)
  all_goals first
    | exact Or.inl ⟨rfl, rfl⟩
    | exact Or.inr (Or.inl rfl)
    | exact Or.inr (Or.inr ⟨_, rfl⟩)

theorem isFinite_iff_unpack (x : Float) :
    Scalar.isFinite x = true ↔ x.toModel.unpack.isFinite = true := by
  rw [Scalar.isFinite_iff_exact]
  show (∃ q, exact x = .fin q) ↔ _
  rw [exact_eq_valueOf]
  cases x.toModel.unpack with
  | infinity s =>
      refine ⟨?_, fun finite => (Bool.false_ne_true finite).elim⟩
      rintro ⟨q, same⟩
      cases s <;> cases same
  | notANumber => exact ⟨nofun, fun finite => (Bool.false_ne_true finite).elim⟩
  | zero s => exact ⟨fun _ => rfl, fun _ => ⟨0, rfl⟩⟩
  | finite s m e positive => exact ⟨fun _ => rfl, fun _ => ⟨_, rfl⟩⟩

theorem isFinite_of_isFinite_sub (x y : Float) (finite : Scalar.isFinite (x - y) = true) :
    Scalar.isFinite x = true ∧ Scalar.isFinite y = true := by
  rw [isFinite_iff_unpack] at finite ⊢
  rw [isFinite_iff_unpack]
  have difference : (x - y).toModel.unpack = UnpackedFloat.unpack .binary64
      (UnpackedFloat.pack .binary64
        (UnpackedFloat.sub .binary64 x.toModel.unpack y.toModel.unpack)) := rfl
  rcases sub_cases x.toModel.unpack y.toModel.unpack with both | isNone | ⟨s, isInfinite⟩
  · exact both
  · rw [difference, isNone] at finite
    exact (Bool.false_ne_true finite).elim
  · rw [difference, isInfinite] at finite
    cases s <;> exact (Bool.false_ne_true finite).elim

/-- Machine numbers are faithful: rounding changes neither their order nor which of them are finite. -/
instance : Scalar.Faithful Float where
  lt_iff := lt_iff_exact
  le_iff := le_iff_exact
  exact_zero := by decide +kernel
  exact_one := by decide +kernel
  isFinite_of_sub := isFinite_of_isFinite_sub
  eq_of_exact _ _ _ := eq_of_exact_eq

end Montage.Binary64

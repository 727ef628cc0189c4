import Montage.Proofs.Number.Representable

/-!
Contract: how large products are, and which quotients are numbers.

Owns:
- that a number in range is packed without loss (`valueOf_unpack_pack`), and so is its opposite
  (`exact_neg`);
- that rounding gives a significand its least exponent (`canonical_shift`);
- that a factor below one does not enlarge a product, though it is rounded (`exact_mul_of_lt_one`);
- when a quotient is no number (`isNaN_div_iff`).

Does **not** own: how close a product is to the exact one.

A product below the larger factor is rounded in a unit that is not above that factor's unit. So the factor
is a whole number of units, and rounding up does not lead beyond it.
-/

set_option autoImplicit false

namespace Montage.Binary64

open Float.Model (Format UnpackedFloat)
open Float.Model.UnpackedFloat

/-! ## Packing -/

section Packing

variable {s : Sign} {m : Nat} {e : Int}

/-- A number in range is packed as its sign, its exponent if it fills the format, and its digits. -/
theorem pack_finite (positive : 0 < m) (inRange : e ≤ 971) :
    pack .binary64 (.finite s m e positive) =
      packComponents .binary64 s
        (BitVec.ofNat _ (if m.log2 + 1 = Format.binary64.mantissaBits then (e + 1075).toNat else 0))
        (BitVec.ofNat _ m) := by
  have biased : (e + Format.binary64.exponentBias + Format.binary64.mantissaBitsWithoutImplicit).toNat =
      (e + 1075).toNat := by
    show (e + 1023 + 52).toNat = _
    rw [Int.add_assoc]
    rfl
  have fits : ¬ 2 ^ Format.binary64.exponentBits ≤ (e + 1075).toNat + 1 := by
    show ¬ 2048 ≤ (e + 1075).toNat + 1
    omega
  simp only [pack, biased, if_neg fits]
  split <;> rfl

/-- The fields of a packed number are its exponent and its significand, under its sign. -/
theorem fields_pack (positive : 0 < m) (canonical : Canonical m e) (inRange : e ≤ 971) :
    (pack .binary64 (.finite s m e positive)).toNat % signValue =
        (e + 1074).toNat * implicitBit + m ∧
      signOf (pack .binary64 (.finite s m e positive)).toNat = s := by
  have field := unpackExponent_pack (s := s) positive inRange
  have digits : (unpackMantissa (pack .binary64 (.finite s m e positive))).toNat = m % implicitBit := by
    rw [pack_finite positive inRange, unpackMantissa_packComponents, BitVec.toNat_ofNat]
    rfl
  have sign : (unpackSign (pack .binary64 (.finite s m e positive))).toNat = s.toBitVec.toNat := by
    rw [pack_finite positive inRange, unpackSign_packComponents]
  rw [unpackExponent_toNat] at field
  rw [unpackMantissa_toNat] at digits
  rw [unpackSign_toNat] at sign
  generalize (pack .binary64 (.finite s m e positive)).toNat = bits at field digits sign ⊢
  have small := canonical.small
  have lowest := canonical.lowest
  refine ⟨?_, ?_⟩
  · have full : m.log2 + 1 = Format.binary64.mantissaBits ↔ implicitBit ≤ m := by
      have top : m.log2 < 53 := (Nat.log2_lt positive.ne').mpr small
      have least : 52 ≤ m.log2 ↔ 2 ^ 52 ≤ m := Nat.le_log2 positive.ne'
      show m.log2 + 1 = 53 ↔ 2 ^ 52 ≤ m
      rw [← least]
      omega
    simp only [full] at field
    unfold implicitBit at field digits small full ⊢
    unfold signValue
    have normal := canonical.normal
    unfold implicitBit at normal
    split at field <;> omega
  · unfold signOf
    rw [sign]
    cases s <;> rfl

/-- A canonical number in range comes back from its bits with its value. -/
theorem valueOf_unpack_pack (positive : 0 < m) (canonical : Canonical m e) (inRange : e ≤ 971) :
    valueOf (unpack .binary64 (pack .binary64 (.finite s m e positive))) =
      .fin (s.apply m * (2 : ℚ) ^ e) := by
  obtain ⟨fields, isSign⟩ := fields_pack (s := s) positive canonical inRange
  have value := valueOf_stands (stands_unpack (pack .binary64 (.finite s m e positive))) canonical
    inRange positive fields
  rwa [isSign] at value

theorem valueOf_unpack_pack_zero (s : Sign) :
    valueOf (unpack .binary64 (pack .binary64 (.zero s))) = .fin 0 := by
  cases s <;> rfl

/-- The opposite of a finite number has the opposite value. -/
theorem exact_neg {x : Float} {q : ℚ} (isExact : exact x = .fin q) : exact (-x) = .fin (-q) := by
  have negated : exact (-x) = valueOf (unpack .binary64 (pack .binary64
      (UnpackedFloat.neg x.toModel.unpack))) := exact_eq_valueOf _
  rw [negated]
  obtain ⟨s, unpacked, rfl⟩ | ⟨s, m, e, positive, unpacked, canonical, inRange, rfl⟩ :=
    unpack_of_exact isExact
  · rw [unpacked, neg_zero]
    exact valueOf_unpack_pack_zero _
  · rw [unpacked]
    refine (valueOf_unpack_pack (s := -s) positive canonical inRange).trans ?_
    rw [← neg_mul]
    cases s <;> simp [Sign.apply]

end Packing

/-! ## Shifting -/

section Shifting

variable {m : Nat} {e : Int}

/-- What is shifted out of a significand that is not too short leaves it canonical. -/
theorem canonical_shift (notShort : implicitBit ≤ m ∨ e ≤ -1074) :
    Canonical (m / 2 ^ excess m e) (e + excess m e) := by
  have shift : (excess m e : Int) = max (max ((m.log2 : Int) + 1 + e - 53) (-1074) - e) 0 := by
    unfold excess
    omega
  refine ⟨?_, by omega, ?_⟩
  · have narrow : m < 2 ^ 53 * 2 ^ excess m e := by
      rw [← Nat.pow_add]
      exact Nat.lt_log2_self.trans_le (Nat.pow_le_pow_right (by decide) (by omega))
    exact (Nat.div_lt_iff_lt_mul (by positivity)).mpr narrow
  · by_cases lowest : e + excess m e = -1074
    · exact Or.inr lowest
    · -- Above the least unit, just as much is shifted out as does not fit.
      left
      have wide : 52 ≤ m.log2 := by
        rcases notShort with long | low
        · have notZero : m ≠ 0 := by
            rintro rfl
            exact absurd long (by decide)
          exact (Nat.le_log2 notZero).mpr long
        · omega
      have places : excess m e = m.log2 - 52 := by omega
      have notZero : m ≠ 0 := by
        rintro rfl
        exact absurd wide (by decide)
      rw [places, Nat.le_div_iff_mul_le (by positivity)]
      calc implicitBit * 2 ^ (m.log2 - 52) = 2 ^ (52 + (m.log2 - 52)) := (Nat.pow_add 2 52 _).symm
        _ = 2 ^ m.log2 := by rw [Nat.add_sub_cancel' wide]
        _ ≤ m := Nat.log2_self_le notZero

theorem shift_le (m : Nat) (e : Int) (places : Nat) :
    ((m / 2 ^ places : ℕ) : ℚ) * 2 ^ (e + places) ≤ m * 2 ^ e := by
  have unit : (0 : ℚ) < 2 ^ e := by positivity
  have whole : ((m / 2 ^ places : ℕ) : ℚ) * 2 ^ places ≤ m := by
    exact_mod_cast Nat.div_mul_le_self m (2 ^ places)
  calc ((m / 2 ^ places : ℕ) : ℚ) * 2 ^ (e + places)
      = ((m / 2 ^ places : ℕ) : ℚ) * 2 ^ places * 2 ^ e := by
        rw [add_comm, zpow_add₀ two_ne_zero, zpow_natCast, mul_assoc]
    _ ≤ m * 2 ^ e := by gcongr

/-- Rounding gives zero or a canonical number, which is at most one unit above what was kept. -/
theorem roundWithAccuracy_canonical (s : Sign) (accuracy : Accuracy)
    (notShort : implicitBit ≤ m ∨ e ≤ -1074) :
    ∃ n f, Canonical n f ∧
      (n : ℚ) * 2 ^ f ≤ ((m / 2 ^ excess m e + 1 : ℕ) : ℚ) * 2 ^ (e + excess m e) ∧
      (roundWithAccuracy .binary64 s m e accuracy = .zero s ∨
        ∃ positive, roundWithAccuracy .binary64 s m e accuracy = .finite s n f positive) := by
  obtain ⟨r, atLeast, oneMore, outcome⟩ := roundWithAccuracy_cases s m e accuracy
  have kept := canonical_shift notShort
  have stillNotShort : implicitBit ≤ r ∨ e + excess m e ≤ -1074 :=
    kept.normal.imp (fun normal => normal.trans atLeast) le_of_eq
  refine ⟨_, _, canonical_shift stillNotShort, ?_, outcome.imp And.right id⟩
  calc ((r / 2 ^ excess r (e + excess m e) : ℕ) : ℚ) * 2 ^ (e + excess m e + excess r (e + excess m e))
      ≤ r * 2 ^ (e + excess m e) := shift_le _ _ _
    _ ≤ ((m / 2 ^ excess m e + 1 : ℕ) : ℚ) * 2 ^ (e + excess m e) := by gcongr

end Shifting

/-! ## Products -/

/-- A canonical number is a whole number of any unit that is not above its own. -/
theorem eq_mul_unit (n : Nat) {unit f : Int} (below : unit ≤ f) :
    (n : ℚ) * 2 ^ f = ((n * 2 ^ (f - unit).toNat : ℕ) : ℚ) * 2 ^ unit := by
  obtain ⟨places, isPlaces⟩ := Int.eq_ofNat_of_zero_le (sub_nonneg.mpr below)
  rw [isPlaces, Int.toNat_natCast, show f = (places : ℤ) + unit by omega, zpow_add₀ two_ne_zero]
  push_cast
  rw [zpow_natCast, mul_assoc]

/-- A product with a factor below one is rounded to at most the other factor. -/
theorem mul_of_lt_one {m n : Nat} {e f : Int} (first : Canonical m e) (second : Canonical n f)
    (positive : 0 < m) (alsoPositive : 0 < n) (inRange : f ≤ 971) (small : (m : ℚ) * 2 ^ e < 1) (s : Sign) :
    ∃ k g, Canonical k g ∧ g ≤ 971 ∧ (k : ℚ) * 2 ^ g ≤ n * 2 ^ f ∧
      (roundWithAccuracy .binary64 s (m * n) (e + f) .exact = .zero s ∨
        ∃ positive, roundWithAccuracy .binary64 s (m * n) (e + f) .exact = .finite s k g positive) := by
  have notShort : implicitBit ≤ m * n ∨ e + f ≤ -1074 := by
    rcases first.normal with normal | lowest
    · exact Or.inl (normal.trans (Nat.le_mul_of_pos_right m alsoPositive))
    · rcases second.normal with normal | alsoLowest
      · exact Or.inl (normal.trans (Nat.le_mul_of_pos_left n positive))
      · exact Or.inr (by omega)
  obtain ⟨k, g, canonical, bounded, outcome⟩ := roundWithAccuracy_canonical s .exact notShort
  have kept := canonical_shift notShort
  have less : ((m * n / 2 ^ excess (m * n) (e + f) : ℕ) : ℚ) * 2 ^ (e + f + excess (m * n) (e + f)) <
      n * 2 ^ f := by
    have factor : (0 : ℚ) < n * 2 ^ f := by positivity
    calc ((m * n / 2 ^ excess (m * n) (e + f) : ℕ) : ℚ) * 2 ^ (e + f + excess (m * n) (e + f))
        ≤ ((m * n : ℕ) : ℚ) * 2 ^ (e + f) := shift_le _ _ _
      _ = (m * 2 ^ e) * (n * 2 ^ f) := by
          rw [zpow_add₀ two_ne_zero]
          push_cast
          ring
      _ < 1 * (n * 2 ^ f) := by gcongr
      _ = n * 2 ^ f := one_mul _
  generalize m * n / 2 ^ excess (m * n) (e + f) = rest at kept less bounded
  generalize e + f + excess (m * n) (e + f) = unit at kept less bounded
  have coarser : unit ≤ f := by
    by_contra above
    exact absurd (magnitude_lt second kept (not_le.mp above)) less.not_gt
  have notAbove : (k : ℚ) * 2 ^ g ≤ n * 2 ^ f := by
    rw [eq_mul_unit n coarser] at less ⊢
    have oneUnit : (0 : ℚ) < 2 ^ unit := by positivity
    have fewer : rest + 1 ≤ n * 2 ^ (f - unit).toNat := by
      exact_mod_cast (mul_lt_mul_iff_left₀ oneUnit).mp less
    calc (k : ℚ) * 2 ^ g ≤ ((rest + 1 : ℕ) : ℚ) * 2 ^ unit := bounded
      _ ≤ ((n * 2 ^ (f - unit).toNat : ℕ) : ℚ) * 2 ^ unit := by gcongr
  refine ⟨k, g, canonical, ?_, notAbove, outcome⟩
  by_contra above
  exact absurd (magnitude_lt second canonical (by omega)) notAbove.not_gt

theorem sign_eq_positive {s : Sign} {m : Nat} {e : Int} (positive : 0 < m)
    (nonneg : 0 ≤ s.apply m * (2 : ℚ) ^ e) : s = .positive := by
  have magnitude : (0 : ℚ) < m * 2 ^ e := by positivity
  cases s with
  | positive => rfl
  | negative =>
      rw [Sign.apply, Int.cast_neg, Int.cast_natCast, neg_mul] at nonneg
      linarith

/-- A nonnegative factor below one does not enlarge a product of numbers as they are unpacked. -/
theorem valueOf_mul_of_lt_one {a b : Nat} {u v : UnpackedFloat} {p q : ℚ} (stands : Stands a u)
    (alsoStands : Stands b v) (unit : UnitAtMost 971 v) (isFirst : valueOf u = .fin p)
    (isSecond : valueOf v = .fin q) (nonneg : 0 ≤ p) (small : p < 1) (positive : 0 < q) :
    ∃ r, valueOf (unpack .binary64 (pack .binary64 (UnpackedFloat.mul .binary64 u v))) = .fin r ∧
      0 ≤ r ∧ r ≤ q := by
  cases unit with
  | zero t =>
      cases isSecond
      exact (lt_irrefl _ positive).elim
  | @finite t n f alsoPositive inRange =>
      obtain rfl : t.apply n * (2 : ℚ) ^ f = q := Extended.fin.inj isSecond
      obtain rfl := sign_eq_positive alsoPositive positive.le
      cases u with
      | notANumber => cases isFirst
      | infinity s => cases s <;> cases isFirst
      | zero s =>
          have isZero : UnpackedFloat.mul .binary64 (.zero s) (.finite .positive n f alsoPositive) =
              .zero (s * .positive) := rfl
          rw [isZero, valueOf_unpack_pack_zero]
          exact ⟨0, rfl, le_rfl, positive.le⟩
      | finite s m e nonzero =>
          obtain rfl : s.apply m * (2 : ℚ) ^ e = p := Extended.fin.inj isFirst
          obtain rfl := sign_eq_positive nonzero nonneg
          simp only [Sign.apply, Int.cast_natCast] at small ⊢
          obtain ⟨k, g, canonical, fits, notAbove, outcome⟩ := mul_of_lt_one stands.canonical
            alsoStands.canonical nonzero alsoPositive inRange small .positive
          have rounded : UnpackedFloat.mul .binary64 (.finite .positive m e nonzero)
              (.finite .positive n f alsoPositive) =
                roundWithAccuracy .binary64 .positive (m * n) (e + f) .exact := rfl
          rw [rounded]
          rcases outcome with isZero | ⟨alsoNonzero, isFinite⟩
          · rw [isZero, valueOf_unpack_pack_zero]
            exact ⟨0, rfl, le_rfl, by positivity⟩
          · rw [isFinite, valueOf_unpack_pack alsoNonzero canonical fits]
            refine ⟨_, rfl, ?_, ?_⟩ <;> rw [Sign.apply, Int.cast_natCast]
            · positivity
            · exact notAbove

/-- A nonnegative factor below one does not enlarge a product of machine numbers. -/
theorem exact_mul_of_lt_one {x y : Float} {p q : ℚ} (isFirst : exact x = .fin p)
    (isSecond : exact y = .fin q) (nonneg : 0 ≤ p) (small : p < 1) (positive : 0 < q) :
    ∃ r, exact (x * y) = .fin r ∧ 0 ≤ r ∧ r ≤ q := by
  have product : exact (x * y) = valueOf (unpack .binary64 (pack .binary64
      (UnpackedFloat.mul .binary64 x.toModel.unpack y.toModel.unpack))) := exact_eq_valueOf _
  have finite : y.toModel.unpack.isFinite = true :=
    (isFinite_iff_unpack y).mp ((Scalar.isFinite_iff_exact y).mpr ⟨q, isSecond⟩)
  rw [exact_eq_valueOf] at isFirst isSecond
  rw [product]
  exact valueOf_mul_of_lt_one (stands_bitsOf x) (stands_bitsOf y)
    (unitAtMost_unpack_of_isFinite finite) isFirst isSecond nonneg small positive

/-! ## What is no number -/

theorem isNaN_iff_unpack (x : Float) : Scalar.isNaN x = true ↔ x.toModel.unpack = .notANumber := by
  have isExact : Scalar.exact x = valueOf x.toModel.unpack := exact_eq_valueOf x
  unfold Scalar.isNaN
  rw [isExact]
  cases x.toModel.unpack with
  | infinity s => cases s <;> simp [valueOf]
  | notANumber => simp [valueOf]
  | zero s => simp [valueOf]
  | finite s m e positive => simp [valueOf]

/-- What is packed comes back as no number only if it is none. -/
theorem unpack_pack_eq_notANumber (u : UnpackedFloat) :
    unpack .binary64 (pack .binary64 u) = .notANumber ↔ u = .notANumber := by
  cases u with
  | infinity s => cases s <;> exact ⟨nofun, nofun⟩
  | notANumber => exact ⟨fun _ => rfl, fun _ => rfl⟩
  | zero s => cases s <;> exact ⟨nofun, nofun⟩
  | finite s m e positive =>
      refine ⟨fun isNone => ?_, nofun⟩
      have finite := isFinite_unpack_pack (u := .finite s m e positive) rfl (by rw [isNone]; rfl)
      rw [isNone] at finite
      cases finite

/-- A product with no number is none. -/
theorem isNaN_mul_of_isNaN {x : Float} (isNone : Scalar.isNaN x = true) (y : Float) :
    Scalar.isNaN (x * y) = true := by
  have product : (x * y).toModel.unpack = unpack .binary64 (pack .binary64
      (UnpackedFloat.mul .binary64 x.toModel.unpack y.toModel.unpack)) := rfl
  rw [isNaN_iff_unpack] at isNone ⊢
  rw [product, isNone, unpack_pack_eq_notANumber]
  rfl

/-- A quotient whose divisor is not zero is no number if the dividend or the divisor is none, or if both
are infinite. -/
theorem isNaN_div_iff {x y : Float} (nonzero : exact y ≠ .fin 0) :
    Scalar.isNaN (x / y) = true ↔
      Scalar.isNaN x = true ∨ Scalar.isNaN y = true ∨
        Scalar.isFinite x = false ∧ Scalar.isFinite y = false := by
  have quotient : (x / y).toModel.unpack = unpack .binary64 (pack .binary64
      (UnpackedFloat.div .binary64 x.toModel.unpack y.toModel.unpack)) := rfl
  rw [isNaN_iff_unpack, isNaN_iff_unpack, isNaN_iff_unpack, quotient, unpack_pack_eq_notANumber,
    ← Bool.not_eq_true, ← Bool.not_eq_true, isFinite_iff_unpack, isFinite_iff_unpack]
  rw [exact_eq_valueOf] at nonzero
  generalize x.toModel.unpack = u
  generalize y.toModel.unpack = v at nonzero ⊢
  cases v with
  | zero t => exact (nonzero rfl).elim
  | notANumber => cases u <;> simp [UnpackedFloat.div]
  | infinity t => cases u <;> simp [UnpackedFloat.div, UnpackedFloat.isFinite]
  | finite t n f alsoPositive =>
      cases u with
      | finite s m e positive =>
          have finite : (UnpackedFloat.div .binary64 (.finite s m e positive)
              (.finite t n f alsoPositive)).isFinite = true := isFinite_roundWithAccuracy _ _ _ _
          have isNumber : UnpackedFloat.div .binary64 (.finite s m e positive)
              (.finite t n f alsoPositive) ≠ .notANumber := by
            intro isNone
            rw [isNone] at finite
            cases finite
          simp [isNumber, UnpackedFloat.isFinite]
      | _ => simp [UnpackedFloat.div, UnpackedFloat.isFinite]

end Montage.Binary64

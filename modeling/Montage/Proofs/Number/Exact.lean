import Mathlib.Algebra.Order.Field.Rat
import Mathlib.Tactic.Linarith
import Mathlib.Tactic.NormNum
import Montage.Edit.Apply
import Montage.Number.Exact
import Montage.Proofs.Number.Rounding

/-!
Contract: the rules of exact arithmetic, as far as a number is finite.

Owns: the rewriting of the interface's operations to rationals, rounding included, the values of the fixed
numbers of the library, and the nearest value between two bounds (`fitted`).

Does **not** own: what the editing rules compute with them (`Montage.Proofs.Clip.Times`).

A rule whose arguments are finite is a rule about rationals. The lemmas of this module carry every
operation across, so that what is left of a rule is order and arithmetic in a field.
-/

set_option autoImplicit false

namespace Montage.Extended

/-! ## Finite numbers -/

@[simp] theorem exact_eq (x : Extended) : Scalar.exact x = x := rfl

@[simp] theorem isNaN_fin (q : ℚ) : Scalar.isNaN (fin q) = false := rfl

@[simp] theorem isFinite_fin (q : ℚ) : Scalar.isFinite (fin q) = true := rfl

theorem isFinite_iff (x : Extended) : Scalar.isFinite x = true ↔ ∃ q, x = fin q := by
  cases x <;> simp [Scalar.isFinite]

/-- A choice between finite numbers by their order is a finite number. -/
theorem ite_fin_lt (p q a b : ℚ) [Decidable (fin p < fin q)] :
    (if fin p < fin q then fin a else fin b) = fin (if p < q then a else b) := by
  by_cases less : p < q
  · rw [if_pos ((fin_lt_fin p q).mpr less), if_pos less]
  · rw [if_neg (mt (fin_lt_fin p q).mp less), if_neg less]

@[simp] theorem max_fin (p q : ℚ) : Scalar.max (fin p) (fin q) = fin (max p q) := by
  unfold Scalar.max
  rw [isNaN_fin, if_neg Bool.false_ne_true, ite_fin_lt]
  by_cases less : p < q
  · rw [if_pos less, max_eq_right less.le]
  · rw [if_neg less, max_eq_left (not_lt.mp less)]

@[simp] theorem min_fin (p q : ℚ) : Scalar.min (fin p) (fin q) = fin (min p q) := by
  unfold Scalar.min
  rw [isNaN_fin, if_neg Bool.false_ne_true, ite_fin_lt]
  by_cases less : q < p
  · rw [if_pos less, min_eq_right less.le]
  · rw [if_neg less, min_eq_left (not_lt.mp less)]

@[simp] theorem clamp_fin (p low high : ℚ) :
    Scalar.clamp (fin p) (fin low) (fin high) = fin (min (max p low) high) := by
  simp only [Scalar.clamp, ite_fin_lt]
  have raised : (if p < low then low else p) = max p low := by
    by_cases less : p < low
    · rw [if_pos less, max_eq_right less.le]
    · rw [if_neg less, max_eq_left (not_lt.mp less)]
  rw [raised]
  by_cases above : high < max p low
  · rw [if_pos above, min_eq_right above.le]
  · rw [if_neg above, min_eq_left (not_lt.mp above)]

/-- The largest of some finite numbers is finite. -/
theorem foldl_max {xs : List Extended} (finite : ∀ x ∈ xs, Scalar.isFinite x = true) (least : ℚ) :
    ∃ q, xs.foldl Scalar.max (fin least) = fin q ∧ least ≤ q := by
  induction xs generalizing least with
  | nil => exact ⟨least, rfl, le_rfl⟩
  | cons head rest inductionHypothesis =>
      obtain ⟨p, rfl⟩ := (isFinite_iff head).mp (finite head List.mem_cons_self)
      rw [List.foldl_cons, max_fin]
      obtain ⟨q, largest, above⟩ :=
        inductionHypothesis (fun x member => finite x (List.mem_cons_of_mem _ member)) (max least p)
      exact ⟨q, largest, (le_max_left least p).trans above⟩

/-! ## The order with the infinities -/

@[simp] theorem fin_le_posInf (q : ℚ) : fin q ≤ posInf := rfl

/-- What a finite number is not above is finite or unbounded. -/
theorem fin_le_iff (p : ℚ) (x : Extended) :
    fin p ≤ x ↔ x = posInf ∨ ∃ q, x = fin q ∧ p ≤ q := by
  cases x with
  | nan => exact ⟨fun h => (Bool.false_ne_true h).elim, by rintro (h | ⟨q, h, -⟩) <;> cases h⟩
  | negInf => exact ⟨fun h => (Bool.false_ne_true h).elim, by rintro (h | ⟨q, h, -⟩) <;> cases h⟩
  | posInf => simp
  | fin q => simp

/-- Above a finite number, what is not below another is at least that one. -/
theorem not_lt_fin {bound : ℚ} {x : Extended} (above : fin bound ≤ x) (q : ℚ) :
    ¬ x < fin q ↔ fin q ≤ x := by
  rcases (fin_le_iff bound x).mp above with rfl | ⟨p, rfl, -⟩
  · exact iff_of_true Bool.false_ne_true (fin_le_posInf q)
  · rw [fin_lt_fin, fin_le_fin, not_lt]

theorem fin_le_of_le {p q : ℚ} {x : Extended} (below : p ≤ q) (limited : fin q ≤ x) :
    fin p ≤ x := by
  rcases (fin_le_iff q x).mp limited with rfl | ⟨r, rfl, above⟩
  · exact fin_le_posInf p
  · exact (fin_le_fin p r).mpr (below.trans above)

theorem fin_div_zero {p : ℚ} (positive : 0 < p) : fin p / fin 0 = posInf := by
  show (if (0 : ℚ) = 0 then infinityLike p else fin (p / 0)) = posInf
  rw [if_pos rfl, infinityLike, if_pos positive]

/-- A length is kept when it is counted from a finite start. -/
theorem fin_add_sub_fin (p : ℚ) (x : Extended) : fin p + x - fin p = x := by
  cases x with
  | fin q => rw [fin_add_fin, fin_sub_fin, add_sub_cancel_left]
  | _ => rfl

/-- What lies strictly between two finite numbers is finite. -/
theorem eq_fin_of_between {x : Extended} {p q : ℚ} (above : fin p < x) (below : x < fin q) :
    ∃ r, x = fin r ∧ p < r ∧ r < q := by
  cases x with
  | nan => exact (Bool.false_ne_true above).elim
  | negInf => exact (Bool.false_ne_true above).elim
  | posInf => exact (Bool.false_ne_true below).elim
  | fin r => exact ⟨r, rfl, (fin_lt_fin p r).mp above, (fin_lt_fin r q).mp below⟩

/-- What lies between two finite numbers is finite, the ends included. -/
theorem exists_fin_between {x : Extended} {low high : ℚ} (above : fin low ≤ x) (below : x ≤ fin high) :
    ∃ q, x = fin q ∧ low ≤ q ∧ q ≤ high := by
  rcases (fin_le_iff low x).mp above with rfl | ⟨q, rfl, least⟩
  · exact (Bool.false_ne_true below).elim
  · exact ⟨q, rfl, least, (fin_le_fin q high).mp below⟩

/-! ## Fitting a request between two bounds -/

/-- The number nearest to a request that is not above a limit and not below `low`; where the two
bounds cross, `low` counts. -/
def fitted (low : ℚ) : (limit request : Extended) → ℚ
  | fin high, fin q => max (min q high) low
  | fin high, posInf => max high low
  | posInf, fin q => max q low
  | _, _ => low

/-- The two clamps of an edit fit the request. -/
theorem max_min_eq_fitted {low bound : ℚ} {limit request : Extended} (upper : fin bound ≤ limit)
    (number : Scalar.isNaN request = false)
    (meetable : Scalar.isFinite request = true ∨ Scalar.isFinite limit = true) :
    Scalar.max (Scalar.min request limit) (fin low) = fin (fitted low limit request) := by
  rcases (fin_le_iff bound limit).mp upper with rfl | ⟨high, rfl, -⟩
  · cases request with
    | nan => cases number
    | negInf => simp [Scalar.isFinite] at meetable
    | posInf => simp [Scalar.isFinite] at meetable
    | fin q =>
        have kept : Scalar.min (fin q) posInf = fin q := rfl
        rw [kept, max_fin]
        rfl
  · cases request with
    | nan => cases number
    | negInf => rfl
    | posInf =>
        have lowered : Scalar.min posInf (fin high) = fin high := rfl
        rw [lowered, max_fin]
        rfl
    | fin q =>
        rw [min_fin, max_fin]
        rfl

theorem le_fitted (low : ℚ) (limit request : Extended) : low ≤ fitted low limit request := by
  cases limit <;> cases request <;> simp [fitted]

/-- A request keeps its kind when it is counted from another start in another unit. -/
theorem rescaled_isNaN (request : Extended) (start : ℚ) {unit : ℚ} (positive : 0 < unit) :
    Scalar.isNaN ((request - fin start) * fin unit) = Scalar.isNaN request ∧
      Scalar.isFinite ((request - fin start) * fin unit) = Scalar.isFinite request := by
  have upward : infinityLike unit = posInf := if_pos positive
  have downward : infinityLike (-unit) = negInf := by
    rw [infinityLike, if_neg (by linarith), if_pos (by linarith)]
  cases request with
  | nan => exact ⟨rfl, rfl⟩
  | negInf =>
      show Scalar.isNaN (infinityLike (-unit)) = _ ∧ Scalar.isFinite (infinityLike (-unit)) = _
      rw [downward]
      exact ⟨rfl, rfl⟩
  | posInf =>
      show Scalar.isNaN (infinityLike unit) = _ ∧ Scalar.isFinite (infinityLike unit) = _
      rw [upward]
      exact ⟨rfl, rfl⟩
  | fin q => exact ⟨rfl, rfl⟩

/-- A fitted request keeps the limit unless `low` is above it. -/
theorem fitted_le (low : ℚ) {bound : ℚ} {limit : Extended} (upper : fin bound ≤ limit)
    (request : Extended) :
    fin (fitted low limit request) ≤ limit ∨ fitted low limit request = low := by
  rcases (fin_le_iff bound limit).mp upper with rfl | ⟨high, rfl, -⟩
  · exact Or.inl (fin_le_posInf _)
  · rw [fin_le_fin]
    cases request with
    | nan => exact Or.inr rfl
    | negInf => exact Or.inr rfl
    | posInf =>
        show max high low ≤ high ∨ max high low = low
        rcases le_total high low with crossed | apart
        · exact Or.inr (max_eq_right crossed)
        · exact Or.inl (max_eq_left apart).le
    | fin q =>
        show max (min q high) low ≤ high ∨ max (min q high) low = low
        rcases le_total (min q high) low with below | above
        · exact Or.inr (max_eq_right below)
        · exact Or.inl ((max_eq_left above).trans_le (min_le_right q high))

/-! ## Rounding -/

theorem roundWithin_fin (low high : Int) (q : ℚ) :
    Scalar.roundWithin low high (fin q) = max low (min high (Rounding.halfAway q)) := by
  have rounded : Scalar.round (fin q) = fin ((Rounding.halfAway q : Int) : ℚ) := rfl
  rw [Scalar.roundWithin, rounded]
  simp only [Scalar.truncate, exact_eq, Rounding.towardZero_intCast]

/-- Rounding into bounds keeps a whole number that lies within them. -/
theorem roundWithin_intCast {low high n : Int} (above : low ≤ n) (below : n ≤ high) :
    Scalar.roundWithin low high (fin (n : ℚ)) = n := by
  rw [roundWithin_fin, Rounding.halfAway_intCast, min_eq_right below, max_eq_right above]

/-! ## Fixed numbers -/

theorem ofNat_eq (n : Nat) : (@OfNat.ofNat Extended n (Scalar.instOfNat n)) = fin (n : ℚ) := by
  show fin (Rat.ofScientific n false 0) = _
  simp [Rat.ofScientific]

@[simp] theorem zero_eq : (0 : Extended) = fin 0 := ofNat_eq 0

@[simp] theorem one_eq : (1 : Extended) = fin 1 := ofNat_eq 1

@[simp] theorem hundred_eq : (100 : Extended) = fin 100 := ofNat_eq 100

@[simp] theorem fullTurn_eq : (360 : Extended) = fin 360 := ofNat_eq 360

@[simp] theorem defaultMediaDuration_eq : (defaultMediaDuration : Extended) = fin 30 := ofNat_eq 30

@[simp] theorem maximumVolume_eq : (maximumVolume : Extended) = fin 200 := ofNat_eq 200

@[simp] theorem minimumSpan_eq : (minimumSpan : Extended) = fin (1 / 10) := by
  show fin (Rat.ofScientific 1 true 1) = _
  norm_num [Rat.ofScientific]

/-- How far a half may stay below the shortest source window. -/
def tolerance : ℚ := 1 / 1000000000

@[simp] theorem spanTolerance_eq : (spanTolerance : Extended) = fin tolerance := by
  show fin (Rat.ofScientific 1 true 9) = _
  norm_num [Rat.ofScientific, tolerance]

theorem tolerance_pos : 0 < tolerance := by norm_num [tolerance]

theorem tolerance_small : 3 * tolerance < 1 / 10 := by norm_num [tolerance]

/-- Every time of placement is finite and not before zero. -/
theorem placement_eq (start : Extended) : ∃ q, placement start = fin q ∧ 0 ≤ q := by
  unfold placement
  rw [zero_eq]
  cases finite : Scalar.isFinite start with
  | false => exact ⟨0, rfl, le_rfl⟩
  | true =>
      obtain ⟨q, rfl⟩ := (isFinite_iff start).mp finite
      rw [if_pos rfl, max_fin]
      exact ⟨max q 0, rfl, le_max_right q 0⟩

/-- The latest of some finite ends is finite and not before zero. -/
theorem latestEnd_eq {ends : List Extended} (finite : ∀ x ∈ ends, Scalar.isFinite x = true) :
    ∃ q, Timeline.latestEnd ends = fin q ∧ 0 ≤ q := by
  unfold Timeline.latestEnd
  rw [zero_eq]
  exact foldl_max finite 0

end Montage.Extended

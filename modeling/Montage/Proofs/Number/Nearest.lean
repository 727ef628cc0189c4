import Montage.Proofs.Number.Exact

/-!
Contract: the number of an interval that is nearest to a request.

Owns:
- nearest numbers (`Extended.IsNearest`), and that fitting a request or clamping it finds them;
- that a growing map carries a fitted request along, and a translation every clamped one.

Does **not** own: which interval an edit fits its request to (`Montage.Proofs.Clip.Retiming`).

An edit may fit a request in source time and be described in timeline time, or the other way round. The
two clocks of a clip are growing functions of each other, so nothing else has to be known of them.
-/

set_option autoImplicit false

namespace Montage.Extended

/-- A number of the interval from `low` to `high`, nearer to a request than every other number of it. -/
structure IsNearest (low high request value : Extended) : Prop where
  above : low ≤ value
  below : value ≤ high
  nearest :
    ∀ x, low ≤ x → x ≤ high → x ≠ value →
      Scalar.abs (value - request) < Scalar.abs (x - request)

theorem abs_fin (q : ℚ) : Scalar.abs (fin q) = fin |q| := by
  unfold Scalar.abs
  rw [zero_eq, fin_sub_fin, ite_fin_lt]
  by_cases negative : q < 0
  · rw [if_pos negative, abs_of_neg negative, zero_sub]
  · rw [if_neg negative, abs_of_nonneg (not_lt.mp negative)]

/-- A number that a request lies beyond on neither side, except where the interval ends. -/
theorem abs_sub_lt_abs_sub {value request x : ℚ} (top : value < request → x ≤ value)
    (bottom : request < value → value ≤ x) (other : x ≠ value) :
    |value - request| < |x - request| := by
  rcases lt_trichotomy value request with below | same | above
  · have less : x < value := lt_of_le_of_ne (top below) other
    rw [abs_of_neg (by linarith), abs_of_neg (by linarith)]
    linarith
  · rw [same, sub_self, abs_zero]
    exact abs_pos.mpr (sub_ne_zero.mpr (same ▸ other))
  · have more : value < x := lt_of_le_of_ne (bottom above) other.symm
    rw [abs_of_pos (by linarith), abs_of_pos (by linarith)]
    linarith

/-- A request that is lowered is lowered to the end of the interval. -/
theorem le_fitted_of_lt {low r q : ℚ} {high : Extended} (within : fin r ≤ high)
    (lowered : fitted low high (fin q) < q) : r ≤ fitted low high (fin q) := by
  rcases (fin_le_iff r high).mp within with rfl | ⟨h, rfl, below⟩
  · exact absurd (le_max_left q low) (not_le.mpr lowered)
  · have cut : ¬ q ≤ h := fun uncut => by
      have kept : q ≤ max (min q h) low := (min_eq_left uncut).ge.trans (le_max_left _ low)
      exact absurd kept (not_le.mpr lowered)
    show r ≤ max (min q h) low
    rw [min_eq_right (le_of_not_ge cut)]
    exact below.trans (le_max_left h low)

/-- A request that is raised is raised to the start of the interval. -/
theorem fitted_eq_of_lt {low q : ℚ} {high : Extended} (raised : q < fitted low high (fin q)) :
    fitted low high (fin q) = low := by
  cases high with
  | nan | negInf => rfl
  | posInf => exact (max_choice q low).resolve_left raised.ne'
  | fin h =>
      refine (max_choice (min q h) low).resolve_left fun kept => ?_
      have raised : q < max (min q h) low := raised
      rw [kept] at raised
      exact absurd (min_le_left q h) (not_le.mpr raised)

theorem fitted_isNearest {low : ℚ} {high : Extended} (room : fin low ≤ high) (q : ℚ) :
    IsNearest (fin low) high (fin q) (fin (fitted low high (fin q))) := by
  have lower : fin low ≤ fin (fitted low high (fin q)) :=
    (fin_le_fin _ _).mpr (le_fitted low high (fin q))
  have upper : fin (fitted low high (fin q)) ≤ high := by
    rcases fitted_le low room (fin q) with within | lowest
    · exact within
    · rwa [lowest]
  refine ⟨lower, upper, fun x above below other => ?_⟩
  rcases (fin_le_iff low x).mp above with rfl | ⟨r, rfl, atLeast⟩
  -- An unbounded interval also holds the infinity, which is farther away than any number.
  · rw [fin_sub_fin, abs_fin]
    rfl
  · have apart : r ≠ fitted low high (fin q) := fun same => other (congrArg fin same)
    rw [fin_sub_fin, fin_sub_fin, abs_fin, abs_fin, fin_lt_fin]
    refine abs_sub_lt_abs_sub (le_fitted_of_lt below) (fun raised => ?_) apart
    rwa [fitted_eq_of_lt raised]

theorem clamp_eq_fitted {low : ℚ} {high : Extended} (room : fin low ≤ high) (q : ℚ) :
    Scalar.clamp (fin q) (fin low) high = fin (fitted low high (fin q)) := by
  rcases (fin_le_iff low high).mp room with rfl | ⟨h, rfl, fits⟩
  · simp only [Scalar.clamp, ite_fin_lt]
    show fin (if q < low then low else q) = fin (max q low)
    by_cases less : q < low
    · rw [if_pos less, max_eq_right less.le]
    · rw [if_neg less, max_eq_left (not_lt.mp less)]
  · rw [clamp_fin]
    show fin (min (max q low) h) = fin (max (min q h) low)
    rw [max_min_distrib_right, max_eq_left fits]

section Growing

variable {f : ℚ → ℚ} (grows : Monotone f) (low q : ℚ)

include grows

theorem map_fitted (high : ℚ) :
    f (fitted low (fin high) (fin q)) = fitted (f low) (fin (f high)) (fin (f q)) := by
  show f (max (min q high) low) = max (min (f q) (f high)) (f low)
  rw [grows.map_max, grows.map_min]

theorem map_fitted_posInf : f (fitted low posInf (fin q)) = fitted (f low) posInf (fin (f q)) :=
  grows.map_max

end Growing

theorem isNaN_of_fin_le {bound : ℚ} {x : Extended} (above : fin bound ≤ x) :
    Scalar.isNaN x = false := by
  rcases (fin_le_iff bound x).mp above with rfl | ⟨q, rfl, -⟩
  · rfl
  · rfl

section Translation

variable (start : ℚ) (x y : Extended)

theorem isNaN_fin_add : Scalar.isNaN (fin start + x) = Scalar.isNaN x := by cases x <;> rfl

theorem isFinite_fin_add : Scalar.isFinite (fin start + x) = Scalar.isFinite x := by
  cases x <;> rfl

theorem fin_add_lt_fin_add : fin start + x < fin start + y ↔ x < y := by
  cases x <;> cases y <;> first | exact Iff.rfl | simp

theorem fin_add_sub_self : fin start + (x - fin start) = x := by
  cases x with
  | fin q => rw [fin_sub_fin, fin_add_fin, add_sub_cancel]
  | _ => rfl

theorem fin_add_max : fin start + Scalar.max x y = Scalar.max (fin start + x) (fin start + y) := by
  unfold Scalar.max
  simp only [isNaN_fin_add, fin_add_lt_fin_add]
  split
  · rfl
  · split <;> rfl

theorem fin_add_min : fin start + Scalar.min x y = Scalar.min (fin start + x) (fin start + y) := by
  unfold Scalar.min
  simp only [isNaN_fin_add, fin_add_lt_fin_add]
  split
  · rfl
  · split <;> rfl

end Translation

/-- A limit below the least value limits as that value does. -/
theorem max_min_max (least : ℚ) (x : Extended) {limit : Extended}
    (number : Scalar.isNaN limit = false) :
    Scalar.max (Scalar.min x (Scalar.max limit (fin least))) (fin least) =
      Scalar.max (Scalar.min x limit) (fin least) := by
  cases limit with
  | nan => cases number
  | posInf => rfl
  | negInf =>
      cases x with
      | fin q =>
          show Scalar.max (Scalar.min (fin q) (fin least)) (fin least) = fin least
          rw [min_fin, max_fin, max_eq_right (min_le_right q least)]
      | nan | posInf =>
          show Scalar.max (fin least) (fin least) = fin least
          rw [max_fin, max_self]
      | negInf => rfl
  | fin high =>
      rw [max_fin]
      cases x with
      | fin q =>
          rw [min_fin, min_fin, max_fin, max_fin, max_min_distrib_right, max_min_distrib_right,
            max_assoc, max_self]
      | nan | posInf =>
          show Scalar.max (fin (max high least)) (fin least) = Scalar.max (fin high) (fin least)
          rw [max_fin, max_fin, max_assoc, max_self]
      | negInf => rfl

/-- A length clamped from a start on is its end clamped, whichever limit is taken to be too low. -/
theorem fin_add_max_min (start least : ℚ) (length : Extended) {limit : Extended}
    (number : Scalar.isNaN limit = false) :
    fin start +
        Scalar.max (Scalar.min length (Scalar.max (limit - fin start) (fin least))) (fin least) =
      Scalar.max (Scalar.min (fin start + length) limit) (fin start + fin least) := by
  have shifted : Scalar.isNaN (limit - fin start) = false := by
    rw [← isNaN_fin_add start, fin_add_sub_self, number]
  rw [max_min_max least length shifted, fin_add_max, fin_add_min, fin_add_sub_self]

end Montage.Extended

import Mathlib.Algebra.Order.Ring.Rat
import Mathlib.Order.Bounds.Defs
import Montage.Number.Exact

/-!
Contract: numbers that behave like their exact values as far as order and finiteness go.

Owns:
- the laws of such numbers (`Scalar.Faithful`), which exact arithmetic satisfies;
- the order of values of which some may be infinite or no numbers;
- the greatest of finitely many of them.

Does **not** own: that machine numbers satisfy the laws (`Montage.Proofs.Number.Binary64`).

A rule that only compares lengths and takes the latest of some times can be judged without knowing how
sums are rounded. What it needs is collected here, so that it is proved of machine numbers and of exact
ones at once.
-/

set_option autoImplicit false

namespace Montage

namespace Extended

variable {a b c : Extended}

theorem atMost_trans (first : a ≤ b) (second : b ≤ c) : a ≤ c := by
  revert first second
  show atMost a b = true → atMost b c = true → atMost a c = true
  cases a <;> cases b <;> cases c <;> simp [atMost]
  exact le_trans

theorem atMost_antisymm (first : a ≤ b) (second : b ≤ a) : a = b := by
  revert first second
  show atMost a b = true → atMost b a = true → a = b
  cases a <;> cases b <;> simp [atMost]
  exact le_antisymm

theorem ne_nan_of_le (ordered : a ≤ b) : a ≠ nan ∧ b ≠ nan := by
  constructor
  · rintro rfl
    exact Bool.false_ne_true ordered
  · rintro rfl
    cases a <;> exact Bool.false_ne_true ordered

theorem not_le_iff_lt (first : a ≠ nan) (second : b ≠ nan) : ¬ b ≤ a ↔ a < b := by
  show ¬ atMost b a = true ↔ less a b = true
  cases a <;> cases b <;> simp_all [atMost, less]

theorem le_of_lt (ordered : a < b) : a ≤ b := by
  revert ordered
  show less a b = true → atMost a b = true
  cases a <;> cases b <;> simp [atMost, less]
  exact LT.lt.le

end Extended

namespace Scalar

/-- Numbers that are compared by their exact values, whose differences are finite only between finite
numbers, and which are known from their exact value, zeros apart. -/
class Faithful (α : Type) [Scalar α] : Prop where
  lt_iff (x y : α) : x < y ↔ exact x < exact y
  le_iff (x y : α) : x ≤ y ↔ exact x ≤ exact y
  exact_zero : exact (0 : α) = .fin 0
  exact_one : exact (1 : α) = .fin 1
  isFinite_of_sub (x y : α) : isFinite (x - y) = true → isFinite x = true ∧ isFinite y = true
  eq_of_exact (x y : α) (q : ℚ) : exact x = .fin q → exact y = .fin q → q ≠ 0 → x = y

variable {α : Type} [Scalar α]

theorem isFinite_iff_exact (x : α) : isFinite x = true ↔ ∃ q, exact x = .fin q := by
  unfold isFinite
  cases exact x <;> simp

theorem isNaN_iff_exact (x : α) : isNaN x = true ↔ exact x = .nan := by
  unfold isNaN
  cases exact x <;> simp

theorem isNaN_eq_false_iff (x : α) : isNaN x = false ↔ exact x ≠ .nan := by
  rw [← Bool.not_eq_true, isNaN_iff_exact]

theorem isNaN_of_isFinite {x : α} (finite : isFinite x = true) : isNaN x = false := by
  obtain ⟨q, value⟩ := (isFinite_iff_exact x).mp finite
  rw [isNaN_eq_false_iff, value]
  exact Extended.noConfusion

variable [Faithful α] {x y : α} {p q : ℚ}

theorem lt_iff_of_exact (isFirst : exact x = .fin p) (isSecond : exact y = .fin q) :
    x < y ↔ p < q := by
  rw [Faithful.lt_iff, isFirst, isSecond, Extended.fin_lt_fin]

theorem le_iff_of_exact (isFirst : exact x = .fin p) (isSecond : exact y = .fin q) :
    x ≤ y ↔ p ≤ q := by
  rw [Faithful.le_iff, isFirst, isSecond, Extended.fin_le_fin]

theorem le_trans_of_faithful {z : α} (first : x ≤ y) (second : y ≤ z) : x ≤ z := by
  rw [Faithful.le_iff] at first second ⊢
  exact Extended.atMost_trans first second

theorem isFinite_one : isFinite (1 : α) = true :=
  (isFinite_iff_exact 1).mpr ⟨1, Faithful.exact_one⟩

/-! ## The order with infinities -/

/-- What is compared is a number. -/
theorem isNaN_of_le (ordered : x ≤ y) : isNaN x = false ∧ isNaN y = false := by
  rw [Faithful.le_iff] at ordered
  rw [isNaN_eq_false_iff, isNaN_eq_false_iff]
  exact Extended.ne_nan_of_le ordered

theorem le_of_lt_of_faithful (ordered : x < y) : x ≤ y := by
  rw [Faithful.lt_iff] at ordered
  rw [Faithful.le_iff]
  exact Extended.le_of_lt ordered

/-- Of two numbers one is below the other or not above it. -/
theorem not_le_iff_lt (first : isNaN x = false) (second : isNaN y = false) : ¬ y ≤ x ↔ x < y := by
  rw [Faithful.le_iff, Faithful.lt_iff]
  exact Extended.not_le_iff_lt ((isNaN_eq_false_iff x).mp first) ((isNaN_eq_false_iff y).mp second)

theorem le_of_not_lt (first : isNaN x = false) (second : isNaN y = false) (ordered : ¬ x < y) :
    y ≤ x :=
  not_not.mp fun above => ordered ((not_le_iff_lt first second).mp above)

theorem le_refl_of_isNaN (number : isNaN x = false) : x ≤ x := by
  apply le_of_not_lt number number
  intro below
  exact (not_le_iff_lt number number).mpr below (le_of_lt_of_faithful below)

/-- The larger of a number and anything is not below either of them that is a number, and it is one. -/
theorem max_isGreatest (number : isNaN x = false) (y : α) :
    IsGreatest {z | isNaN z = false ∧ (z = x ∨ z = y)} (max x y) := by
  unfold max
  rw [number, if_neg Bool.false_ne_true]
  by_cases less : x < y
  · rw [if_pos less]
    have above := le_of_lt_of_faithful less
    have isNumber := (isNaN_of_le above).2
    refine ⟨⟨isNumber, Or.inr rfl⟩, ?_⟩
    rintro z ⟨-, rfl | rfl⟩
    · exact above
    · exact le_refl_of_isNaN isNumber
  · rw [if_neg less]
    refine ⟨⟨number, Or.inl rfl⟩, ?_⟩
    rintro z ⟨isNumber, rfl | rfl⟩
    · exact le_refl_of_isNaN number
    · exact le_of_not_lt number isNumber less

/-- The largest of some values, of which the first is a number, is one of them and not below any that is a
number. -/
theorem foldl_max_isGreatest_of_isNaN {first : α} (others : List α) (number : isNaN first = false) :
    IsGreatest {x | isNaN x = false ∧ x ∈ first :: others} (others.foldl max first) := by
  induction others generalizing first with
  | nil =>
      refine ⟨⟨number, List.mem_singleton_self first⟩, fun x member => ?_⟩
      rw [List.mem_singleton.mp member.2]
      exact le_refl_of_isNaN number
  | cons second rest inductionHypothesis =>
      obtain ⟨⟨larger, isEither⟩, aboveBoth⟩ := max_isGreatest number second
      obtain ⟨⟨largest, isOne⟩, aboveAll⟩ := inductionHypothesis larger
      have aboveFirstTwo : max first second ≤ rest.foldl max (max first second) :=
        aboveAll ⟨larger, List.mem_cons_self⟩
      rw [List.foldl_cons]
      refine ⟨⟨largest, ?_⟩, fun x member => ?_⟩
      · rcases List.mem_cons.mp isOne with same | inRest
        · rw [same]
          rcases isEither with isFirst | isSecond
          · rw [isFirst]
            exact List.mem_cons_self
          · rw [isSecond]
            exact List.mem_cons_of_mem _ List.mem_cons_self
        · exact List.mem_cons_of_mem _ (List.mem_cons_of_mem _ inRest)
      · obtain ⟨isNumber, member⟩ := member
        rcases List.mem_cons.mp member with rfl | member
        · exact le_trans_of_faithful (aboveBoth ⟨isNumber, Or.inl rfl⟩) aboveFirstTwo
        · rcases List.mem_cons.mp member with rfl | inRest
          · exact le_trans_of_faithful (aboveBoth ⟨isNumber, Or.inr rfl⟩) aboveFirstTwo
          · exact aboveAll ⟨isNumber, List.mem_cons_of_mem _ inRest⟩

/-- The largest of some finite numbers is one of them and not below any. -/
theorem foldl_max_isGreatest {first : α} {others : List α} (finite : isFinite first = true)
    (allFinite : ∀ x ∈ others, isFinite x = true) :
    IsGreatest {x | x ∈ first :: others} (others.foldl max first) := by
  have areFinite : ∀ x ∈ first :: others, isFinite x = true :=
    List.forall_mem_cons.mpr ⟨finite, allFinite⟩
  obtain ⟨⟨-, isOne⟩, aboveAll⟩ := foldl_max_isGreatest_of_isNaN others (isNaN_of_isFinite finite)
  exact ⟨isOne, fun x member => aboveAll ⟨isNaN_of_isFinite (areFinite x member), member⟩⟩

/-- Two numbers that are each the greatest of the same ones, which reach a positive one, are the same. -/
theorem eq_of_isGreatest {s : Set α} {a b : α} (first : IsGreatest s a) (second : IsGreatest s b)
    (positive : ∃ q, exact a = .fin q ∧ 0 < q) (finite : isFinite b = true) : a = b := by
  obtain ⟨p, isFirst, above⟩ := positive
  obtain ⟨q, isSecond⟩ := (isFinite_iff_exact b).mp finite
  have upward := (le_iff_of_exact isFirst isSecond).mp (second.2 first.1)
  have downward := (le_iff_of_exact isSecond isFirst).mp (first.2 second.1)
  obtain rfl : p = q := le_antisymm upward downward
  exact Faithful.eq_of_exact a b p isFirst isSecond above.ne'

/-- Exact numbers are their own exact values. -/
instance : Faithful Extended where
  lt_iff _ _ := Iff.rfl
  le_iff _ _ := Iff.rfl
  exact_zero := by decide +kernel
  exact_one := by decide +kernel
  isFinite_of_sub x y finite := by
    cases x <;> cases y <;> first | exact ⟨rfl, rfl⟩ | exact (Bool.false_ne_true finite).elim
  eq_of_exact x y q isFirst isSecond _ := isFirst.trans isSecond.symm

end Scalar

end Montage

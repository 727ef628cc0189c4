import Mathlib.Algebra.Order.Archimedean.Basic
import Mathlib.Algebra.BigOperators.Group.List.Basic
import Montage.Proofs.Number.Faithful
import Montage.Proofs.Number.Nearest
import Montage.Render.Chains

/-!
Contract: when the loops that step a tempo end, and what their factors amount to.

Owns:
- numbers of which doubling and halving are exact (`Scalar.Dyadic`);
- that both loops end exactly at finite positive speeds (`Tempo.isSome_steps?_iff`);
- the product of the factors of a speed, and that there are none exactly at normal speed
  (`Tempo.steps?_fin`);
- that each factor can be made in a single step (`Tempo.steps?_factorize`).

Does **not** own: which speeds clips have (`Montage.Proofs.Clip.Times` for exact numbers,
`Montage.Proofs.Render.Ending` for machine numbers), and how the factors are printed
(`Montage.Proofs.Render.Pace`).
-/

set_option autoImplicit false

namespace Montage

open Scalar (exact)

/-- Numbers of which a division by two or by one half is exact where a loop makes it. An infinity is not
changed by the first, nor a zero by the second. -/
class Scalar.Dyadic (α : Type) [Scalar α] : Prop extends Scalar.Faithful α where
  exact_two : exact (2 : α) = .fin 2
  exact_half : exact (0.5 : α) = .fin (1 / 2)
  exact_div_two (x : α) (q : ℚ) : exact x = .fin q → 2 < q → exact (x / 2) = .fin (q / 2)
  exact_div_half (x : α) (q : ℚ) :
    exact x = .fin q → 0 ≤ q → q < 1 / 2 → exact (x / 0.5) = .fin (q * 2)
  infinite_div_two (x : α) : exact x = .posInf → exact (x / 2) = .posInf

namespace Extended

@[simp] theorem two_eq : (2 : Extended) = fin 2 := ofNat_eq 2

@[simp] theorem half_eq : (0.5 : Extended) = fin (1 / 2) := by
  show fin (Rat.ofScientific 5 true 1) = _
  norm_num [Rat.ofScientific]

end Extended

instance : Scalar.Dyadic Extended where
  exact_two := Extended.two_eq
  exact_half := Extended.half_eq
  exact_div_two x q isExact _ := by
    obtain rfl : x = .fin q := isExact
    rw [Extended.two_eq, Extended.fin_div_fin _ _ two_ne_zero, Extended.exact_eq]
  exact_div_half x q isExact _ _ := by
    obtain rfl : x = .fin q := isExact
    rw [Extended.half_eq, Extended.fin_div_fin _ _ (by norm_num), Extended.exact_eq, one_div,
      div_inv_eq_mul]
  infinite_div_two x isExact := by
    obtain rfl : x = .posInf := isExact
    have above : ¬ (2 : ℚ) < 0 := by norm_num
    rw [Extended.two_eq]
    show (if (2 : ℚ) < 0 then Extended.negInf else .posInf) = .posInf
    rw [if_neg above]

namespace Render.Tempo

variable {α : Type} [Scalar α]

/-! ## One loop -/

namespace Loop

variable {loop : Loop α}

theorem run_of_not {rest : α} (inRange : loop.isBeyond rest = false) :
    loop.run rest = some ([], rest) := by
  rw [run.eq_1, if_neg (Bool.eq_false_iff.mp inRange)]

theorem run_of_beyond {rest last : α} {taken : List α} (beyond : loop.isBeyond rest = true)
    (behind : loop.run (rest / loop.factor) = some (taken, last)) :
    loop.run rest = some (loop.factor :: taken, last) := by
  rw [run.eq_1, if_pos beyond, behind]
  rfl

/-- A loop that goes from one number out of range to the next does not end. -/
theorem run_eq_none {Stuck : α → Prop} (beyond : ∀ x, Stuck x → loop.isBeyond x = true)
    (next : ∀ x, Stuck x → Stuck (x / loop.factor)) {rest : α} (stuck : Stuck rest) :
    loop.run rest = none := by
  -- What a loop returns is returned after finitely many steps, and all of them lead on.
  have returns := run.partial_correctness loop (fun rest _ => ¬ Stuck rest)
    (fun run inductionHypothesis rest result returned stuck => by
      rw [if_pos (beyond rest stuck)] at returned
      obtain ⟨later, isLater, -⟩ := Option.bind_eq_some_iff.mp returned
      exact inductionHypothesis _ _ isLater (next rest stuck))
  exact Option.eq_none_iff_forall_ne_some.mpr fun result returned => returns rest result returned stuck

end Loop

/-! ## Both loops -/

section Dyadic

variable [Scalar.Dyadic α] {x : α} {q : ℚ}

theorem doubling_isBeyond_iff (isExact : exact x = .fin q) : doubling.isBeyond x = true ↔ 2 < q := by
  rw [doubling, decide_eq_true_iff, Scalar.lt_iff_of_exact Scalar.Dyadic.exact_two isExact]

theorem halving_isBeyond_iff (isExact : exact x = .fin q) :
    halving.isBeyond x = true ↔ q < 1 / 2 := by
  rw [halving, decide_eq_true_iff, Scalar.lt_iff_of_exact isExact Scalar.Dyadic.exact_half]

theorem doubling_run_of_le (isExact : exact x = .fin q) (slow : q ≤ 2) :
    doubling.run x = some ([], x) :=
  Loop.run_of_not (Bool.eq_false_iff.mpr (mt (doubling_isBeyond_iff isExact).mp slow.not_gt))

theorem halving_run_of_le (isExact : exact x = .fin q) (fast : 1 / 2 ≤ q) :
    halving.run x = some ([], x) :=
  Loop.run_of_not (Bool.eq_false_iff.mpr (mt (halving_isBeyond_iff isExact).mp fast.not_gt))

/-- Taking factors of two from a positive number ends. -/
theorem doubling_run (isExact : exact x = .fin q) (positive : 0 < q) :
    ∃ k y r, doubling.run x = some (List.replicate k 2, y) ∧ exact y = .fin r ∧
      q = r * 2 ^ k ∧ r ≤ 2 ∧ (k = 0 ∨ 1 < r) := by
  obtain ⟨n, large⟩ := pow_unbounded_of_one_lt q one_lt_two
  induction n generalizing x q with
  | zero =>
      rw [pow_zero] at large
      have small : q ≤ 2 := by linarith
      exact ⟨0, x, q, doubling_run_of_le isExact small, isExact, by ring, small, Or.inl rfl⟩
  | succ n inductionHypothesis =>
      by_cases beyond : 2 < q
      · have halved := Scalar.Dyadic.exact_div_two x q isExact beyond
        rw [pow_succ] at large
        obtain ⟨k, y, r, taken, isRest, power, small, large⟩ :=
          inductionHypothesis halved (by linarith) (by linarith)
        have taken := Loop.run_of_beyond ((doubling_isBeyond_iff isExact).mpr beyond) taken
        refine ⟨k + 1, y, r, taken, isRest, ?_, small, Or.inr ?_⟩
        · rw [pow_succ]
          linarith
        · rcases large with rfl | large
          · linarith
          · exact large
      · have small : q ≤ 2 := not_lt.mp beyond
        exact ⟨0, x, q, doubling_run_of_le isExact small, isExact, by ring, small, Or.inl rfl⟩

/-- Taking factors of one half from a positive number ends. -/
theorem halving_run (isExact : exact x = .fin q) (positive : 0 < q) :
    ∃ k y r, halving.run x = some (List.replicate k 0.5, y) ∧ exact y = .fin r ∧
      r = q * 2 ^ k ∧ 1 / 2 ≤ r ∧ (k = 0 ∨ r < 1) := by
  obtain ⟨n, large⟩ := pow_unbounded_of_one_lt q⁻¹ one_lt_two
  rw [inv_lt_iff_one_lt_mul₀ positive] at large
  induction n generalizing x q with
  | zero =>
      rw [pow_zero] at large
      have large : 1 / 2 ≤ q := by linarith
      exact ⟨0, x, q, halving_run_of_le isExact large, isExact, by ring, large, Or.inl rfl⟩
  | succ n inductionHypothesis =>
      by_cases beyond : q < 1 / 2
      · have doubled := Scalar.Dyadic.exact_div_half x q isExact positive.le beyond
        rw [pow_succ] at large
        obtain ⟨k, y, r, taken, isRest, power, large, small⟩ :=
          inductionHypothesis doubled (by linarith) (by linarith)
        have taken := Loop.run_of_beyond ((halving_isBeyond_iff isExact).mpr beyond) taken
        refine ⟨k + 1, y, r, taken, isRest, ?_, large, Or.inr ?_⟩
        · rw [pow_succ]
          linarith
        · rcases small with rfl | small
          · linarith
          · exact small
      · have large : 1 / 2 ≤ q := not_lt.mp beyond
        exact ⟨0, x, q, halving_run_of_le isExact large, isExact, by ring, large, Or.inl rfl⟩

/-- A positive speed is a rest times the factors that are taken from it. The rest is within the range of a
step, and none are taken exactly if the speed is. -/
theorem steps?_of_pos (isExact : exact x = .fin q) (positive : 0 < q) :
    ∃ j k y r, steps? x = some (List.replicate j 2 ++ List.replicate k 0.5 ++
        if tolerance < Scalar.abs (y - 1) then [y] else []) ∧
      exact y = .fin r ∧ q * 2 ^ k = r * 2 ^ j ∧ (1 / 2 ≤ r ∧ r ≤ 2) ∧
      (j = 0 ∧ k = 0 ↔ 1 / 2 ≤ q ∧ q ≤ 2) := by
  obtain ⟨j, rest, p, doublings, isRest, power, below, fast⟩ := doubling_run isExact positive
  have restPositive : 0 < p := by
    rw [power] at positive
    exact pos_of_mul_pos_left positive (by positivity)
  obtain ⟨k, y, r, halvings, isLast, shift, above, slow⟩ := halving_run isRest restPositive
  refine ⟨j, k, y, r, ?_, isLast, by rw [power, shift]; ring, ⟨above, ?_⟩, ?_⟩
  · simp only [steps?, doublings, halvings, Option.bind_eq_bind, Option.bind_some]
  · -- The second loop stops below one, if it runs at all.
    rcases slow with rfl | small
    · rwa [shift, pow_zero, mul_one]
    · exact small.le.trans one_le_two
  cases j with
  | zero =>
      obtain rfl : q = p := by rw [power, pow_zero, mul_one]
      cases k with
      | zero =>
          obtain rfl : r = q := by rw [shift, pow_zero, mul_one]
          exact iff_of_true ⟨rfl, rfl⟩ ⟨above, below⟩
      | succ k =>
          have small : r < 1 := slow.resolve_left (Nat.succ_ne_zero k)
          have twice : q * 2 ≤ r := by
            rw [shift]
            gcongr
            exact le_self_pow₀ one_le_two (Nat.succ_ne_zero k)
          exact iff_of_false (fun none => nomatch none.2) fun inRange => by linarith [inRange.1]
  | succ j =>
      have large : 1 < p := fast.resolve_left (Nat.succ_ne_zero j)
      have twice : p * 2 ≤ q := by
        rw [power]
        gcongr
        exact le_self_pow₀ one_le_two (Nat.succ_ne_zero j)
      exact iff_of_false (fun none => nomatch none.1) fun inRange => by linarith [inRange.2]

/-- From an infinite speed the first loop takes factors for ever. -/
theorem steps?_of_infinite (infinite : exact x = .posInf) : steps? x = none := by
  have above (y : α) (isInfinite : exact y = .posInf) : doubling.isBeyond y = true := by
    rw [doubling, decide_eq_true_iff, Scalar.Faithful.lt_iff, Scalar.Dyadic.exact_two, isInfinite]
    rfl
  rw [steps?, Loop.run_eq_none above Scalar.Dyadic.infinite_div_two infinite]
  rfl

/-- From a zero the second loop takes factors for ever. -/
theorem steps?_of_zero (zero : exact x = .fin 0) : steps? x = none := by
  have below (y : α) (isZero : exact y = .fin 0) : halving.isBeyond y = true :=
    (halving_isBeyond_iff isZero).mpr (by norm_num)
  have next (y : α) (isZero : exact y = .fin 0) : exact (y / 0.5) = .fin 0 := by
    rw [Scalar.Dyadic.exact_div_half y 0 isZero le_rfl (by norm_num), zero_mul]
  simp only [steps?, doubling_run_of_le zero zero_le_two, Loop.run_eq_none below next zero,
    Option.bind_eq_bind, Option.bind_some, Option.bind_none]

/-- Of speeds that are not below zero, both loops end at the finite positive ones and no others. -/
theorem isSome_steps?_iff (nonneg : .fin 0 ≤ exact x) :
    (steps? x).isSome = true ↔ ∃ q, exact x = .fin q ∧ 0 < q := by
  constructor
  · intro ends
    rcases (Extended.fin_le_iff 0 _).mp nonneg with infinite | ⟨q, isExact, nonneg⟩
    · rw [steps?_of_infinite infinite] at ends
      cases ends
    · refine ⟨q, isExact, lt_of_le_of_ne nonneg ?_⟩
      rintro rfl
      rw [steps?_of_zero isExact] at ends
      cases ends
  · rintro ⟨q, isExact, positive⟩
    obtain ⟨j, k, y, r, result, -⟩ := steps?_of_pos isExact positive
    rw [result]
    rfl

end Dyadic

/-! ## The factors of an exact speed -/

open Extended

@[simp] theorem tolerance_eq : (tolerance : Extended) = fin Extended.tolerance := spanTolerance_eq

theorem isRetimed_fin_iff (v : ℚ) : isRetimed (fin v) = true ↔ Extended.tolerance < |v - 1| := by
  have bound : (1e-9 : Extended) = fin Extended.tolerance := spanTolerance_eq
  rw [isRetimed, decide_eq_true_iff, bound, one_eq, fin_sub_fin, abs_fin, fin_lt_fin]

/-- The factors of a speed are within the range of a step and multiply to the speed, up to the tolerance;
there are none exactly if the speed does not differ from normal speed. -/
theorem steps?_fin {v : ℚ} (positive : 0 < v) :
    ∃ factors : List ℚ, steps? (fin v) = some (factors.map fin) ∧
      (∀ f ∈ factors, 1 / 2 ≤ f ∧ f ≤ 2) ∧
      (factors = [] ↔ isRetimed (fin v) = false) ∧
      |v - factors.prod| ≤ Extended.tolerance * factors.prod := by
  obtain ⟨j, k, _, r, result, rfl, power, step, range⟩ := steps?_of_pos (x := fin v) rfl positive
  have small := tolerance_small
  refine ⟨List.replicate j 2 ++ List.replicate k (1 / 2) ++
    if Extended.tolerance < |r - 1| then [r] else [], ?_, ?_, ?_, ?_⟩
  · rw [result, tolerance_eq, one_eq, fin_sub_fin, abs_fin, two_eq, half_eq, List.map_append,
      List.map_append, List.map_replicate, List.map_replicate]
    simp only [fin_lt_fin, apply_ite (List.map fin), List.map_cons, List.map_nil]
  · intro f member
    rw [List.mem_append, List.mem_append] at member
    rcases member with (isDouble | isHalf) | isLast
    · rw [List.eq_of_mem_replicate isDouble]
      norm_num
    · rw [List.eq_of_mem_replicate isHalf]
      norm_num
    · split at isLast
      · rwa [List.mem_singleton.mp isLast]
      · cases isLast
  · rw [Bool.eq_false_iff, Ne, isRetimed_fin_iff, List.append_eq_nil_iff, List.append_eq_nil_iff,
      List.replicate_eq_nil_iff, List.replicate_eq_nil_iff, range]
    by_cases inRange : 1 / 2 ≤ v ∧ v ≤ 2
    · obtain ⟨rfl, rfl⟩ := range.mpr inRange
      obtain rfl : v = r := by simpa using power
      rw [and_iff_right inRange, ite_eq_right_iff, imp_iff_not (List.cons_ne_nil v [])]
    · have far : Extended.tolerance < |v - 1| := by
        rw [not_and_or, not_le, not_le] at inRange
        rw [lt_abs]
        rcases inRange with slow | fast
        · exact Or.inr (by linarith)
        · exact Or.inl (by linarith)
      exact iff_of_false (fun none => inRange none.1) (not_not.mpr far)
  · obtain ⟨scale, isScale⟩ : ∃ scale : ℚ, scale = 2 ^ j * (1 / 2) ^ k := ⟨_, rfl⟩
    have scalePositive : 0 < scale := isScale ▸ by positivity
    have isProduct : v = r * scale := by
      rw [isScale, ← mul_assoc, ← power, mul_assoc, ← mul_pow]
      norm_num
    have restPositive : 0 < r := pos_of_mul_pos_left (isProduct ▸ positive) scalePositive.le
    rw [List.prod_append, List.prod_append, List.prod_replicate, List.prod_replicate, ← isScale]
    split
    · rw [List.prod_singleton, isProduct, mul_comm r, sub_self, abs_zero]
      have := tolerance_pos
      positivity
    · rename_i near
      rw [List.prod_nil, mul_one, isProduct, ← sub_one_mul, abs_mul, abs_of_pos scalePositive]
      exact mul_le_mul_of_nonneg_right (not_lt.mp near) scalePositive.le

/-- Both loops end at every positive speed. Their factors, each in the range of a single step, multiply to
it up to a billionth of the product, and there are none exactly within a billionth of normal speed. -/
theorem steps?_factorize {v : ℚ} (positive : 0 < v) :
    ∃ factors : List ℚ, steps? (fin v) = some (factors.map fin) ∧
      (∀ f ∈ factors, 1 / 2 ≤ f ∧ f ≤ 2) ∧
      |factors.prod - v| ≤ 1 / 10 ^ 9 * factors.prod ∧
      (factors = [] ↔ |v - 1| ≤ 1 / 10 ^ 9) := by
  have unit : Extended.tolerance = 1 / 10 ^ 9 := by norm_num [Extended.tolerance]
  obtain ⟨factors, isFactors, single, none, product⟩ := steps?_fin positive
  refine ⟨factors, isFactors, single, ?_, ?_⟩
  · rw [abs_sub_comm, ← unit]
    exact product
  · rw [none, Bool.eq_false_iff, Ne, isRetimed_fin_iff, not_lt, unit]

/-- Ten times as fast is three times twice as fast, and a quarter faster once more. -/
theorem steps?_factorize_tenfold :
    (0 : ℚ) < 10 ∧ steps? (fin 10) = some [fin 2, fin 2, fin 2, fin (5 / 4)] ∧
      ∃ factors : List ℚ, steps? (fin 10) = some (factors.map fin) ∧
        (∀ f ∈ factors, 1 / 2 ≤ f ∧ f ≤ 2) ∧ |factors.prod - 10| ≤ 1 / 10 ^ 9 * factors.prod ∧
        (factors = [] ↔ |(10 : ℚ) - 1| ≤ 1 / 10 ^ 9) := by
  refine ⟨by norm_num, ?_, steps?_factorize (by norm_num)⟩
  have left : fin 10 / 2 / 2 / 2 = fin (5 / 4) := by decide +kernel
  have rest : doubling.run (fin 10 / 2 / 2 / 2) = some ([], fin (5 / 4)) := by
    rw [left]
    exact Loop.run_of_not (by decide +kernel)
  have doublings : doubling.run (fin 10) = some ([2, 2, 2], fin (5 / 4)) :=
    Loop.run_of_beyond (by decide +kernel) <| Loop.run_of_beyond (by decide +kernel) <|
      Loop.run_of_beyond (by decide +kernel) rest
  have halvings : halving.run (fin (5 / 4)) = some ([], fin (5 / 4)) :=
    Loop.run_of_not (by decide +kernel)
  simp only [steps?, doublings, halvings, Option.bind_eq_bind, Option.bind_some]
  decide +kernel

end Render.Tempo

end Montage

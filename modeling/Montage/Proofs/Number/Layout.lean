import Mathlib
import Montage.Proofs.Json.Number

/-!
Contract: the digits of padded numbers.

Owns:
- that they are digits, as many as asked for, and stand for the number;
- what is trimmed at the end of a text, the point before a fraction, and where digits end;
- that digits without zeros in front are known from their number.

Does **not** own: the digits of a number without padding (`Montage.Proofs.Json.Number`).
-/

set_option autoImplicit false

namespace Montage.Layout

open Json (isDigit_toDigits digitsValue_toDigits)

theorem digitsValue_append (front back : List Char) :
    digitsValue (front ++ back) =
      back.foldl (fun total c => total * 10 + (c.toNat - '0'.toNat)) (digitsValue front) :=
  List.foldl_append

theorem digitsValue_concat (digits : List Char) (last : Char) :
    digitsValue (digits ++ [last]) = digitsValue digits * 10 + (last.toNat - '0'.toNat) :=
  digitsValue_append digits [last]

theorem digitsValue_append_eq (front back : List Char) :
    digitsValue (front ++ back) = digitsValue front * 10 ^ back.length + digitsValue back := by
  induction back using List.reverseRecOn with
  | nil =>
      rw [List.append_nil]
      exact (Nat.mul_one _).symm
  | append_singleton back last inductionHypothesis =>
      rw [← List.append_assoc, digitsValue_concat, digitsValue_concat, inductionHypothesis, List.length_append,
        List.length_singleton, Nat.pow_succ]
      ring

theorem digitsValue_zeros (count : Nat) : digitsValue (List.replicate count '0') = 0 := by
  induction count with
  | zero => rfl
  | succ count inductionHypothesis =>
      rw [List.replicate_succ', digitsValue_append, inductionHypothesis]
      rfl

theorem digitsValue_padded (width n : Nat) : digitsValue (padded width n).toList = n := by
  rw [padded, String.toList_ofList, digitsValue_append, digitsValue_zeros]
  exact digitsValue_toDigits n

theorem isDigit_padded (width n : Nat) : ∀ c ∈ (padded width n).toList, c.isDigit = true := by
  intro c member
  rw [padded, String.toList_ofList] at member
  rcases List.mem_append.mp member with isZero | isDigit
  · rw [List.eq_of_mem_replicate isZero]
    rfl
  · exact isDigit_toDigits n c isDigit

theorem length_padded {width n : Nat} (positive : 0 < width) (narrow : n < 10 ^ width) :
    (padded width n).toList.length = width := by
  have few : (Nat.toDigits 10 n).length ≤ width :=
    (Nat.length_toDigits_le_iff (by decide) positive).mpr narrow
  rw [padded, String.toList_ofList, List.length_append, List.length_replicate]
  omega

theorem padded_ne_nil (width n : Nat) : (padded width n).toList ≠ [] := by
  rw [padded, String.toList_ofList]
  exact List.append_ne_nil_of_right_ne_nil _ Nat.toDigits_ne_nil

def pointed (fraction : List Char) : List Char := if fraction = [] then [] else '.' :: fraction

/-- Digits are some that end in no zero, and zeros. -/
theorem exists_zeros (digits : List Char) :
    ∃ count, digits =
      (digits.reverse.dropWhile (· == '0')).reverse ++ List.replicate count '0' := by
  have zeros : ∀ c ∈ digits.reverse.takeWhile (· == '0'), c = '0' := by
    intro c member
    exact beq_iff_eq.mp (List.mem_takeWhile_imp (p := fun c => c == '0') member)
  refine ⟨(digits.reverse.takeWhile (· == '0')).length, ?_⟩
  calc digits = (digits.reverse.takeWhile (· == '0') ++ digits.reverse.dropWhile (· == '0')).reverse := by
        rw [List.takeWhile_append_dropWhile, List.reverse_reverse]
    _ = _ := by
        rw [List.reverse_append]
        conv_lhs => rw [List.eq_replicate_of_mem zeros, List.reverse_replicate]

/-- What ends in another character is all that is left of it and copies behind it. -/
theorem trimEnd_append {c : Char} {kept : List Char} (last : kept.getLast? ≠ some c) (count : Nat) :
    trimEnd c (String.ofList (kept ++ List.replicate count c)) = String.ofList kept := by
  have copies : ∀ d ∈ List.replicate count c, (d == c) = true := by
    intro d member
    rw [List.eq_of_mem_replicate member]
    exact beq_self_eq_true c
  have stops : kept.reverse.dropWhile (· == c) = kept.reverse := by
    rw [← List.head?_reverse] at last
    cases backwards : kept.reverse with
    | nil => rfl
    | cons first rest =>
        rw [backwards] at last
        exact List.dropWhile_cons_of_neg fun same => last (congrArg some (beq_iff_eq.mp same))
  rw [trimEnd, String.toList_ofList, List.reverse_append, List.reverse_replicate,
    List.dropWhile_append_of_pos copies, stops, List.reverse_reverse]

section Rest

variable {digits rest : List Char}

/-- Digits are taken up to the first other character. -/
theorem takeWhile_digits (all : ∀ c ∈ digits, c.isDigit = true)
    (ends : ∀ c ∈ rest.head?, c.isDigit = false) :
    (digits ++ rest).takeWhile Char.isDigit = digits := by
  rw [List.takeWhile_append_of_pos all]
  cases rest with
  | nil => simp
  | cons c rest => rw [List.takeWhile_cons_of_neg (by simp [ends c rfl]), List.append_nil]

theorem dropWhile_digits (all : ∀ c ∈ digits, c.isDigit = true)
    (ends : ∀ c ∈ rest.head?, c.isDigit = false) :
    (digits ++ rest).dropWhile Char.isDigit = rest := by
  rw [List.dropWhile_append_of_pos all]
  cases rest with
  | nil => rfl
  | cons c rest => rw [List.dropWhile_cons_of_neg (by simp [ends c rfl])]

end Rest

/-! ## Digits and their number -/

theorem digit_bounds {c : Char} (digit : c.isDigit = true) : 48 ≤ c.toNat ∧ c.toNat ≤ 57 := by
  simp only [Char.isDigit, Bool.and_eq_true, decide_eq_true_eq] at digit
  exact digit

theorem digitsValue_lt {digits : List Char} (all : ∀ c ∈ digits, c.isDigit = true) :
    digitsValue digits < 10 ^ digits.length := by
  induction digits using List.reverseRecOn with
  | nil => decide
  | append_singleton front last inductionHypothesis =>
      have less := inductionHypothesis fun c member => all c (List.mem_append_left _ member)
      have bounds := digit_bounds (all last (List.mem_append_right _ List.mem_cons_self))
      have zero : '0'.toNat = 48 := rfl
      rw [digitsValue_concat, zero, List.length_append, List.length_singleton, Nat.pow_succ]
      omega

theorem le_digitsValue {first : Char} (digit : first.isDigit = true) (apart : first ≠ '0')
    (rest : List Char) : 10 ^ rest.length ≤ digitsValue (first :: rest) := by
  have bounds := digit_bounds digit
  have positive : first.toNat ≠ 48 := fun zero => apart (Char.toNat_inj.mp zero)
  have leading : digitsValue [first] = first.toNat - '0'.toNat := Nat.zero_add _
  have value : digitsValue (first :: rest) =
      digitsValue [first] * 10 ^ rest.length + digitsValue rest := digitsValue_append_eq [first] rest
  have zero : '0'.toNat = 48 := rfl
  rw [value, leading, zero]
  calc 10 ^ rest.length ≤ (first.toNat - 48) * 10 ^ rest.length :=
        Nat.le_mul_of_pos_left _ (by omega)
    _ ≤ _ := Nat.le_add_right _ _

/-- As many digits that stand for the same number are the same. -/
theorem eq_of_digitsValue_eq {digits other : List Char} (isDigits : ∀ c ∈ digits, c.isDigit = true)
    (otherDigits : ∀ c ∈ other, c.isDigit = true) (length : digits.length = other.length)
    (value : digitsValue digits = digitsValue other) : digits = other := by
  induction digits using List.reverseRecOn generalizing other with
  | nil => exact (List.eq_nil_of_length_eq_zero length.symm).symm
  | append_singleton front last inductionHypothesis =>
      rcases List.eq_nil_or_concat' other with rfl | ⟨otherFront, otherLast, rfl⟩
      · simp at length
      · rw [List.forall_mem_append, List.forall_mem_singleton] at isDigits otherDigits
        have bounds := digit_bounds isDigits.2
        have otherBounds := digit_bounds otherDigits.2
        have zero : '0'.toNat = 48 := rfl
        rw [digitsValue_concat, digitsValue_concat, zero] at value
        rw [List.length_append, List.length_append] at length
        have lasts : last = otherLast := Char.toNat_inj.mp (by omega)
        have fronts : front = otherFront :=
          inductionHypothesis isDigits.1 otherDigits.1 (Nat.add_right_cancel length) (by omega)
        rw [fronts, lasts]

/-- Without a zero in front, there are no more digits than any others for the same number. -/
theorem length_le_of_digitsValue_eq {whole other : List Char} (isDigits : ∀ c ∈ whole, c.isDigit = true)
    (isFirst : whole = ['0'] ∨ whole.head? ≠ some '0') (otherDigits : ∀ c ∈ other, c.isDigit = true)
    (someOther : other ≠ []) (value : digitsValue whole = digitsValue other) :
    whole.length ≤ other.length := by
  rcases isFirst with rfl | apart
  · exact List.length_pos_iff.mpr someOther
  · cases whole with
    | nil => exact Nat.zero_le _
    | cons first rest =>
        have digit : first.isDigit = true := isDigits first List.mem_cons_self
        have less : 10 ^ rest.length < 10 ^ other.length :=
          calc 10 ^ rest.length ≤ digitsValue (first :: rest) :=
                le_digitsValue digit (fun zero => apart (by rw [List.head?_cons, zero])) rest
            _ = digitsValue other := value
            _ < 10 ^ other.length := digitsValue_lt otherDigits
        exact (Nat.pow_lt_pow_iff_right (by decide)).mp less

end Montage.Layout

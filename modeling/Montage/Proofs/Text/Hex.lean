import Mathlib.Data.Bool.AllAny
import Mathlib.Data.List.Induction
import Montage.Identity

/-!
Contract: hexadecimal digits in either letter case, and the identities written with them.

Owns:
- the characters that are read as digits, and their values;
- the number that a list of digits reads as;
- that the letter case changes neither what a digit stands for nor what is no letter;
- that the text of an identity is read as that identity.

Does **not** own: the other spellings of identities that are read (`Montage.Proofs.Abbreviation`).

Only ASCII characters have another letter case and only ASCII characters are digits, so each statement about
one character is checked on the first 128 and is plain for the others.
-/

set_option autoImplicit false

namespace Montage.Text.Hex

/-! ## Digits that are written -/

theorem digit_mod (n : Nat) : digit (n % 16) = digit n := by
  unfold digit
  rw [Nat.mod_mod]

theorem value?_digit (n : Nat) : value? (digit n) = some (n % 16) := by
  have small : ∀ k < 16, value? (digit k) = some k := by decide
  rw [← digit_mod]
  exact small (n % 16) (Nat.mod_lt n (by decide))

theorem toLower_digit (n : Nat) : (digit n).toLower = digit n := by
  have small : ∀ k < 16, (digit k).toLower = digit k := by decide
  rw [← digit_mod]
  exact small (n % 16) (Nat.mod_lt n (by decide))

/-- No digit is one of some characters that are no digits. -/
theorem digit_ne {c : Char} (other : value? c = none) (n : Nat) : digit n ≠ c := by
  intro same
  have read := value?_digit n
  rw [same, other] at read
  cases read

theorem digits_succ (count n : Nat) : digits (count + 1) n = digits count (n / 16) ++ [digit n] := by
  unfold digits
  rw [List.range_succ, List.map_append, List.map_singleton]
  congr 1
  · apply List.map_congr_left
    intro place member
    have before : place < count := List.mem_range.mp member
    have shift : 4 * (count + 1 - 1 - place) = 4 + 4 * (count - 1 - place) := by omega
    have split : twoTo (4 * (count + 1 - 1 - place)) = 16 * twoTo (4 * (count - 1 - place)) := by
      show 2 ^ (4 * (count + 1 - 1 - place)) = 16 * 2 ^ (4 * (count - 1 - place))
      rw [shift, Nat.pow_add]
    rw [split, Nat.div_div_eq_div_mul]
  · show [digit (n / 2 ^ (4 * (count + 1 - 1 - count)))] = [digit n]
    rw [Nat.add_sub_cancel, Nat.sub_self, Nat.mul_zero, Nat.pow_zero, Nat.div_one]

theorem length_digits (count n : Nat) : (digits count n).length = count := by
  simp [digits]

theorem number?_concat (front : List Char) (last : Char) :
    number? (front ++ [last]) =
      (number? front).bind fun total => (value? last).map (total * 16 + ·) := by
  unfold number?
  rw [List.foldlM_append]
  cases front.foldlM (fun total c => (value? c).map (total * 16 + ·)) 0 with
  | none => rfl
  | some total => simp

/-- The lowest digits of a number read as what remains of it. -/
theorem number?_digits (count n : Nat) : number? (digits count n) = some (n % Nat.pow 16 count) := by
  induction count generalizing n with
  | zero =>
      show some 0 = some (n % 1)
      rw [Nat.mod_one]
  | succ count inductionHypothesis =>
      have split : n % Nat.pow 16 (count + 1) = n / 16 % Nat.pow 16 count * 16 + n % 16 := by
        have power : Nat.pow 16 (count + 1) = 16 * Nat.pow 16 count := Nat.pow_succ'
        rw [power, Nat.mod_mul]
        omega
      rw [digits_succ, number?_concat, inductionHypothesis, value?_digit, split]
      rfl

/-! ## Characters that are read -/

/-- The hexadecimal digits. -/
def alphabet : List Char :=
  ['0', '1', '2', '3', '4', '5', '6', '7', '8', '9', 'a', 'b', 'c', 'd', 'e', 'f',
    'A', 'B', 'C', 'D', 'E', 'F']

/-- What a digit stands for: its place among the digits in lower case. -/
def digitValue (c : Char) : Nat := alphabet.idxOf c.toLower

/-- A statement about characters holds if it holds of those of ASCII and of those beyond. -/
theorem forall_chars {P : Char → Prop} (ascii : ∀ n < 128, P (Char.ofNat n))
    (beyond : ∀ c : Char, 128 ≤ c.toNat → P c) (c : Char) : P c := by
  by_cases small : c.toNat < 128
  · rw [← Char.ofNat_toNat c]
    exact ascii c.toNat small
  · exact beyond c (Nat.le_of_not_lt small)

theorem toLower_of_beyond {c : Char} (beyond : 128 ≤ c.toNat) : c.toLower = c := by
  have noCapital : ¬ (c.val ≥ 'A'.val ∧ c.val ≤ 'Z'.val) := by
    intro capital
    have upper : c.toNat ≤ 90 := UInt32.le_iff_toNat_le.mp capital.2
    omega
  exact dif_neg noCapital

theorem value?_of_beyond {c : Char} (beyond : 128 ≤ c.toNat) : value? c = none := by
  have above (d : Char) (small : d.toNat < 128) : ¬ c ≤ d := by
    intro below
    have : c.toNat ≤ d.toNat := UInt32.le_iff_toNat_le.mp below
    omega
  unfold value?
  rw [if_neg fun range => above '9' (by decide) range.2,
    if_neg fun range => above 'f' (by decide) range.2,
    if_neg fun range => above 'F' (by decide) range.2]

/-- Exactly the digits are read, each as its value. -/
theorem value?_eq (c : Char) : value? c = if c ∈ alphabet then some (digitValue c) else none := by
  refine forall_chars (P := fun c => value? c = if c ∈ alphabet then some (digitValue c) else none)
    (by decide) ?_ c
  intro c beyond
  have ascii : ∀ d ∈ alphabet, d.toNat < 128 := List.all_iff_forall_prop.mp (by decide)
  rw [value?_of_beyond beyond, if_neg fun member => absurd (ascii c member) (Nat.not_lt.mpr beyond)]

theorem digit_mem_alphabet (n : Nat) : digit n ∈ alphabet := by
  by_contra other
  have read := value?_digit n
  rw [value?_eq, if_neg other] at read
  cases read

theorem digitValue_digit (n : Nat) : digitValue (digit n) = n % 16 := by
  have read := value?_digit n
  rw [value?_eq, if_pos (digit_mem_alphabet n)] at read
  exact Option.some.inj read

theorem value?_toLower (c : Char) : value? c.toLower = value? c :=
  forall_chars (P := fun c => value? c.toLower = value? c) (by decide)
    (fun c beyond => by rw [toLower_of_beyond beyond]) c

theorem eq_hyphen_of_toLower {c : Char} (lower : c.toLower = '-') : c = '-' := by
  refine forall_chars (P := fun c => c.toLower = '-' → c = '-') (by decide) ?_ c lower
  intro c beyond same
  rwa [toLower_of_beyond beyond] at same

/-! ## Lists of digits in either case -/

theorem number?_map_toLower (s : List Char) : number? (s.map Char.toLower) = number? s := by
  unfold number?
  rw [List.foldlM_map]
  simp only [value?_toLower]

/-- What is read as a number has digits only. -/
theorem mem_alphabet_of_number? {s : List Char} {n : Nat} (isNumber : number? s = some n) :
    ∀ c ∈ s, c ∈ alphabet := by
  induction s using List.reverseRecOn generalizing n with
  | nil => exact fun c member => absurd member List.not_mem_nil
  | append_singleton front last inductionHypothesis =>
      rw [number?_concat, Option.bind_eq_some_iff] at isNumber
      obtain ⟨total, isFront, isLast⟩ := isNumber
      intro c member
      rcases List.mem_append.mp member with inFront | isLastOne
      · exact inductionHypothesis isFront c inFront
      · rw [List.mem_singleton.mp isLastOne]
        by_contra other
        rw [value?_eq, if_neg other] at isLast
        cases isLast

end Montage.Text.Hex

/-! ## Identities -/

namespace Montage.Identity

/-- The groups of some digits, put together again. -/
theorem groups_append (s : List Char) :
    s.take 8 ++ ((s.drop 8).take 4 ++ ((s.drop 12).take 4 ++ ((s.drop 16).take 4 ++ s.drop 20))) =
      s := by
  have group (n : Nat) : (s.drop n).take 4 ++ s.drop (n + 4) = s.drop n := by
    rw [← List.drop_drop, List.take_append_drop]
  rw [group 16, group 12, group 8, List.take_append_drop]

/-- Groups of 32 digits with hyphens between them come apart again. -/
theorem ofHyphenated?_hyphenated {s : List Char} (length : s.length = 32) :
    ofHyphenated? (hyphenated s) = ofDigits? s := by
  have size : (hyphenated s).length = 36 := by
    simp [hyphenated, length]
  have digits : (hyphenated s).take 8 ++ ((hyphenated s).drop 9).take 4
      ++ ((hyphenated s).drop 14).take 4 ++ ((hyphenated s).drop 19).take 4
      ++ (hyphenated s).drop 24 = s := by
    simp [hyphenated, List.drop_append, List.drop_take, length, groups_append]
  unfold ofHyphenated?
  simp only [digits, size, and_self, if_true]

theorem ofDigits?_digits (id : Identity) : ofDigits? id.digits = some id := by
  have small : id.bits.toNat < Nat.pow 16 32 := id.bits.isLt
  unfold ofDigits? Identity.digits
  rw [if_pos (Text.Hex.length_digits _ _), Text.Hex.number?_digits, Nat.mod_eq_of_lt small]
  simp

theorem read?_text (id : Identity) : read? id.text = some id := by
  have chars : id.text.toList = hyphenated id.digits := String.toList_ofList
  have length : (hyphenated id.digits).length = 36 := rfl
  have reads : ofHyphenated? (hyphenated id.digits) = some id := by
    rw [digits, ofHyphenated?_hyphenated (Text.Hex.length_digits _ _)]
    exact id.ofDigits?_digits
  unfold read?
  simp only [chars, length, Nat.reduceEqDiff, if_false, if_true, reads]

end Montage.Identity

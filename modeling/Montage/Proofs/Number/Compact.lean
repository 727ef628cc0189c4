import Montage.Proofs.Number.Binary64
import Montage.Proofs.Number.Layout
import Montage.Proofs.Number.Rounding

/-!
Contract: the text of a number with six digits after the point, or with at most six.

Owns:
- numbers whose minus sign says that they are below zero (`Scalar.Signed`);
- what trimming leaves of six places, digit by digit (`trimmed_withPlaces`);
- the characters of the texts, and that they are read back as the number rounded to six places;
- decimals of which nothing could be left out (`PlainDecimal`), of which each number has one.

Does **not** own: the rounding (`Montage.Proofs.Number.Rounding`).
-/

set_option autoImplicit false

namespace Montage

/-- Numbers that carry a minus sign exactly if they are below zero, zeros apart. -/
class Scalar.Signed (α : Type) [Scalar α] : Prop where
  isNegative_iff (x : α) (q : ℚ) :
    Scalar.exact x = .fin q → q ≠ 0 → (Scalar.isNegative x = true ↔ q < 0)

instance : Scalar.Signed Extended where
  isNegative_iff x q isExact _ := by
    have isFinite : x = .fin q := isExact
    rw [isFinite]
    exact decide_eq_true_iff

instance : Scalar.Signed Float where
  isNegative_iff x q isExact nonzero := by
    have magnitude : 0 ≤ (Binary64.parts x).magnitude := by
      rw [Binary64.magnitude_eq]
      positivity
    have isExact : Binary64.exact x = .fin q := isExact
    unfold Binary64.exact at isExact
    show Binary64.signBit x = true ↔ q < 0
    split_ifs at isExact with nan infinite negative negative
    · rw [← Extended.fin.inj isExact] at nonzero ⊢
      exact iff_of_true negative (lt_of_le_of_ne (neg_nonpos.mpr magnitude) nonzero)
    · rw [← Extended.fin.inj isExact]
      exact iff_of_false negative (not_lt.mpr magnitude)

namespace Layout

open Json (isDigit_toDigits digitsValue_toDigits)
open Rounding (scaled rounded)

/-! ## Characters -/

/-- The digits before the point and behind it, which are together the number of millionths. -/
structure IsCompact (n : Nat) (text : String) (whole fraction : List Char) : Prop where
  text : text.toList = whole ++ pointed fraction
  nonempty : whole ≠ []
  wholeDigits : ∀ c ∈ whole, c.isDigit = true
  fractionDigits : ∀ c ∈ fraction, c.isDigit = true
  value : (digitsValue (whole ++ fraction) : ℚ) / 10 ^ fraction.length = n / 10 ^ 6

/-- No digit could be left out: there is no zero in front of other whole digits or at the end of the
fraction. -/
structure IsSparing (whole fraction : List Char) : Prop where
  first : whole = ['0'] ∨ whole.head? ≠ some '0'
  last : fraction.getLast? ≠ some '0'
  few : fraction.length ≤ 6

theorem toDigits_isFirst (n : Nat) : Nat.toDigits 10 n = ['0'] ∨ (Nat.toDigits 10 n).head? ≠ some '0' := by
  rcases Json.toDigits_first n with zero | ⟨first, rest, digits, apart⟩
  · exact Or.inl zero
  · refine Or.inr ?_
    rw [digits, List.head?_cons]
    exact fun same => apart (Option.some.inj same)

theorem getLast?_zerosDropped (digits : List Char) :
    (digits.reverse.dropWhile (· == '0')).reverse.getLast? ≠ some '0' := by
  rw [List.getLast?_reverse]
  intro zero
  have other := List.head?_dropWhile_not (· == '0') digits.reverse
  rw [zero] at other
  exact absurd other (by decide)

/-- The digits of a fraction in millionths, without zeros at the end. -/
def fractionDigits (n : Nat) : List Char :=
  ((padded 6 (n % 1000000)).toList.reverse.dropWhile (· == '0')).reverse

/-- A natural counted in millionths, without zeros at the end of its fraction. -/
def compactMillionths (n : Nat) : String :=
  String.ofList (Nat.toDigits 10 (n / 1000000) ++ pointed (fractionDigits n))

theorem exists_zeros_fraction (n : Nat) :
    ∃ count, (padded 6 (n % 1000000)).toList = fractionDigits n ++ List.replicate count '0' :=
  exists_zeros _

theorem isDigit_fractionDigits (n : Nat) : ∀ c ∈ fractionDigits n, c.isDigit = true := by
  intro c member
  obtain ⟨count, digits⟩ := exists_zeros_fraction n
  refine isDigit_padded 6 (n % 1000000) c ?_
  rw [digits]
  exact List.mem_append_left _ member

theorem compactMillionths_isCompact (n : Nat) :
    ∃ whole fraction, IsCompact n (compactMillionths n) whole fraction ∧ IsSparing whole fraction := by
  obtain ⟨fraction, isFraction⟩ : ∃ fraction, fraction = fractionDigits n := ⟨_, rfl⟩
  obtain ⟨count, digits⟩ := exists_zeros_fraction n
  rw [← isFraction] at digits
  have length : fraction.length + count = 6 := by
    have six : (padded 6 (n % 1000000)).toList.length = 6 :=
      length_padded (by decide) (Nat.mod_lt n (by decide))
    rw [digits, List.length_append, List.length_replicate] at six
    exact six
  have isRest : digitsValue fraction * 10 ^ count = n % 1000000 := by
    have value := digitsValue_padded 6 (n % 1000000)
    rw [digits, digitsValue_append_eq, digitsValue_zeros, List.length_replicate] at value
    exact value
  -- Dropping `count` zeros at the end divides the digits and the unit they count by one power of ten.
  refine ⟨Nat.toDigits 10 (n / 1000000), fraction,
    ⟨?_, Nat.toDigits_ne_nil, isDigit_toDigits _, isFraction ▸ isDigit_fractionDigits n, ?_⟩,
    toDigits_isFirst _, ?_, by omega⟩
  · rw [compactMillionths, ← isFraction, String.toList_ofList]
  · rw [digitsValue_append_eq, digitsValue_toDigits, div_eq_div_iff (by positivity) (by positivity)]
    have whole : (n / 1000000 * 10 ^ fraction.length + digitsValue fraction) * 10 ^ 6 =
        n * 10 ^ fraction.length := by
      rw [← length, pow_add]
      calc _ = (n / 1000000 * 10 ^ (fraction.length + count) + digitsValue fraction * 10 ^ count) *
            10 ^ fraction.length := by ring
        _ = (n / 1000000 * 10 ^ 6 + n % 1000000) * 10 ^ fraction.length := by rw [length, isRest]
        _ = n * 10 ^ fraction.length := congrArg (· * _) (Nat.div_add_mod' n 1000000)
    exact_mod_cast whole
  · rw [isFraction]
    exact getLast?_zerosDropped _

/-- Only nothing is written as a zero alone. -/
theorem compactMillionths_ne_zero {n : Nat} (some : n ≠ 0) : compactMillionths n ≠ "0" := by
  intro isZero
  obtain ⟨whole, fraction, spelled, -⟩ := compactMillionths_isCompact n
  obtain ⟨first, rest, isWhole⟩ := List.exists_cons_of_ne_nil spelled.nonempty
  have digits : first :: (rest ++ pointed fraction) = ['0'] := by
    rw [← List.cons_append, ← isWhole, ← spelled.text, isZero]
    rfl
  obtain ⟨rfl, none⟩ := List.cons.inj digits
  obtain ⟨rfl, noFraction⟩ := List.append_eq_nil_iff.mp none
  have whole : fraction = [] := by
    by_contra others
    rw [pointed, if_neg others] at noFraction
    cases noFraction
  have value := spelled.value
  rw [isWhole, whole] at value
  have nothing : digitsValue ['0'] = 0 := rfl
  rw [List.append_nil, nothing, Nat.cast_zero, zero_div, eq_comm, div_eq_zero_iff, Nat.cast_eq_zero]
    at value
  exact value.elim some (by positivity)

/-- A number of millionths begins with a digit. -/
theorem exists_digit_compactMillionths (n : Nat) :
    ∃ first rest, first.isDigit = true ∧ compactMillionths n = String.ofList (first :: rest) := by
  obtain ⟨whole, fraction, spelled, -⟩ := compactMillionths_isCompact n
  obtain ⟨first, rest, isWhole⟩ := List.exists_cons_of_ne_nil spelled.nonempty
  refine ⟨first, rest ++ pointed fraction, spelled.wholeDigits first (isWhole ▸ List.mem_cons_self), ?_⟩
  rw [← List.cons_append, ← isWhole, ← spelled.text, String.ofList_toList]

/-! ## Trimming -/

theorem toList_withPlaces (n : Nat) :
    (withPlaces 6 n).toList =
      Nat.toDigits 10 (n / 1000000) ++ '.' :: (padded 6 (n % 1000000)).toList := by
  have point : ".".toList = ['.'] := rfl
  have million : tenTo 6 = 1000000 := rfl
  rw [withPlaces, if_neg (by decide), String.toList_append, String.toList_append, Nat.toString_eq_repr,
    Nat.toList_repr, point, million, List.append_assoc, List.singleton_append]

theorem getLast?_fraction (front : List Char) (n : Nat) :
    (front ++ '.' :: fractionDigits n).getLast? ≠ some '0' := by
  have last : (fractionDigits n).getLast? ≠ some '0' := getLast?_zerosDropped _
  rw [List.getLast?_append, List.getLast?_cons]
  cases isLast : (fractionDigits n).getLast? with
  | none => simp
  | some c => simpa [isLast] using last

theorem getLast?_pointed (sign : List Char) (n : Nat) :
    (sign ++ Nat.toDigits 10 (n / 1000000) ++ pointed (fractionDigits n)).getLast? ≠ some '.' := by
  intro isPoint
  have digit : '.' ∈ Nat.toDigits 10 (n / 1000000) ∨ '.' ∈ fractionDigits n := by
    rw [pointed] at isPoint
    split at isPoint
    · rw [List.append_nil, List.getLast?_append_of_ne_nil _ Nat.toDigits_ne_nil] at isPoint
      exact Or.inl (List.mem_of_getLast? isPoint)
    · rename_i some
      rw [List.getLast?_append_of_ne_nil _ (List.cons_ne_nil _ _), List.getLast?_cons_of_ne_nil some]
        at isPoint
      exact Or.inr (List.mem_of_getLast? isPoint)
  rcases digit with isWhole | isFraction
  · exact absurd (isDigit_toDigits _ _ isWhole) (by decide)
  · exact absurd (isDigit_fractionDigits n _ isFraction) (by decide)

/-- What is trimmed from six places are the zeros at the end of the fraction, and the point if nothing is
left of the fraction. -/
theorem trimmed_withPlaces (sign : String) (n : Nat) :
    trimEnd '.' (trimEnd '0' (sign ++ withPlaces 6 n)) = sign ++ compactMillionths n := by
  obtain ⟨zeros, digits⟩ := exists_zeros_fraction n
  obtain ⟨front, isFront⟩ : ∃ front, front = sign.toList ++ Nat.toDigits 10 (n / 1000000) := ⟨_, rfl⟩
  have written : sign ++ withPlaces 6 n =
      String.ofList ((front ++ '.' :: fractionDigits n) ++ List.replicate zeros '0') := by
    rw [← String.toList_inj, String.toList_append, toList_withPlaces, String.toList_ofList, digits, isFront]
    simp only [List.append_assoc, List.cons_append]
  -- The point goes only where no fraction is left behind it.
  have pointless : front ++ '.' :: fractionDigits n = front ++ pointed (fractionDigits n) ++
      List.replicate (if fractionDigits n = [] then 1 else 0) '.' := by
    unfold pointed
    split <;> simp [*]
  have noPoint : (front ++ pointed (fractionDigits n)).getLast? ≠ some '.' :=
    isFront ▸ getLast?_pointed sign.toList n
  calc trimEnd '.' (trimEnd '0' (sign ++ withPlaces 6 n))
      = trimEnd '.' (String.ofList (front ++ '.' :: fractionDigits n)) := by
        rw [written, trimEnd_append (getLast?_fraction front n)]
    _ = String.ofList (front ++ pointed (fractionDigits n)) := by
        rw [pointless, trimEnd_append noPoint]
    _ = sign ++ compactMillionths n := by
        rw [← String.toList_inj, String.toList_append, compactMillionths, String.toList_ofList,
          String.toList_ofList, isFront, List.append_assoc]

/-! ## Reading -/

section Reading

variable {whole fraction : List Char}

variable {α : Type} [Scalar α]

theorem unsigned_pointed (negative : Bool) (nonempty : whole ≠ [])
    (wholeDigits : ∀ c ∈ whole, c.isDigit = true) (fractionDigits : ∀ c ∈ fraction, c.isDigit = true) :
    (unsigned negative (whole ++ pointed fraction) : Option α) =
      some (decimal negative (digitsValue (whole ++ fraction)) (0 - fraction.length)) := by
  have someWhole : whole.isEmpty = false := List.isEmpty_eq_false_iff.mpr nonempty
  cases fraction with
  | nil =>
      have taken := List.takeWhile_eq_self_iff.mpr wholeDigits
      have dropped := List.dropWhile_eq_nil_iff.mpr wholeDigits
      simp [pointed, unsigned, taken, dropped, someWhole]
  | cons first rest =>
      have ends : ∀ c ∈ ('.' :: first :: rest).head?, c.isDigit = false := by
        rintro _ ⟨⟩
        rfl
      have taken := List.takeWhile_eq_self_iff.mpr fractionDigits
      have dropped := List.dropWhile_eq_nil_iff.mpr fractionDigits
      simp only [pointed, unsigned, List.cons_ne_nil, if_false, takeWhile_digits wholeDigits ends,
        dropWhile_digits wholeDigits ends, taken, dropped, someWhole, Bool.false_and,
        Bool.false_eq_true]

theorem toLower_digit {c : Char} (digit : c.isDigit = true) : c.toLower = c := by
  simp only [Char.isDigit, Bool.and_eq_true, decide_eq_true_eq] at digit
  unfold Char.toLower
  rw [dif_neg]
  rintro ⟨above, -⟩
  have upper : c.val ≤ 57 := digit.2
  have lower : (65 : UInt32) ≤ c.val := above
  exact absurd (UInt32.le_trans lower upper) (by decide)

/-- What starts with a digit, behind a sign or without one, is no name of a number. -/
theorem read?_digits {first : Char} (digit : first.isDigit = true) (rest : List Char) (negative : Bool) :
    (read? ((if negative then "-" else "") ++ String.ofList (first :: rest)) : Option α) =
      unsigned negative (first :: rest) := by
  have other (c : Char) (letter : c.isDigit = false) : first ≠ c := by
    rintro rfl
    rw [digit] at letter
    cases letter
  have named {c : Char} (letter : c.isDigit = false) (name : List Char) :
      String.ofList ((first :: rest).map Char.toLower) ≠ String.ofList (c :: name) := by
    intro same
    rw [String.ofList_inj, List.map_cons, toLower_digit digit] at same
    exact other c letter (List.cons.inj same).1
  have infinity : String.ofList ((first :: rest).map Char.toLower) ≠ "inf" := named rfl ['n', 'f']
  have infinityLong : String.ofList ((first :: rest).map Char.toLower) ≠ "infinity" :=
    named rfl ['n', 'f', 'i', 'n', 'i', 't', 'y']
  have nan : String.ofList ((first :: rest).map Char.toLower) ≠ "nan" := named rfl ['a', 'n']
  have body : ((if negative then "-" else "") ++ String.ofList (first :: rest)).toList =
      if negative then '-' :: first :: rest else first :: rest := by
    rw [String.toList_append, String.toList_ofList]
    cases negative <;> rfl
  unfold read?
  rw [body]
  cases negative with
  | true =>
      simp only [if_true, infinity, infinityLong, nan, decide_false, Bool.or_false,
        Bool.false_eq_true, if_false]
  | false =>
      simp only [Bool.false_eq_true, if_false]
      split
      · rename_i same
        exact (other '-' rfl (List.cons.inj same).1).elim
      · rename_i same
        exact (other '+' rfl (List.cons.inj same).1).elim
      · simp only [infinity, infinityLong, nan, decide_false, Bool.or_false, Bool.false_eq_true,
          if_false]

end Reading

theorem decimal_eq (negative : Bool) (digits places : Nat) :
    (decimal negative digits (0 - places) : Extended) =
      .fin (if negative then -((digits : ℚ) / 10 ^ places) else digits / 10 ^ places) := by
  have magnitude : (Scalar.ofDecimal digits (decide ((0 : Int) - places < 0))
      ((0 : Int) - places).natAbs : Extended) = .fin (digits / 10 ^ places) := by
    cases places with
    | zero =>
        show Extended.fin (Rat.ofScientific digits false 0) = _
        rw [Rat.ofScientific_false_def]
        simp
    | succ places =>
        have below : decide ((0 : Int) - (places + 1 : Nat) < 0) = true := decide_eq_true (by omega)
        have exponent : ((0 : Int) - (places + 1 : Nat)).natAbs = places + 1 := by omega
        rw [below, exponent]
        show Extended.fin (Rat.ofScientific digits true (places + 1)) = _
        rw [Rat.ofScientific_true_def, Rat.mkRat_eq_div]
        push_cast
        rfl
  unfold decimal
  simp only [magnitude]
  cases negative with
  | false => rfl
  | true =>
      have opposite : (0 : Extended) - 1 = .fin (-1) := by decide +kernel
      rw [if_pos rfl, opposite, Extended.fin_mul_fin, mul_neg_one]
      rfl

/-- A sign, digits and a fraction are read as the number that they stand for. -/
theorem read?_pointed {whole fraction : List Char} (negative : Bool) (nonempty : whole ≠ [])
    (wholeDigits : ∀ c ∈ whole, c.isDigit = true) (fractionDigits : ∀ c ∈ fraction, c.isDigit = true) :
    (read? ((if negative then "-" else "") ++ String.ofList (whole ++ pointed fraction)) :
        Option Extended) =
      some (.fin (if negative then
          -((digitsValue (whole ++ fraction) : ℚ) / 10 ^ fraction.length)
        else digitsValue (whole ++ fraction) / 10 ^ fraction.length)) := by
  obtain ⟨first, rest, isWhole⟩ := List.exists_cons_of_ne_nil nonempty
  have digit : first.isDigit = true := wholeDigits first (isWhole ▸ List.mem_cons_self)
  have body : whole ++ pointed fraction = first :: (rest ++ pointed fraction) := by
    rw [isWhole, List.cons_append]
  rw [body, read?_digits digit, ← body, unsigned_pointed _ nonempty wholeDigits fractionDigits,
    decimal_eq]

/-! ## Decimals without anything to spare -/

/-- A decimal of which nothing could be left out: no digit, and no sign of a zero. -/
structure PlainDecimal where
  negative : Bool
  whole : List Char
  fraction : List Char
  nonempty : whole ≠ []
  wholeDigits : ∀ c ∈ whole, c.isDigit = true
  fractionDigits : ∀ c ∈ fraction, c.isDigit = true
  sparing : IsSparing whole fraction
  signed : negative = true → digitsValue (whole ++ fraction) ≠ 0

namespace PlainDecimal

/-- A minus sign if there is any, the whole digits, and the fraction behind a point if there is any. -/
def text (d : PlainDecimal) : String :=
  (if d.negative then "-" else "") ++ String.ofList (d.whole ++ pointed d.fraction)

/-- The number that the digits stand for. -/
def value (d : PlainDecimal) : ℚ :=
  let magnitude := (digitsValue (d.whole ++ d.fraction) : ℚ) / 10 ^ d.fraction.length
  if d.negative then -magnitude else magnitude

/-- The value of a decimal is what its text is read as, so that no other decimal has that text. -/
theorem read?_text (d : PlainDecimal) : (read? d.text : Option Extended) = some (.fin d.value) := by
  rw [text, read?_pointed d.negative d.nonempty d.wholeDigits d.fractionDigits, value]

variable {d e : PlainDecimal}

theorem negative_iff (d : PlainDecimal) : d.negative = true ↔ d.value < 0 := by
  unfold value
  constructor
  · intro negative
    have nonzero := d.signed negative
    simp only [negative, if_true, Left.neg_neg_iff]
    positivity
  · intro below
    by_contra sign
    simp only [sign, if_false] at below
    exact absurd below (not_lt.mpr (by positivity))

theorem abs_value (d : PlainDecimal) :
    |d.value| = (digitsValue (d.whole ++ d.fraction) : ℚ) / 10 ^ d.fraction.length := by
  have nonneg : (0 : ℚ) ≤ (digitsValue (d.whole ++ d.fraction) : ℚ) / 10 ^ d.fraction.length := by
    positivity
  unfold value
  split
  · rw [abs_neg, abs_of_nonneg nonneg]
  · exact abs_of_nonneg nonneg

/-- The last digit of a fraction is needed: no shorter fraction gives the same number. -/
theorem length_fraction_le (same : d.value = e.value) : e.fraction.length ≤ d.fraction.length := by
  by_contra! longer
  obtain ⟨more, isMore⟩ := Nat.exists_eq_add_of_lt longer
  rcases List.eq_nil_or_concat' e.fraction with none | ⟨front, last, isFraction⟩
  · simp [none] at longer
  have magnitudes : digitsValue (d.whole ++ d.fraction) * 10 ^ (more + 1) =
      digitsValue (e.whole ++ e.fraction) := by
    have magnitude := congrArg abs same
    have unit : (10 : ℚ) ^ d.fraction.length ≠ 0 := by positivity
    rw [abs_value, abs_value, div_eq_div_iff unit (by positivity), isMore, add_assoc, pow_add,
      mul_left_comm, mul_comm (10 ^ d.fraction.length), mul_left_inj' unit] at magnitude
    exact_mod_cast magnitude
  have digit := digit_bounds (e.fractionDigits last (by simp [isFraction]))
  have zero : '0'.toNat = 48 := rfl
  rw [isFraction, ← List.append_assoc, digitsValue_concat, zero, pow_succ, ← mul_assoc] at magnitudes
  have isZero : last = '0' := Char.toNat_inj.mp (by omega)
  refine e.sparing.last ?_
  rw [isFraction, List.getLast?_concat, isZero]

/-- A number is written in one way only. -/
theorem eq_of_value_eq (same : d.value = e.value) : d = e := by
  have sign : d.negative = e.negative := by
    rw [Bool.eq_iff_iff, negative_iff, negative_iff, same]
  have length : d.fraction.length = e.fraction.length :=
    le_antisymm (length_fraction_le same.symm) (length_fraction_le same)
  have digits : digitsValue (d.whole ++ d.fraction) = digitsValue (e.whole ++ e.fraction) := by
    have magnitude := congrArg abs same
    rw [abs_value, abs_value, length, div_left_inj' (by positivity)] at magnitude
    exact_mod_cast magnitude
  -- The fraction is what is left of the digits by the power of ten that the whole digits count.
  have small := digitsValue_lt d.fractionDigits
  have otherSmall := digitsValue_lt e.fractionDigits
  rw [digitsValue_append_eq, digitsValue_append_eq, length] at digits
  rw [length] at small
  obtain ⟨wholes, fractions⟩ : digitsValue d.whole = digitsValue e.whole ∧
      digitsValue d.fraction = digitsValue e.fraction := by
    have parts (unit whole part : ℕ) (small : part < unit) :
        (whole * unit + part) / unit = whole ∧ (whole * unit + part) % unit = part :=
      (Nat.div_mod_unique (Nat.zero_lt_of_lt small)).mpr ⟨by ring, small⟩
    have first := parts _ (digitsValue d.whole) _ small
    have second := parts _ (digitsValue e.whole) _ otherSmall
    rw [digits] at first
    exact ⟨first.1.symm.trans second.1, first.2.symm.trans second.2⟩
  have whole : d.whole = e.whole := by
    refine eq_of_digitsValue_eq d.wholeDigits e.wholeDigits (le_antisymm ?_ ?_) wholes
    · exact length_le_of_digitsValue_eq d.wholeDigits d.sparing.first e.wholeDigits e.nonempty wholes
    · exact length_le_of_digitsValue_eq e.wholeDigits e.sparing.first d.wholeDigits d.nonempty
        wholes.symm
  have fraction : d.fraction = e.fraction :=
    eq_of_digitsValue_eq d.fractionDigits e.fractionDigits length fractions
  cases d
  cases e
  congr

end PlainDecimal


section Compact

variable {α : Type} [Scalar α] {x y : α} {p q : ℚ}

theorem fixed_eq (isExact : Scalar.exact x = .fin q) :
    fixed 6 x = (if Scalar.isNegative x then "-" else "") ++ withPlaces 6 (scaled 6 q) := by
  unfold fixed
  rw [isExact]

/-- A finite number is written as its millionths. Only a zero loses its sign. -/
theorem compact_eq (isExact : Scalar.exact x = .fin q) :
    compact x =
      (if Scalar.isNegative x && decide (scaled 6 q ≠ 0) then "-" else "") ++
        compactMillionths (scaled 6 q) := by
  obtain ⟨n, isUnits⟩ : ∃ n, n = scaled 6 q := ⟨_, rfl⟩
  have trimmed := trimmed_withPlaces (if Scalar.isNegative x then "-" else "") n
  obtain ⟨first, rest, digit, text⟩ := exists_digit_compactMillionths n
  simp only [compact, fixed_eq isExact, ← isUnits, trimmed]
  cases Scalar.isNegative x with
  | false =>
      have noSign : compactMillionths n ≠ "-0" := by
        intro isSigned
        rw [text, ← String.toList_inj, String.toList_ofList] at isSigned
        rw [(List.cons.inj isSigned).1] at digit
        cases digit
      have some : compactMillionths n ≠ "" := by
        intro isEmpty
        rw [text, ← String.toList_inj, String.toList_ofList] at isEmpty
        cases isEmpty
      simp [noSign, some]
  | true =>
      by_cases zero : n = 0
      · subst zero
        decide +kernel
      · have other : "-" ++ compactMillionths n ≠ "-0" :=
          fun same => compactMillionths_ne_zero zero (String.append_right_inj "-" |>.mp same)
        simp [other, zero]

/-- A finite number is written with digits, a point and a sign. -/
theorem not_mem_compact (isExact : Scalar.exact x = .fin q) {c : Char} (letter : c.isDigit = false)
    (other : c ≠ '.' ∧ c ≠ '-') : c ∉ (compact x).toList := by
  obtain ⟨whole, fraction, spelled, -⟩ := compactMillionths_isCompact (scaled 6 q)
  have noDigit {digits : List Char} (all : ∀ d ∈ digits, d.isDigit = true) : c ∉ digits := by
    intro member
    rw [all c member] at letter
    cases letter
  have sign : c ∉ (if Scalar.isNegative x && decide (scaled 6 q ≠ 0) then "-" else "").toList := by
    split
    · exact fun member => other.2 (List.mem_singleton.mp member)
    · exact List.not_mem_nil
  have behind : c ∉ pointed fraction := by
    unfold pointed
    split
    · exact List.not_mem_nil
    · exact List.not_mem_cons_of_ne_of_not_mem other.1 (noDigit spelled.fractionDigits)
  rw [compact_eq isExact, String.toList_append, spelled.text, List.mem_append, List.mem_append]
  rintro (isSign | isWhole | isBehind)
  · exact sign isSign
  · exact noDigit spelled.wholeDigits isWhole
  · exact behind isBehind

/-- A sign and digits that count millionths are read as that many of them. -/
theorem read?_spelled {n : Nat} {text : String} {whole fraction : List Char}
    (spelled : IsCompact n text whole fraction) (negative : Bool) :
    (read? ((if negative then "-" else "") ++ text) : Option Extended) =
      some (.fin (if negative then -((n : ℚ) / 10 ^ 6) else n / 10 ^ 6)) := by
  have body : text = String.ofList (whole ++ pointed fraction) := by
    rw [← spelled.text, String.ofList_toList]
  rw [body, read?_pointed negative spelled.nonempty spelled.wholeDigits spelled.fractionDigits,
    spelled.value]

/-- A finite number is written as a decimal whose value is the number rounded to six places. -/
theorem compact_plain [Scalar.Signed α] (isExact : Scalar.exact x = .fin q) :
    ∃ d : PlainDecimal, compact x = d.text ∧ d.value = rounded 6 q := by
  obtain ⟨whole, fraction, spelled, sparing⟩ := compactMillionths_isCompact (scaled 6 q)
  have signed : (Scalar.isNegative x && decide (scaled 6 q ≠ 0)) = true ↔ q < 0 ∧ scaled 6 q ≠ 0 := by
    rw [Bool.and_eq_true, decide_eq_true_iff]
    refine and_congr_left fun nonzero => Scalar.Signed.isNegative_iff x q isExact ?_
    rintro rfl
    exact nonzero (Rounding.scaled_zero 6)
  have someDigit (nonzero : scaled 6 q ≠ 0) : digitsValue (whole ++ fraction) ≠ 0 := by
    intro none
    have value := spelled.value
    rw [none, Nat.cast_zero, zero_div, eq_comm, div_eq_zero_iff, Nat.cast_eq_zero] at value
    exact value.elim nonzero (by positivity)
  refine ⟨⟨_, whole, fraction, spelled.nonempty, spelled.wholeDigits, spelled.fractionDigits, sparing,
    fun negative => someDigit (signed.mp negative).2⟩, ?_, ?_⟩
  · rw [compact_eq isExact, PlainDecimal.text, ← spelled.text, String.ofList_toList]
  · rw [PlainDecimal.value, spelled.value, rounded]
    by_cases zero : scaled 6 q = 0
    · simp [zero]
    · by_cases negative : q < 0
      · rw [if_pos (signed.mpr ⟨negative, zero⟩), if_pos negative, neg_div]
      · rw [if_neg fun both => negative (signed.mp both).1, if_neg negative]

/-- The text of a finite number is read back as the number rounded to six places. -/
theorem read?_compact [Scalar.Signed α] (isExact : Scalar.exact x = .fin q) :
    (read? (compact x) : Option Extended) = some (.fin (rounded 6 q)) := by
  obtain ⟨d, text, value⟩ := compact_plain isExact
  rw [text, d.read?_text, value]

/-! ## Six places -/

theorem withPlaces_isCompact (n : Nat) :
    ∃ whole fraction, IsCompact n (withPlaces 6 n) whole fraction := by
  have six : (padded 6 (n % 1000000)).toList.length = 6 :=
    length_padded (by decide) (Nat.mod_lt n (by decide))
  refine ⟨Nat.toDigits 10 (n / 1000000), (padded 6 (n % 1000000)).toList, ?_, Nat.toDigits_ne_nil,
    isDigit_toDigits _, isDigit_padded 6 _, ?_⟩
  · rw [toList_withPlaces, pointed, if_neg (padded_ne_nil 6 _)]
  · rw [digitsValue_append_eq, digitsValue_toDigits, digitsValue_padded, six]
    exact congrArg (fun m : ℕ => (m : ℚ) / 10 ^ 6) (Nat.div_add_mod' n 1000000)

/-- The text with six places is read back as the number rounded to them. -/
theorem read?_fixed [Scalar.Signed α] (isExact : Scalar.exact x = .fin q) :
    (read? (fixed 6 x) : Option Extended) = some (.fin (rounded 6 q)) := by
  obtain ⟨whole, fraction, spelled⟩ := withPlaces_isCompact (scaled 6 q)
  rw [fixed_eq isExact, read?_spelled spelled]
  congr 2
  unfold rounded
  by_cases zero : q = 0
  · simp [zero, Rounding.scaled_zero]
  · simp only [Scalar.Signed.isNegative_iff x q isExact zero, apply_ite (· / (10 : ℚ) ^ 6), neg_div]

end Compact

/-! ## Numbers and their decimals -/

/-- A text is the decimal of a number: what is read from it is the nearest number with six places, and the
one with an even last digit if two are equally near. -/
structure IsFaithful (text : String) (q : ℚ) (d : PlainDecimal) : Prop where
  isText : text = d.text
  read : (read? text : Option Extended) = some (.fin d.value)
  nearest : ∃ units : ℤ, Rounding.IsNearestUnits 6 q units ∧ d.value = units / 10 ^ 6
  near : |d.value - q| ≤ 5 / 10 ^ 7

section Faithful

variable {α : Type} [Scalar α] [Scalar.Signed α] {x y : α} {p q : ℚ}

/-- Every finite number is written as a decimal of which nothing could be left out, and which is faithful to
it. The decimals grow with the numbers, and numbers with the same decimal have the same text. -/
theorem compact_isFaithful (first : Scalar.exact x = .fin p) (second : Scalar.exact y = .fin q) :
    ∃ d e : PlainDecimal, IsFaithful (compact x) p d ∧ IsFaithful (compact y) q e ∧
      (p ≤ q → d.value ≤ e.value) ∧ (compact x = compact y ↔ d.value = e.value) := by
  have faithful {z : α} {r : ℚ} {d : PlainDecimal} (isText : compact z = d.text)
      (value : d.value = rounded 6 r) : IsFaithful (compact z) r d := by
    refine ⟨isText, isText ▸ d.read?_text, ?_, ?_⟩
    · rw [value]
      exact Rounding.rounded_isNearestUnits 6 r
    · rw [value]
      exact (Rounding.abs_rounded_sub_le 6 r).trans_eq (by norm_num)
  obtain ⟨d, dText, dValue⟩ := compact_plain first
  obtain ⟨e, eText, eValue⟩ := compact_plain second
  refine ⟨d, e, faithful dText dValue, faithful eText eValue, ?_, ?_, ?_⟩
  · intro grows
    rw [dValue, eValue]
    exact Rounding.rounded_mono 6 grows
  · intro same
    rw [dText, eText] at same
    have read := d.read?_text
    rw [same, e.read?_text] at read
    exact (Extended.fin.inj (Option.some.inj read)).symm
  · intro same
    rw [dText, eText, PlainDecimal.eq_of_value_eq same]

/-- Halfway between two decimals the even digit is written, and a carry leaves no zeros behind. -/
theorem compact_isFaithful_halfway :
    Scalar.exact (-0.0078125 : Float) = .fin (-1 / 128) ∧
      Scalar.exact (9.99999988079071044921875 : Float) = .fin (10 - 1 / 2 ^ 23) ∧
      compact (-0.0078125 : Float) = "-0.007812" ∧ compact (9.99999988079071044921875 : Float) = "10" ∧
      ∃ d e : PlainDecimal, IsFaithful (compact (-0.0078125 : Float)) (-1 / 128) d ∧
        IsFaithful (compact (9.99999988079071044921875 : Float)) (10 - 1 / 2 ^ 23) e ∧
        ((-1 / 128 : ℚ) ≤ 10 - 1 / 2 ^ 23 → d.value ≤ e.value) ∧
        (compact (-0.0078125 : Float) = compact (9.99999988079071044921875 : Float) ↔
          d.value = e.value) :=
  have negative : Scalar.exact (-0.0078125 : Float) = .fin (-1 / 128) := by decide +kernel
  have carried : Scalar.exact (9.99999988079071044921875 : Float) = .fin (10 - 1 / 2 ^ 23) := by
    decide +kernel
  ⟨negative, carried, by decide +kernel, by decide +kernel, compact_isFaithful negative carried⟩

end Faithful

end Layout

end Montage

import Montage.Proofs.Json.Scaling
import Montage.Proofs.Json.Text
import Montage.Proofs.Number.Layout

/-!
Contract: the texts of machine numbers and what is read from them.

Owns:
- the spellings of decimals with a fraction or a power of ten (`Spelling`), and what is read from one;
- that the text of a finite number is a spelling of its shortest digits;
- that every finite number is read from its text as a finite number, the same up to the fifteenth digit
  (`exists_read`).

Does **not** own: the rounding of what is read (`Montage.Proofs.Json.Scaling`) and the choice of the digits
(`Montage.Proofs.Number.Shortest`).
-/

set_option autoImplicit false

namespace Montage.Json

open Layout (digitsValue digitsValue_append_eq digitsValue_zeros pointed exists_zeros takeWhile_digits
  dropWhile_digits)

/-! ## Spellings -/

/-- A power of ten at the end of a number, if there is any. -/
def exponentChars : Option ℤ → List Char
  | none => []
  | some exponent => 'e' :: (if exponent < 0 then '-' else '+') :: Nat.toDigits 10 exponent.natAbs

/-- A decimal without sign as it stands in a text: digits before the point and after it, and a power of
ten, one of the latter two at least. -/
structure Spelling where
  whole : List Char
  fraction : List Char
  exponent : Option ℤ
  wholeDigits : ∀ c ∈ whole, c.isDigit = true
  fractionDigits : ∀ c ∈ fraction, c.isDigit = true
  wellStarted : whole = ['0'] ∨ ∃ first rest, whole = first :: rest ∧ first ≠ '0'
  isFractional : fraction ≠ [] ∨ exponent.isSome = true

namespace Spelling

/-- The characters of a spelling behind its sign. -/
def chars (s : Spelling) (negative : Bool) : List Char :=
  (if negative then ['-'] else []) ++ (s.whole ++ (pointed s.fraction ++ exponentChars s.exponent))

/-- The number of all digits. -/
def significand (s : Spelling) : ℕ := digitsValue (s.whole ++ s.fraction)

/-- The power of ten that goes with all digits. -/
def power (s : Spelling) : ℤ := s.exponent.getD 0 - s.fraction.length

def value (s : Spelling) : ℚ := Number.scaledValue s.significand s.power

/-- The parts that are found in a spelling. -/
def literal (s : Spelling) (negative : Bool) : Number.Literal :=
  ⟨negative, s.whole, if s.fraction = [] then none else some s.fraction, s.exponent⟩

end Spelling

/-! ## Reading a spelling -/

theorem exponentPart_digits (exponent : ℤ) :
    Layout.exponentPart ((if exponent < 0 then '-' else '+') :: Nat.toDigits 10 exponent.natAbs) =
      some exponent := by
  have nonempty : (Nat.toDigits 10 exponent.natAbs).isEmpty = false :=
    List.isEmpty_eq_false_iff.mpr Nat.toDigits_ne_nil
  have all : (Nat.toDigits 10 exponent.natAbs).all Char.isDigit = true :=
    List.all_eq_true.mpr (isDigit_toDigits _)
  have value := digitsValue_toDigits exponent.natAbs
  by_cases negative : exponent < 0
  · have same : -(exponent.natAbs : ℤ) = exponent := by omega
    rw [if_pos negative]
    simp only [Layout.exponentPart, nonempty, all, value, same, Bool.not_true, Bool.or_self,
      Bool.false_eq_true, if_false, if_true]
  · have same : (exponent.natAbs : ℤ) = exponent := by omega
    rw [if_neg negative]
    simp only [Layout.exponentPart, nonempty, all, value, same, Bool.not_true, Bool.or_self,
      Bool.false_eq_true, if_false]

theorem takeDigits_digits {digits : List Char} {significand : ℕ}
    (fits : digits.foldl (fun total c => total * 10 + (c.toNat - '0'.toNat)) significand ≤
      Number.significandLimit) :
    Number.takeDigits significand digits =
      (digits.foldl (fun total c => total * 10 + (c.toNat - '0'.toNat)) significand, []) := by
  have grows (digits : List Char) (total : ℕ) :
      total ≤ digits.foldl (fun total c => total * 10 + (c.toNat - '0'.toNat)) total := by
    induction digits generalizing total with
    | nil => exact le_rfl
    | cons c rest inductionHypothesis =>
        rw [List.foldl_cons]
        exact le_trans (by omega) (inductionHypothesis _)
  induction digits generalizing significand with
  | nil => rfl
  | cons c rest inductionHypothesis =>
      rw [List.foldl_cons] at fits ⊢
      have next := (grows rest _).trans fits
      unfold Number.takeDigits
      simp only [if_neg (not_lt.mpr next)]
      exact inductionHypothesis fits

namespace Spelling

variable (s : Spelling)

theorem nonempty : s.whole ≠ [] := by
  rcases s.wellStarted with zero | ⟨first, rest, isWhole, -⟩
  · simp [zero]
  · simp [isWhole]

/-- A spelling has the parts that it was put together from. -/
theorem literal?_chars (negative : Bool) :
    Number.literal? (s.chars negative) = some (s.literal negative) := by
  obtain ⟨whole, fraction, exponent, wholeDigits, fractionDigits, wellStarted, -⟩ := s
  have markEnds : ∀ c ∈ (exponentChars exponent).head?, c.isDigit = false := by
    cases exponent with
    | none => exact nofun
    | some exponent =>
        rintro _ ⟨⟩
        rfl
  have pointEnds : ∀ c ∈ (pointed fraction ++ exponentChars exponent).head?, c.isDigit = false := by
    unfold pointed
    split
    · exact markEnds
    · rintro _ ⟨⟩
      rfl
  have taken := takeWhile_digits wholeDigits pointEnds
  have dropped := dropWhile_digits wholeDigits pointEnds
  have alsoTaken := takeWhile_digits fractionDigits markEnds
  have alsoDropped := dropWhile_digits fractionDigits markEnds
  obtain ⟨first, rest, rfl, started⟩ : ∃ first rest, whole = first :: rest ∧
      (first = '0' ∧ rest = [] ∨ first ≠ '0') := by
    rcases wellStarted with rfl | ⟨first, rest, rfl, apart⟩
    · exact ⟨'0', [], rfl, Or.inl ⟨rfl, rfl⟩⟩
    · exact ⟨first, rest, rfl, Or.inr apart⟩
  have unsigned : first ≠ '-' := by
    rintro rfl
    cases wholeDigits '-' List.mem_cons_self
  have digits := exponentPart_digits
  unfold chars literal
  -- Behind the whole digits there is nothing, a fraction, a power of ten, or both.
  cases fraction <;> cases exponent <;>
    simp only [pointed, exponentChars, if_true, List.nil_append, List.append_nil, List.cons_ne_nil, if_false,
      List.cons_append] at taken dropped alsoTaken alsoDropped ⊢ <;>
    rcases started with ⟨rfl, rfl⟩ | apart <;> cases negative <;> simp [Number.literal?, *]

variable {s}

theorem significandOf_literal (negative : Bool) (few : s.significand ≤ 10 ^ 17) :
    Number.significandOf (s.literal negative) = (s.significand, s.power) := by
  have limit : s.significand ≤ Number.significandLimit := few.trans (by decide)
  have both : digitsValue s.whole * 10 ^ s.fraction.length + digitsValue s.fraction = s.significand :=
    (digitsValue_append_eq _ _).symm
  have front : digitsValue s.whole ≤ Number.significandLimit := by
    calc digitsValue s.whole ≤ digitsValue s.whole * 10 ^ s.fraction.length :=
          Nat.le_mul_of_pos_right _ (by positivity)
      _ ≤ s.significand := both ▸ Nat.le_add_right _ _
      _ ≤ Number.significandLimit := limit
  have first : Number.takeDigits 0 s.whole = (digitsValue s.whole, []) := takeDigits_digits front
  have all := Layout.digitsValue_append s.whole s.fraction
  have second : Number.takeDigits (digitsValue s.whole) s.fraction = (s.significand, []) := by
    rw [takeDigits_digits (all ▸ limit), ← all]
    rfl
  have fraction : (s.literal negative).fraction.getD [] = s.fraction := by
    unfold literal
    by_cases empty : s.fraction = []
    · rw [if_pos empty, empty]
      rfl
    · rw [if_neg empty]
      rfl
  unfold Number.significandOf
  rw [fraction]
  simp only [literal, first, second, List.length_nil, Nat.cast_zero, Nat.sub_zero, zero_sub, power,
    Prod.mk.injEq, true_and]
  exact neg_add_eq_sub _ _

/-- What is read from a spelling is its digits, scaled. -/
theorem value_literal (negative : Bool) (few : s.significand ≤ 10 ^ 17) {y : Float}
    (isScaled : Number.scale? s.significand s.power = some y) :
    Number.value (s.literal negative) = .real (if negative then -y else y) := by
  have notWhole : ((s.literal negative).fraction.isNone && (s.literal negative).exponent.isNone) = false := by
    rcases s.isFractional with fraction | exponent
    · simp [literal, fraction]
    · simp [literal, Option.isNone_eq_false_iff.mpr exponent]
  unfold Number.value
  simp only [notWhole, Bool.false_and, Bool.false_eq_true, if_false, significandOf_literal negative few,
    isScaled]
  rfl

/-- From a spelling behind a sign the number is read that its digits are scaled to. -/
theorem read?_eq {text : String} (isWord : IsWord text) {negative : Bool}
    (isText : text.toList = s.chars negative) (few : s.significand ≤ 10 ^ 17) {y : Float}
    (isScaled : Number.scale? s.significand s.power = some y) :
    read? text = some (.real (if negative then -y else y)) := by
  have token := wordToken?_of_literal? (s.literal?_chars negative)
  rw [← isText] at token
  have nonempty : text.toList ≠ [] := by
    rw [isText]
    exact List.append_ne_nil_of_right_ne_nil _ (List.append_ne_nil_of_left_ne_nil s.nonempty _)
  have conveys : Conveys 0 text (.real (if negative then -y else y)) := by
    refine conveys_word isWord nonempty token fun stack => ?_
    rw [← value_literal negative few isScaled]
    rfl
  exact conveys.read? (Nat.zero_le _)

end Spelling

/-! ## The layouts of digits -/

/-- Digits without a zero in front, not too many to be read at once. -/
structure IsProper (d : Shortest.Digits) : Prop where
  isDigits : ∀ c ∈ d.digits, c.isDigit = true
  wellStarted : ∃ first rest, d.digits = first :: rest ∧ first ≠ '0'
  few : digitsValue d.digits ≤ 10 ^ 17

/-- The number that digits stand for. -/
def decimalValue (d : Shortest.Digits) : ℚ :=
  Number.scaledValue (digitsValue d.digits) (d.point - d.digits.length)

/-- A text that spells digits. -/
structure Spells (s : Spelling) (text : String) (d : Shortest.Digits) : Prop where
  isText : text = String.ofList (s.chars false)
  positive : 0 < s.significand
  few : s.significand ≤ 10 ^ 17
  value : s.value = decimalValue d

theorem scaledValue_zeros (n count : ℕ) (exponent : ℤ) :
    Number.scaledValue (n * 10 ^ count) exponent = Number.scaledValue n (count + exponent) := by
  unfold Number.scaledValue
  rw [zpow_add₀ (by norm_num), zpow_natCast]
  push_cast
  ring

theorem isDigit_zeros (count : ℕ) : ∀ c ∈ List.replicate count '0', c.isDigit = true := by
  intro c member
  rw [List.eq_of_mem_replicate member]
  rfl

section Layouts

variable {d : Shortest.Digits} (proper : IsProper d)

include proper

theorem digitsValue_pos : 0 < digitsValue d.digits := by
  obtain ⟨first, rest, isDigits, apart⟩ := proper.wellStarted
  have digit : first.isDigit = true := proper.isDigits first (isDigits ▸ List.mem_cons_self)
  rw [isDigits]
  exact lt_of_lt_of_le (by positivity) (Layout.le_digitsValue digit apart rest)

/-- Digits before and after a point spell the given ones if they are the same up to zeros and the point has
its place. -/
theorem exists_spells_pointed (whole fraction : List Char) (zeros : ℕ)
    (wholeDigits : ∀ c ∈ whole, c.isDigit = true) (fractionDigits : ∀ c ∈ fraction, c.isDigit = true)
    (wellStarted : whole = ['0'] ∨ ∃ first rest, whole = first :: rest ∧ first ≠ '0')
    (someFraction : fraction ≠ [])
    (value : digitsValue (whole ++ fraction) = digitsValue d.digits * 10 ^ zeros)
    (few : digitsValue d.digits * 10 ^ zeros ≤ 10 ^ 17)
    (place : (zeros : ℤ) - fraction.length = d.point - d.digits.length) :
    ∃ s, Spells s (String.ofList whole ++ "." ++ String.ofList fraction) d := by
  refine ⟨⟨whole, fraction, none, wholeDigits, fractionDigits, wellStarted, Or.inl someFraction⟩, ?_, ?_, ?_, ?_⟩
  · apply String.toList_injective
    simp [Spelling.chars, pointed, someFraction, exponentChars]
  · show 0 < digitsValue (whole ++ fraction)
    rw [value]
    exact Nat.mul_pos (digitsValue_pos proper) (by positivity)
  · exact value.trans_le few
  · show Number.scaledValue (digitsValue (whole ++ fraction)) (0 - fraction.length) = _
    rw [value, scaledValue_zeros, zero_sub, ← sub_eq_add_neg, place, decimalValue]

/-- The digits behind the point, after some zeros. -/
theorem exists_spells_fraction (front : d.point ≤ 0) :
    ∃ s, Spells s ("0." ++ String.ofList (List.replicate (-d.point).toNat '0' ++ d.digits)) d := by
  obtain ⟨first, rest, isFirst, -⟩ := proper.wellStarted
  have same : digitsValue d.digits = digitsValue d.digits * 10 ^ 0 := (Nat.mul_one _).symm
  refine exists_spells_pointed proper ['0'] _ 0 (isDigit_zeros 1) ?_ (Or.inl rfl) ?_ ?_ (same ▸ proper.few) ?_
  · exact fun c member => (List.mem_append.mp member).elim (isDigit_zeros _ c) (proper.isDigits c)
  · exact List.append_ne_nil_of_right_ne_nil _ (isFirst ▸ List.cons_ne_nil first rest)
  · have front : digitsValue (List.replicate ((-d.point).toNat + 1) '0') = 0 := digitsValue_zeros _
    rw [← List.append_assoc, digitsValue_append_eq, ← same]
    show digitsValue (List.replicate ((-d.point).toNat + 1) '0') * _ + _ = _
    rw [front, Nat.zero_mul, Nat.zero_add]
  · rw [List.length_append, List.length_replicate]
    omega

/-- The digits before the point, with some zeros after them and one more behind it. -/
theorem exists_spells_whole (zeros : ℕ) (place : d.point = d.digits.length + zeros) (below : d.point ≤ 16) :
    ∃ s, Spells s (String.ofList (d.digits ++ List.replicate zeros '0') ++ ".0") d := by
  obtain ⟨first, rest, isFirst, apart⟩ := proper.wellStarted
  have value : digitsValue (d.digits ++ List.replicate zeros '0' ++ ['0']) =
      digitsValue d.digits * 10 ^ (zeros + 1) := by
    rw [List.append_assoc, ← List.replicate_succ', digitsValue_append_eq, digitsValue_zeros,
      List.length_replicate, Nat.add_zero]
  have tail : ".0" = "." ++ String.ofList ['0'] := by decide
  rw [tail, ← String.append_assoc]
  refine exists_spells_pointed proper _ ['0'] (zeros + 1) ?_ (isDigit_zeros 1) (Or.inr ?_)
    (List.cons_ne_nil _ _) value ?_ ?_
  · exact fun c member => (List.mem_append.mp member).elim (proper.isDigits c) (isDigit_zeros _ c)
  · exact ⟨first, rest ++ List.replicate zeros '0', by rw [isFirst, List.cons_append], apart⟩
  · have narrow := Layout.digitsValue_lt proper.isDigits
    calc digitsValue d.digits * 10 ^ (zeros + 1)
        ≤ 10 ^ d.digits.length * 10 ^ (zeros + 1) := Nat.mul_le_mul_right _ narrow.le
      _ = 10 ^ (d.digits.length + (zeros + 1)) := (Nat.pow_add _ _ _).symm
      _ ≤ 10 ^ 17 := Nat.pow_le_pow_right (by decide) (by omega)
  · show ((zeros + 1 : ℕ) : ℤ) - (1 : ℕ) = _
    omega

/-- The point among the digits, after at least one of them and before at least one. -/
theorem exists_spells_parted (front : 0 < d.point) (beyond : d.point < d.digits.length) :
    ∃ s, Spells s (String.ofList (d.digits.take d.point.toNat) ++ "." ++
      String.ofList (d.digits.drop d.point.toNat)) d := by
  obtain ⟨first, rest, isFirst, apart⟩ := proper.wellStarted
  have same : digitsValue d.digits = digitsValue d.digits * 10 ^ 0 := (Nat.mul_one _).symm
  have split : d.digits.take d.point.toNat ++ d.digits.drop d.point.toNat = d.digits :=
    List.take_append_drop _ _
  refine exists_spells_pointed proper _ _ 0 ?_ ?_ (Or.inr ?_) ?_ (by rw [split, ← same]) (same ▸ proper.few) ?_
  · exact fun c member => proper.isDigits c (List.mem_of_mem_take member)
  · exact fun c member => proper.isDigits c (List.mem_of_mem_drop member)
  · obtain ⟨places, isPlaces⟩ : ∃ places, d.point.toNat = places + 1 :=
      Nat.exists_eq_add_of_le' (by omega)
    exact ⟨first, rest.take places, by rw [isPlaces, isFirst, List.take_succ_cons], apart⟩
  · intro none
    have within := List.drop_eq_nil_iff.mp none
    omega
  · rw [List.length_drop]
    omega

theorem exists_spells_positional (below : d.point ≤ 16) : ∃ s, Spells s (d.positional ".0") d := by
  unfold Shortest.Digits.positional
  simp only
  split_ifs with front beyond
  · exact exists_spells_fraction proper front
  · exact exists_spells_whole proper _ (by omega) below
  · exact exists_spells_parted proper (by omega) (by omega)

theorem exists_spells_scientific : ∃ s, Spells s d.scientific d := by
  have positive := digitsValue_pos proper
  obtain ⟨isDigits, ⟨first, rest, isFirst, apart⟩, few⟩ := proper
  obtain ⟨isDigit, restDigits⟩ := List.forall_mem_cons.mp (isFirst ▸ isDigits)
  rw [isFirst] at positive few
  refine ⟨⟨[first], rest, some (d.point - 1), List.forall_mem_singleton.mpr isDigit, restDigits,
    Or.inr ⟨first, [], rfl, apart⟩, Or.inr rfl⟩, ?_, positive, few, ?_⟩
  · apply String.toList_injective
    unfold Shortest.Digits.scientific
    rw [isFirst]
    cases rest with
    | nil =>
        by_cases negative : d.point - 1 < 0 <;>
          simp [Spelling.chars, pointed, exponentChars, negative]
    | cons second rest =>
        by_cases negative : d.point - 1 < 0 <;>
          simp [Spelling.chars, pointed, exponentChars, negative]
  · show Number.scaledValue (digitsValue (first :: rest)) (d.point - 1 - rest.length) = _
    rw [decimalValue, isFirst, List.length_cons]
    congr 1
    omega

end Layouts

/-! ## The digits of a number -/

theorem exists_significant {n : ℕ} (positive : 0 < n) :
    ∃ first rest zeros, Shortest.significant n = first :: rest ∧ first ≠ '0' ∧
      Nat.toDigits 10 n = Shortest.significant n ++ List.replicate zeros '0' := by
  obtain ⟨zeros, all⟩ := exists_zeros (Nat.toDigits 10 n)
  have all : Nat.toDigits 10 n = Shortest.significant n ++ List.replicate zeros '0' := all
  obtain ⟨first, rest, isDigits, apart⟩ : ∃ first rest, Nat.toDigits 10 n = first :: rest ∧ first ≠ '0' := by
    refine (toDigits_first n).resolve_left fun zero => ?_
    have value := digitsValue_toDigits n
    rw [zero] at value
    exact positive.ne value
  cases kept : Shortest.significant n with
  | nil =>
      rw [kept, isDigits, List.nil_append] at all
      exact (apart (List.eq_of_mem_replicate (all ▸ List.mem_cons_self))).elim
  | cons head tail =>
      rw [kept, isDigits] at all
      exact ⟨head, tail, zeros, rfl, (List.cons.inj all).1 ▸ apart, by rw [isDigits, all]⟩

section Significant

variable {n : ℕ} (positive : 0 < n)

include positive

theorem isProper_significant (few : n ≤ 10 ^ 17) (point : ℤ) :
    IsProper ⟨Shortest.significant n, point⟩ := by
  obtain ⟨first, rest, zeros, isFirst, apart, all⟩ := exists_significant positive
  refine ⟨?_, ⟨first, rest, isFirst, apart⟩, ?_⟩
  · exact fun c member => isDigit_toDigits n c (all ▸ List.mem_append_left _ member)
  · have value := digitsValue_toDigits n
    rw [all, digitsValue_append_eq, digitsValue_zeros, Nat.add_zero] at value
    calc digitsValue (Shortest.significant n)
        ≤ digitsValue (Shortest.significant n) * 10 ^ (List.replicate zeros '0').length :=
          Nat.le_mul_of_pos_right _ (by positivity)
      _ = n := value
      _ ≤ 10 ^ 17 := few

theorem decimalValue_significant (grid : ℤ) :
    decimalValue ⟨Shortest.significant n, (Nat.toDigits 10 n).length + grid⟩ = n * 10 ^ grid := by
  obtain ⟨first, rest, zeros, -, -, all⟩ := exists_significant positive
  have value := digitsValue_toDigits n
  rw [all, digitsValue_append_eq, digitsValue_zeros, Nat.add_zero, List.length_replicate] at value
  have place : ((Nat.toDigits 10 n).length : ℤ) + grid - (Shortest.significant n).length = zeros + grid := by
    rw [all, List.length_append, List.length_replicate]
    push_cast
    ring
  show Number.scaledValue _ ((Nat.toDigits 10 n).length + grid - (Shortest.significant n).length) = _
  rw [place, ← scaledValue_zeros, value]
  rfl

end Significant

/-! ## What is read from the text of a number -/

open Binary64 (Near Canonical lastPlace leastHalf)

/-- A finite number that is another one up to the fifteenth digit, or up to a few of the least units of
all. -/
def IsCloseTo (y x : Float) : Prop :=
  ∃ q r, Binary64.exact x = .fin q ∧ Binary64.exact y = .fin r ∧ |r - q| ≤ |q| / 10 ^ 15 + 1 / 10 ^ 322

section Sign

variable (negative : Bool)

theorem abs_signed (q : ℚ) : |if negative then -q else q| = |q| := by
  cases negative with
  | true => exact abs_neg q
  | false => rfl

theorem abs_signed_sub (r q : ℚ) :
    |(if negative then -r else r) - (if negative then -q else q)| = |r - q| := by
  cases negative with
  | true =>
      show |-r - -q| = |r - q|
      rw [neg_sub_neg, abs_sub_comm]
  | false => rfl

theorem exact_signed {y : Float} {r : ℚ} (isExact : Binary64.exact y = .fin r) :
    Binary64.exact (if negative then -y else y) = .fin (if negative then -r else r) := by
  cases negative with
  | true => exact Binary64.exact_neg isExact
  | false => exact isExact

theorem isCloseTo_of_near {x y : Float} {q : ℚ}
    (isExact : Binary64.exact x = .fin (if negative then -q else q)) (positive : 0 < q)
    (near : Near 9 5 y q) : IsCloseTo (if negative then -y else y) x := by
  obtain ⟨r, isResult, distance⟩ := near
  refine ⟨_, _, isExact, exact_signed negative isResult, ?_⟩
  rw [abs_signed_sub, abs_signed, abs_of_pos positive]
  refine distance.trans (add_le_add ?_ ?_)
  · have part : 9 * lastPlace ≤ 1 / 10 ^ 15 := by norm_num [lastPlace]
    calc ((9 : ℕ) : ℚ) * (lastPlace * q) = 9 * lastPlace * q := by push_cast; ring
      _ ≤ 1 / 10 ^ 15 * q := by gcongr
      _ = q / 10 ^ 15 := by ring
  · have half : leastHalf = 2 ^ (-1075 : ℤ) := Number.leastHalf_eq_zpow
    calc ((5 : ℕ) : ℚ) * leastHalf ≤ 2 ^ (3 : ℤ) * 2 ^ (-1075 : ℤ) := by
          rw [half]
          gcongr
          norm_num
      _ = 2 ^ (-1072 : ℤ) := by rw [← zpow_add₀ two_ne_zero]; rfl
      _ ≤ 10 ^ (-322 : ℤ) := Shortest.two_zpow_le_ten_zpow (by decide) (by decide)
      _ = 1 / 10 ^ 322 := by rw [zpow_neg, zpow_ofNat, one_div]

end Sign

/-! ### The end of the range

Next to the end of the range a decimal may be scaled beyond it. The few numbers there are read one by one. -/

/-- One of the numbers next to the end of the range, on either side. -/
def outermost (negative : Bool) (steps : ℕ) : Float :=
  .ofBits (.ofNat (0x7FEFFFFFFFFFFFFF - steps + if negative then Binary64.signValue else 0))

theorem exact_outermost : ∀ negative, ∀ steps < 4, Binary64.exact (outermost negative steps) =
    .fin (if negative then -((2 ^ 53 - 1 - steps : ℕ) * 2 ^ 971) else (2 ^ 53 - 1 - steps : ℕ) * 2 ^ 971) := by
  decide +kernel

/-- Every other of these numbers is read as its neighbour. -/
theorem real?_outermost : ∀ negative, ∀ steps < 4,
    (read? (Layout.json (outermost negative steps))).bind real? =
      some (outermost negative (steps / 2 * 2)) := by
  decide +kernel

theorem isCloseTo_outermost (negative : Bool) {steps : ℕ} (few : steps < 4) :
    IsCloseTo (outermost negative (steps / 2 * 2)) (outermost negative steps) := by
  refine ⟨_, _, exact_outermost negative steps few, exact_outermost negative _ (by omega), ?_⟩
  rw [abs_signed_sub, abs_signed]
  have unit : (0 : ℚ) < 2 ^ 971 := by positivity
  have floor : (0 : ℚ) ≤ 1 / 10 ^ 322 := by positivity
  have near : |((2 ^ 53 - 1 - steps / 2 * 2 : ℕ) : ℚ) - (2 ^ 53 - 1 - steps : ℕ)| ≤ 1 := by
    have one : 2 ^ 53 - 1 - steps / 2 * 2 = 2 ^ 53 - 1 - steps ∨
        2 ^ 53 - 1 - steps / 2 * 2 = 2 ^ 53 - 1 - steps + 1 := by omega
    rcases one with same | next
    · rw [same, sub_self, abs_zero]
      exact zero_le_one
    · rw [next, Nat.cast_add, add_sub_cancel_left, Nat.cast_one, abs_one]
  have large : (10 ^ 15 : ℚ) ≤ (2 ^ 53 - 1 - steps : ℕ) := by
    have many : 10 ^ 15 ≤ 2 ^ 53 - 1 - steps := by omega
    exact_mod_cast many
  generalize (2 : ℚ) ^ 971 = u at unit ⊢
  rw [← sub_mul, abs_mul, abs_of_pos unit, abs_mul, abs_of_pos unit, Nat.abs_cast, mul_div_right_comm]
  refine le_add_of_le_of_nonneg (mul_le_mul_of_nonneg_right (near.trans ?_) unit.le) floor
  exact (one_le_div (by positivity)).mpr large

theorem exists_read_outermost (negative : Bool) {steps : ℕ} (few : steps < 4) :
    ∃ y, read? (Layout.json (outermost negative steps)) = some (.real y) ∧
      IsCloseTo y (outermost negative steps) := by
  obtain ⟨value, isRead, isReal⟩ := Option.bind_eq_some_iff.mp (real?_outermost negative steps few)
  rw [real?_eq_some_iff.mp isReal] at isRead
  exact ⟨_, isRead, isCloseTo_outermost negative few⟩

/-- Further inside nothing is scaled beyond the range. -/
theorem inRange_of_inner {m : ℕ} {e : ℤ} (small : m < 2 ^ 53) (most : e ≤ 971)
    (inner : ¬ (e = 971 ∧ 2 ^ 53 - 4 ≤ m)) : (m + 7 / 2 : ℚ) * 2 ^ e < 2 ^ 1024 - 2 ^ 970 := by
  have nonneg : (0 : ℚ) ≤ m + 7 / 2 := by positivity
  have unit : (0 : ℚ) < 2 ^ 970 := by positivity
  have range : (2 : ℚ) ^ 1024 - 2 ^ 970 = (2 ^ 54 - 1) * 2 ^ 970 := by
    rw [sub_mul, one_mul, ← pow_add]
  have last : (2 : ℚ) ^ (971 : ℤ) = 2 * 2 ^ 970 := by rw [zpow_ofNat, pow_succ' 2 970]
  have before (below : e ≤ 970) : (2 : ℚ) ^ e ≤ 2 ^ 970 := by
    rw [← zpow_ofNat]
    exact zpow_le_zpow_right₀ one_le_two below
  rw [range]
  clear range
  generalize (2 : ℚ) ^ 970 = u at *
  by_cases isLast : e = 971
  · have few : (m + 5 : ℚ) ≤ 2 ^ 53 := by
      have less : m + 5 ≤ 2 ^ 53 := by omega
      exact_mod_cast less
    rw [isLast, last, ← mul_assoc]
    gcongr
    linarith
  · have few : (m + 1 : ℚ) ≤ 2 ^ 53 := by exact_mod_cast small
    calc (m + 7 / 2 : ℚ) * 2 ^ e ≤ (m + 7 / 2) * u :=
          mul_le_mul_of_nonneg_left (before (by omega)) nonneg
      _ < (2 ^ 54 - 1) * u := by
          gcongr
          linarith

/-! ### Every number -/

variable {x : Float} {q : ℚ}

/-- The digits that are written for a number apart from zero, in the layout for their place. -/
def laidOut (d : Shortest.Digits) : String :=
  if -5 ≤ d.point - 1 ∧ d.point - 1 ≤ 15 then d.positional ".0" else d.scientific

theorem json_eq (isExact : Binary64.exact x = .fin q) :
    Layout.json x = (if Binary64.signBit x then "-" else "") ++
      (if q = 0 then "0.0" else laidOut (Binary64.shortest .toEven x)) := by
  have plain : (x.isNaN || x.isInf) = false := by
    rw [Number.isInf_of_exact isExact, Bool.or_false, Bool.eq_false_iff]
    intro nan
    rw [Binary64.exact, if_pos nan] at isExact
    cases isExact
  unfold Layout.json
  rw [plain, if_neg Bool.false_ne_true]
  by_cases zero : q = 0
  · rw [if_pos ((Number.isZero_iff_exact isExact).mpr zero), if_pos zero]
  · rw [if_neg (mt (Number.isZero_iff_exact isExact).mp zero), if_neg zero]
    rfl

/-- A sign before a spelling is read with it. -/
theorem toList_signed (negative : Bool) {s : Spelling} {text : String}
    (isText : text = String.ofList (s.chars false)) :
    ((if negative then "-" else "") ++ text).toList = s.chars negative := by
  rw [isText, String.toList_append, String.toList_ofList]
  cases negative <;> rfl

theorem exists_read_zero (isExact : Binary64.exact x = .fin 0) :
    ∃ y, read? (Layout.json x) = some (.real y) ∧ IsCloseTo y x := by
  obtain ⟨y, isScaled, isZero⟩ : ∃ y, Number.scale? 0 (-1) = some y ∧ Binary64.exact y = .fin 0 :=
    Option.map_eq_some_iff.mp (show (Number.scale? 0 (-1)).map Binary64.exact = _ by decide +kernel)
  let s : Spelling :=
    { whole := ['0'], fraction := ['0'], exponent := none
      wholeDigits := List.forall_mem_singleton.mpr rfl
      fractionDigits := List.forall_mem_singleton.mpr rfl
      wellStarted := Or.inl rfl, isFractional := Or.inl (List.cons_ne_nil _ _) }
  have text := json_eq isExact
  rw [if_pos rfl] at text
  have isText : ((if Binary64.signBit x then "-" else "") ++ "0.0").toList = s.chars (Binary64.signBit x) :=
    toList_signed _ rfl
  rw [← text] at isText
  have none : s.significand = 0 := digitsValue_zeros 2
  have tenth : s.power = -1 := rfl
  rw [← none, ← tenth] at isScaled
  refine ⟨_, s.read?_eq (isWord_json x) isText (none ▸ Nat.zero_le _) isScaled, 0, _, isExact,
    exact_signed _ isZero, ?_⟩
  rw [neg_zero, ite_self, sub_zero, abs_zero, zero_div, zero_add]
  positivity

/-- The digits of a number are proper, and half a last place away from it at most. -/
theorem shortest_spec {m : ℕ} {e : ℤ} (isParts : Binary64.parts x = ⟨m, e⟩) (canonical : Canonical m e)
    (most : e ≤ 971) (positive : 0 < m) :
    IsProper (Binary64.shortest .toEven x) ∧
      |decimalValue (Binary64.shortest .toEven x) - m * 2 ^ e| ≤ 1 / 2 * 2 ^ e := by
  have small := canonical.small
  have narrow : (decide (m = Binary64.implicitBit) && decide (-1074 < e)) = true → m = 2 ^ 52 := by
    intro both
    exact of_decide_eq_true (Bool.and_eq_true_iff.mp both).1
  obtain ⟨point, grid, isDigits, some, few, close⟩ :=
    Shortest.digits_spec .toEven positive small narrow canonical.lowest most
  have isShortest : Binary64.shortest .toEven x =
      ⟨Shortest.significant point, (Nat.toDigits 10 point).length + grid⟩ := by
    unfold Binary64.shortest
    rw [isParts]
    exact isDigits
  rw [isShortest, decimalValue_significant some]
  exact ⟨isProper_significant some few _, close⟩

theorem exists_spells_laidOut {d : Shortest.Digits} (proper : IsProper d) : ∃ s, Spells s (laidOut d) d := by
  unfold laidOut
  split
  · exact exists_spells_positional proper (by omega)
  · exact exists_spells_scientific proper

/-- The text of every finite number is read as a number close to it. -/
theorem exists_read (isExact : Binary64.exact x = .fin q) :
    ∃ y, read? (Layout.json x) = some (.real y) ∧ IsCloseTo y x := by
  by_cases zero : q = 0
  · exact exists_read_zero (zero ▸ isExact)
  obtain ⟨canonical, most, positive, isValue⟩ := Binary64.parts_of_exact isExact zero
  obtain ⟨m, e, isParts⟩ : ∃ m e, Binary64.parts x = ⟨m, e⟩ := ⟨_, _, rfl⟩
  rw [Binary64.magnitude_eq, isParts] at isValue
  rw [isParts] at canonical most positive
  have isSigned := isValue ▸ isExact
  have small : m < 2 ^ 53 := canonical.small
  by_cases outer : e = 971 ∧ 2 ^ 53 - 4 ≤ m
  · obtain ⟨steps, few, isSteps⟩ : ∃ steps < 4, m = 2 ^ 53 - 1 - steps :=
      ⟨2 ^ 53 - 1 - m, by omega, by omega⟩
    have isOutermost : x = outermost (Binary64.signBit x) steps := by
      refine Binary64.eq_of_exact_eq isExact ?_ zero
      rw [exact_outermost _ _ few, isValue, isSteps, outer.1]
      rfl
    rw [isOutermost]
    exact exists_read_outermost _ few
  · obtain ⟨proper, close⟩ := shortest_spec isParts canonical most positive
    obtain ⟨s, spells⟩ := exists_spells_laidOut proper
    rw [← spells.value] at close
    have inRange := inRange_of_inner small most outer
    obtain ⟨y, isScaled, near⟩ := Number.near_scale? spells.positive spells.few positive small
      canonical.normal canonical.lowest inRange close
    have text := json_eq isExact
    rw [if_neg zero] at text
    have isText := toList_signed (Binary64.signBit x) spells.isText
    rw [← text] at isText
    exact ⟨_, s.read?_eq (isWord_json x) isText spells.few isScaled,
      isCloseTo_of_near _ isSigned (by positivity) near⟩

end Montage.Json

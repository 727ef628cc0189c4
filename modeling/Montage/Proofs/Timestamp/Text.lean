import Montage.Proofs.Number.Layout
import Montage.Proofs.Timestamp.Calendar

/-!
Contract: moments are read back as they were written.

Owns:
- what each scanner takes from the front of a written moment, and that the parts make up the moment
  again (`Timestamp.read?_text`);
- that a reader gives only moments that can be written (`Timestamp.Proper`).

Does **not** own: the calendar (`Montage.Proofs.Timestamp.Calendar`) and the digits of numbers
(`Montage.Proofs.Number.Layout`).
-/

set_option autoImplicit false

namespace Montage.Timestamp

/-! ## Parts of a text -/

theorem not_isBlank_of_isDigit {c : Char} (digit : c.isDigit = true) : Text.isBlank c = false := by
  simp only [Char.isDigit, Bool.and_eq_true, decide_eq_true_eq] at digit
  have lower : 48 ≤ c.toNat := digit.1
  have upper : c.toNat ≤ 57 := digit.2
  unfold Text.isBlank Text.blankRanges
  simp only [List.any_cons, List.any_nil, Bool.or_false, Bool.or_eq_false_iff, Bool.and_eq_false_iff,
    decide_eq_false_iff_not]
  omega

theorem dropWhile_blank {digits rest : List Char} (nonempty : digits ≠ [])
    (all : ∀ c ∈ digits, c.isDigit = true) :
    (digits ++ rest).dropWhile Text.isBlank = digits ++ rest := by
  obtain ⟨first, others, rfl⟩ := List.exists_cons_of_ne_nil nonempty
  have plain := not_isBlank_of_isDigit (all first List.mem_cons_self)
  rw [List.cons_append, List.dropWhile_cons_of_neg (by simp [plain])]

theorem number_padded {width n : Nat} (positive : 0 < width) (narrow : n < 10 ^ width)
    (rest : List Char) : number width ((Layout.padded width n).toList ++ rest) = some (n, rest) := by
  have length := Layout.length_padded positive narrow
  have all := Layout.isDigit_padded width n
  have nonempty := Layout.padded_ne_nil width n
  have taken : ((Layout.padded width n).toList ++ rest).take width =
      (Layout.padded width n).toList := List.take_left' length
  have digits : (Layout.padded width n).toList.takeWhile Char.isDigit =
      (Layout.padded width n).toList := List.takeWhile_eq_self_iff.mpr all
  simp only [number, dropWhile_blank nonempty all, taken, digits, List.isEmpty_iff, nonempty, if_false,
    Layout.digitsValue_padded, List.drop_left]

theorem mark_cons {c : Char} (plain : Text.isBlank c = false) (rest : List Char) :
    mark c (c :: rest) = some rest := by
  unfold mark
  rw [List.dropWhile_cons_of_neg (by simp [plain])]
  exact if_pos rfl

/-- A year without a sign is a number of four digits. -/
theorem year_unsigned {digits rest : List Char} (nonempty : digits ≠ [])
    (all : ∀ c ∈ digits, c.isDigit = true) :
    year (digits ++ rest) = (number 4 (digits ++ rest)).map fun (value, rest) => ((value : Int), rest) := by
  unfold year
  simp only [dropWhile_blank nonempty all]
  obtain ⟨first, others, rfl⟩ := List.exists_cons_of_ne_nil nonempty
  have digit := all first List.mem_cons_self
  rw [List.cons_append]
  split
  · rename_i same
    cases same
    cases digit
  · rename_i same
    cases same
    cases digit
  · rfl

theorem year_yearText (y : Int) (rest : List Char) :
    year ((yearText y).toList ++ '-' :: rest) = some (y, '-' :: rest) := by
  have ends : ∀ c ∈ ('-' :: rest).head?, c.isDigit = false := by
    rintro _ ⟨⟩
    rfl
  unfold yearText
  split
  · rename_i plain
    rw [year_unsigned (Layout.padded_ne_nil _ _) (Layout.isDigit_padded _ _),
      number_padded (by decide) (by omega)]
    show some ((y.toNat : Int), '-' :: rest) = _
    rw [Int.toNat_of_nonneg plain.1]
  · have digits := Layout.takeWhile_digits (Layout.isDigit_padded 4 y.natAbs) ends
    have nonempty := Layout.padded_ne_nil 4 y.natAbs
    have minus : Text.isBlank '-' = false := by decide
    have plus : Text.isBlank '+' = false := by decide
    split
    · rename_i negative
      have isNegative : -(y.natAbs : Int) = y := by omega
      have text : ("-" ++ Layout.padded 4 y.natAbs).toList = '-' :: (Layout.padded 4 y.natAbs).toList :=
        String.toList_append
      unfold year
      rw [text, List.cons_append, List.dropWhile_cons_of_neg (by simp [minus])]
      simp only [digits, List.isEmpty_iff, nonempty, if_false, Layout.digitsValue_padded,
        List.drop_left, if_true, isNegative]
    · rename_i notNegative
      have isNatural : (y.natAbs : Int) = y := by omega
      have text : ("+" ++ Layout.padded 4 y.natAbs).toList = '+' :: (Layout.padded 4 y.natAbs).toList :=
        String.toList_append
      unfold year
      rw [text, List.cons_append, List.dropWhile_cons_of_neg (by simp [plus])]
      simp only [digits, List.isEmpty_iff, nonempty, if_false, Layout.digitsValue_padded,
        List.drop_left, Bool.false_eq_true, isNatural]

/-- Digits after the point count for as many of nine places as there are. -/
theorem fraction_padded {width n : Nat} (positive : 0 < width) (few : width ≤ 9)
    (narrow : n < 10 ^ width) {rest : List Char} (ends : ∀ c ∈ rest.head?, c.isDigit = false) :
    fraction (("." ++ Layout.padded width n).toList ++ rest) = some (n * tenTo (9 - width), rest) := by
  have text : ("." ++ Layout.padded width n).toList = '.' :: (Layout.padded width n).toList :=
    String.toList_append
  have length := Layout.length_padded positive narrow
  have digits := Layout.takeWhile_digits (Layout.isDigit_padded width n) ends
  have counted : (Layout.padded width n).toList.take 9 = (Layout.padded width n).toList :=
    List.take_of_length_le (by omega)
  unfold fraction
  simp only [text, List.cons_append, digits, List.isEmpty_iff, Layout.padded_ne_nil, if_false, counted,
    length, Layout.digitsValue_padded, List.drop_left' length]

theorem fraction_fractionText {nanos : Nat} (small : nanos < 1000000000) {c : Char} {rest : List Char}
    (ends : c.isDigit = false) (noPoint : c ≠ '.') :
    fraction ((fractionText nanos).toList ++ c :: rest) = some (nanos, c :: rest) := by
  have follows : ∀ d ∈ (c :: rest).head?, d.isDigit = false := by
    rintro _ ⟨⟩
    exact ends
  unfold fractionText
  split_ifs with zero millis micros
  · show fraction (c :: rest) = _
    unfold fraction
    split
    · rename_i same
      cases same
      exact (noPoint rfl).elim
    · rw [zero]
  · have whole : nanos / 1000000 * tenTo (9 - 3) = nanos := by
      show nanos / 1000000 * 1000000 = nanos
      omega
    rw [fraction_padded (by decide) (by decide) (by omega) follows, whole]
  · have whole : nanos / 1000 * tenTo (9 - 6) = nanos := by
      show nanos / 1000 * 1000 = nanos
      omega
    rw [fraction_padded (by decide) (by decide) (by omega) follows, whole]
  · have whole : nanos * tenTo (9 - 9) = nanos := Nat.mul_one nanos
    rw [fraction_padded (by decide) (by decide) (by omega) follows, whole]

/-! ## Reading what was written -/

/-- Moments that a reader gives: on the calendar, and with a leap second at the end of a minute only. -/
structure Proper (t : Timestamp) : Prop where
  onCalendar : t.isOnCalendar = true
  nanos : t.nanos < 2000000000
  leap : 1000000000 ≤ t.nanos → t.seconds % 60 = 59

-- The leap second at the end of 2016.
example : Proper ⟨1483228799, 1500000000⟩ := ⟨by decide, by decide, by decide⟩

theorem isValid_dateOfDay {number : Int}
    (onCalendar : dayNumber firstDate ≤ number ∧ number ≤ dayNumber lastDate) :
    (dateOfDay number).isValid = true := by
  obtain ⟨d, proper, isNumber, isDate⟩ := exists_marchDay number
  rw [← isNumber] at onCalendar
  have years : firstDate.year ≤ d.date.year ∧ d.date.year ≤ lastDate.year :=
    proper.civilYear_bounds onCalendar
  obtain ⟨months, days⟩ := proper.date_isDate
  rw [isDate]
  simp only [Date.isValid, Bool.and_eq_true, decide_eq_true_eq]
  exact ⟨⟨years, months⟩, days⟩

/-- The parts that a moment is written with make up the moment. -/
theorem ofParts?_parts {t : Timestamp} (proper : t.Proper) :
    ofParts? (dateOfDay (t.seconds / 86400)) ((t.seconds % 86400).toNat / 3600)
        ((t.seconds % 86400).toNat / 60 % 60)
        ((t.seconds % 86400).toNat % 60 + t.nanos / 1000000000) (t.nanos % 1000000000) 0 = some t := by
  obtain ⟨seconds, nanos⟩ := t
  have onCalendar := proper.onCalendar
  have small : nanos < 2000000000 := proper.nanos
  have leap : 1000000000 ≤ nanos → seconds % 60 = 59 := proper.leap
  have valid : (dateOfDay (seconds / 86400)).isValid = true :=
    isValid_dateOfDay (of_decide_eq_true onCalendar)
  -- Only a minute that ends in a leap second has a 61st one.
  have counted : min ((seconds % 86400).toNat % 60 + nanos / 1000000000) 59 =
      (seconds % 86400).toNat % 60 := by omega
  have isSeconds : dayNumber (dateOfDay (seconds / 86400)) * 86400
      + ((seconds % 86400).toNat / 3600 : Nat) * 3600 + ((seconds % 86400).toNat / 60 % 60 : Nat) * 60
      + ((seconds % 86400).toNat % 60 : Nat) - 0 = seconds := by
    rw [dayNumber_dateOfDay]
    omega
  have isNanos : nanos % 1000000000 + ((seconds % 86400).toNat % 60 + nanos / 1000000000
      - (seconds % 86400).toNat % 60) * 1000000000 = nanos := by omega
  have inRange : (seconds % 86400).toNat / 3600 ≤ 23 ∧ (seconds % 86400).toNat / 60 % 60 ≤ 59 ∧
      (seconds % 86400).toNat % 60 + nanos / 1000000000 ≤ 60 := by omega
  unfold ofParts?
  simp only [counted, isSeconds, isNanos, valid, inRange, onCalendar, Int.natAbs_zero, decide_true,
    Bool.and_self, if_true, (by decide : (0 : Nat) < 86400)]

theorem offset_utc : offset ['Z'] = some (0, []) := rfl

/-- What a reader makes of a text whose parts the scanners find one after another. -/
theorem read?_scanned {s : String} {y : Int} {mo d h mi se ns : Nat}
    {toMonth month toDay day clock toMinute minute toSecond second point zone : List Char}
    (years : year s.toList = some (y, toMonth)) (monthMark : mark '-' toMonth = some month)
    (months : number 2 month = some (mo, toDay)) (dayMark : mark '-' toDay = some day)
    (days : number 2 day = some (d, 'T' :: clock)) (hours : number 2 clock = some (h, toMinute))
    (minuteMark : mark ':' toMinute = some minute) (minutes : number 2 minute = some (mi, toSecond))
    (secondMark : mark ':' toSecond = some second) (seconds : number 2 second = some (se, point))
    (fractions : fraction point = some (ns, zone)) (zones : offset zone = some (0, [])) :
    read? s = ofParts? ⟨y, mo, d⟩ h mi se ns 0 := by
  unfold read?
  rw [years]
  change (mark '-' toMonth).bind _ = _
  rw [monthMark]
  change (number 2 month).bind _ = _
  rw [months]
  change (mark '-' toDay).bind _ = _
  rw [dayMark]
  change (number 2 day).bind _ = _
  rw [days]
  change (number 2 clock).bind _ = _
  rw [hours]
  change (mark ':' toMinute).bind _ = _
  rw [minuteMark]
  change (number 2 minute).bind _ = _
  rw [minutes]
  change (mark ':' toSecond).bind _ = _
  rw [secondMark]
  change (number 2 second).bind _ = _
  rw [seconds]
  change (fraction point).bind _ = _
  rw [fractions]
  change (offset zone).bind _ = _
  rw [zones]
  rfl

/-- A proper moment is read back as it was written. -/
theorem read?_text {t : Timestamp} (proper : t.Proper) : read? t.text = some t := by
  obtain ⟨date, isDate⟩ : ∃ date, date = dateOfDay (t.seconds / 86400) := ⟨_, rfl⟩
  obtain ⟨second, isSecond⟩ : ∃ second, second = (t.seconds % 86400).toNat := ⟨_, rfl⟩
  have parts := ofParts?_parts proper
  have small := proper.nanos
  have valid := isValid_dateOfDay (of_decide_eq_true proper.onCalendar)
  rw [← isDate] at valid
  simp only [Date.isValid, Bool.and_eq_true, decide_eq_true_eq] at valid
  have day : date.day ≤ 31 := by
    have most : daysInMonth date.year date.month ≤ 31 := by
      unfold daysInMonth
      split_ifs <;> decide
    omega
  rw [← isDate, ← isSecond] at parts
  have minus : Text.isBlank '-' = false := by decide
  have colon : Text.isBlank ':' = false := by decide
  have written : t.text.toList = (yearText date.year).toList ++ '-' :: ((Layout.padded 2 date.month).toList
      ++ '-' :: ((Layout.padded 2 date.day).toList ++ 'T' :: ((Layout.padded 2 (second / 3600)).toList
      ++ ':' :: ((Layout.padded 2 (second / 60 % 60)).toList
      ++ ':' :: ((Layout.padded 2 (second % 60 + t.nanos / 1000000000)).toList
      ++ ((fractionText (t.nanos % 1000000000)).toList ++ ['Z'])))))) := by
    unfold text Timestamp.written
    rw [← isDate, ← isSecond]
    have marks : "-".toList = ['-'] ∧ "T".toList = ['T'] ∧ ":".toList = [':'] ∧ "Z".toList = ['Z'] := by
      decide
    simp only [String.toList_append, List.append_assoc, marks, List.cons_append, List.nil_append]
  have years := congrArg year written
  rw [year_yearText] at years
  exact (read?_scanned years (mark_cons minus _) (number_padded (by decide) (by omega) _)
    (mark_cons minus _) (number_padded (by decide) (by omega) _)
    (number_padded (by decide) (by omega) _) (mark_cons colon _)
    (number_padded (by decide) (by omega) _) (mark_cons colon _)
    (number_padded (by decide) (by omega) _)
    (fraction_fractionText (by omega) (by decide) (by decide)) offset_utc).trans parts

/-! ## What a reader gives -/

theorem fraction_lt {s rest : List Char} {nanos : Nat} (isRead : fraction s = some (nanos, rest)) :
    nanos < 1000000000 := by
  unfold fraction at isRead
  split at isRead
  · rename_i tail
    dsimp only at isRead
    split at isRead
    · cases isRead
    · cases isRead
      obtain ⟨counted, isCounted⟩ : ∃ counted, counted = (tail.takeWhile Char.isDigit).take 9 := ⟨_, rfl⟩
      have few : counted.length ≤ 9 := by
        rw [isCounted]
        exact List.length_take_le _ _
      have digits : ∀ c ∈ counted, c.isDigit = true := by
        rw [isCounted]
        exact fun c member => List.mem_takeWhile_imp (List.mem_of_mem_take member)
      have value := Layout.digitsValue_lt digits
      rw [← isCounted]
      calc Layout.digitsValue counted * 10 ^ (9 - counted.length)
          < 10 ^ counted.length * 10 ^ (9 - counted.length) :=
            Nat.mul_lt_mul_of_pos_right value (Nat.pow_pos (by decide))
        _ = 10 ^ 9 := by rw [← Nat.pow_add, Nat.add_sub_cancel' few]
  · cases isRead
    decide

/-- Offsets are told in minutes. -/
theorem offset_minutes {s rest : List Char} {seconds : Int}
    (isRead : offset s = some (seconds, rest)) : seconds % 60 = 0 := by
  unfold offset at isRead
  dsimp only at isRead
  split at isRead
  · cases isRead
    rfl
  · -- Either sign goes before hours and minutes.
    split at isRead <;> (repeat' split at isRead) <;> cases isRead <;> omega

theorem proper_of_ofParts? {date : Date} {hour minute second nanos : Nat} {offset : Int}
    {t : Timestamp} (small : nanos < 1000000000) (minutes : offset % 60 = 0)
    (isMoment : ofParts? date hour minute second nanos offset = some t) : t.Proper := by
  unfold ofParts? at isMoment
  dsimp only at isMoment
  split at isMoment
  · rename_i valid
    cases isMoment
    simp only [Bool.and_eq_true, decide_eq_true_eq] at valid
    obtain ⟨⟨-, ⟨⟨-, -⟩, seconds⟩, -⟩, onCalendar⟩ := valid
    refine ⟨onCalendar, ?_, ?_⟩
    · show nanos + (second - min second 59) * 1000000000 < 2000000000
      omega
    · show 1000000000 ≤ nanos + (second - min second 59) * 1000000000 →
        (dayNumber date * 86400 + hour * 3600 + minute * 60 + (min second 59 : Nat) - offset) % 60 = 59
      omega
  · cases isMoment

theorem proper_of_read? {s : String} {t : Timestamp} (isRead : read? s = some t) : t.Proper := by
  unfold read? at isRead
  obtain ⟨⟨year, rest⟩, -, isRead⟩ := Option.bind_eq_some_iff.mp isRead
  obtain ⟨rest, -, isRead⟩ := Option.bind_eq_some_iff.mp isRead
  obtain ⟨⟨month, rest⟩, -, isRead⟩ := Option.bind_eq_some_iff.mp isRead
  obtain ⟨rest, -, isRead⟩ := Option.bind_eq_some_iff.mp isRead
  obtain ⟨⟨day, rest⟩, -, isRead⟩ := Option.bind_eq_some_iff.mp isRead
  dsimp only at isRead
  -- Date and time are parted by a letter or a space; without one nothing is read.
  split at isRead
  case h_2 => cases isRead
  split at isRead
  case isFalse => cases isRead
  rw [Option.bind_eq_bind, Option.bind_some] at isRead
  obtain ⟨⟨hour, rest⟩, -, isRead⟩ := Option.bind_eq_some_iff.mp isRead
  obtain ⟨rest, -, isRead⟩ := Option.bind_eq_some_iff.mp isRead
  obtain ⟨⟨minute, rest⟩, -, isRead⟩ := Option.bind_eq_some_iff.mp isRead
  obtain ⟨rest, -, isRead⟩ := Option.bind_eq_some_iff.mp isRead
  obtain ⟨⟨second, rest⟩, -, isRead⟩ := Option.bind_eq_some_iff.mp isRead
  obtain ⟨⟨nanos, rest⟩, isFraction, isRead⟩ := Option.bind_eq_some_iff.mp isRead
  obtain ⟨⟨offset, rest⟩, isOffset, isRead⟩ := Option.bind_eq_some_iff.mp isRead
  dsimp only at isRead
  split at isRead
  · exact proper_of_ofParts? (fraction_lt isFraction) (offset_minutes isOffset) isRead
  · cases isRead

end Montage.Timestamp

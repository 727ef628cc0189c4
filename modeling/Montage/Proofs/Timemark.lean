import Montage.Proofs.Disk.Names
import Montage.Proofs.Number.Exact
import Montage.Proofs.Number.Layout
import Montage.Timemark

/-!
Contract: what the text of a position tells.

Owns:
- the parts of a position in mixed radix (`Parts`), which are counted through by hundredths;
- the texts of the form `HH:MM:SS.cc`, and that they are read as the parts that they show (`read?`);
- the number of hundredths that an exact position is shown with (`IsCounted`), and that it grows with the
  position;
- that the text of a position is read back as that many hundredths.

Does **not** own: rounding to whole numbers (`Montage.Proofs.Number.Rounding`).

Hundredths are counted before they are split, so a carry goes through all parts by itself.
-/

set_option autoImplicit false

namespace Montage.Timemark

open Layout (digitsValue padded)
open Rounding (IsNearestAway halfAway)

/-! ## Parts -/

/-- Hours, and the minutes, seconds and hundredths that do not fill up the next greater part. -/
structure Parts where
  hours : ℕ
  minutes : Fin 60
  seconds : Fin 60
  hundredths : Fin 100
  deriving DecidableEq, Repr

namespace Parts

/-- The seconds that the parts stand for. -/
def position (p : Parts) : ℚ := p.hours * 3600 + p.minutes * 60 + p.seconds + p.hundredths / 100

/-- The parts counted together. -/
def total (p : Parts) : ℕ := ((p.hours * 60 + p.minutes) * 60 + p.seconds) * 100 + p.hundredths

/-- The parts of a number of hundredths. -/
def ofTotal (n : ℕ) : Parts :=
  { hours := n / 100 / 3600
    minutes := Fin.ofNat 60 (n / 100 / 60)
    seconds := Fin.ofNat 60 (n / 100)
    hundredths := Fin.ofNat 100 n }

theorem total_ofTotal (n : ℕ) : (ofTotal n).total = n := by
  show ((n / 100 / 3600 * 60 + n / 100 / 60 % 60) * 60 + n / 100 % 60) * 100 + n % 100 = n
  omega

theorem position_eq (p : Parts) : p.position = p.total / 100 := by
  unfold position total
  push_cast
  ring

theorem position_ofTotal (n : ℕ) : (ofTotal n).position = n / 100 := by
  rw [position_eq, total_ofTotal]

end Parts

/-! ## Texts -/

/-- Digits that stand for a number. -/
structure IsNumeral (digits : List Char) (n : ℕ) : Prop where
  all : ∀ c ∈ digits, c.isDigit = true
  value : digitsValue digits = n

/-- A text shows parts: at least two digits for the hours, and two for each of the others. -/
def Shows (text : String) (p : Parts) : Prop :=
  ∃ hours minutes seconds hundredths : List Char,
    text.toList = hours ++ ':' :: (minutes ++ ':' :: (seconds ++ '.' :: hundredths)) ∧
      (2 ≤ hours.length ∧ IsNumeral hours p.hours) ∧
      (minutes.length = 2 ∧ IsNumeral minutes p.minutes) ∧
      (seconds.length = 2 ∧ IsNumeral seconds p.seconds) ∧
      hundredths.length = 2 ∧ IsNumeral hundredths p.hundredths

theorem isNumeral_padded (width n : ℕ) : IsNumeral (padded width n).toList n :=
  ⟨Layout.isDigit_padded width n, Layout.digitsValue_padded width n⟩

theorem two_le_length_padded (n : ℕ) : 2 ≤ (padded 2 n).toList.length := by
  rw [padded, String.toList_ofList, List.length_append, List.length_replicate]
  omega

/-- A number of hundredths is shown by its parts. -/
theorem ofHundredths_shows (n : ℕ) : Shows (ofHundredths n) (.ofTotal n) := by
  have pair (m : ℕ) (small : m < 100) : (padded 2 m).toList.length = 2 :=
    Layout.length_padded (by decide) small
  refine ⟨(padded 2 (n / 100 / 3600)).toList, (padded 2 (n / 100 / 60 % 60)).toList,
    (padded 2 (n / 100 % 60)).toList, (padded 2 (n % 100)).toList, ?_,
    ⟨two_le_length_padded _, isNumeral_padded 2 _⟩, ⟨pair _ (by omega), isNumeral_padded 2 _⟩,
    ⟨pair _ (by omega), isNumeral_padded 2 _⟩, pair _ (by omega), isNumeral_padded 2 _⟩
  simp [ofHundredths]

/-! ## Reading -/

/-- Two digits that stand for a number below a bound. -/
def pair? (bound : ℕ) (digits : List Char) : Option (Fin bound) :=
  if small : digitsValue digits < bound then
    if digits.length = 2 ∧ digits.all Char.isDigit then some ⟨digitsValue digits, small⟩ else none
  else none

/-- Two digits or more. -/
def hours? (digits : List Char) : Option ℕ :=
  if 2 ≤ digits.length ∧ digits.all Char.isDigit then some (digitsValue digits) else none

/-- Reads the parts that a text shows, if it has the form `HH:MM:SS.cc`. -/
def read? (text : String) : Option Parts :=
  match Text.splitOn ':' text.toList with
  | [hours, minutes, rest] =>
    match Text.splitOn '.' rest with
    | [seconds, hundredths] => do
      let hours ← hours? hours
      let minutes ← pair? 60 minutes
      let seconds ← pair? 60 seconds
      let hundredths ← pair? 100 hundredths
      some { hours, minutes, seconds, hundredths }
    | _ => none
  | _ => none

theorem pair?_eq_some_iff {bound : ℕ} {digits : List Char} {n : Fin bound} :
    pair? bound digits = some n ↔ digits.length = 2 ∧ IsNumeral digits n := by
  unfold pair?
  constructor
  · intro isRead
    split_ifs at isRead with small isPair
    obtain rfl := Option.some.inj isRead
    exact ⟨isPair.1, List.all_eq_true.mp isPair.2, rfl⟩
  · rintro ⟨length, all, value⟩
    rw [dif_pos (value ▸ n.isLt), if_pos ⟨length, List.all_eq_true.mpr all⟩]
    exact congrArg some (Fin.ext value)

theorem hours?_eq_some_iff {digits : List Char} {n : ℕ} :
    hours? digits = some n ↔ 2 ≤ digits.length ∧ IsNumeral digits n := by
  unfold hours?
  constructor
  · intro isRead
    split_ifs at isRead with isHours
    exact ⟨isHours.1, List.all_eq_true.mp isHours.2, Option.some.inj isRead⟩
  · rintro ⟨length, all, value⟩
    rw [if_pos ⟨length, List.all_eq_true.mpr all⟩, value]

theorem IsNumeral.not_mem {digits : List Char} {n : ℕ} (numeral : IsNumeral digits n) {c : Char}
    (letter : c.isDigit = false) : c ∉ digits := by
  intro member
  rw [numeral.all c member] at letter
  cases letter

/-- Exactly the texts that show parts are read, each as the parts that it shows. -/
theorem read?_eq_some_iff {text : String} {p : Parts} : read? text = some p ↔ Shows text p := by
  constructor
  · intro isRead
    unfold read? at isRead
    split at isRead
    · rename_i hours minutes rest whole
      split at isRead
      · rename_i seconds hundredths fraction
        obtain ⟨-, -, whole⟩ := Text.splitOn_eq_iff.mp whole
        obtain ⟨-, -, fraction⟩ := Text.splitOn_eq_iff.mp fraction
        simp only [Option.bind_eq_bind, Option.bind_eq_some_iff, Option.some.injEq] at isRead
        obtain ⟨_, isHours, _, isMinutes, _, isSeconds, _, isHundredths, rfl⟩ := isRead
        refine ⟨hours, minutes, seconds, hundredths, ?_, hours?_eq_some_iff.mp isHours,
          pair?_eq_some_iff.mp isMinutes, pair?_eq_some_iff.mp isSeconds,
          pair?_eq_some_iff.mp isHundredths⟩
        rw [whole, fraction]
        simp
      · cases isRead
    · cases isRead
  · rintro ⟨hours, minutes, seconds, hundredths, whole, isHours, isMinutes, isSeconds, isHundredths⟩
    have fraction : Text.splitOn '.' (seconds ++ '.' :: hundredths) = [seconds, hundredths] := by
      refine Text.splitOn_eq_iff.mpr ⟨by simp, ?_, by simp⟩
      simp [isSeconds.2.not_mem, isHundredths.2.not_mem]
    have parts : Text.splitOn ':' text.toList = [hours, minutes, seconds ++ '.' :: hundredths] := by
      refine Text.splitOn_eq_iff.mpr ⟨by simp, ?_, by simp [whole]⟩
      simp [isHours.2.not_mem, isMinutes.2.not_mem, isSeconds.2.not_mem, isHundredths.2.not_mem]
    rw [read?, parts]
    simp only [fraction, hours?_eq_some_iff.mpr isHours, pair?_eq_some_iff.mpr isMinutes,
      pair?_eq_some_iff.mpr isSeconds, pair?_eq_some_iff.mpr isHundredths, Option.bind_eq_bind,
      Option.bind_some]

/-! ## Counting -/

/-- The number of hundredths that a position is shown with: the nearest one to it, but none below zero and none
above what 64 bits hold; no hundredths for what is no finite number. -/
structure IsCounted (x : Extended) (n : ℕ) : Prop where
  finite : ∀ q, x = .fin q →
    ∃ nearest : ℤ, IsNearestAway (100 * max q 0) nearest ∧ (n : ℤ) = min nearest (2 ^ 64 - 1)
  infinite : Scalar.isFinite x = false → n = 0

theorem hundredths_fin (q : ℚ) :
    hundredths (Extended.fin q) = (min (halfAway (100 * max q 0)) (2 ^ 64 - 1)).toNat := by
  have room : ((limit : ℕ) : ℤ) = 2 ^ 64 - 1 := by decide
  unfold hundredths
  rw [Extended.isFinite_fin, if_pos rfl, Extended.zero_eq, Extended.max_fin, Extended.hundred_eq]
  dsimp only
  rw [Extended.fin_mul_fin, Extended.roundWithin_fin, room, mul_comm, min_comm]
  omega

theorem hundredths_isCounted (x : Extended) : IsCounted x (hundredths x) := by
  constructor
  · rintro q rfl
    refine ⟨halfAway (100 * max q 0), Rounding.halfAway_isNearestAway _, ?_⟩
    have nonneg : 0 ≤ halfAway (100 * max q 0) := by
      calc (0 : ℤ) = halfAway ((0 : ℤ) : ℚ) := (Rounding.halfAway_intCast 0).symm
        _ ≤ halfAway (100 * max q 0) := Rounding.halfAway_mono (by simp)
    rw [hundredths_fin]
    omega
  · intro infinite
    unfold hundredths
    rw [infinite, if_neg Bool.false_ne_true]
    decide +kernel

theorem hundredths_mono {p q : ℚ} (grows : p ≤ q) :
    hundredths (Extended.fin p) ≤ hundredths (Extended.fin q) := by
  have rounded : halfAway (100 * max p 0) ≤ halfAway (100 * max q 0) :=
    Rounding.halfAway_mono (by gcongr)
  rw [hundredths_fin, hundredths_fin]
  omega

/-! ## Positions and their texts -/

/-- The parts that a position is shown with. -/
def shown (x : Extended) : Parts := .ofTotal (hundredths x)

/-- A text is the timemark of a position with some parts: it shows them, is read back as them, and they are the
hundredths that the position is counted with. -/
structure IsTimemarkOf (text : String) (x : Extended) (p : Parts) : Prop where
  shows : Shows text p
  read : read? text = some p
  counted : ∃ n : ℕ, IsCounted x n ∧ p.position = n / 100

/-- The text of every position has the form `HH:MM:SS.cc` and is read back as the position to the nearest
hundredth. What is read back grows with the position. -/
theorem text_isTimemarkOf :
    (∀ x : Extended, IsTimemarkOf (text x) x (shown x)) ∧
      Monotone fun q : ℚ => (shown (Extended.fin q)).position := by
  constructor
  · intro x
    have shows : Shows (text x) (shown x) := ofHundredths_shows (hundredths x)
    exact ⟨shows, read?_eq_some_iff.mpr shows, hundredths x, hundredths_isCounted x,
      Parts.position_ofTotal _⟩
  · intro p q grows
    have counted : (hundredths (Extended.fin p) : ℚ) ≤ hundredths (Extended.fin q) := by
      exact_mod_cast hundredths_mono grows
    calc (shown (Extended.fin p)).position = (hundredths (Extended.fin p) : ℚ) / 100 :=
          Parts.position_ofTotal _
      _ ≤ (hundredths (Extended.fin q) : ℚ) / 100 := by gcongr
      _ = (shown (Extended.fin q)).position := (Parts.position_ofTotal _).symm

/-- Shortly before a minute is full it is carried into. -/
example : text (Extended.fin (59995 / 1000)) = "00:01:00.00" := by decide +kernel

end Montage.Timemark

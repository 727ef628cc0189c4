import Montage.Proofs.Engine.Run
import Montage.Proofs.Number.Binary64
import Montage.Proofs.Number.Exact
import Montage.Proofs.Number.Product

/-!
Contract: reports are percentages as long as the engine tells numbers.

Owns:
- that a clamp holds every number between its bounds and lets pass what is none;
- when a share of the expected duration is a percentage (`isPercentage_fraction_iff`);
- when all reports of a run are percentages (`reports_arePercentages_iff`), and a run in which one is not.

Does **not** own: which reports a run makes (`Montage.Proofs.Engine.Run`), and the size of a rounded
product (`Montage.Proofs.Number.Product`).

Of the values that can be read as numbers, all but one are harmless: positions before the start and beyond
the end are clamped, infinite ones with them. What is no number passes the clamp, since it is neither
below a bound nor above one.
-/

set_option autoImplicit false

namespace Montage

/-! ## Clamping -/

namespace Scalar

variable {α : Type} [Scalar α] [Faithful α] {x low high : α} {p q : ℚ}

/-- What is no number is neither below a bound nor above one, and passes a clamp. -/
theorem clamp_of_isNaN (isNone : isNaN x = true) (low high : α) : clamp x low high = x := by
  rw [isNaN_iff_exact] at isNone
  have notBelow : ¬ x < low := by
    rw [Faithful.lt_iff, isNone]
    exact Bool.false_ne_true
  have notAbove : ¬ high < x := by
    rw [Faithful.lt_iff, isNone]
    cases exact high <;> exact Bool.false_ne_true
  simp only [clamp, if_neg notBelow, if_neg notAbove]

/-- A number is clamped to a finite one between the bounds. -/
theorem exact_clamp (isNumber : isNaN x = false) (isLow : exact low = .fin p)
    (isHigh : exact high = .fin q) (ordered : p ≤ q) :
    ∃ r, exact (clamp x low high) = .fin r ∧ p ≤ r ∧ r ≤ q := by
  unfold clamp
  by_cases below : x < low
  · have notAbove : ¬ high < low := by
      rw [lt_iff_of_exact isHigh isLow]
      exact not_lt.mpr ordered
    rw [if_pos below]
    dsimp only
    rw [if_neg notAbove]
    exact ⟨p, isLow, le_rfl, ordered⟩
  rw [if_neg below]
  dsimp only
  by_cases above : high < x
  · rw [if_pos above]
    exact ⟨q, isHigh, ordered, le_rfl⟩
  rw [if_neg above]
  rw [Faithful.lt_iff] at below above
  rw [isLow] at below
  rw [isHigh] at above
  cases value : exact x with
  | nan => rw [(isNaN_iff_exact x).mpr value] at isNumber; cases isNumber
  | negInf => exact (below (by rw [value]; rfl)).elim
  | posInf => exact (above (by rw [value]; rfl)).elim
  | fin r =>
      rw [value, Extended.fin_lt_fin, not_lt] at below above
      exact ⟨r, rfl, below, above⟩

end Scalar

namespace Engine

open Render (Job)
open Scalar (isNaN isFinite exact)

/-! ## Percentages -/

section Percentages

variable {α : Type} [Scalar α]

/-- A number from zero to a hundred. -/
def IsPercentage (x : α) : Prop := 0 ≤ x ∧ x ≤ 100

instance (x : α) : Decidable (IsPercentage x) := inferInstanceAs (Decidable (_ ∧ _))

/-- The part of the expected duration that a position stands for, in hundredths. -/
def share (position expected : α) : α := fraction position expected * 100

/-- Whether a position stands for a part of an expected duration. -/
def HasShare (position expected : α) : Prop :=
  isNaN position = false ∧ isNaN expected = false ∧ (isFinite position = true ∨ isFinite expected = true)

/-- Whether the last of some lines makes a report, and not that of the end. -/
def IsOpen (texts : List (List Char)) : Prop :=
  ∃ value, texts.getLast?.bind progressValue? = some value ∧ value ≠ "end"

/-- Whether a duration is expected at all. -/
def IsExpected (expected : α) : Prop := ¬ expected ≤ 0

/-- Whether the position stands for a part of the expected duration whenever lines make a report before
the end. -/
def IsMeasured (expected : α) (texts : List (List Char)) : Prop :=
  IsExpected expected → ∀ before ∈ texts.inits, IsOpen before → HasShare (positionTold before) expected

end Percentages

theorem exact_hundred : exact (@OfNat.ofNat Float 100 (Scalar.instOfNat 100)) = .fin 100 := by
  decide +kernel

theorem isPercentage_hundred : IsPercentage (@OfNat.ofNat Float 100 (Scalar.instOfNat 100)) := by
  decide +kernel

theorem isPercentage_iff (x : Float) :
    IsPercentage x ↔ ∃ r, exact x = .fin r ∧ 0 ≤ r ∧ r ≤ 100 := by
  have bounds : IsPercentage x ↔ Extended.fin 0 ≤ exact x ∧ exact x ≤ .fin 100 := by
    unfold IsPercentage
    rw [Scalar.Faithful.le_iff _ x, Scalar.Faithful.le_iff x, Scalar.Faithful.exact_zero, exact_hundred]
  rw [bounds]
  constructor
  · rintro ⟨notBelow, notAbove⟩
    exact Extended.exists_fin_between notBelow notAbove
  · rintro ⟨r, value, notBelow, notAbove⟩
    rw [value, Extended.fin_le_fin, Extended.fin_le_fin]
    exact ⟨notBelow, notAbove⟩

/-- A share of what is expected is a percentage exactly if it is a number. -/
theorem isPercentage_share_iff (position expected : Float) :
    IsPercentage (share position expected) ↔
      (IsExpected expected → isNaN (position / expected) = false) := by
  unfold share fraction IsExpected
  split
  next nothing => exact iff_of_true (by decide +kernel) fun isExpected => (isExpected nothing).elim
  next isExpected =>
    cases kind : isNaN (position / expected) with
    | true =>
        rw [Scalar.clamp_of_isNaN kind, isPercentage_iff]
        refine iff_of_false ?_ fun isNumber => Bool.false_ne_true (isNumber isExpected).symm
        rintro ⟨r, value, -, -⟩
        cases value.symm.trans ((Scalar.isNaN_iff_exact _).mp (Binary64.isNaN_mul_of_isNaN kind _))
    | false =>
        obtain ⟨p, isFirst, notBelow, notAbove⟩ :=
          Scalar.exact_clamp kind Scalar.Faithful.exact_zero Scalar.Faithful.exact_one zero_le_one
        refine iff_of_true ?_ fun _ => rfl
        rcases notAbove.lt_or_eq with less | rfl
        · exact (isPercentage_iff _).mpr (Binary64.exact_mul_of_lt_one isFirst exact_hundred notBelow less
            (by norm_num))
        · rw [Scalar.Faithful.eq_of_exact _ _ 1 isFirst Scalar.Faithful.exact_one one_ne_zero]
          decide +kernel

theorem isNumber_div_iff {position expected : Float} (isExpected : IsExpected expected) :
    isNaN (position / expected) = false ↔ HasShare position expected := by
  have nonzero : exact expected ≠ .fin 0 := fun isZero =>
    isExpected ((Scalar.le_iff_of_exact isZero Scalar.Faithful.exact_zero).mpr le_rfl)
  unfold HasShare
  rw [← Bool.not_eq_true, Binary64.isNaN_div_iff nonzero, not_or, not_or, not_and_or, Bool.not_eq_true,
    Bool.not_eq_true, Bool.not_eq_false, Bool.not_eq_false]

/-! ## Reports -/

section Reports

variable (expected : Float) (texts : List (List Char))

/-- The report that the last of some lines makes is a percentage if the position stands for a part of what
is expected, or if it is that of the end. -/
theorem isPercentage_reportAt_iff :
    (∀ report, reportAt expected texts = some report → IsPercentage report.percent) ↔
      (IsExpected expected → IsOpen texts → HasShare (positionTold texts) expected) := by
  unfold reportAt IsOpen
  cases texts.getLast?.bind progressValue? with
  | none => simp
  | some value =>
      by_cases isEnd : value = "end"
      · simp [isEnd, isPercentage_hundred]
      · have isShare : IsPercentage (share (positionTold texts) expected) ↔
            (IsExpected expected → HasShare (positionTold texts) expected) :=
          (isPercentage_share_iff _ expected).trans (forall_congr' isNumber_div_iff)
        have isOpen : ∃ told, some value = some told ∧ told ≠ "end" := ⟨value, rfl, isEnd⟩
        rw [forall_comm, forall_prop_of_true isOpen, ← isShare]
        simp [isEnd, share]

theorem reportsOn_arePercentages_iff :
    (∀ report ∈ reportsOn expected texts, IsPercentage report.percent) ↔ IsMeasured expected texts := by
  unfold reportsOn IsMeasured
  rw [List.forall_mem_filterMap]
  simp only [isPercentage_reportAt_iff]
  exact ⟨fun measured isExpected before isPart => measured before isPart isExpected,
    fun measured before isPart isExpected => measured isExpected before isPart⟩

/-- A run adds only the report of its success to what the lines make. -/
theorem ending_arePercentages_iff (cancelled : Bool) (finished : Finished) :
    (∀ report ∈ (ending expected cancelled finished).2, IsPercentage report.percent) ↔
      (cancelled = false → IsMeasured expected (readable (lines finished.output.toList))) := by
  rw [← reportsOn_arePercentages_iff]
  cases cancelled with
  | true => simp [ending]
  | false =>
      obtain ⟨last, isAll, isWhole⟩ := reports_ending expected finished
      rw [isAll, List.forall_mem_append, forall_prop_of_true rfl]
      refine and_iff_left_iff_imp.mpr fun _ report isLast => ?_
      rw [isWhole report isLast]
      exact isPercentage_hundred

/-- All reports of a run are percentages exactly if it is cancelled from the start, or the program that it
starts tells positions that stand for parts of what is expected. -/
theorem reports_arePercentages_iff (machine : Machine) (program : String) (job : Job Float) (output : Path)
    (cancelled : Bool) :
    (∀ report ∈ (recorded machine program job output cancelled).1.2, IsPercentage report.percent) ↔
      ∀ finished, ended? machine program job output = some finished → cancelled = false →
        IsMeasured job.encoding.totalDuration (readable (lines finished.output.toList)) := by
  cases ended : ended? machine program job output with
  | none =>
      rw [reports_of_ended?_eq_none ended]
      simp
  | some finished =>
      rw [reports_of_ended? ended, ending_arePercentages_iff]
      simp

end Reports

/-! ## A lost position -/

/-- An engine that tells a position that is no number and ends well. -/
def lostRun : Finished :=
  { output := "out_time_us=nan\nprogress=continue\n".toUTF8
    errors := .empty
    status := .exited 0 }

/-- The report on a position that is no number is no percentage. -/
theorem lostRun_report_not_percentage :
    ∃ report ∈ (recorded (studio lostRun) "ffmpeg" (shortFilm : Job Float) ⟨"/film.mp4"⟩ false).1.2,
      ¬ IsPercentage report.percent := by
  have ended : ended? (studio lostRun) "ffmpeg" (shortFilm : Job Float) ⟨"/film.mp4"⟩ = some lostRun := by
    decide +kernel
  rw [reports_of_ended? ended]
  decide +kernel

end Engine

end Montage

import Mathlib.Data.List.Basic
import Mathlib.Data.List.Infix
import Mathlib.Data.List.ReduceOption
import Montage.Engine.Progress

/-!
Contract: what is heard of the engine's output.

Owns:
- what lines of text tell, by the last readable value of each key (`toldBy`), and the report that a line
  makes (`reportAt`);
- that listening to the bytes of an output finds just this, up to the first line that is no text.

Does **not** own: the run that the output comes from (`Montage.Proofs.Engine.Run`), and the size of the
numbers (`Montage.Proofs.Engine.Percent`).

Listening carries a state from line to line. Seen from outside, a report depends on the lines up to its
own, and of these on the last one that gives a number for a key.
-/

set_option autoImplicit false

namespace Montage.Engine

variable {α : Type} [Scalar α]

/-! ## What lines tell -/

def numberFor? (keys : List String) (line : List Char) : Option α :=
  (keyValue? line).bind fun entry => if entry.1 ∈ keys then Layout.read? entry.2 else none

/-- The value of a line whose key is `progress`. -/
def progressValue? (line : List Char) : Option String :=
  (keyValue? line).bind fun entry => if entry.1 = "progress" then some entry.2 else none

/-- The last number that lines give for one of some keys. -/
def lastNumber? (keys : List String) (texts : List (List Char)) : Option α :=
  texts.reverse.findSome? (numberFor? keys)

/-- The position in seconds that lines tell; zero before one of them does. -/
def positionTold (texts : List (List Char)) : α :=
  match (lastNumber? ["out_time_ms", "out_time_us"] texts : Option α) with
  | some microseconds => microseconds / 1000000
  | none => 0

/-- The speed that lines tell; zero before one of them does. -/
def rateTold (texts : List (List Char)) : α :=
  (lastNumber? ["fps"] texts).getD 0

/-- Whether the last line about the progress tells the end. -/
def endTold (texts : List (List Char)) : Bool :=
  texts.reverse.findSome? progressValue? == some "end"

/-- What lines tell. -/
def toldBy (texts : List (List Char)) : Told α :=
  { position := positionTold texts, framesPerSecond := rateTold texts, complete := endTold texts }

/-- The report that the last of some lines makes, if it makes one. -/
def reportAt (expected : α) (texts : List (List Char)) : Option (Progress α) :=
  match texts.getLast?.bind progressValue? with
  | some value =>
    some
      { percent := if value = "end" then 100 else fraction (positionTold texts) expected * 100
        framesPerSecond := rateTold texts
        timemark := Timemark.text (positionTold texts : α) }
  | none => none

/-- The reports that lines make, in order. -/
def reportsOn (expected : α) (texts : List (List Char)) : List (Progress α) :=
  texts.inits.filterMap (reportAt expected)

/-- The lines that are read as text: all before the first one that is none. -/
def readable (raw : List (List UInt8)) : List (List Char) :=
  ((raw.map lineText?).takeWhile Option.isSome).reduceOption

/-! ## One line -/

section Line

variable (before : List (List Char)) (line : List Char)

theorem lastNumber?_concat (keys : List String) :
    (lastNumber? keys (before ++ [line]) : Option α) =
      (numberFor? keys line).or (lastNumber? keys before) := by
  unfold lastNumber?
  rw [List.reverse_concat, List.findSome?_cons]
  cases (numberFor? keys line : Option α) <;> rfl

theorem endTold_concat :
    endTold (before ++ [line]) = ((progressValue? line).map (· == "end")).getD (endTold before) := by
  unfold endTold
  rw [List.reverse_concat, List.findSome?_cons]
  cases progressValue? line <;> rfl

variable {before line}

/-- A line without an equals sign tells nothing. -/
theorem toldBy_concat_of_none (mute : keyValue? line = none) :
    (toldBy (before ++ [line]) : Told α) = toldBy before := by
  unfold toldBy positionTold rateTold
  rw [lastNumber?_concat, lastNumber?_concat, endTold_concat]
  simp [numberFor?, progressValue?, mute]

/-- A line with a key and a value tells what they say. -/
theorem toldBy_concat_of_some {key value : String} (spoken : keyValue? line = some (key, value)) :
    (toldBy (before ++ [line]) : Told α) = (toldBy before).update key value := by
  unfold toldBy positionTold rateTold
  rw [lastNumber?_concat, lastNumber?_concat, endTold_concat]
  simp only [numberFor?, progressValue?, spoken, Option.bind_some, Told.update]
  by_cases isPosition : key = "out_time_ms" ∨ key = "out_time_us"
  · have otherKeys : key ≠ "fps" ∧ key ≠ "progress" := by
      rcases isPosition with rfl | rfl <;> decide
    rw [if_pos isPosition]
    cases (Layout.read? value : Option α) <;> simp [isPosition, otherKeys]
  by_cases isRate : key = "fps"
  · subst isRate
    cases (Layout.read? value : Option α) <;> simp
  by_cases isProgress : key = "progress"
  · subst isProgress
    simp
  · simp [isPosition, isRate, isProgress]

/-- Hearing a line turns what the lines before it tell into what they tell with it, and makes its
report. -/
theorem hear_toldBy (expected : α) :
    (toldBy before).hear expected line =
      (toldBy (before ++ [line]), reportAt expected (before ++ [line])) := by
  unfold reportAt Told.hear
  rw [List.getLast?_concat, Option.bind_some]
  cases spoken : keyValue? line with
  | none =>
      rw [toldBy_concat_of_none spoken]
      simp [progressValue?, spoken]
  | some entry =>
      obtain ⟨key, value⟩ := entry
      rw [toldBy_concat_of_some spoken]
      dsimp only
      by_cases isProgress : key = "progress"
      · -- The line's own value tells whether the report is the last one.
        have isValue : progressValue? line = some value := by simp [progressValue?, spoken, isProgress]
        rw [if_pos isProgress, isValue, ← toldBy_concat_of_some spoken]
        simp [Told.report, toldBy, endTold_concat, isValue]
      · simp [progressValue?, spoken, isProgress]

end Line

/-! ## All lines -/

theorem readable_cons_of_none {line : List UInt8} {rest : List (List UInt8)}
    (noText : lineText? line = none) : readable (line :: rest) = [] := by
  simp [readable, noText]

theorem readable_cons_of_some {line : List UInt8} {rest : List (List UInt8)} {text : List Char}
    (isText : lineText? line = some text) : readable (line :: rest) = text :: readable rest := by
  simp [readable, isText]

/-- A line adds its report to those of the lines before it. -/
theorem reportsOn_concat (expected : α) (before : List (List Char)) (line : List Char) :
    reportsOn expected (before ++ [line]) =
      reportsOn expected before ++ (reportAt expected (before ++ [line])).toList := by
  unfold reportsOn
  rw [List.inits_append, List.filterMap_append]
  congr 1

/-- There is one report for each line about the progress. -/
theorem length_reportsOn (expected : α) (texts : List (List Char)) :
    (reportsOn expected texts).length = texts.countP fun line => (progressValue? line).isSome := by
  induction texts using List.reverseRecOn with
  | nil => rfl
  | append_singleton before line inductionHypothesis =>
      rw [reportsOn_concat, List.length_append, inductionHypothesis, List.countP_append,
        List.countP_singleton]
      unfold reportAt
      rw [List.getLast?_concat, Option.bind_some]
      cases progressValue? line <;> rfl

/-- What is heard of lines after other lines: the reports of all that can be read. -/
theorem listen_toldBy (expected : α) (before : List (List Char)) (raw : List (List UInt8)) :
    ((toldBy before).listen expected raw).told = toldBy (before ++ readable raw) ∧
      reportsOn expected before ++ ((toldBy before).listen expected raw).reports =
        reportsOn expected (before ++ readable raw) ∧
      ((toldBy before).listen expected raw).isText =
        raw.all fun line => (lineText? line).isSome := by
  induction raw generalizing before with
  | nil => simp [Told.listen, readable]
  | cons line rest inductionHypothesis =>
      unfold Told.listen
      cases isText : lineText? line with
      | none => simp [readable_cons_of_none isText, isText]
      | some text =>
          have joined : before ++ text :: readable rest = before ++ [text] ++ readable rest :=
            List.append_cons _ _ _
          dsimp only
          rw [hear_toldBy, readable_cons_of_some isText, joined, ← List.append_assoc,
            ← reportsOn_concat, List.all_cons, isText]
          exact inductionHypothesis (before ++ [text])

/-- What is heard of an output. -/
theorem listen_nothing (expected : α) (raw : List (List UInt8)) :
    Told.nothing.listen expected raw =
      { told := toldBy (readable raw)
        reports := reportsOn expected (readable raw)
        isText := raw.all fun line => (lineText? line).isSome } := by
  have nothingTold : (toldBy [] : Told α) = Told.nothing := rfl
  have heard := listen_toldBy expected [] raw
  rw [nothingTold] at heard
  generalize Told.nothing.listen expected raw = result at heard ⊢
  obtain ⟨told, reports, isText⟩ := result
  rw [Heard.mk.injEq]
  exact heard

end Montage.Engine

import Mathlib.Logic.Function.Basic
import Montage.Render.Compile

/-!
Contract: the labels of a compiled graph tell all of its links apart.

Owns: the links of a compiled graph as data, and the injectivity of their labels.

Does **not** own: which links a graph writes and reads (`Montage.Proofs.Render.Wiring`).

A label is a word, in a family of links followed by a decimal number. The digits of the text give the
number back and its other characters the word, so no two links share a label, whatever their numbers.
-/

set_option autoImplicit false

namespace Montage.Render

/-- A link between two chains of a compiled graph, or from the last chain to the output file. -/
inductive Link where
  | base
  | clip (n : Nat)
  | composition (n : Nat)
  | text (n : Nat)
  | video
  | sound (n : Nat)
  | audio
  deriving DecidableEq, Repr

namespace Link

def label : Link → PadLabel
  | .base => baseLabel
  | .clip n => clipLabel n
  | .composition n => compositionLabel n
  | .text n => textLabel n
  | .video => videoLabel
  | .sound n => soundLabel n
  | .audio => audioLabel

def word : Link → List Char
  | .base => "base".toList
  | .clip _ => "v".toList
  | .composition _ => "ov".toList
  | .text _ => "txt".toList
  | .video => "outv".toList
  | .sound _ => "a".toList
  | .audio => "outa".toList

/-- The number of a link within its family. -/
def number? : Link → Option Nat
  | .clip n | .composition n | .text n | .sound n => some n
  | .base | .video | .audio => none

def digits : Option Nat → List Char
  | some n => Nat.toDigits 10 n
  | none => []

theorem toList_label (link : Link) :
    link.label.name.toList = link.word ++ digits link.number? := by
  cases link <;>
    simp [label, word, number?, digits, baseLabel, clipLabel, compositionLabel, textLabel,
      videoLabel, soundLabel, audioLabel, PadLabel.numbered]

theorem isDigit_of_mem_digits {number : Option Nat} {c : Char} (member : c ∈ digits number) :
    c.isDigit = true := by
  cases number with
  | none => cases member
  | some n => exact Nat.isDigit_of_mem_toDigits (by decide) (by decide) member

theorem not_isDigit_of_mem_word {link : Link} {c : Char} (member : c ∈ link.word) :
    c.isDigit = false := by
  have wordless : link.word.all fun c => !c.isDigit := by cases link <;> rfl
  simpa using List.all_eq_true.mp wordless c member

theorem filter_isDigit_label (link : Link) :
    link.label.name.toList.filter (fun c => c.isDigit) = digits link.number? := by
  rw [toList_label, List.filter_append,
    List.filter_eq_nil_iff.mpr fun c member => by simp [not_isDigit_of_mem_word member],
    List.filter_eq_self.mpr fun c member => isDigit_of_mem_digits member, List.nil_append]

theorem filter_not_isDigit_label (link : Link) :
    link.label.name.toList.filter (fun c => !c.isDigit) = link.word := by
  rw [toList_label, List.filter_append,
    List.filter_eq_self.mpr fun c member => by simp [not_isDigit_of_mem_word member],
    List.filter_eq_nil_iff.mpr fun c member => by simp [isDigit_of_mem_digits member],
    List.append_nil]

theorem digits_injective : Function.Injective digits := by
  intro first second same
  cases first with
  | none =>
      cases second with
      | none => rfl
      | some m => exact absurd same.symm Nat.toDigits_ne_nil
  | some n =>
      cases second with
      | none => exact absurd same Nat.toDigits_ne_nil
      | some m =>
          have value := congrArg (fun digits => Nat.ofDigitChars 10 digits 0) same
          simp only [digits, Nat.ofDigitChars_ten_toDigits] at value
          rw [value]

/-- A link is known from its word and its number. -/
theorem eq_of_word_of_number {first second : Link} (sameWord : first.word = second.word)
    (sameNumber : first.number? = second.number?) : first = second := by
  cases first <;> cases second <;> simp_all [word, number?]

/-- No two links share a label. -/
theorem label_injective : Function.Injective label := by
  intro first second same
  refine eq_of_word_of_number ?_ (digits_injective ?_)
  · rw [← filter_not_isDigit_label first, same, filter_not_isDigit_label]
  · rw [← filter_isDigit_label first, same, filter_isDigit_label]

end Link

end Montage.Render

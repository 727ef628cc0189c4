import Mathlib.Data.List.TakeWhile
import Mathlib.Tactic.SplitIfs
import Montage.Proofs.Json.Lexer

/-!
Contract: numbers in written texts.

Owns:
- that a whole number of 64 bits is read back as it was written;
- that the text of a fractional number is one word.

Does **not** own: whether a fractional number is read back, which takes the digits that are written and
the arithmetic of reading.
-/

set_option autoImplicit false

namespace Montage.Json

open Lexer (wordToken? isWordChar Lexes)

/-! ## Digits -/

theorem isWordChar_of_isDigit {c : Char} (isDigit : c.isDigit = true) : isWordChar c = true := by
  simp [isWordChar, Char.isAlphanum, isDigit]

theorem isDigit_toDigits (n : Nat) : ∀ c ∈ Nat.toDigits 10 n, c.isDigit = true :=
  fun _ member => Nat.isDigit_of_mem_toDigits (by decide) (by decide) member

theorem digitsValue_toDigits (n : Nat) : Layout.digitsValue (Nat.toDigits 10 n) = n := by
  have folded (s : List Char) (total : Nat) :
      s.foldl (fun total c => total * 10 + (c.toNat - '0'.toNat)) total =
        Nat.ofDigitChars 10 s total := by
    rw [Nat.ofDigitChars_eq_foldl]
    congr 1
    funext total c
    rw [Nat.mul_comm]
  unfold Layout.digitsValue
  rw [folded, Nat.ofDigitChars_ten_toDigits]

/-- Only the digits of zero start with a zero. -/
theorem toDigits_first (n : Nat) :
    Nat.toDigits 10 n = ['0'] ∨ ∃ first rest, Nat.toDigits 10 n = first :: rest ∧ first ≠ '0' := by
  induction n using Nat.strongRecOn with
  | ind n inductionHypothesis =>
      by_cases small : n < 10
      · rw [Nat.toDigits_of_lt_base small]
        have digit : ∀ k < 10, [Nat.digitChar k] = ['0'] ∨
            ∃ first rest, [Nat.digitChar k] = first :: rest ∧ first ≠ '0' := by
          intro k less
          by_cases zero : k = 0
          · exact Or.inl (by rw [zero]; rfl)
          · refine Or.inr ⟨Nat.digitChar k, [], rfl, ?_⟩
            have apart : ∀ k < 10, k ≠ 0 → Nat.digitChar k ≠ '0' := by decide
            exact apart k less zero
        exact digit n small
      · have large : 10 ≤ n := Nat.not_lt.mp small
        have positive : n / 10 ≠ 0 := by omega
        refine Or.inr ?_
        rw [Nat.toDigits_of_base_le (by decide) large]
        rcases inductionHypothesis (n / 10) (by omega) with zero | ⟨first, rest, digits, apart⟩
        · have value := digitsValue_toDigits (n / 10)
          rw [zero] at value
          exact (positive value.symm).elim
        · exact ⟨first, rest ++ [Nat.digitChar (n % 10)], by rw [digits, List.cons_append], apart⟩

/-! ## Whole numbers -/

def wholeChars (negative : Bool) (n : Nat) : List Char :=
  (if negative then ['-'] else []) ++ Nat.toDigits 10 n

theorem isWordChar_wholeChars (negative : Bool) (n : Nat) :
    ∀ c ∈ wholeChars negative n, isWordChar c = true := by
  intro c member
  rcases List.mem_append.mp member with sign | digit
  · cases negative with
    | false => cases sign
    | true =>
        rw [List.mem_singleton.mp sign]
        rfl
  · exact isWordChar_of_isDigit (isDigit_toDigits n c digit)

theorem wholeChars_ne_nil (negative : Bool) (n : Nat) : wholeChars negative n ≠ [] :=
  List.append_ne_nil_of_right_ne_nil _ Nat.toDigits_ne_nil

theorem literal?_wholeChars (negative : Bool) (n : Nat) :
    Number.literal? (wholeChars negative n) =
      some ⟨negative, Nat.toDigits 10 n, none, none⟩ := by
  have digits := isDigit_toDigits n
  have taken := List.takeWhile_eq_self_iff.mpr digits
  have dropped := List.dropWhile_eq_nil_iff.mpr digits
  rcases toDigits_first n with zero | ⟨first, rest, isDigits, apart⟩
  · unfold wholeChars
    rw [zero]
    cases negative <;> rfl
  · have unsigned : first ≠ '-' := by
      rintro rfl
      have wrong := digits '-' (by rw [isDigits]; exact List.mem_cons_self)
      cases wrong
    unfold wholeChars
    rw [isDigits] at taken dropped ⊢
    cases negative <;>
      simp [Number.literal?, taken, dropped, apart, unsigned]

theorem toList_toString (n : Int) :
    (toString n).toList = wholeChars (decide (n < 0)) n.natAbs := by
  cases n with
  | ofNat m =>
      have natural : ¬ (Int.ofNat m < 0) := by simp
      show (Nat.repr m).toList = _
      rw [Nat.toList_repr, decide_eq_false natural]
      rfl
  | negSucc m =>
      have negative : Int.negSucc m < 0 := Int.negSucc_lt_zero m
      show ("-" ++ Nat.repr (m + 1)).toList = _
      rw [String.toList_append, Nat.toList_repr, decide_eq_true negative]
      rfl

theorem wordToken?_of_literal? {s : List Char} {literal : Number.Literal}
    (isNumber : Number.literal? s = some literal) : wordToken? s = some (.number literal) := by
  have apart (word : List Char) (noNumber : Number.literal? word = none) : s ≠ word := by
    rintro rfl
    rw [noNumber] at isNumber
    cases isNumber
  unfold wordToken?
  rw [if_neg (apart _ (by decide)), if_neg (apart _ (by decide)), if_neg (apart _ (by decide)),
    isNumber, Option.map_some]

/-- The whole numbers of 64 bits, with a sign or without. -/
def IsWide (n : Int) : Prop :=
  -0x8000000000000000 ≤ n ∧ n ≤ 0xFFFFFFFFFFFFFFFF

/-- A whole number of 64 bits is read back. -/
theorem value_whole {n : Int} (wide : IsWide n) :
    Number.value ⟨decide (n < 0), Nat.toDigits 10 n.natAbs, none, none⟩ = .whole n := by
  obtain ⟨low, high⟩ := wide
  unfold Number.value
  rw [digitsValue_toDigits]
  by_cases negative : n < 0
  · have fits : 0 < n.natAbs ∧ n.natAbs ≤ 0x8000000000000000 := by omega
    have same : -(n.natAbs : Int) = n := by omega
    simp only [negative, fits, same, Option.isNone_none, decide_true, Bool.and_true, Bool.not_true,
      Bool.and_false, Bool.false_and, Bool.false_eq_true, if_false, and_self, if_true]
  · have fits : n.natAbs ≤ Number.significandLimit := by unfold Number.significandLimit; omega
    have same : (n.natAbs : Int) = n := by omega
    simp only [negative, fits, same, Option.isNone_none, decide_false, decide_true, Bool.and_true,
      Bool.not_false, if_true]

/-! ## Fractional numbers -/

/-- Texts that are read as one word, if at all. -/
def IsWord (s : String) : Prop :=
  ∀ c ∈ s.toList, isWordChar c = true

namespace IsWord

theorem append {s t : String} (first : IsWord s) (second : IsWord t) : IsWord (s ++ t) := by
  intro c member
  rw [String.toList_append] at member
  exact (List.mem_append.mp member).elim (first c) (second c)

theorem ofList {s : List Char} (word : ∀ c ∈ s, isWordChar c = true) : IsWord (String.ofList s) := by
  unfold IsWord
  rwa [String.toList_ofList]

theorem ofAll {s : String} (all : s.toList.all isWordChar = true) : IsWord s :=
  List.all_eq_true.mp all

theorem toString_natural (n : Nat) : IsWord (toString n) := by
  intro c member
  have digits : (toString n).toList = Nat.toDigits 10 n := Nat.toList_repr
  rw [digits] at member
  exact isWordChar_of_isDigit (isDigit_toDigits n c member)

variable {d : Shortest.Digits}

theorem positional (word : ∀ c ∈ d.digits, isWordChar c = true) {wholeTail : String}
    (tail : IsWord wholeTail) : IsWord (d.positional wholeTail) := by
  have zeros (n : Nat) : ∀ c ∈ List.replicate n '0', isWordChar c = true := by
    intro c member
    rw [List.eq_of_mem_replicate member]
    rfl
  have both {s t : List Char} (first : ∀ c ∈ s, isWordChar c = true)
      (second : ∀ c ∈ t, isWordChar c = true) : IsWord (String.ofList (s ++ t)) :=
    ofList fun c member => (List.mem_append.mp member).elim (first c) (second c)
  have front : ∀ c ∈ d.digits.take d.point.toNat, isWordChar c = true :=
    fun c member => word c (List.mem_of_mem_take member)
  have back : ∀ c ∈ d.digits.drop d.point.toNat, isWordChar c = true :=
    fun c member => word c (List.mem_of_mem_drop member)
  simp only [Shortest.Digits.positional]
  split_ifs with below beyond
  · exact append (ofAll (by decide)) (both (zeros _) word)
  · exact append (both word (zeros _)) tail
  · exact append (append (ofList front) (ofAll (by decide))) (ofList back)

theorem scientific (word : ∀ c ∈ d.digits, isWordChar c = true) : IsWord d.scientific := by
  have sign : IsWord (if d.point - 1 < 0 then "-" else "+") := by
    split <;> exact ofAll (by decide)
  refine append (append (append ?_ (ofAll (by decide))) sign) (toString_natural _)
  obtain ⟨digits, point⟩ := d
  match digits with
  | [] =>
      have zero : IsWord "0" := ofAll (by decide)
      exact zero
  | [first] => exact ofList word
  | first :: second :: rest =>
      obtain ⟨isFirst, others⟩ := List.forall_mem_cons.mp word
      exact ofList (List.forall_mem_cons.mpr ⟨isFirst, List.forall_mem_cons.mpr ⟨rfl, others⟩⟩)

end IsWord

theorem isWordChar_of_mem_shortest (x : Float) :
    ∀ c ∈ (Binary64.shortest .toEven x).digits, isWordChar c = true := by
  have significant (n : Nat) : ∀ c ∈ Shortest.significant n, isWordChar c = true := by
    intro c member
    have kept := (List.dropWhile_sublist (· == '0')).subset (List.mem_reverse.mp member)
    exact isWordChar_of_isDigit (isDigit_toDigits n c (List.mem_reverse.mp kept))
  simp only [Binary64.shortest, Shortest.digits]
  split
  · exact significant _
  · exact List.all_eq_true.mp rfl

/-- The text of a number is one word. -/
theorem isWord_json (x : Float) : IsWord (Layout.json x) := by
  have sign : IsWord (if Binary64.signBit x then "-" else "") := by
    split <;> exact IsWord.ofAll (by decide)
  have digits := isWordChar_of_mem_shortest x
  unfold Layout.json
  split
  · exact IsWord.ofAll (by decide)
  dsimp only
  split
  · exact sign.append (IsWord.ofAll (by decide))
  refine sign.append ?_
  split
  · exact IsWord.positional digits (IsWord.ofAll (by decide))
  · exact IsWord.scientific digits

end Montage.Json

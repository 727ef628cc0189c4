import Montage.Json.Reader
import Montage.Json.Writer
import Montage.Proofs.Text.Hex

/-!
Contract: the tokens of written texts.

Owns:
- texts that are read as certain tokens wherever they stand (`Lexer.Lexes`), and how these combine;
- the tokens of words, numbers and quoted strings.

Does **not** own: the values that tokens make up (`Montage.Proofs.Json.Text`).

A word ends only where the next character is none of a word, so after a text the last token may still be
open. It counts as found (`Lexer.Settles`), because every character that is written after a word ends it.
-/

set_option autoImplicit false

namespace Montage.Json

/-! ## Walks -/

section Walk

variable {σ τ : Type} {f : σ → τ → Option σ} {state next : σ}

theorem foldlM_cons_of_eq_some {x : τ} (taken : f state x = some next) (rest : List τ) :
    (x :: rest).foldlM f state = rest.foldlM f next := by
  rw [List.foldlM_cons, taken, Option.bind_eq_bind, Option.bind_some]

theorem foldlM_append_of_eq_some {front : List τ} (reached : front.foldlM f state = some next)
    (rest : List τ) : (front ++ rest).foldlM f state = rest.foldlM f next := by
  rw [List.foldlM_append, reached, Option.bind_eq_bind, Option.bind_some]

end Walk

namespace Lexer

/-! ## Tokens of a text -/

/-- The tokens found so far, last first; the last one may be a word that could go on. -/
inductive Settles : State → List Token → Prop
  | between (tokens : List Token) : Settles ⟨tokens, .between⟩ tokens
  | word {tokens : List Token} {seen : List Char} {token : Token}
      (isWord : wordToken? seen.reverse = some token) :
      Settles ⟨tokens, .word seen⟩ (token :: tokens)

/-- A text is read as these tokens after any others. -/
def Lexes (s : List Char) (tokens : List Token) : Prop :=
  ∀ before, ∃ state, s.foldlM step ⟨before, .between⟩ = some state ∧
    Settles state (tokens.reverse ++ before)

theorem lexes_nil : Lexes [] [] :=
  fun before => ⟨_, rfl, .between before⟩

/-- A mark ends whatever stands before it. -/
theorem Settles.mark {state : State} {tokens : List Token} (settles : Settles state tokens) {c : Char}
    {token : Token} (isMark : mark? c = some token) :
    step state c = some ⟨token :: tokens, .between⟩ := by
  have shape : isSpace c = false ∧ c ≠ '"' ∧ isWordChar c = false := by
    unfold mark? at isMark
    split at isMark <;> first | decide | cases isMark
  have found (tokens : List Token) : stepBetween tokens c = some ⟨token :: tokens, .between⟩ := by
    unfold stepBetween
    rw [shape.1, shape.2.2, isMark, if_neg shape.2.1]
    rfl
  cases settles with
  | between => exact found tokens
  | word isWord =>
      unfold step
      simp only [shape.2.2, Bool.false_eq_true, if_false, isWord, Option.bind_some, found]

/-- Texts with a mark between them are read one after the other. -/
theorem Lexes.mark {s rest : List Char} {tokens others : List Token} (first : Lexes s tokens)
    {c : Char} {token : Token} (isMark : mark? c = some token) (second : Lexes rest others) :
    Lexes (s ++ c :: rest) (tokens ++ token :: others) := by
  intro before
  obtain ⟨state, reached, settles⟩ := first before
  obtain ⟨last, finished, settled⟩ := second (token :: (tokens.reverse ++ before))
  refine ⟨last, ?_, ?_⟩
  · rw [foldlM_append_of_eq_some reached, foldlM_cons_of_eq_some (settles.mark isMark), finished]
  · simpa using settled

/-- The tokens of a whole text are those that it is read as. -/
theorem tokens?_of_lexes {s : List Char} {tokens : List Token} (lexes : Lexes s tokens) :
    tokens? (s.map some) = some tokens := by
  obtain ⟨state, reached, settles⟩ := lexes []
  have walk : (s.map some).foldlM stepBytes ⟨[], .between⟩ = some state := by
    rw [List.foldlM_map]
    exact reached
  unfold tokens?
  rw [walk, Option.bind_eq_bind, Option.bind_some]
  rw [List.append_nil] at settles
  generalize reversed : tokens.reverse = found at settles
  have same : found.reverse = tokens := by rw [← reversed, List.reverse_reverse]
  cases settles with
  | between => rw [← same]
  | word isWord =>
      simp only [isWord, Option.map_some]
      rw [← same]

/-! ## Words -/

theorem not_isSpace_of_isWordChar {c : Char} (isWord : isWordChar c = true) :
    isSpace c = false ∧ c ≠ '"' := by
  constructor
  · refine Bool.eq_false_iff.mpr fun isSpace => ?_
    simp only [Lexer.isSpace, Bool.or_eq_true, decide_eq_true_eq] at isSpace
    rcases isSpace with ((rfl | rfl) | rfl) | rfl <;> cases isWord
  · rintro rfl
    cases isWord

theorem foldlM_word {rest : List Char} (word : ∀ c ∈ rest, isWordChar c = true) (tokens : List Token)
    (seen : List Char) :
    rest.foldlM step ⟨tokens, .word seen⟩ = some ⟨tokens, .word (rest.reverse ++ seen)⟩ := by
  induction rest generalizing seen with
  | nil => rfl
  | cons c rest inductionHypothesis =>
      have first := word c List.mem_cons_self
      have others := fun d member => word d (List.mem_cons_of_mem c member)
      have taken : step ⟨tokens, .word seen⟩ c = some ⟨tokens, .word (c :: seen)⟩ := if_pos first
      rw [foldlM_cons_of_eq_some taken, inductionHypothesis others]
      simp

theorem foldlM_between {s : List Char} (nonempty : s ≠ []) (word : ∀ c ∈ s, isWordChar c = true)
    (before : List Token) : s.foldlM step ⟨before, .between⟩ = some ⟨before, .word s.reverse⟩ := by
  obtain ⟨first, rest, rfl⟩ := List.exists_cons_of_ne_nil nonempty
  have isFirst := word first List.mem_cons_self
  have others := fun c member => word c (List.mem_cons_of_mem first member)
  have opened : step ⟨before, .between⟩ first = some ⟨before, .word [first]⟩ := by
    obtain ⟨space, quote⟩ := not_isSpace_of_isWordChar isFirst
    show stepBetween before first = _
    unfold stepBetween
    rw [space, if_neg Bool.false_ne_true, if_neg quote, if_pos isFirst]
  rw [foldlM_cons_of_eq_some opened, foldlM_word others, List.reverse_cons]

/-- A word is read as its token. -/
theorem lexes_word {s : List Char} (nonempty : s ≠ []) (word : ∀ c ∈ s, isWordChar c = true)
    {token : Token} (isWord : wordToken? s = some token) : Lexes s [token] := by
  intro before
  exact ⟨_, foldlM_between nonempty word before, .word (by rwa [List.reverse_reverse])⟩

/-- A text that is one word has the token of the word alone. -/
theorem tokens?_word {s : List Char} (nonempty : s ≠ []) (word : ∀ c ∈ s, isWordChar c = true) :
    tokens? (s.map some) = (wordToken? s).map fun token => [token] := by
  have walk : (s.map some).foldlM stepBytes ⟨[], .between⟩ = some ⟨[], .word s.reverse⟩ := by
    rw [List.foldlM_map]
    exact foldlM_between nonempty word []
  unfold tokens?
  rw [walk, Option.bind_eq_bind, Option.bind_some]
  simp only [List.reverse_reverse]
  rfl

/-! ## Strings -/

/-- The code points of characters are put together to the characters. -/
theorem assemble_toNat (s : List Char) : assemble (s.map Char.toNat) = some s := by
  have plain (c : Char) : ¬ ((0xD800 ≤ c.toNat ∧ c.toNat < 0xE000) ∨ brokenPoint ≤ c.toNat) := by
    have valid : c.toNat < 0xD800 ∨ (0xDFFF < c.toNat ∧ c.toNat < 0x110000) := c.valid
    unfold brokenPoint
    omega
  induction s with
  | nil => rfl
  | cons c rest inductionHypothesis =>
      have own := plain c
      cases rest with
      | nil =>
          rw [List.map_cons, List.map_nil, assemble, if_neg own, Char.ofNat_toNat]
      | cons d rest =>
          have noHigh : ¬ (0xD800 ≤ c.toNat ∧ c.toNat < 0xDC00) := by omega
          have noLow : ¬ ((0xDC00 ≤ c.toNat ∧ c.toNat < 0xE000) ∨ brokenPoint ≤ c.toNat) := by omega
          rw [List.map_cons, List.map_cons, assemble, if_neg noHigh, if_neg noLow, ← List.map_cons,
            inductionHypothesis, Option.map_some, Char.ofNat_toNat]

/-- Four digits after the letter of an escape are read as a code point. -/
theorem foldlM_unicode (tokens : List Token) (seen : List Nat) {point : Nat} (small : point < 0x10000) :
    ('\\' :: 'u' :: Text.Hex.digits 4 point).foldlM step ⟨tokens, .string seen⟩ =
      some ⟨tokens, .string (point :: seen)⟩ := by
  have opened : step ⟨tokens, .string seen⟩ '\\' = some ⟨tokens, .escape seen⟩ := rfl
  have marked : step ⟨tokens, .escape seen⟩ 'u' = some ⟨tokens, .unicode seen 0 0⟩ := rfl
  have digit (count value n : Nat) :
      step ⟨tokens, .unicode seen count value⟩ (Text.Hex.digit n) =
        some (if count = 3 then ⟨tokens, .string ((value * 16 + n % 16) :: seen)⟩
          else ⟨tokens, .unicode seen (count + 1) (value * 16 + n % 16)⟩) := by
    show (Text.Hex.value? (Text.Hex.digit n)).map _ = _
    rw [Text.Hex.value?_digit]
    rfl
  have digits : Text.Hex.digits 4 point =
      [Text.Hex.digit (point / 16 / 16 / 16), Text.Hex.digit (point / 16 / 16),
        Text.Hex.digit (point / 16), Text.Hex.digit point] := by
    simp only [Text.Hex.digits_succ]
    rfl
  have value : (((0 * 16 + point / 16 / 16 / 16 % 16) * 16 + point / 16 / 16 % 16) * 16
      + point / 16 % 16) * 16 + point % 16 = point := by omega
  rw [digits]
  simp only [List.foldlM_cons, List.foldlM_nil, opened, marked, digit, Option.bind_eq_bind,
    Option.bind_some, Nat.reduceEqDiff, Nat.reduceAdd, if_false, if_true, value]
  rfl

/-- A quoted character is read as the code point of the character. -/
theorem foldlM_quotedChar (tokens : List Token) (seen : List Nat) (c : Char) :
    (Writer.quotedChar c).foldlM step ⟨tokens, .string seen⟩ =
      some ⟨tokens, .string (c.toNat :: seen)⟩ := by
  unfold Writer.quotedChar
  by_cases isQuote : c = '"'
  · rw [if_pos isQuote, isQuote]
    rfl
  rw [if_neg isQuote]
  by_cases isBackslash : c = '\\'
  · rw [if_pos isBackslash, isBackslash]
    rfl
  rw [if_neg isBackslash]
  by_cases isBackspace : c.toNat = 0x08
  · rw [if_pos isBackspace, isBackspace]
    rfl
  rw [if_neg isBackspace]
  by_cases isFormFeed : c.toNat = 0x0C
  · rw [if_pos isFormFeed, isFormFeed]
    rfl
  rw [if_neg isFormFeed]
  by_cases isNewline : c = '\n'
  · rw [if_pos isNewline, isNewline]
    rfl
  rw [if_neg isNewline]
  by_cases isReturn : c = '\r'
  · rw [if_pos isReturn, isReturn]
    rfl
  rw [if_neg isReturn]
  by_cases isTab : c = '\t'
  · rw [if_pos isTab, isTab]
    rfl
  rw [if_neg isTab]
  by_cases isControl : c.toNat < 0x20
  · rw [if_pos isControl]
    exact foldlM_unicode tokens seen (by omega)
  · rw [if_neg isControl]
    have taken : step ⟨tokens, .string seen⟩ c = some ⟨tokens, .string (c.toNat :: seen)⟩ := by
      unfold step
      simp only [if_neg isQuote, if_neg isBackslash, if_neg isControl]
    rw [foldlM_cons_of_eq_some taken]
    rfl

theorem foldlM_quotedChars (s : List Char) (tokens : List Token) (seen : List Nat) :
    (s.flatMap Writer.quotedChar).foldlM step ⟨tokens, .string seen⟩ =
      some ⟨tokens, .string ((s.map Char.toNat).reverse ++ seen)⟩ := by
  induction s generalizing seen with
  | nil => rfl
  | cons c rest inductionHypothesis =>
      rw [List.flatMap_cons, foldlM_append_of_eq_some (foldlM_quotedChar tokens seen c),
        inductionHypothesis]
      simp

/-- A quoted text is read as a string. -/
theorem lexes_quoted (s : String) : Lexes (Writer.quoted s).toList [.string (some s)] := by
  intro before
  have opened : step ⟨before, .between⟩ '"' = some ⟨before, .string []⟩ := rfl
  have closed : step ⟨before, .string ((s.toList.map Char.toNat).reverse ++ [])⟩ '"' =
      some ⟨.string (some s) :: before, .between⟩ := by
    have content : stringToken ((s.toList.map Char.toNat).reverse ++ []) = .string (some s) := by
      unfold stringToken
      rw [List.append_nil, List.reverse_reverse, assemble_toNat, Option.map_some, String.ofList_toList]
    show some (State.mk (stringToken _ :: before) .between) = _
    rw [content]
  refine ⟨_, ?_, .between _⟩
  unfold Writer.quoted
  rw [String.toList_ofList, foldlM_cons_of_eq_some opened,
    foldlM_append_of_eq_some (foldlM_quotedChars s.toList before []), foldlM_cons_of_eq_some closed]
  rfl

end Lexer

end Montage.Json

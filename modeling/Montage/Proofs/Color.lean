import Mathlib.Data.List.TakeWhile
import Montage.Color
import Montage.Proofs.Text.Hex

/-!
Contract: the spellings that are read as colours.

Owns:
- the grammar of colours: digits behind number signs inside white space, and the channels they stand for;
- the texts on which the reading follows that grammar, which are all but those with a sign for a digit;
- that the text of a colour is read as that colour.

Does **not** own: single digits (`Montage.Proofs.Text.Hex`).
-/

set_option autoImplicit false

namespace Montage

/-! ## White space at the ends -/

namespace Text

theorem trimChars_decomposition (s : List Char) :
    ∃ front back, s = front ++ trimChars s ++ back ∧
      (∀ c ∈ front, isBlank c = true) ∧ ∀ c ∈ back, isBlank c = true := by
  let rest := s.dropWhile isBlank
  have opening : s = s.takeWhile isBlank ++ rest := List.takeWhile_append_dropWhile.symm
  have closing : rest = trimChars s ++ (rest.reverse.takeWhile isBlank).reverse :=
    calc rest = (rest.reverse.takeWhile isBlank ++ rest.reverse.dropWhile isBlank).reverse := by
          rw [List.takeWhile_append_dropWhile, List.reverse_reverse]
      _ = trimChars s ++ (rest.reverse.takeWhile isBlank).reverse := List.reverse_append
  refine ⟨s.takeWhile isBlank, (rest.reverse.takeWhile isBlank).reverse, ?_, ?_, ?_⟩
  · rw [List.append_assoc, ← closing]
    exact opening
  · exact fun c member => List.mem_takeWhile_imp member
  · exact fun c member => List.mem_takeWhile_imp (List.mem_reverse.mp member)

/-- White space around a text is trimmed with that of the text. -/
theorem trimChars_surrounded {front back : List Char} (isFront : ∀ c ∈ front, isBlank c = true)
    (isBack : ∀ c ∈ back, isBlank c = true) (s : List Char) :
    trimChars (front ++ s ++ back) = trimChars s := by
  unfold trimChars
  rw [List.append_assoc, List.dropWhile_append_of_pos isFront, List.dropWhile_append]
  by_cases nothing : (s.dropWhile isBlank).isEmpty
  · rw [if_pos nothing, List.isEmpty_iff.mp nothing, List.dropWhile_eq_nil_iff.mpr isBack]
  · rw [if_neg nothing, List.reverse_append,
      List.dropWhile_append_of_pos fun c member => isBack c (List.mem_reverse.mp member)]

/-- White space on both sides of visible characters is what is trimmed. -/
theorem trimChars_append {front middle back : List Char} (isFront : ∀ c ∈ front, isBlank c = true)
    (visible : ∀ c ∈ middle, isBlank c = false) (isBack : ∀ c ∈ back, isBlank c = true) :
    trimChars (front ++ middle ++ back) = middle := by
  have kept : ∀ s : List Char, (∀ c ∈ s, isBlank c = false) → s.dropWhile isBlank = s := by
    intro s all
    cases s with
    | nil => rfl
    | cons first rest => exact List.dropWhile_cons_of_neg (by simp [all first List.mem_cons_self])
  rw [trimChars_surrounded isFront isBack, trimChars, kept middle visible,
    kept _ fun c member => visible c (List.mem_reverse.mp member), List.reverse_reverse]

end Text

namespace Color

open Text.Hex (alphabet digitValue digit)

/-! ## What a text encloses -/

/-- A text is some characters with number signs before them and white space around both. -/
def Encloses (text : String) (inner : List Char) : Prop :=
  ∃ front signs back, text.toList = front ++ (signs ++ inner) ++ back ∧
    (∀ c ∈ front, Text.isBlank c = true) ∧ (∀ c ∈ signs, c = '#') ∧
    ∀ c ∈ back, Text.isBlank c = true

theorem encloses_of_sign {text : String} {inner : List Char} (whole : text.toList = '#' :: inner) :
    Encloses text inner := by
  refine ⟨[], ['#'], [], ?_, List.forall_mem_nil _, fun c member => List.mem_singleton.mp member,
    List.forall_mem_nil _⟩
  rw [List.append_nil]
  exact whole

/-- The characters that are read as channels. -/
def inner (text : String) : List Char :=
  (Text.trimChars text.toList).dropWhile (· == '#')

theorem encloses_inner (text : String) : Encloses text (inner text) := by
  obtain ⟨front, back, whole, isFront, isBack⟩ := Text.trimChars_decomposition text.toList
  refine ⟨front, (Text.trimChars text.toList).takeWhile (· == '#'), back, ?_, isFront, ?_, isBack⟩
  · unfold inner
    rw [List.takeWhile_append_dropWhile]
    exact whole
  · intro c member
    have sign : (c == '#') = true := List.mem_takeWhile_imp (p := (· == '#')) member
    exact eq_of_beq sign

/-- Digits, with or without plus signs among them, are enclosed in one way only. -/
theorem inner_eq_of_encloses {text : String} {chars : List Char} (encloses : Encloses text chars)
    (plain : ∀ c ∈ chars, c ∈ '+' :: alphabet) : inner text = chars := by
  have visible : ∀ c ∈ '+' :: alphabet, Text.isBlank c = false := List.all_iff_forall_prop.mp (by decide)
  have unsigned : ∀ c ∈ '+' :: alphabet, ¬ (c == '#') = true := List.all_iff_forall_prop.mp (by decide)
  obtain ⟨front, signs, back, whole, isFront, isSigns, isBack⟩ := encloses
  -- None of the characters is white space or a number sign, so both removals stop at them.
  have trimmed : Text.trimChars text.toList = signs ++ chars := by
    rw [whole]
    refine Text.trimChars_append isFront ?_ isBack
    intro c member
    rcases List.mem_append.mp member with sign | other
    · rw [isSigns c sign]
      decide
    · exact visible c (plain c other)
  unfold inner
  rw [trimmed, List.dropWhile_append_of_pos fun c member => beq_of_eq (isSigns c member)]
  cases chars with
  | nil => rfl
  | cons first rest =>
      exact List.dropWhile_cons_of_neg (p := (· == '#')) (unsigned first (plain first List.mem_cons_self))

theorem read_eq_ok_iff {text : String} {c : Color} :
    read text = .ok c ↔ readChannels? (inner text) = some c := by
  unfold read inner
  cases readChannels? ((Text.trimChars text.toList).dropWhile (· == '#')) with
  | none => simp
  | some found => simp

/-! ## The grammar -/

/-- Six or eight digits. -/
def IsSpelling (digits : List Char) : Prop :=
  (digits.length = 6 ∨ digits.length = 8) ∧ ∀ c ∈ digits, c ∈ alphabet

def pairValues : List Char → List Nat
  | first :: second :: rest => (16 * digitValue first + digitValue second) :: pairValues rest
  | _ => []

/-- The channels that six or eight digits stand for: six leave out full opacity. -/
def spelledChannels (digits : List Char) : List Nat :=
  if digits.length = 6 then pairValues digits ++ [255] else pairValues digits

def channels (c : Color) : List Nat :=
  [c.red.toNat, c.green.toNat, c.blue.toNat, c.alpha.toNat]

/-- A text is read as the grammar has it: exactly if it encloses a spelling, and as the channels of that. -/
structure ReadsByGrammar (text : String) : Prop where
  accepts : (∃ c, read text = .ok c) ↔ ∃ digits, Encloses text digits ∧ IsSpelling digits
  channels : ∀ c, read text = .ok c → ∀ digits, Encloses text digits → IsSpelling digits →
    c.channels = spelledChannels digits

theorem inner_eq_of_spelling {text : String} {digits : List Char} (encloses : Encloses text digits)
    (spelling : IsSpelling digits) : inner text = digits :=
  inner_eq_of_encloses encloses fun c member => List.mem_cons_of_mem '+' (spelling.2 c member)

theorem readChannel?_of_digits {first second : Char} (isFirst : first ∈ alphabet)
    (isSecond : second ∈ alphabet) :
    ∃ b, readChannel? first second = some b ∧ b.toNat = 16 * digitValue first + digitValue second := by
  have unsigned : first ≠ '+' := ne_of_mem_of_not_mem isFirst (by decide)
  have small : ∀ c ∈ alphabet, digitValue c < 16 := List.all_iff_forall_prop.mp (by decide)
  have high := small first isFirst
  have low := small second isSecond
  refine ⟨UInt8.ofNat (16 * digitValue first + digitValue second), ?_, ?_⟩
  · unfold readChannel?
    rw [if_neg unsigned]
    simp [Text.Hex.number?, Text.Hex.value?_eq, isFirst, isSecond, Nat.mul_comm]
  · exact UInt8.toNat_ofNat_of_lt' (show _ < 256 by omega)

theorem readChannels?_of_spelling {digits : List Char} (spelling : IsSpelling digits) :
    ∃ c, readChannels? digits = some c ∧ c.channels = spelledChannels digits := by
  obtain ⟨size, all⟩ := spelling
  have channel (first : Char) (isFirst : first ∈ digits) (second : Char) (isSecond : second ∈ digits) :=
    readChannel?_of_digits (all first isFirst) (all second isSecond)
  rcases size with six | eight
  · match digits, six with
    | [r₁, r₂, g₁, g₂, b₁, b₂], _ =>
        obtain ⟨red, isRed, redValue⟩ := channel r₁ (by simp) r₂ (by simp)
        obtain ⟨green, isGreen, greenValue⟩ := channel g₁ (by simp) g₂ (by simp)
        obtain ⟨blue, isBlue, blueValue⟩ := channel b₁ (by simp) b₂ (by simp)
        refine ⟨⟨red, green, blue, 255⟩, by simp [readChannels?, isRed, isGreen, isBlue], ?_⟩
        simp [channels, spelledChannels, pairValues, redValue, greenValue, blueValue]
  · match digits, eight with
    | [r₁, r₂, g₁, g₂, b₁, b₂, a₁, a₂], _ =>
        obtain ⟨red, isRed, redValue⟩ := channel r₁ (by simp) r₂ (by simp)
        obtain ⟨green, isGreen, greenValue⟩ := channel g₁ (by simp) g₂ (by simp)
        obtain ⟨blue, isBlue, blueValue⟩ := channel b₁ (by simp) b₂ (by simp)
        obtain ⟨alpha, isAlpha, alphaValue⟩ := channel a₁ (by simp) a₂ (by simp)
        refine ⟨⟨red, green, blue, alpha⟩, by simp [readChannels?, isRed, isGreen, isBlue, isAlpha], ?_⟩
        simp [channels, spelledChannels, pairValues, redValue, greenValue, blueValue, alphaValue]

/-! ## Signs for digits -/

/-- Pairs of a digit behind another one or behind a plus sign. -/
def IsReadable : List Char → Prop
  | [] => True
  | [_] => False
  | first :: second :: rest => (first ∈ '+' :: alphabet ∧ second ∈ alphabet) ∧ IsReadable rest

instance decidableIsReadable : (chars : List Char) → Decidable (IsReadable chars)
  | [] => .isTrue trivial
  | [_] => .isFalse id
  | first :: second :: rest =>
    haveI := decidableIsReadable rest
    inferInstanceAs (Decidable ((first ∈ '+' :: alphabet ∧ second ∈ alphabet) ∧ IsReadable rest))

/-- A text that would enclose a spelling if no plus sign stood for the first digit of a channel. -/
def HoldsSign (text : String) : Prop :=
  ∃ chars, Encloses text chars ∧ (chars.length = 6 ∨ chars.length = 8) ∧ IsReadable chars ∧
    '+' ∈ chars

theorem isSome_readChannel? {first second : Char} :
    (readChannel? first second).isSome = true ↔ first ∈ '+' :: alphabet ∧ second ∈ alphabet := by
  unfold readChannel?
  rw [List.mem_cons]
  by_cases sign : first = '+'
  · simp [sign, Text.Hex.value?_eq]
  · by_cases isFirst : first ∈ alphabet
    · simp [sign, isFirst, Text.Hex.number?, Text.Hex.value?_eq]
    · simp [sign, isFirst, Text.Hex.number?, Text.Hex.value?_eq]

theorem isSome_readChannels? (chars : List Char) :
    (readChannels? chars).isSome = true ↔
      (chars.length = 6 ∨ chars.length = 8) ∧ IsReadable chars := by
  unfold readChannels?
  split
  next r₁ r₂ g₁ g₂ b₁ b₂ =>
    simp only [IsReadable, ← isSome_readChannel?]
    simp [Option.isSome_iff_exists, Option.bind_eq_some_iff]
  next r₁ r₂ g₁ g₂ b₁ b₂ a₁ a₂ =>
    simp only [IsReadable, ← isSome_readChannel?]
    simp [Option.isSome_iff_exists, Option.bind_eq_some_iff]
  next noSix noEight =>
    constructor
    · intro found
      cases found
    · -- No other length is one of the two.
      rintro ⟨six | eight, -⟩
      · match chars, six with
        | [r₁, r₂, g₁, g₂, b₁, b₂], _ => exact (noSix _ _ _ _ _ _ rfl).elim
      · match chars, eight with
        | [r₁, r₂, g₁, g₂, b₁, b₂, a₁, a₂], _ => exact (noEight _ _ _ _ _ _ _ _ rfl).elim

theorem mem_of_isReadable {chars : List Char} (readable : IsReadable chars) :
    ∀ c ∈ chars, c ∈ '+' :: alphabet := by
  match chars, readable with
  | [], _ => exact fun c member => absurd member List.not_mem_nil
  | first :: second :: rest, ⟨⟨isFirst, isSecond⟩, isRest⟩ =>
      intro c member
      rcases List.mem_cons.mp member with rfl | later
      · exact isFirst
      · rcases List.mem_cons.mp later with rfl | inRest
        · exact List.mem_cons_of_mem '+' isSecond
        · exact mem_of_isReadable isRest c inRest

/-- With a sign for a digit a text is read all the same, though it encloses no spelling. -/
theorem HoldsSign.accepted {text : String} (holdsSign : HoldsSign text) :
    (∃ c, read text = .ok c) ∧ ¬ ∃ digits, Encloses text digits ∧ IsSpelling digits := by
  obtain ⟨chars, encloses, size, readable, sign⟩ := holdsSign
  have same : inner text = chars := inner_eq_of_encloses encloses (mem_of_isReadable readable)
  constructor
  · have found := (isSome_readChannels? chars).mpr ⟨size, readable⟩
    obtain ⟨c, isRead⟩ := Option.isSome_iff_exists.mp found
    exact ⟨c, read_eq_ok_iff.mpr (by rw [same, isRead])⟩
  · rintro ⟨digits, enclosed, spelling⟩
    have whole : digits = chars := (inner_eq_of_spelling enclosed spelling).symm.trans same
    exact absurd (spelling.2 '+' (whole ▸ sign)) (by decide)

theorem spelling_of_read {text : String} {c : Color} (unsigned : ¬ HoldsSign text)
    (isRead : read text = .ok c) : IsSpelling (inner text) := by
  have found : (readChannels? (inner text)).isSome = true := by
    rw [read_eq_ok_iff.mp isRead]
    rfl
  obtain ⟨size, readable⟩ := (isSome_readChannels? _).mp found
  refine ⟨size, fun d member => ?_⟩
  have isDigit : d ≠ '+' := by
    rintro rfl
    exact unsigned ⟨inner text, encloses_inner text, size, readable, member⟩
  exact List.mem_of_ne_of_mem isDigit (mem_of_isReadable readable d member)

/-- The grammar describes the reading of exactly those texts in which no sign stands for a digit. -/
theorem readsByGrammar_iff (text : String) : ReadsByGrammar text ↔ ¬ HoldsSign text := by
  constructor
  · intro grammar holdsSign
    exact holdsSign.accepted.2 (grammar.accepts.mp holdsSign.accepted.1)
  · intro unsigned
    have reads {digits : List Char} (encloses : Encloses text digits) (spelling : IsSpelling digits) :
        ∃ c, read text = .ok c ∧ c.channels = spelledChannels digits := by
      obtain ⟨c, isRead, channels⟩ := readChannels?_of_spelling spelling
      exact ⟨c, read_eq_ok_iff.mpr (by rw [inner_eq_of_spelling encloses spelling, isRead]), channels⟩
    constructor
    · constructor
      · rintro ⟨c, isRead⟩
        exact ⟨inner text, encloses_inner text, spelling_of_read unsigned isRead⟩
      · rintro ⟨digits, encloses, spelling⟩
        obtain ⟨c, isRead, -⟩ := reads encloses spelling
        exact ⟨c, isRead⟩
    · intro c isRead digits encloses spelling
      obtain ⟨d, same, channels⟩ := reads encloses spelling
      rw [isRead] at same
      cases same
      exact channels

/-- Three signs before three digits are read as a dark grey. -/
theorem signed_not_readsByGrammar :
    read "#+f+f+f" = .ok ⟨15, 15, 15, 255⟩ ∧ ¬ ReadsByGrammar "#+f+f+f" := by
  refine ⟨by decide +kernel, fun grammar => ?_⟩
  have holdsSign : HoldsSign "#+f+f+f" :=
    ⟨['+', 'f', '+', 'f', '+', 'f'], encloses_of_sign rfl, by decide, by decide, by decide⟩
  exact holdsSign.accepted.2 (grammar.accepts.mp holdsSign.accepted.1)

/-! ## Colours written and read back -/

/-- The digits of a colour; full opacity is left out. -/
def spelling (c : Color) : List Char :=
  channel c.red ++ channel c.green ++ channel c.blue ++ if c.alpha = 255 then [] else channel c.alpha

theorem encloses_text (c : Color) : Encloses c.text c.spelling :=
  encloses_of_sign String.toList_ofList

theorem channel_eq (b : UInt8) : channel b = [digit (b.toNat / 16), digit b.toNat] := by
  simp [channel, Text.Hex.digits, List.range_succ]

theorem pairValues_channel (b : UInt8) (rest : List Char) :
    pairValues (channel b ++ rest) = b.toNat :: pairValues rest := by
  have small : b.toNat < 256 := b.toNat_lt
  have value : 16 * (b.toNat / 16 % 16) + b.toNat % 16 = b.toNat := by omega
  rw [channel_eq]
  simp [pairValues, Text.Hex.digitValue_digit, value]

theorem mem_spelling {c : Color} {d : Char} (member : d ∈ c.spelling) : ∃ n, d = digit n := by
  have isDigit (b : UInt8) (inChannel : d ∈ channel b) : ∃ n, d = digit n := by
    rw [channel_eq, List.mem_cons, List.mem_singleton] at inChannel
    exact inChannel.elim (fun first => ⟨_, first⟩) fun second => ⟨_, second⟩
  simp only [spelling, List.mem_append] at member
  rcases member with ((red | green) | blue) | alpha
  · exact isDigit _ red
  · exact isDigit _ green
  · exact isDigit _ blue
  · split at alpha
    · cases alpha
    · exact isDigit _ alpha

theorem length_spelling (c : Color) : c.spelling.length = if c.alpha = 255 then 6 else 8 := by
  by_cases full : c.alpha = 255
  · simp [spelling, full, channel_eq]
  · simp [spelling, full, channel_eq]

theorem isSpelling_spelling (c : Color) : IsSpelling c.spelling := by
  refine ⟨?_, fun d member => ?_⟩
  · rw [length_spelling]
    split
    · exact .inl rfl
    · exact .inr rfl
  · obtain ⟨n, rfl⟩ := mem_spelling member
    exact Text.Hex.digit_mem_alphabet n

theorem spelledChannels_spelling (c : Color) : spelledChannels c.spelling = c.channels := by
  unfold spelledChannels spelling channels
  by_cases full : c.alpha = 255
  · rw [if_pos full, if_pos (by simp [channel_eq]), List.append_nil, List.append_assoc, pairValues_channel,
      pairValues_channel, ← List.append_nil (channel c.blue), pairValues_channel, full]
    rfl
  · rw [if_neg full, if_neg (by simp [channel_eq]), List.append_assoc, List.append_assoc, pairValues_channel,
      pairValues_channel, pairValues_channel, ← List.append_nil (channel c.alpha), pairValues_channel]
    rfl

/-- A text is a number sign and, in lower case, the two digits of each channel; six digits leave out full
opacity, and any other opacity is there. -/
structure IsWrittenWith (c : Color) (digits : List Char) : Prop where
  text : c.text.toList = '#' :: digits
  channels : spelledChannels digits = c.channels
  lowerCase : ∀ d ∈ digits, d ∈ alphabet ∧ d.toLower = d
  length : digits.length = if c.alpha = 255 then 6 else 8

theorem isWrittenWith_spelling (c : Color) : IsWrittenWith c c.spelling := by
  refine ⟨String.toList_ofList, c.spelledChannels_spelling, fun d member => ?_, c.length_spelling⟩
  obtain ⟨n, rfl⟩ := mem_spelling member
  exact ⟨Text.Hex.digit_mem_alphabet n, Text.Hex.toLower_digit n⟩

theorem channels_injective : Function.Injective channels := by
  intro c d same
  obtain ⟨red, green, blue, alpha⟩ := c
  obtain ⟨red', green', blue', alpha'⟩ := d
  simpa [channels, UInt8.toNat_inj] using same

theorem read_text_eq (c : Color) : read c.text = .ok c := by
  obtain ⟨d, isRead, same⟩ := readChannels?_of_spelling c.isSpelling_spelling
  rw [spelledChannels_spelling] at same
  rw [read_eq_ok_iff, inner_eq_of_spelling c.encloses_text c.isSpelling_spelling, isRead,
    channels_injective same]

end Color

end Montage

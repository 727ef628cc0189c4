import Montage.Graph.Basic

/-!
Contract: how a reader takes the characters of a text.

Owns:
- the symbols of a text (`scan`): a character after a backslash or between quotes stands for itself,
  any other one may separate;
- what a text spells wherever it stands (`Spells`), for plain, escaped, quoted and joined texts;
- symbols among which some characters never separate (`Hides`).

Does **not** own: what the symbols mean (`Montage.Proofs.Graph.Reading`).

A text that ends between quotes or behind a backslash changes what follows it. `Spells` speaks about a
text before any continuation, so that what is spelled in parts is spelled as a whole.
-/

set_option autoImplicit false

namespace Montage.Graph

/-- A character as it is read: bare, when it may separate, or literal. -/
inductive Symbol where
  | bare (c : Char)
  | literal (c : Char)
  deriving DecidableEq, Repr

def Symbol.char : Symbol → Char
  | .bare c => c
  | .literal c => c

/-- Where a reader stands: outside of quotes, there behind a backslash, or between quotes. -/
inductive Mode where
  | outside
  | escaped
  | quoted
  deriving DecidableEq, Repr

/-- The symbols of a text. Not every reader knows quotes. -/
def scan (quotes : Bool) : Mode → List Char → List Symbol
  | _, [] => []
  | .outside, c :: rest =>
    if c = '\\' then scan quotes .escaped rest
    else if quotes = true ∧ c = '\'' then scan quotes .quoted rest
    else .bare c :: scan quotes .outside rest
  | .escaped, c :: rest => .literal c :: scan quotes .outside rest
  | .quoted, c :: rest =>
    if c = '\'' then scan quotes .outside rest else .literal c :: scan quotes .quoted rest

def plainText (symbols : List Symbol) : String :=
  String.ofList (symbols.map Symbol.char)

/-- Whether a character changes how others are read. -/
def isMark (c : Char) : Bool := c == '\\' || c == '\''

/-- The symbols of a list of characters, some of which are escaped. -/
def escaped (isSpecial : Char → Bool) (s : List Char) : List Symbol :=
  s.map fun c => if isSpecial c then .literal c else .bare c

/-! ## Spelling -/

/-- A text spells symbols if they are read of it before any continuation. -/
def Spells (quotes : Bool) (text : List Char) (spelled : List Symbol) : Prop :=
  ∀ rest, scan quotes .outside (text ++ rest) = spelled ++ scan quotes .outside rest

section Spelling

variable {quotes : Bool} {text other : List Char} {spelled spelledOther : List Symbol}

theorem Spells.scan_eq (spells : Spells quotes text spelled) :
    scan quotes .outside text = spelled := by
  have whole := spells []
  rwa [List.append_nil, scan, List.append_nil] at whole

theorem spells_nil : Spells quotes [] [] := fun _ => rfl

theorem Spells.append (first : Spells quotes text spelled)
    (second : Spells quotes other spelledOther) :
    Spells quotes (text ++ other) (spelled ++ spelledOther) := by
  intro rest
  rw [List.append_assoc, first, second, List.append_assoc]

theorem scan_bare {c : Char} (plain : isMark c = false) (rest : List Char) :
    scan quotes .outside (c :: rest) = .bare c :: scan quotes .outside rest := by
  simp only [isMark, Bool.or_eq_false_iff, beq_eq_false_iff_ne] at plain
  rw [scan, if_neg plain.1, if_neg (fun quote => plain.2 quote.2)]

theorem scan_escaped (c : Char) (rest : List Char) :
    scan quotes .outside ('\\' :: c :: rest) = .literal c :: scan quotes .outside rest := by
  rw [scan, if_pos rfl, scan]

theorem spells_char {c : Char} (plain : isMark c = false) : Spells quotes [c] [.bare c] :=
  scan_bare plain

/-- A text without marks is read as it stands. -/
theorem spells_plain (plain : ∀ c ∈ text, isMark c = false) :
    Spells quotes text (text.map .bare) := by
  induction text with
  | nil => exact spells_nil
  | cons c rest inductionHypothesis =>
      obtain ⟨first, others⟩ := List.forall_mem_cons.mp plain
      exact (spells_char first).append (inductionHypothesis others)

/-- An escaped text gives its own characters back, if both marks are escaped. -/
theorem spells_escape {isSpecial : Char → Bool} (backslash : isSpecial '\\' = true)
    (quote : isSpecial '\'' = true) (s : List Char) :
    Spells quotes (Escape.escape isSpecial s) (escaped isSpecial s) := by
  have covers (c : Char) (plain : isSpecial c = false) : isMark c = false := by
    rw [isMark, Bool.or_eq_false_iff, beq_eq_false_iff_ne, beq_eq_false_iff_ne]
    constructor
    · rintro rfl
      exact Bool.false_ne_true (plain.symm.trans backslash)
    · rintro rfl
      exact Bool.false_ne_true (plain.symm.trans quote)
  induction s with
  | nil => exact spells_nil
  | cons c rest inductionHypothesis =>
      have first : Spells quotes (if isSpecial c then ['\\', c] else [c])
          [if isSpecial c then .literal c else .bare c] := by
        cases special : isSpecial c with
        | true => exact scan_escaped c
        | false => exact spells_char (covers c special)
      exact first.append inductionHypothesis

/-- What stands between quotes is literal for a reader that knows them. -/
theorem spells_quoted (plain : '\'' ∉ text) :
    Spells true ('\'' :: text ++ ['\'']) (text.map .literal) := by
  intro rest
  have inside : scan true .quoted (text ++ '\'' :: rest) =
      text.map .literal ++ scan true .outside rest := by
    induction text with
    | nil => rw [List.nil_append, scan, if_pos rfl]; rfl
    | cons c others inductionHypothesis =>
        rw [List.mem_cons, not_or] at plain
        rw [List.cons_append, scan, if_neg (Ne.symm plain.1), inductionHypothesis plain.2]
        rfl
  rw [List.cons_append, List.cons_append, List.append_assoc, scan, if_neg (by decide),
    if_pos ⟨rfl, rfl⟩]
  exact inside

theorem spells_flatMap {β : Type} {text : β → List Char} {spelled : β → List Symbol} {xs : List β}
    (each : ∀ x ∈ xs, Spells quotes (text x) (spelled x)) :
    Spells quotes (xs.flatMap text) (xs.flatMap spelled) := by
  induction xs with
  | nil => exact spells_nil
  | cons x rest inductionHypothesis =>
      obtain ⟨first, others⟩ := List.forall_mem_cons.mp each
      exact first.append (inductionHypothesis others)

theorem spells_intercalate {β : Type} {text : β → List Char} {spelled : β → List Symbol}
    {xs : List β} {separator : Char} (plain : isMark separator = false)
    (each : ∀ x ∈ xs, Spells quotes (text x) (spelled x)) :
    Spells quotes ([separator].intercalate (xs.map text))
      ([.bare separator].intercalate (xs.map spelled)) := by
  induction xs with
  | nil => exact spells_nil
  | cons x rest inductionHypothesis =>
      obtain ⟨first, others⟩ := List.forall_mem_cons.mp each
      cases rest with
      | nil => simpa using first
      | cons y rest =>
          rw [List.map_cons, List.map_cons, List.intercalate_cons_cons, List.map_cons, List.map_cons,
            List.intercalate_cons_cons]
          exact (first.append (spells_char plain)).append (inductionHypothesis others)

end Spelling

theorem toList_join (separator : String) (texts : List String) :
    (Text.join separator texts).toList = separator.toList.intercalate (texts.map String.toList) := by
  induction texts with
  | nil => rfl
  | cons s rest inductionHypothesis =>
      cases rest with
      | nil => simp [Text.join]
      | cons t rest =>
          show (s ++ separator ++ Text.join separator (t :: rest)).toList = _
          rw [String.toList_append, String.toList_append, inductionHypothesis]
          simp only [List.map_cons, List.intercalate_cons_cons]

/-! ## Characters of symbols -/

theorem map_char_bare (s : List Char) : (s.map Symbol.bare).map Symbol.char = s := by
  rw [List.map_map]
  exact List.map_id s

theorem plainText_bare (s : String) : plainText (s.toList.map .bare) = s := by
  rw [plainText, map_char_bare, String.ofList_toList]

theorem map_char_literal (s : List Char) : (s.map Symbol.literal).map Symbol.char = s := by
  rw [List.map_map]
  exact List.map_id s

theorem map_char_escaped (isSpecial : Char → Bool) (s : List Char) :
    (escaped isSpecial s).map Symbol.char = s := by
  rw [escaped, List.map_map]
  refine (List.map_congr_left fun c _ => ?_).trans (List.map_id s)
  show Symbol.char (if isSpecial c then .literal c else .bare c) = c
  cases isSpecial c <;> rfl

theorem map_char_intercalate (separator : Char) (parts : List (List Symbol)) :
    ([Symbol.bare separator].intercalate parts).map Symbol.char =
      [separator].intercalate (parts.map (List.map Symbol.char)) := by
  induction parts with
  | nil => rfl
  | cons part rest inductionHypothesis =>
      cases rest with
      | nil => simp
      | cons next rest =>
          rw [List.intercalate_cons_cons, List.map_append, List.map_append, inductionHypothesis]
          simp only [List.map_cons, List.intercalate_cons_cons]
          rfl

/-! ## Hidden characters -/

/-- No separating character stands bare among symbols. -/
def Hides (isSeparator : Char → Bool) (spelled : List Symbol) : Prop :=
  ∀ c, isSeparator c = true → .bare c ∉ spelled

section Hiding

variable {isSeparator isSpecial : Char → Bool} {s : List Char} {spelled other : List Symbol}

theorem hides_append : Hides isSeparator (spelled ++ other) ↔
    Hides isSeparator spelled ∧ Hides isSeparator other := by
  simp only [Hides, List.mem_append, not_or, forall_and]

theorem hides_bare (plain : ∀ c ∈ s, isSeparator c = false) :
    Hides isSeparator (s.map .bare) := by
  intro c separates member
  obtain ⟨d, inText, same⟩ := List.mem_map.mp member
  rw [Symbol.bare.inj same] at inText
  rw [plain c inText] at separates
  cases separates

theorem hides_char {c : Char} (plain : isSeparator c = false) : Hides isSeparator [.bare c] := by
  intro d separates member
  rw [Symbol.bare.inj (List.mem_singleton.mp member), plain] at separates
  cases separates

theorem hides_literal : Hides isSeparator (s.map .literal) := by
  intro c separates member
  obtain ⟨d, inText, same⟩ := List.mem_map.mp member
  cases same

theorem hides_escaped (covers : ∀ c, isSeparator c = true → isSpecial c = true) :
    Hides isSeparator (escaped isSpecial s) := by
  intro c separates member
  obtain ⟨d, inText, same⟩ := List.mem_map.mp member
  cases special : isSpecial d with
  | true => simp [special] at same
  | false =>
      simp only [special, Bool.false_eq_true, if_false, Symbol.bare.injEq] at same
      rw [same, covers c separates] at special
      cases special

theorem hides_intercalate {separator : Char} (plain : isSeparator separator = false)
    {parts : List (List Symbol)} (each : ∀ part ∈ parts, Hides isSeparator part) :
    Hides isSeparator ([.bare separator].intercalate parts) := by
  induction parts with
  | nil => exact fun c _ => List.not_mem_nil
  | cons part rest inductionHypothesis =>
      obtain ⟨first, others⟩ := List.forall_mem_cons.mp each
      cases rest with
      | nil => simpa using first
      | cons next rest =>
          rw [List.intercalate_cons_cons, hides_append, hides_append]
          exact ⟨⟨first, hides_char plain⟩, inductionHypothesis others⟩

end Hiding

end Montage.Graph

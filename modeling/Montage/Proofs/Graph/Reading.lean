import Montage.Proofs.Graph.Symbols

/-!
Contract: the text of a graph determines the graph.

Owns:
- what a graph says once its options are joined (`Chain.outline`);
- a reader of graph texts (`Reading.graph?`) and one of the options of a filter (`Reading.options`);
- that legible graphs (`FilterGraph.IsLegible`) and escaped options are read back from their texts.

Does **not** own: which graphs are written (`Montage.Proofs.Render.Drawing` for the options of texts).

The readers know nothing of how texts are written. They look for separators at five levels: between
chains, around pads, between stages, behind the name of a stage, and between its options. The writer
escapes or quotes every value, so that no separator of one level turns up inside another one.
-/

set_option autoImplicit false

namespace Montage

/-! ## Outlines -/

/-- A name, and the value that it is given if there is one. -/
structure Assignment where
  name : String
  value : Option String
  deriving DecidableEq, Repr

/-- A chain as its text shows it. The value of a stage is the text of all its options. -/
structure ChainOutline where
  inputs : List Pad
  stages : List Assignment
  outputs : List PadLabel
  deriving DecidableEq

/-- An option before its value is quoted or escaped. -/
def Arg.content (a : Arg) : String :=
  match a.key with
  | some key => key ++ "=" ++ a.value.content
  | none => a.value.content

/-- The options of a stage before their values are quoted or escaped. -/
def Stage.content (s : Stage) : String := Text.join ":" (s.args.map Arg.content)

def Stage.outline (s : Stage) : Assignment :=
  { name := s.name, value := if s.args = [] then none else some s.content }

def Chain.outline (c : Chain) : ChainOutline :=
  { inputs := c.inputs, stages := c.stages.map Stage.outline, outputs := c.outputs }

/-! ## Reading -/

namespace Graph.Reading

/-- The contents of the groups in brackets at the start, and what follows them. The group that is open has
its content so far. -/
def groups : Option (List Char) → List Symbol → List (List Char) × List Symbol
  | _, [] => ([], [])
  | none, s :: rest => if s = .bare '[' then groups (some []) rest else ([], s :: rest)
  | some content, s :: rest =>
    if s = .bare ']' then (content :: (groups none rest).1, (groups none rest).2)
    else groups (some (content ++ [s.char])) rest

def stream? : List Char → Option StreamKind
  | ['v'] => some .video
  | ['a'] => some .audio
  | _ => none

/-- The pad with a text: a number and the letter of a stream, or a label. -/
def pad? (text : List Char) : Option Pad :=
  match text.splitOn ':' with
  | [name] => (PadLabel.ofName? (String.ofList name)).map .label
  | [digits, letter] =>
    if digits.isEmpty || !digits.all Char.isDigit then none
    else (stream? letter).map (.input (Nat.ofDigitChars 10 digits 0))
  | _ => none

/-- A name up to the first equals sign, and the value behind it. -/
def assignment (symbols : List Symbol) : Assignment :=
  { name := plainText (symbols.takeWhile (· ≠ .bare '='))
    value :=
      match symbols.dropWhile (· ≠ .bare '=') with
      | [] => none
      | _ :: rest => some (plainText rest) }

/-- A chain: pads, stages with commas between them, and labels. -/
def chain? (symbols : List Symbol) : Option ChainOutline :=
  let (inputs, body) := groups none symbols
  let stages := (body.takeWhile (· ≠ .bare '[')).splitOn (.bare ',')
  let (outputs, rest) := groups none (body.dropWhile (· ≠ .bare '['))
  if rest ≠ [] then none
  else do
    some { inputs := ← inputs.mapM pad?
           stages := stages.map assignment
           outputs := ← outputs.mapM fun name => PadLabel.ofName? (String.ofList name) }

/-- A graph: chains with semicolons between them, and none at all in an empty text. -/
def graph? (text : String) : Option (List ChainOutline) :=
  if text = "" then some []
  else ((scan true .outside text.toList).splitOn (.bare ';')).mapM chain?

/-- The options of a filter: assignments with colons between them. -/
def options (quotes : Bool) (text : String) : List Assignment :=
  ((scan quotes .outside text.toList).splitOn (.bare ':')).map assignment

end Graph.Reading

/-! ## Legible graphs -/

/-- A plain value may hold any text, an expression none with a quote. -/
def ArgValue.IsLegible : ArgValue → Prop
  | .plain _ => True
  | .expression s => '\'' ∉ s.toList

/-- An option whose key is a word. -/
structure Arg.IsLegible (a : Arg) : Prop where
  key : ∀ key ∈ a.key, isLabelText key = true
  value : a.value.IsLegible

structure Stage.IsLegible (s : Stage) : Prop where
  name : isLabelText s.name = true
  args : ∀ a ∈ s.args, a.IsLegible

structure Chain.IsLegible (c : Chain) : Prop where
  staged : c.stages ≠ []
  stages : ∀ s ∈ c.stages, s.IsLegible

/-- A graph whose chains have stages, and whose names and expressions keep clear of the marks. -/
def FilterGraph.IsLegible (g : FilterGraph) : Prop := ∀ c ∈ g.chains, c.IsLegible

namespace Stage

variable {s : Stage} {name key : String}

theorem isLegible_ofName (valid : isLabelText name = true) : (ofName name).IsLegible :=
  ⟨valid, List.forall_mem_nil _⟩

theorem IsLegible.withArg {a : Arg} (legible : s.IsLegible) (isLegible : a.IsLegible) :
    Stage.IsLegible { s with args := s.args ++ [a] } := by
  refine ⟨legible.name, fun b member => ?_⟩
  rcases List.mem_append.mp member with old | new
  · exact legible.args b old
  · rwa [List.mem_singleton.mp new]

theorem IsLegible.arg (legible : s.IsLegible) (valid : isLabelText key = true) (value : String) :
    (s.arg key value).IsLegible := by
  refine legible.withArg ⟨fun word isKey => ?_, trivial⟩
  rwa [← Option.some.inj isKey]

theorem IsLegible.positional (legible : s.IsLegible) (value : String) :
    (s.positional value).IsLegible :=
  legible.withArg ⟨nofun, trivial⟩

theorem IsLegible.expression {value : String} (legible : s.IsLegible)
    (valid : isLabelText key = true) (unquoted : '\'' ∉ value.toList) :
    (s.expression key value).IsLegible := by
  refine legible.withArg ⟨fun word isKey => ?_, unquoted⟩
  rwa [← Option.some.inj isKey]

end Stage

instance (v : ArgValue) : Decidable v.IsLegible :=
  match v with
  | .plain _ => inferInstanceAs (Decidable True)
  | .expression s => inferInstanceAs (Decidable ('\'' ∉ s.toList))

instance (a : Arg) : Decidable a.IsLegible :=
  decidable_of_iff ((∀ key ∈ a.key, isLabelText key = true) ∧ a.value.IsLegible)
    ⟨fun ⟨key, value⟩ => ⟨key, value⟩, fun ⟨key, value⟩ => ⟨key, value⟩⟩

instance (s : Stage) : Decidable s.IsLegible :=
  decidable_of_iff (isLabelText s.name = true ∧ ∀ a ∈ s.args, a.IsLegible)
    ⟨fun ⟨name, args⟩ => ⟨name, args⟩, fun ⟨name, args⟩ => ⟨name, args⟩⟩

instance (c : Chain) : Decidable c.IsLegible :=
  decidable_of_iff (c.stages ≠ [] ∧ ∀ s ∈ c.stages, s.IsLegible)
    ⟨fun ⟨staged, stages⟩ => ⟨staged, stages⟩, fun ⟨staged, stages⟩ => ⟨staged, stages⟩⟩

instance (g : FilterGraph) : Decidable g.IsLegible :=
  inferInstanceAs (Decidable (∀ c ∈ g.chains, c.IsLegible))

open Montage.Graph Montage.Graph.Reading

/-- The characters that separate chains, stages and pads. -/
def isSeparator (c : Char) : Bool := ['[', ']', ',', ';'].contains c

/-! ## Words -/

/-- The characters that have a meaning of their own in the text of a graph or of options. -/
def specialCharacters : List Char := ['\\', '\'', '[', ']', ',', ';', ':', '=']

theorem not_special_of_isWord {c : Char} (isWord : (c.isAlphanum || c = '_') = true) :
    c ∉ specialCharacters := by
  have special : specialCharacters.all (fun d => !(d.isAlphanum || d = '_')) = true := by decide
  intro isSpecial
  have isOther := List.all_eq_true.mp special c isSpecial
  rw [isWord] at isOther
  cases isOther

theorem isMark_of_not_special {c : Char} (plain : c ∉ specialCharacters) : isMark c = false := by
  simp only [specialCharacters, List.mem_cons, not_or] at plain
  simp [isMark, plain.1, plain.2.1]

theorem isSeparator_of_not_special {c : Char} (plain : c ∉ specialCharacters) :
    isSeparator c = false := by
  simp only [specialCharacters, List.mem_cons, not_or] at plain
  simp [isSeparator, plain]

section Words

variable {word : String}

theorem not_special_of_mem_word (valid : isLabelText word = true) {c : Char}
    (member : c ∈ word.toList) : c ∉ specialCharacters := by
  simp only [isLabelText, Bool.and_eq_true, List.all_eq_true] at valid
  exact not_special_of_isWord (valid.2 c member)

theorem not_mem_word (valid : isLabelText word = true) {c : Char}
    (special : c ∈ specialCharacters) : c ∉ word.toList :=
  fun member => not_special_of_mem_word valid member special

theorem isMark_of_mem_word (valid : isLabelText word = true) :
    ∀ c ∈ word.toList, isMark c = false :=
  fun _ member => isMark_of_not_special (not_special_of_mem_word valid member)

theorem isSeparator_of_mem_word (valid : isLabelText word = true) :
    ∀ c ∈ word.toList, isSeparator c = false :=
  fun _ member => isSeparator_of_not_special (not_special_of_mem_word valid member)

/-- The digits of a number are a word. -/
theorem isLabelText_toString (n : Nat) : isLabelText (toString n) = true := by
  have each := PadLabel.toDigits_all_isDigit n
  simp only [isLabelText, Nat.toString_eq_repr, Nat.toList_repr, Bool.and_eq_true,
    Bool.not_eq_true', List.isEmpty_eq_false_iff, List.all_eq_true] at each ⊢
  refine ⟨Nat.toDigits_ne_nil, fun c member => ?_⟩
  simp [Char.isAlphanum, each c member]

end Words

section Assignments

variable {name : String}

theorem ne_equals_of_mem_word (valid : isLabelText name = true) :
    ∀ s ∈ name.toList.map Symbol.bare, decide (s ≠ .bare '=') = true := by
  intro s member
  obtain ⟨c, inName, rfl⟩ := List.mem_map.mp member
  have other : c ≠ '=' := fun same => not_mem_word valid (by decide) (same ▸ inName)
  simpa using other

theorem assignment_bare (valid : isLabelText name = true) :
    assignment (name.toList.map .bare) = ⟨name, none⟩ := by
  have plain := ne_equals_of_mem_word valid
  rw [← List.append_nil (name.toList.map Symbol.bare), assignment,
    List.takeWhile_append_of_pos plain, List.dropWhile_append_of_pos plain, List.takeWhile_nil,
    List.append_nil, plainText_bare]
  rfl

/-- The first equals sign behind a word ends a name, whatever follows it. -/
theorem assignment_equals (valid : isLabelText name = true) (rest : List Symbol) :
    assignment (name.toList.map .bare ++ .bare '=' :: rest) = ⟨name, some (plainText rest)⟩ := by
  have plain := ne_equals_of_mem_word valid
  rw [assignment, List.takeWhile_append_of_pos plain, List.dropWhile_append_of_pos plain,
    List.takeWhile_cons_of_neg (by decide), List.dropWhile_cons_of_neg (by decide), List.append_nil,
    plainText_bare]

end Assignments

/-! ## Options of a filter -/

/-- A named option whose value is escaped for the option parser. -/
def optionText (entry : String × String) : String :=
  entry.1 ++ "=" ++ Escape.optionValue entry.2

def optionSymbols (entry : String × String) : List Symbol :=
  entry.1.toList.map .bare ++ .bare '=' :: escaped Escape.isOptionSpecial entry.2.toList

section Entries

variable {quotes : Bool} {entry : String × String}

theorem spells_option (valid : isLabelText entry.1 = true) :
    Spells quotes (optionText entry).toList (optionSymbols entry) := by
  have key : Spells quotes entry.1.toList (entry.1.toList.map .bare) :=
    spells_plain (isMark_of_mem_word valid)
  have sign : Spells quotes "=".toList [.bare '='] := spells_char (by decide)
  have value : Spells quotes (Escape.escape Escape.isOptionSpecial entry.2.toList) _ :=
    spells_escape (by decide) (by decide) entry.2.toList
  have whole := (key.append sign).append value
  simpa [optionText, optionSymbols, Escape.optionValue] using whole

theorem colon_not_mem_option (valid : isLabelText entry.1 = true) :
    .bare ':' ∉ optionSymbols entry := by
  have key : Hides (· == ':') (entry.1.toList.map .bare) :=
    hides_bare fun c member => by
      simpa using fun same : c = ':' => not_mem_word valid (by decide) (same ▸ member)
  have value : Hides (· == ':') (escaped Escape.isOptionSpecial entry.2.toList) :=
    hides_escaped fun c same => by
      rw [beq_iff_eq.mp same]
      decide
  have sign : Hides (· == ':') [.bare '='] := hides_char (by decide)
  have whole := hides_append.mpr ⟨key, hides_append.mpr ⟨sign, value⟩⟩
  exact whole ':' (beq_self_eq_true ':')

/-- Options are told apart and read back whatever their values are, with quotes known or not. -/
theorem options_join {entries : List (String × String)} (nonempty : entries ≠ [])
    (valid : ∀ entry ∈ entries, isLabelText entry.1 = true) :
    options quotes (Text.join ":" (entries.map optionText)) =
      entries.map fun entry => ⟨entry.1, some entry.2⟩ := by
  have spells : Spells quotes (Text.join ":" (entries.map optionText)).toList
      ([.bare ':'].intercalate (entries.map optionSymbols)) := by
    rw [toList_join, List.map_map]
    exact spells_intercalate (by decide) fun entry member => spells_option (valid entry member)
  have separate : ∀ part ∈ entries.map optionSymbols, Symbol.bare ':' ∉ part := by
    intro part member
    obtain ⟨entry, inEntries, rfl⟩ := List.mem_map.mp member
    exact colon_not_mem_option (valid entry inEntries)
  rw [options, spells.scan_eq, List.splitOn_intercalate _ separate (by simpa using nonempty),
    List.map_map]
  refine List.map_congr_left fun entry member => ?_
  show assignment (optionSymbols entry) = _
  rw [optionSymbols, assignment_equals (valid entry member), plainText, map_char_escaped,
    String.ofList_toList]

end Entries

/-! ## Options of a stage -/

def ArgValue.symbols : ArgValue → List Symbol
  | .plain s => escaped Escape.isGraphSpecial s.toList
  | .expression s => s.toList.map .literal

def Arg.symbols (a : Arg) : List Symbol :=
  match a.key with
  | some key => key.toList.map .bare ++ .bare '=' :: a.value.symbols
  | none => a.value.symbols

def Stage.optionsText (s : Stage) : String := Text.join ":" (s.args.map Arg.text)

def Stage.optionSymbols (s : Stage) : List Symbol :=
  [.bare ':'].intercalate (s.args.map Arg.symbols)

theorem isGraphSpecial_of_isSeparator (c : Char) (separates : isSeparator c = true) :
    Escape.isGraphSpecial c = true := by
  simp only [isSeparator, List.contains_eq_mem, decide_eq_true_eq] at separates
  simp only [Escape.isGraphSpecial, List.contains_eq_mem, decide_eq_true_eq]
  exact List.mem_cons_of_mem _ (List.mem_cons_of_mem _ separates)

namespace ArgValue

theorem IsLegible.spells {v : ArgValue} (legible : v.IsLegible) :
    Spells true v.text.toList v.symbols := by
  cases v with
  | plain s =>
      rw [text, Escape.graphValue, String.toList_ofList]
      exact spells_escape (by decide) (by decide) s.toList
  | expression s =>
      rw [text, String.toList_append, String.toList_append]
      exact spells_quoted legible

theorem hides_symbols (v : ArgValue) : Hides isSeparator v.symbols := by
  cases v with
  | plain s => exact hides_escaped isGraphSpecial_of_isSeparator
  | expression s => exact hides_literal

theorem map_char_symbols (v : ArgValue) : v.symbols.map Symbol.char = v.content.toList := by
  cases v with
  | plain s => exact map_char_escaped _ _
  | expression s => exact map_char_literal _

end ArgValue

namespace Arg.IsLegible

variable {a : Arg}

theorem spells (legible : a.IsLegible) : Spells true a.text.toList a.symbols := by
  unfold Arg.text Arg.symbols
  cases isKey : a.key with
  | none => exact legible.value.spells
  | some key =>
      have key : Spells true key.toList (key.toList.map .bare) :=
        spells_plain (isMark_of_mem_word (legible.key key isKey))
      have sign : Spells true "=".toList [.bare '='] := spells_char (by decide)
      have whole := (key.append sign).append legible.value.spells
      simpa using whole

theorem hides (legible : a.IsLegible) : Hides isSeparator a.symbols := by
  have value := a.value.hides_symbols
  unfold Arg.symbols
  cases isKey : a.key with
  | none => exact value
  | some key =>
      have sign : Hides isSeparator [.bare '='] := hides_char (by decide)
      have word := hides_bare (isSeparator_of_mem_word (legible.key key isKey))
      exact hides_append.mpr ⟨word, hides_append.mpr ⟨sign, value⟩⟩

end Arg.IsLegible

theorem Arg.map_char_symbols (a : Arg) : a.symbols.map Symbol.char = a.content.toList := by
  have value := a.value.map_char_symbols
  unfold Arg.symbols Arg.content
  cases a.key with
  | none => exact value
  | some key =>
      simp only [List.map_append, List.map_cons, map_char_bare, value, String.toList_append]
      simp [Symbol.char]

theorem Stage.plainText_optionSymbols (s : Stage) : plainText s.optionSymbols = s.content := by
  have parts : (s.args.map Arg.symbols).map (List.map Symbol.char) =
      (s.args.map Arg.content).map String.toList := by
    rw [List.map_map, List.map_map]
    exact List.map_congr_left fun a _ => a.map_char_symbols
  rw [plainText, optionSymbols, map_char_intercalate, parts, content, ← String.toList_inj,
    toList_join, String.toList_ofList]
  rfl

namespace Stage.IsLegible

variable {s : Stage}

theorem spells_options (legible : s.IsLegible) :
    Spells true s.optionsText.toList s.optionSymbols := by
  rw [optionsText, toList_join, List.map_map]
  exact spells_intercalate (by decide) fun a member => (legible.args a member).spells

/-- The options of a stage show nothing that separates chains, stages or pads. -/
theorem hides_options (legible : s.IsLegible) : Hides isSeparator s.optionSymbols := by
  refine hides_intercalate (by decide) ?_
  intro part member
  obtain ⟨a, inArgs, rfl⟩ := List.mem_map.mp member
  exact (legible.args a inArgs).hides

end Stage.IsLegible

/-! ## Stages -/

def Stage.symbols (s : Stage) : List Symbol :=
  s.name.toList.map .bare ++ if s.args = [] then [] else .bare '=' :: s.optionSymbols

theorem Stage.text_eq (s : Stage) :
    s.text = s.name ++ if s.args = [] then "" else "=" ++ s.optionsText := by
  unfold Stage.text optionsText
  cases s.args with
  | nil => simp
  | cons a rest => simp [String.append_assoc]

namespace Stage.IsLegible

variable {s : Stage}

theorem spells (legible : s.IsLegible) : Spells true s.text.toList s.symbols := by
  have name : Spells true s.name.toList (s.name.toList.map .bare) :=
    spells_plain (isMark_of_mem_word legible.name)
  rw [text_eq, String.toList_append]
  refine name.append ?_
  by_cases bare : s.args = []
  · rw [if_pos bare, if_pos bare]
    exact spells_nil
  · rw [if_neg bare, if_neg bare, String.toList_append]
    exact (spells_char (by decide)).append legible.spells_options

theorem hides (legible : s.IsLegible) : Hides isSeparator s.symbols := by
  have word := hides_bare (isSeparator_of_mem_word legible.name)
  refine hides_append.mpr ⟨word, ?_⟩
  by_cases bare : s.args = []
  · rw [if_pos bare]
    exact fun c _ => List.not_mem_nil
  · rw [if_neg bare]
    have sign : Hides isSeparator [.bare '='] := hides_char (by decide)
    exact hides_append.mpr ⟨sign, legible.hides_options⟩

theorem assignment_symbols (legible : s.IsLegible) : assignment s.symbols = s.outline := by
  unfold symbols outline
  by_cases bare : s.args = []
  · rw [if_pos bare, if_pos bare, List.append_nil, assignment_bare legible.name]
  · rw [if_neg bare, if_neg bare, assignment_equals legible.name, plainText_optionSymbols]

end Stage.IsLegible

/-! ## Pads -/

/-- What stands between the brackets of a pad. -/
def Pad.word : Pad → List Char
  | .input index stream => (toString index).toList ++ ':' :: (Pad.streamLetter stream).toList
  | .label l => l.name.toList

theorem PadLabel.toList_text (l : PadLabel) : l.text.toList = '[' :: l.name.toList ++ [']'] := by
  simp [text]

theorem Pad.toList_text (p : Pad) : p.text.toList = '[' :: p.word ++ [']'] := by
  cases p with
  | input index stream => simp [text, word]
  | label l => exact l.toList_text

/-- Of the characters with a meaning, the text of a pad holds its colon only. -/
theorem Pad.special_not_mem (p : Pad) {c : Char} (special : c ∈ specialCharacters) (other : c ≠ ':') :
    c ∉ p.word := by
  cases p with
  | label l => exact not_mem_word l.valid special
  | input index stream =>
      have letter : c ∉ (streamLetter stream).toList := by
        have letters : isLabelText (streamLetter stream) = true := by cases stream <;> decide
        exact not_mem_word letters special
      rw [word, List.mem_append, List.mem_cons, not_or, not_or]
      exact ⟨not_mem_word (isLabelText_toString index) special, other, letter⟩

theorem Pad.isMark_of_mem_word {p : Pad} {c : Char} (member : c ∈ p.word) : isMark c = false := by
  rw [isMark, Bool.or_eq_false_iff, beq_eq_false_iff_ne, beq_eq_false_iff_ne]
  exact ⟨fun same => p.special_not_mem (by decide) (by decide) (same ▸ member),
    fun same => p.special_not_mem (by decide) (by decide) (same ▸ member)⟩

/-- A pad is read back from what stands between its brackets. -/
theorem Pad.pad?_word (p : Pad) : pad? p.word = some p := by
  cases p with
  | label l =>
      have single : l.name.toList.splitOn ':' = [l.name.toList] :=
        List.splitOn_eq_singleton (not_mem_word l.valid (by decide))
      simp [pad?, word, single, PadLabel.ofName?, l.valid]
  | input index stream =>
      have noColon : ':' ∉ (toString index).toList :=
        not_mem_word (isLabelText_toString index) (by decide)
      have parts : (word (.input index stream)).splitOn ':' =
          [(toString index).toList, (streamLetter stream).toList] := by
        have both : ∀ part ∈ [(toString index).toList, (streamLetter stream).toList], ':' ∉ part := by
          have letter : ':' ∉ (streamLetter stream).toList := by cases stream <;> decide
          exact List.forall_mem_cons.mpr ⟨noColon, List.forall_mem_singleton.mpr letter⟩
        have joined := List.splitOn_intercalate ':' both (List.cons_ne_nil _ _)
        rwa [List.intercalate_cons_cons, List.intercalate_singleton, List.append_assoc] at joined
      have number : ((Nat.toDigits 10 index).isEmpty ||
          !(Nat.toDigits 10 index).all Char.isDigit) = false := by
        rw [PadLabel.toDigits_all_isDigit, List.isEmpty_eq_false_iff.mpr Nat.toDigits_ne_nil]
        rfl
      have letter : stream? (streamLetter stream).toList = some stream := by
        cases stream <;> decide
      simp only [pad?, parts, Nat.toString_eq_repr, Nat.toList_repr, number, Bool.false_eq_true,
        if_false, letter, Option.map_some, Nat.ofDigitChars_ten_toDigits]

/-- The symbols of a group in brackets. -/
def group (content : List Char) : List Symbol := ('[' :: content ++ [']']).map .bare

theorem groups_open {content : List Char} (closed : ']' ∉ content) (start : List Char)
    (rest : List Symbol) :
    groups (some start) ((content ++ [']']).map .bare ++ rest) =
      ((start ++ content) :: (groups none rest).1, (groups none rest).2) := by
  induction content generalizing start with
  | nil =>
      rw [List.append_nil]
      exact if_pos rfl
  | cons c others inductionHypothesis =>
      rw [List.mem_cons, not_or] at closed
      have other : Symbol.bare c ≠ .bare ']' := fun same => closed.1 (Symbol.bare.inj same).symm
      rw [List.cons_append, List.map_cons, List.cons_append, groups, if_neg other,
        inductionHypothesis closed.2, Symbol.char, List.append_assoc, List.singleton_append]

/-- Groups are read one by one up to what is no group. -/
theorem groups_flatMap {β : Type} {content : β → List Char} {xs : List β} {rest : List Symbol}
    (closed : ∀ x ∈ xs, ']' ∉ content x) (stops : groups none rest = ([], rest)) :
    groups none (xs.flatMap (fun x => group (content x)) ++ rest) = (xs.map content, rest) := by
  induction xs with
  | nil => exact stops
  | cons x others inductionHypothesis =>
      obtain ⟨first, remaining⟩ := List.forall_mem_cons.mp closed
      have opened := groups_open first [] (others.flatMap (fun x => group (content x)) ++ rest)
      rw [inductionHypothesis remaining] at opened
      rw [List.flatMap_cons, List.append_assoc, group, List.cons_append, List.map_cons,
        List.cons_append, groups, if_pos rfl]
      exact opened

theorem spells_pad (p : Pad) : Spells true p.text.toList (group p.word) := by
  have plain : ∀ c ∈ '[' :: p.word ++ [']'], isMark c = false := by
    intro c member
    rw [List.cons_append, List.mem_cons, List.mem_append, List.mem_singleton] at member
    rcases member with rfl | inWord | rfl
    · decide
    · exact Pad.isMark_of_mem_word inWord
    · decide
  rw [p.toList_text]
  exact spells_plain plain

theorem group_ne_semicolon (p : Pad) : Symbol.bare ';' ∉ group p.word := by
  have inside := p.special_not_mem (c := ';') (by decide) (by decide)
  simp [group, inside]

/-! ## Chains -/

def Chain.body (c : Chain) : List Symbol := [.bare ','].intercalate (c.stages.map Stage.symbols)

def Chain.symbols (c : Chain) : List Symbol :=
  c.inputs.flatMap (fun p => group p.word) ++
    (c.body ++ c.outputs.flatMap fun l => group (Pad.word (.label l)))

theorem intercalate_ne_nil {β : Type} {separator first : List β} (rest : List (List β))
    (nonempty : first ≠ []) : separator.intercalate (first :: rest) ≠ [] := by
  cases rest with
  | nil => rwa [List.intercalate_singleton]
  | cons next rest =>
      rw [List.intercalate_cons_cons, List.append_assoc]
      exact List.append_ne_nil_of_left_ne_nil nonempty _

theorem mapM_map_eq_some {β γ δ : Type} {f : γ → Option δ} {g : β → γ} {h : β → δ} {xs : List β}
    (each : ∀ x ∈ xs, f (g x) = some (h x)) : (xs.map g).mapM f = some (xs.map h) := by
  induction xs with
  | nil => rfl
  | cons x rest inductionHypothesis =>
      obtain ⟨first, others⟩ := List.forall_mem_cons.mp each
      rw [List.map_cons, List.mapM_cons, first, inductionHypothesis others]
      rfl

theorem Stage.IsLegible.symbols_ne_nil {s : Stage} (legible : s.IsLegible) : s.symbols ≠ [] := by
  have valid := legible.name
  simp only [isLabelText, Bool.and_eq_true, Bool.not_eq_true', List.isEmpty_eq_false_iff] at valid
  exact List.append_ne_nil_of_left_ne_nil (by simpa using valid.1) _

theorem takeWhile_labels (labels : List PadLabel) :
    (labels.flatMap fun l => group (Pad.word (.label l))).takeWhile (· ≠ .bare '[') = [] := by
  cases labels with
  | nil => rfl
  | cons l rest => exact List.takeWhile_cons_of_neg (by decide)

theorem dropWhile_labels (labels : List PadLabel) :
    (labels.flatMap fun l => group (Pad.word (.label l))).dropWhile (· ≠ .bare '[') =
      labels.flatMap fun l => group (Pad.word (.label l)) := by
  cases labels with
  | nil => rfl
  | cons l rest => exact List.dropWhile_cons_of_neg (by decide)

namespace Chain.IsLegible

variable {c : Chain}

theorem spells (legible : c.IsLegible) : Spells true c.text.toList c.symbols := by
  have inputs : Spells true (c.inputs.flatMap fun p => p.text.toList) _ :=
    spells_flatMap fun p _ => spells_pad p
  have outputs : Spells true (c.outputs.flatMap fun l => l.text.toList) _ :=
    spells_flatMap fun l _ => spells_pad (.label l)
  have stages : Spells true ([','].intercalate (c.stages.map fun s => s.text.toList)) c.body :=
    spells_intercalate (by decide) fun s member => (legible.stages s member).spells
  have text : c.text.toList = c.inputs.flatMap (fun p => p.text.toList) ++
      ([','].intercalate (c.stages.map fun s => s.text.toList) ++
        c.outputs.flatMap fun l => l.text.toList) := by
    simp [Chain.text, toList_join, String.toList_join, List.flatMap_map, Function.comp_def]
  rw [text]
  exact inputs.append (stages.append outputs)

theorem body_ne_nil (legible : c.IsLegible) : c.body ≠ [] := by
  obtain ⟨first, rest, stages⟩ := List.exists_cons_of_ne_nil legible.staged
  have isFirst : first ∈ c.stages := stages ▸ List.mem_cons_self
  rw [Chain.body, stages, List.map_cons]
  exact intercalate_ne_nil _ (legible.stages first isFirst).symbols_ne_nil

theorem symbols_ne_nil (legible : c.IsLegible) : c.symbols ≠ [] := by
  have rest := List.append_ne_nil_of_left_ne_nil legible.body_ne_nil
    (c.outputs.flatMap fun l => group (Pad.word (.label l)))
  exact List.append_ne_nil_of_right_ne_nil _ rest

/-- Of the separating characters, only commas stand bare between the pads of a chain. -/
theorem not_mem_body (legible : c.IsLegible) {d : Char} (separates : isSeparator d = true)
    (other : d ≠ ',') : .bare d ∉ c.body := by
  have hidden : Hides (· == d) c.body := by
    refine hides_intercalate (by simpa using Ne.symm other) ?_
    intro part member
    obtain ⟨s, inStages, rfl⟩ := List.mem_map.mp member
    intro e same
    rw [beq_iff_eq] at same
    rw [same]
    exact (legible.stages s inStages).hides d separates
  exact hidden d (beq_self_eq_true d)

theorem not_mem_symbols (legible : c.IsLegible) : .bare ';' ∉ c.symbols := by
  have inputs (pads : List Pad) : .bare ';' ∉ pads.flatMap fun p => group p.word := by
    intro member
    obtain ⟨p, -, inGroup⟩ := List.mem_flatMap.mp member
    exact group_ne_semicolon p inGroup
  have outputs : .bare ';' ∉ c.outputs.flatMap fun l => group (Pad.word (.label l)) := by
    have labels := inputs (c.outputs.map .label)
    rwa [List.flatMap_map] at labels
  rw [Chain.symbols, List.mem_append, List.mem_append, not_or, not_or]
  exact ⟨inputs c.inputs, legible.not_mem_body (by decide) (by decide), outputs⟩

/-- A chain is read back from its symbols. -/
theorem chain?_symbols (legible : c.IsLegible) : chain? c.symbols = some c.outline := by
  have closed (p : Pad) : ']' ∉ p.word := p.special_not_mem (by decide) (by decide)
  have noBracket : Symbol.bare '[' ∉ c.body := legible.not_mem_body (by decide) (by decide)
  have inBody : ∀ s ∈ c.body, decide (s ≠ .bare '[') = true :=
    fun s member => decide_eq_true fun same => noBracket (same ▸ member)
  -- The first stage starts with its name, so the groups of the inputs end before it.
  have stops (rest : List Symbol) : groups none (c.body ++ rest) = ([], c.body ++ rest) := by
    obtain ⟨first, others, body⟩ := List.exists_cons_of_ne_nil legible.body_ne_nil
    have other : first ≠ .bare '[' := fun same => noBracket (by simp [body, same])
    rw [body, List.cons_append, groups, if_neg other]
  have inputs := groups_flatMap (fun p (_ : p ∈ c.inputs) => closed p)
    (stops (c.outputs.flatMap fun l => group (Pad.word (.label l))))
  have outputs : groups none (c.outputs.flatMap fun l => group (Pad.word (.label l))) =
      (c.outputs.map fun l => Pad.word (.label l), []) := by
    rw [← List.append_nil (c.outputs.flatMap fun l => group (Pad.word (.label l)))]
    exact groups_flatMap (fun l _ => closed (.label l)) rfl
  have stages : c.body.splitOn (.bare ',') = c.stages.map Stage.symbols := by
    refine List.splitOn_intercalate _ ?_ (by simpa using legible.staged)
    intro part member
    obtain ⟨s, inStages, rfl⟩ := List.mem_map.mp member
    exact (legible.stages s inStages).hides ',' (by decide)
  have outlines : (c.stages.map Stage.symbols).map assignment = c.stages.map Stage.outline := by
    rw [List.map_map]
    exact List.map_congr_left fun s member => (legible.stages s member).assignment_symbols
  have pads : (c.inputs.map Pad.word).mapM pad? = some c.inputs := by
    rw [mapM_map_eq_some (h := id) fun p _ => p.pad?_word, List.map_id]
  have labels : (c.outputs.map fun l => Pad.word (.label l)).mapM
      (fun name => PadLabel.ofName? (String.ofList name)) = some c.outputs := by
    rw [mapM_map_eq_some (h := id) fun l _ => ?_, List.map_id]
    simp [Pad.word, PadLabel.ofName?, l.valid]
  rw [chain?, Chain.symbols, inputs]
  simp only [List.takeWhile_append_of_pos inBody, List.dropWhile_append_of_pos inBody,
    takeWhile_labels, dropWhile_labels, List.append_nil, outputs, stages, outlines, pads, labels]
  rfl

end Chain.IsLegible

/-! ## Graphs -/

/-- A legible graph is read back from its text: its chains, each with its pads, the names and options of
its stages, and its labels. -/
theorem FilterGraph.read_text {g : FilterGraph} (legible : g.IsLegible) :
    graph? g.text = some (g.chains.map Chain.outline) := by
  have spells : Spells true g.text.toList ([.bare ';'].intercalate (g.chains.map Chain.symbols)) := by
    rw [FilterGraph.text, toList_join, List.map_map]
    exact spells_intercalate (by decide) fun c member => (legible c member).spells
  cases chains : g.chains with
  | nil =>
      rw [FilterGraph.text, chains]
      rfl
  | cons first rest =>
      -- An empty text would be read as no chain at all, but every chain has a stage to show.
      have nonempty : g.text ≠ "" := by
        intro isEmpty
        have isFirst : first ∈ g.chains := chains ▸ List.mem_cons_self
        have nothing := spells.scan_eq
        rw [isEmpty, chains, List.map_cons] at nothing
        exact intercalate_ne_nil _ (legible first isFirst).symbols_ne_nil nothing.symm
      have separate : ∀ part ∈ g.chains.map Chain.symbols, Symbol.bare ';' ∉ part := by
        intro part member
        obtain ⟨c, inChains, rfl⟩ := List.mem_map.mp member
        exact (legible c inChains).not_mem_symbols
      have some : g.chains.map Chain.symbols ≠ [] := by simp [chains]
      rw [graph?, if_neg nonempty, spells.scan_eq, List.splitOn_intercalate _ separate some, ← chains]
      exact mapM_map_eq_some fun c member => (legible c member).chain?_symbols

/-- A text with every separator drawn on a stream, and the end of its link. -/
def captioned : FilterGraph :=
  ⟨[{ inputs := [.input 0 .video]
      stages :=
        [.ofName "copy",
         ((Stage.ofName "drawtext").arg "text" "[a],'b';=\\:").expression "enable" "gte(t,1)"]
      outputs := [⟨"v0", by decide⟩] },
    { inputs := [.label ⟨"v0", by decide⟩], stages := [(Stage.ofName "nullsink").positional ""]
      outputs := [] }]⟩

theorem read_text_captioned :
    captioned.IsLegible ∧
      graph? captioned.text =
        some
          [{ inputs := [.input 0 .video]
             stages :=
              [⟨"copy", none⟩, ⟨"drawtext", some "text=[a],'b';=\\::enable=gte(t,1)"⟩]
             outputs := [⟨"v0", by decide⟩] },
           { inputs := [.label ⟨"v0", by decide⟩], stages := [⟨"nullsink", some ""⟩], outputs := [] }] := by
  have legible : captioned.IsLegible := by decide
  exact ⟨legible, captioned.read_text legible⟩

end Montage

import Montage.Json.Record
import Montage.Proofs.Json.Number

/-!
Contract: written texts are read back.

Owns:
- the values that have a text to be read back from (`Legible`);
- which value is read from the text of another one, if single numbers change (`IsReadAs`);
- what a text does to the containers around it (`Conveys`, `Adds`), and that the text of a legible value
  is read as the value.

Does **not** own: which numbers are read back (`ReadsBack` is asked of each number of a value).
-/

set_option autoImplicit false

namespace Montage.Json

open Lexer (Lexes wordToken? isWordChar)
open Reader (Expectation Frame depthLimit place stepValue stepKey stepAfterPart)

/-! ## Legible values -/

/-- Numbers that are read back from their texts. -/
def ReadsBack (x : Float) : Prop :=
  read? (Layout.json x) = some (.real x)

/-- Values with at most so many levels of nesting whose parts all have a text to be read back from. -/
inductive Legible : Nat → Json Float → Prop
  | null {room : Nat} : Legible room .null
  | bool {room : Nat} (b : Bool) : Legible room (.bool b)
  | whole {room : Nat} {n : Int} (wide : IsWide n) : Legible room (.whole n)
  | real {room : Nat} {x : Float} (readsBack : ReadsBack x) : Legible room (.real x)
  | string {room : Nat} (s : String) : Legible room (.string s)
  | array {room : Nat} {items : List (Json Float)} (parts : ∀ item ∈ items, Legible room item) :
      Legible (room + 1) (.array items)
  | object {room : Nat} {members : List (String × Json Float)}
      (parts : ∀ member ∈ members, Legible room member.2) : Legible (room + 1) (.object members)

/-- A value with at most so many levels of nesting, and the value that is read from its text: the same apart
from numbers that are read as other numbers. -/
inductive IsReadAs : Nat → Json Float → Json Float → Prop
  | null {room : Nat} : IsReadAs room .null .null
  | bool {room : Nat} (b : Bool) : IsReadAs room (.bool b) (.bool b)
  | whole {room : Nat} {n : Int} (wide : IsWide n) : IsReadAs room (.whole n) (.whole n)
  | real {room : Nat} {x y : Float} (isRead : read? (Layout.json x) = some (.real y)) :
      IsReadAs room (.real x) (.real y)
  | string {room : Nat} (s : String) : IsReadAs room (.string s) (.string s)
  | array {room : Nat} {items : List (Json Float × Json Float)}
      (parts : ∀ item ∈ items, IsReadAs room item.1 item.2) :
      IsReadAs (room + 1) (.array (items.map Prod.fst)) (.array (items.map Prod.snd))
  | object {room : Nat} {members : List (String × Json Float × Json Float)}
      (parts : ∀ member ∈ members, IsReadAs room member.2.1 member.2.2) :
      IsReadAs (room + 1) (.object (members.map fun member => (member.1, member.2.1)))
        (.object (members.map fun member => (member.1, member.2.2)))

/-- A legible value is read as it is. -/
theorem Legible.isReadAs {room : Nat} {value : Json Float} (legible : Legible room value) :
    IsReadAs room value value := by
  induction legible with
  | null => exact .null
  | bool b => exact .bool b
  | whole wide => exact .whole wide
  | real readsBack => exact .real readsBack
  | string s => exact .string s
  | @array room items parts inductionHypothesis =>
      have twice : ∀ item ∈ items.map fun item => (item, item), IsReadAs room item.1 item.2 := by
        intro _ member
        obtain ⟨item, isItem, rfl⟩ := List.mem_map.mp member
        exact inductionHypothesis item isItem
      simpa [Function.comp_def] using IsReadAs.array twice
  | @object room members parts inductionHypothesis =>
      have twice : ∀ member ∈ members.map fun member => (member.1, member.2, member.2),
          IsReadAs room member.2.1 member.2.2 := by
        intro _ found
        obtain ⟨member, isMember, rfl⟩ := List.mem_map.mp found
        exact inductionHypothesis member isMember
      simpa [Function.comp_def] using IsReadAs.object twice

/-- The number of a value that is written as a fractional one. -/
def real? : Json Float → Option Float
  | .real x => some x
  | _ => none

theorem real?_eq_some_iff {value : Json Float} {x : Float} :
    real? value = some x ↔ value = .real x := by
  cases value <;> simp [real?]

/-- Whether a number is read back can be computed. -/
theorem readsBack_iff (x : Float) : ReadsBack x ↔ (read? (Layout.json x)).bind real? = some x := by
  simp only [ReadsBack, Option.bind_eq_some_iff, real?_eq_some_iff, exists_eq_right]

instance (x : Float) : Decidable (ReadsBack x) :=
  decidable_of_iff _ (readsBack_iff x).symm

section Legible

variable {room : Nat}

@[simp] theorem legible_null : Legible room .null := .null

@[simp] theorem legible_string (s : String) : Legible room (.string s) := .string s

@[simp] theorem legible_object (members : List (String × Json Float)) :
    Legible (room + 1) (.object members) ↔ ∀ member ∈ members, Legible room member.2 := by
  constructor
  · rintro ⟨⟩
    assumption
  · exact Legible.object

theorem legible_ofScalar {x : Float} (readsBack : ReadsBack x) : Legible room (ofScalar x) := by
  unfold ofScalar
  split
  · exact .real readsBack
  · exact .null

theorem legible_ofOption {β : Type} {write : β → Json Float} {o : Option β}
    (legible : ∀ b ∈ o, Legible room (write b)) : Legible room (ofOption write o) := by
  cases o with
  | none => exact .null
  | some b => exact legible b rfl

end Legible

/-! ## Single values -/

/-- The places where a value may begin. -/
def ValueDue (expecting : Expectation) : Prop :=
  expecting = .value ∨ expecting = .valueOrClose

/-- A text that is read as a value wherever one may begin, with room for so many levels. -/
def Conveys (room : Nat) (text : String) (value : Json Float) : Prop :=
  ∃ tokens, Lexes text.toList tokens ∧
    ∀ stack expecting, ValueDue expecting → stack.length + room ≤ depthLimit →
      tokens.foldlM Reader.step ⟨stack, expecting⟩ = some (place stack value)

/-- A text that is read as a value from the start holds this value. -/
theorem Conveys.read? {room : Nat} (fits : room ≤ depthLimit) {text : String} {value : Json Float}
    (conveys : Conveys room text value) : read? text = some value := by
  obtain ⟨tokens, lexes, builds⟩ := conveys
  have built := builds [] .value (Or.inl rfl) (by simpa using fits)
  unfold Json.read? Reader.value?
  rw [Lexer.tokens?_of_lexes lexes, Option.bind_eq_bind, Option.bind_some, built,
    Option.bind_eq_bind, Option.bind_some]
  rfl

theorem step_due {stack : List Frame} {expecting : Expectation} (due : ValueDue expecting)
    {token : Token} (goesOn : token ≠ .closeArray) :
    Reader.step ⟨stack, expecting⟩ token = stepValue stack token := by
  rcases due with rfl | rfl
  · rfl
  · exact if_neg goesOn

theorem conveys_of_token {room : Nat} {text : String} {token : Token} {value : Json Float}
    (lexes : Lexes text.toList [token]) (goesOn : token ≠ .closeArray)
    (isValue : ∀ stack, stepValue stack token = some (place stack value)) :
    Conveys room text value := by
  refine ⟨[token], lexes, ?_⟩
  intro stack expecting due _
  rw [foldlM_cons_of_eq_some ((step_due due goesOn).trans (isValue stack))]
  rfl

/-- The token of a word is a value by itself. -/
theorem stepValue_word {s : List Char} {token : Token} (isWord : wordToken? s = some token) :
    token ≠ .closeArray ∧ ∃ value, ∀ stack, stepValue stack token = some (place stack value) := by
  unfold wordToken? at isWord
  split_ifs at isWord
  · cases isWord
    exact ⟨by decide, .null, fun _ => rfl⟩
  · cases isWord
    exact ⟨by decide, .bool true, fun _ => rfl⟩
  · cases isWord
    exact ⟨by decide, .bool false, fun _ => rfl⟩
  · obtain ⟨literal, -, rfl⟩ := Option.map_eq_some_iff.mp isWord
    exact ⟨Token.noConfusion, Number.value literal, fun _ => rfl⟩

theorem conveys_whole {room : Nat} {n : Int} (wide : IsWide n) :
    Conveys room (toString n) (.whole n) := by
  have isWord := wordToken?_of_literal? (literal?_wholeChars (decide (n < 0)) n.natAbs)
  have lexes := Lexer.lexes_word (wholeChars_ne_nil _ _) (isWordChar_wholeChars _ _) isWord
  rw [← toList_toString] at lexes
  refine conveys_of_token lexes Token.noConfusion fun stack => ?_
  show some (place stack (Number.value _)) = _
  rw [value_whole wide]

/-- What is read from the text of a number is conveyed by it, be it that number or another one. -/
theorem conveys_of_read? {room : Nat} {x y : Float} (isRead : read? (Layout.json x) = some (.real y)) :
    Conveys room (Layout.json x) (.real y) := by
  unfold read? at isRead
  obtain ⟨tokens, found, built⟩ := Option.bind_eq_some_iff.mp isRead
  have nonempty : (Layout.json x).toList ≠ [] := by
    intro empty
    rw [empty] at found
    cases found
    cases built
  -- The text is one word, and the token of a word does not depend on what stands around it.
  rw [Lexer.tokens?_word nonempty (isWord_json x)] at found
  obtain ⟨token, isWord, rfl⟩ := Option.map_eq_some_iff.mp found
  obtain ⟨goesOn, value, isValue⟩ := stepValue_word isWord
  have same : value = .real y := by
    unfold Reader.value? at built
    rw [List.foldlM_cons, step_due (Or.inl rfl) goesOn, isValue] at built
    exact Option.some.inj built
  rw [same] at isValue
  exact conveys_of_token (Lexer.lexes_word nonempty (isWord_json x) isWord) goesOn isValue

theorem conveys_word {room : Nat} {text : String} {token : Token} {value : Json Float}
    (isWord : IsWord text) (nonempty : text.toList ≠ []) (isToken : wordToken? text.toList = some token)
    (isValue : ∀ stack, stepValue stack token = some (place stack value)) :
    Conveys room text value :=
  conveys_of_token (Lexer.lexes_word nonempty isWord isToken) (stepValue_word isToken).1 isValue

/-! ## Containers -/

/-- What arrays and objects have in common: the marks around them, which frames hold certain parts, last
first, and where another part may begin. -/
structure Container (γ : Type) where
  value : List γ → Json Float
  opening : Token
  openingMark : Char
  isOpening : Lexer.mark? openingMark = some opening
  closing : Token
  closingMark : Char
  isClosing : Lexer.mark? closingMark = some closing
  Holds : List γ → Frame → Prop
  Due : Expectation → Prop
  atStart : Expectation
  due_atStart : Due atStart
  afterComma : Expectation
  due_afterComma : Due afterComma
  isOpened : ∀ stack expecting, ValueDue expecting → stack.length < depthLimit →
    ∃ frame, Holds [] frame ∧
      Reader.step ⟨stack, expecting⟩ opening = some ⟨frame :: stack, atStart⟩
  goesOn : ∀ parts frame stack, Holds parts frame →
    Reader.step ⟨frame :: stack, .commaOrClose⟩ .comma = some ⟨frame :: stack, afterComma⟩
  isClosed : ∀ parts frame stack expecting, Holds parts frame →
    expecting = atStart ∨ expecting = .commaOrClose →
    Reader.step ⟨frame :: stack, expecting⟩ closing = some (place stack (value parts.reverse))

/-- A text that adds parts to the innermost container. -/
def Adds {γ : Type} (container : Container γ) (room : Nat) (text : String) (added : List γ) : Prop :=
  ∃ tokens, Lexes text.toList tokens ∧
    ∀ parts frame stack expecting, container.Holds parts frame → container.Due expecting →
      stack.length + room < depthLimit →
      ∃ after, container.Holds (added.reverse ++ parts) after ∧
        tokens.foldlM Reader.step ⟨frame :: stack, expecting⟩ = some ⟨after :: stack, .commaOrClose⟩

section Sequence

variable {γ δ : Type} {container : Container γ} {room : Nat} {write : δ → String} {result : δ → γ}
  {parts : List δ}

theorem Adds.comma {text rest : String} {added more : List γ} (first : Adds container room text added)
    (second : Adds container room rest more) :
    Adds container room (text ++ "," ++ rest) (added ++ more) := by
  obtain ⟨tokens, lexes, builds⟩ := first
  obtain ⟨others, lexed, built⟩ := second
  refine ⟨tokens ++ .comma :: others, ?_, ?_⟩
  · have joined := lexes.mark (c := ',') rfl lexed
    simpa using joined
  · intro parts frame stack expecting holds due fits
    obtain ⟨between, holding, reached⟩ := builds parts frame stack expecting holds due fits
    obtain ⟨after, held, finished⟩ :=
      built _ between stack _ holding container.due_afterComma fits
    refine ⟨after, by simpa using held, ?_⟩
    rw [foldlM_append_of_eq_some reached, foldlM_cons_of_eq_some (container.goesOn _ _ _ holding),
      finished]

theorem Adds.join (nonempty : parts ≠ [])
    (each : ∀ part ∈ parts, Adds container room (write part) [result part]) :
    Adds container room (Text.join "," (parts.map write)) (parts.map result) := by
  induction parts with
  | nil => exact (nonempty rfl).elim
  | cons part rest inductionHypothesis =>
      have first := each part List.mem_cons_self
      cases rest with
      | nil => exact first
      | cons next rest =>
          have others := inductionHypothesis (List.cons_ne_nil _ _)
            fun part member => each part (List.mem_cons_of_mem _ member)
          exact first.comma others

/-- Behind its opening mark a container takes up its parts, if there are any, and is closed. -/
theorem fills_container (container : Container γ)
    (each : ∀ part ∈ parts, Adds container room (write part) [result part]) :
    ∃ tokens, Lexes (Text.join "," (parts.map write)).toList tokens ∧
      ∀ frame stack, container.Holds [] frame → stack.length + room < depthLimit →
        (tokens ++ [container.closing]).foldlM Reader.step ⟨frame :: stack, container.atStart⟩ =
          some (place stack (container.value (parts.map result))) := by
  by_cases empty : parts = []
  · rw [empty]
    refine ⟨[], Lexer.lexes_nil, ?_⟩
    intro frame stack holds _
    rw [List.nil_append, foldlM_cons_of_eq_some (container.isClosed _ _ _ _ holds (Or.inl rfl))]
    rfl
  · obtain ⟨tokens, lexes, builds⟩ := Adds.join empty each
    refine ⟨tokens, lexes, ?_⟩
    intro frame stack holds fits
    obtain ⟨after, held, reached⟩ := builds [] frame stack _ holds container.due_atStart fits
    rw [foldlM_append_of_eq_some reached,
      foldlM_cons_of_eq_some (container.isClosed _ _ _ _ held (Or.inr rfl)), List.append_nil,
      List.reverse_reverse]
    rfl

/-- Parts between the marks of a container are read as the container. -/
theorem conveys_container (container : Container γ)
    (each : ∀ part ∈ parts, Adds container room (write part) [result part]) :
    Conveys (room + 1) (String.singleton container.openingMark ++ Text.join "," (parts.map write)
      ++ String.singleton container.closingMark) (container.value (parts.map result)) := by
  obtain ⟨tokens, lexes, fills⟩ := fills_container container each
  -- One level of room goes to the container itself, so that its frame is not void.
  refine ⟨container.opening :: (tokens ++ [container.closing]), ?_, ?_⟩
  · have opened := Lexer.lexes_nil.mark container.isOpening
      (lexes.mark container.isClosing Lexer.lexes_nil)
    simpa using opened
  · intro stack expecting due fits
    obtain ⟨frame, holds, opened⟩ := container.isOpened stack expecting due (by omega)
    rw [foldlM_cons_of_eq_some opened]
    exact fills frame stack holds (by omega)

end Sequence

def arrays : Container (Json Float) where
  value := .array
  opening := .openArray
  openingMark := '['
  isOpening := rfl
  closing := .closeArray
  closingMark := ']'
  isClosing := rfl
  Holds items frame := frame = .array false items
  Due := ValueDue
  atStart := .valueOrClose
  due_atStart := Or.inr rfl
  afterComma := .value
  due_afterComma := Or.inl rfl
  isOpened := by
    intro stack expecting due shallow
    refine ⟨_, rfl, ?_⟩
    rw [step_due due (by decide)]
    have notVoid : decide (depthLimit ≤ stack.length) = false := decide_eq_false (by omega)
    show some (Reader.openFrame stack false) = _
    simp [Reader.openFrame, notVoid]
  goesOn := by
    rintro items _ stack rfl
    rfl
  isClosed := by
    rintro items _ stack expecting rfl (rfl | rfl) <;> rfl

/-- The last name that was read stays beside the members of an object. -/
def objects : Container (String × Json Float) where
  value := .object
  opening := .openObject
  openingMark := '\x7b'
  isOpening := rfl
  closing := .closeObject
  closingMark := '\x7d'
  isClosing := rfl
  Holds members frame := ∃ key, frame = .object false members key
  Due expecting := expecting = .key ∨ expecting = .keyOrClose
  atStart := .keyOrClose
  due_atStart := Or.inr rfl
  afterComma := .key
  due_afterComma := Or.inl rfl
  isOpened := by
    intro stack expecting due shallow
    refine ⟨_, ⟨"", rfl⟩, ?_⟩
    rw [step_due due (by decide)]
    have notVoid : decide (depthLimit ≤ stack.length) = false := decide_eq_false (by omega)
    show some (Reader.openFrame stack true) = _
    simp [Reader.openFrame, notVoid]
  goesOn := by
    rintro members _ stack ⟨key, rfl⟩
    rfl
  isClosed := by
    rintro members _ stack expecting ⟨key, rfl⟩ (rfl | rfl) <;> rfl

theorem Conveys.item {room : Nat} {text : String} {value : Json Float}
    (conveys : Conveys room text value) : Adds arrays room text [value] := by
  obtain ⟨tokens, lexes, builds⟩ := conveys
  refine ⟨tokens, lexes, ?_⟩
  rintro items _ stack expecting rfl due fits
  refine ⟨_, rfl, ?_⟩
  rw [builds _ expecting due (by rw [List.length_cons]; omega)]
  rfl

theorem Conveys.member {room : Nat} (key : String) {text : String} {value : Json Float}
    (conveys : Conveys room text value) :
    Adds objects room (Writer.quoted key ++ ":" ++ text) [(key, value)] := by
  obtain ⟨tokens, lexes, builds⟩ := conveys
  refine ⟨.string (some key) :: .colon :: tokens, ?_, ?_⟩
  · have joined := (Lexer.lexes_quoted key).mark (c := ':') rfl lexes
    simpa using joined
  · rintro members _ stack expecting ⟨last, rfl⟩ due fits
    have named : Reader.step ⟨.object false members last :: stack, expecting⟩ (.string (some key)) =
        some ⟨.object false members key :: stack, .colon⟩ := by
      rcases due with rfl | rfl <;> rfl
    have ended : Reader.step ⟨.object false members key :: stack, .colon⟩ .colon =
        some ⟨.object false members key :: stack, .value⟩ := rfl
    refine ⟨_, ⟨key, rfl⟩, ?_⟩
    rw [foldlM_cons_of_eq_some named, foldlM_cons_of_eq_some ended,
      builds _ .value (Or.inl rfl) (by rw [List.length_cons]; omega)]
    rfl

/-! ## The text of a value -/

theorem compactItems_eq_map (items : List (Json Float)) :
    Writer.compactItems items = items.map Writer.compact := by
  induction items with
  | nil => rfl
  | cons item rest inductionHypothesis =>
      rw [Writer.compactItems, inductionHypothesis, List.map_cons]

theorem compactMembers_eq_map (members : List (String × Json Float)) :
    Writer.compactMembers members =
      members.map fun member => Writer.quoted member.1 ++ ":" ++ Writer.compact member.2 := by
  induction members with
  | nil => rfl
  | cons member rest inductionHypothesis =>
      obtain ⟨name, value⟩ := member
      rw [Writer.compactMembers, inductionHypothesis, List.map_cons]

/-- The text of a value is read, wherever one may begin, as the value that it is read as. -/
theorem IsReadAs.conveys {room : Nat} {value other : Json Float} (isReadAs : IsReadAs room value other) :
    Conveys room (Writer.compact value) other := by
  induction isReadAs with
  | null =>
      have isToken : wordToken? "null".toList = some .null := by decide
      rw [Writer.compact]
      exact conveys_word (IsWord.ofAll (by decide)) (by decide) isToken fun _ => rfl
  | bool b =>
      have isFalse : wordToken? "false".toList = some (.bool false) := by decide
      have isTrue : wordToken? "true".toList = some (.bool true) := by decide
      rw [Writer.compact]
      cases b with
      | false => exact conveys_word (IsWord.ofAll (by decide)) (by decide) isFalse fun _ => rfl
      | true => exact conveys_word (IsWord.ofAll (by decide)) (by decide) isTrue fun _ => rfl
  | whole wide =>
      rw [Writer.compact]
      exact conveys_whole wide
  | real isRead =>
      rw [Writer.compact]
      exact conveys_of_read? isRead
  | string s =>
      rw [Writer.compact]
      exact conveys_of_token (Lexer.lexes_quoted s) Token.noConfusion fun _ => rfl
  | array parts inductionHypothesis =>
      rw [Writer.compact, compactItems_eq_map, List.map_map]
      exact conveys_container arrays fun item member =>
        (inductionHypothesis item member).item
  | object parts inductionHypothesis =>
      rw [Writer.compact, compactMembers_eq_map, List.map_map]
      exact conveys_container objects fun member isMember =>
        (inductionHypothesis member isMember).member member.1

/-- The text of a value that is legible and not nested too deep holds the value. -/
theorem Legible.read?_compact {room : Nat} {value : Json Float} (legible : Legible room value)
    (fits : room ≤ depthLimit) : read? (compact value) = some value :=
  legible.isReadAs.conveys.read? fits

/-- Only finite numbers have a text that stands for a number. -/
theorem ReadsBack.isFinite {x : Float} (readsBack : ReadsBack x) : Scalar.isFinite x = true := by
  by_contra notFinite
  have isWild : (x.isNaN || x.isInf) = true := by
    by_contra plain
    simp only [Bool.or_eq_true, not_or, Bool.not_eq_true] at plain
    apply notFinite
    simp only [Scalar.isFinite, Scalar.exact, Binary64.exact, plain, Bool.false_eq_true, if_false]
  have written : Layout.json x = "null" := if_pos isWild
  have nothing : Legible 0 .null := .null
  have null : read? "null" = some .null := nothing.read?_compact (by decide)
  unfold ReadsBack at readsBack
  rw [written, null] at readsBack
  cases readsBack

end Montage.Json

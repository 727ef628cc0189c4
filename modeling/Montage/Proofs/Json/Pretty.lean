import Montage.Proofs.Json.Text

/-!
Contract: texts on several lines are read back.

Owns:
- that white space between tokens changes nothing;
- that the text of a value on several lines is read as the one on one line is.

Does **not** own: the containers that a text fills (`Montage.Proofs.Json.Text`).

The white space before a part belongs to the part, and what stands before a closing mark belongs to the
parts before it. So the lines of a container are its parts with commas between them, like those of a
container on one line.
-/

set_option autoImplicit false

namespace Montage.Json

/-! ## White space -/

/-- Texts that a reader passes over. -/
def IsSpaces (s : String) : Prop :=
  ∀ c ∈ s.toList, Lexer.isSpace c = true

namespace Lexer

variable {s : List Char} {tokens : List Token}

theorem Settles.space {state : State} (settles : Settles state tokens) {c : Char}
    (space : isSpace c = true) : step state c = some ⟨tokens, .between⟩ := by
  have found (tokens : List Token) : stepBetween tokens c = some ⟨tokens, .between⟩ := by
    unfold stepBetween
    rw [if_pos space]
  cases settles with
  | between => exact found tokens
  | word isWord =>
      have notWord : isWordChar c = false := by
        refine Bool.eq_false_iff.mpr fun isWordChar => ?_
        rw [(not_isSpace_of_isWordChar isWordChar).1] at space
        cases space
      unfold step
      simp only [notWord, Bool.false_eq_true, if_false, isWord, Option.bind_some, found]

theorem foldlM_spaces {spaces : List Char} (all : ∀ c ∈ spaces, isSpace c = true) {state : State}
    (settles : Settles state tokens) :
    ∃ last, spaces.foldlM step state = some last ∧ Settles last tokens := by
  induction spaces generalizing state with
  | nil => exact ⟨state, rfl, settles⟩
  | cons c rest inductionHypothesis =>
      obtain ⟨space, others⟩ := List.forall_mem_cons.mp all
      rw [foldlM_cons_of_eq_some (settles.space space)]
      exact inductionHypothesis others (.between tokens)

theorem Lexes.append_spaces (lexes : Lexes s tokens) {spaces : List Char}
    (all : ∀ c ∈ spaces, isSpace c = true) : Lexes (s ++ spaces) tokens := by
  intro before
  obtain ⟨state, reached, settles⟩ := lexes before
  rw [foldlM_append_of_eq_some reached]
  exact foldlM_spaces all settles

theorem Lexes.spaces_append (lexes : Lexes s tokens) {spaces : List Char}
    (all : ∀ c ∈ spaces, isSpace c = true) : Lexes (spaces ++ s) tokens := by
  intro before
  have skipped : spaces.foldlM step ⟨before, .between⟩ = some ⟨before, .between⟩ := by
    induction spaces with
    | nil => rfl
    | cons c rest inductionHypothesis =>
        obtain ⟨space, others⟩ := List.forall_mem_cons.mp all
        rw [foldlM_cons_of_eq_some ((Settles.between before).space space)]
        exact inductionHypothesis others
  rw [foldlM_append_of_eq_some skipped]
  exact lexes before

end Lexer

section Spaces

variable {room : Nat} {spaces text : String} (blank : IsSpaces spaces)

include blank

theorem Conveys.spaces_append {value : Json Float} (conveys : Conveys room text value) :
    Conveys room (spaces ++ text) value := by
  obtain ⟨tokens, lexes, builds⟩ := conveys
  refine ⟨tokens, ?_, builds⟩
  rw [String.toList_append]
  exact lexes.spaces_append blank

theorem Adds.spaces_append {γ : Type} {container : Container γ} {added : List γ}
    (adds : Adds container room text added) : Adds container room (spaces ++ text) added := by
  obtain ⟨tokens, lexes, builds⟩ := adds
  refine ⟨tokens, ?_, builds⟩
  rw [String.toList_append]
  exact lexes.spaces_append blank

/-- Parts between the marks of a container are read as the container, whatever the space behind them. -/
theorem conveys_container_spaces {γ δ : Type} (container : Container γ) {write : δ → String}
    {result : δ → γ} {parts : List δ}
    (each : ∀ part ∈ parts, Adds container room (write part) [result part]) :
    Conveys (room + 1) (String.singleton container.openingMark ++ (Text.join "," (parts.map write)
      ++ spaces) ++ String.singleton container.closingMark) (container.value (parts.map result)) := by
  obtain ⟨tokens, lexes, fills⟩ := fills_container container each
  refine ⟨container.opening :: (tokens ++ [container.closing]), ?_, ?_⟩
  · have opened := Lexer.lexes_nil.mark container.isOpening
      ((lexes.append_spaces blank).mark container.isClosing Lexer.lexes_nil)
    simpa using opened
  · intro stack expecting due fits
    obtain ⟨frame, holds, opened⟩ := container.isOpened stack expecting due (by omega)
    rw [foldlM_cons_of_eq_some opened]
    exact fills frame stack holds (by omega)

end Spaces

/-! ## Lines -/

theorem isSpaces_newline (depth : Nat) : IsSpaces (Writer.newline depth) := by
  intro c member
  rw [Writer.newline, String.toList_append, String.toList_ofList] at member
  rcases List.mem_append.mp member with start | indent
  · have isNewline : c = '\n' := List.mem_singleton.mp start
    rw [isNewline]
    rfl
  · rw [String.toList_ofList] at indent
    rw [List.eq_of_mem_replicate indent]
    rfl

theorem join_lines (start : String) {parts : List String} (nonempty : parts ≠ []) :
    start ++ Text.join ("," ++ start) parts = Text.join "," (parts.map (start ++ ·)) := by
  induction parts with
  | nil => exact (nonempty rfl).elim
  | cons part rest inductionHypothesis =>
      cases rest with
      | nil => rfl
      | cons next rest =>
          have others := inductionHypothesis (List.cons_ne_nil _ _)
          show start ++ (part ++ ("," ++ start) ++ Text.join ("," ++ start) (next :: rest)) =
            start ++ part ++ "," ++ Text.join "," ((next :: rest).map (start ++ ·))
          rw [← others]
          simp only [String.append_assoc]

/-- Parts on lines of their own are read as their container. -/
theorem conveys_block {γ δ : Type} {room : Nat} (container : Container γ) (depth : Nat)
    {write : δ → String} {result : δ → γ} {parts : List δ}
    (each : ∀ part ∈ parts, Adds container room (write part) [result part]) :
    Conveys (room + 1) (Writer.block (String.singleton container.openingMark)
      (String.singleton container.closingMark) depth (parts.map write))
        (container.value (parts.map result)) := by
  by_cases empty : parts = []
  · have nothing := conveys_container container each
    rw [empty] at nothing ⊢
    simpa [Writer.block, Text.join] using nothing
  · have notEmpty : parts.map write ≠ [] := by simpa using empty
    have lines (part : δ) (member : part ∈ parts) :
        Adds container room (Writer.newline (depth + 1) ++ write part) [result part] :=
      (each part member).spaces_append (isSpaces_newline _)
    have conveys := conveys_container_spaces (isSpaces_newline depth) container lines
    have text : Writer.block (String.singleton container.openingMark)
        (String.singleton container.closingMark) depth (parts.map write) =
          String.singleton container.openingMark
            ++ (Text.join "," (parts.map fun part => Writer.newline (depth + 1) ++ write part)
            ++ Writer.newline depth) ++ String.singleton container.closingMark := by
      have joined := join_lines (Writer.newline (depth + 1)) notEmpty
      rw [List.map_map] at joined
      unfold Writer.block
      rw [if_neg (by simpa using empty)]
      show _ = _ ++ (Text.join "," (parts.map ((Writer.newline (depth + 1) ++ ·) ∘ write)) ++ _) ++ _
      rw [← joined]
      simp only [String.append_assoc]
    rw [text]
    exact conveys

theorem prettyItems_eq_map (depth : Nat) (items : List (Json Float)) :
    Writer.prettyItems depth items = items.map (Writer.pretty depth) := by
  induction items with
  | nil => rfl
  | cons item rest inductionHypothesis =>
      rw [Writer.prettyItems, inductionHypothesis, List.map_cons]

theorem prettyMembers_eq_map (depth : Nat) (members : List (String × Json Float)) :
    Writer.prettyMembers depth members =
      members.map fun member => Writer.quoted member.1 ++ ": " ++ Writer.pretty depth member.2 := by
  induction members with
  | nil => rfl
  | cons member rest inductionHypothesis =>
      obtain ⟨name, value⟩ := member
      rw [Writer.prettyMembers, inductionHypothesis, List.map_cons]

/-- The text of a value on several lines is read, wherever one may begin, as the value that it is read
as. -/
theorem IsReadAs.conveys_pretty {room : Nat} {value other : Json Float}
    (isReadAs : IsReadAs room value other) (depth : Nat) :
    Conveys room (Writer.pretty depth value) other := by
  have space : IsSpaces " " := List.all_eq_true.mp (by decide)
  induction isReadAs generalizing depth with
  | null => exact IsReadAs.null.conveys
  | bool b => exact (IsReadAs.bool b).conveys
  | whole wide => exact (IsReadAs.whole wide).conveys
  | real isRead => exact (IsReadAs.real isRead).conveys
  | string s => exact (IsReadAs.string s).conveys
  | array parts inductionHypothesis =>
      rw [Writer.pretty, prettyItems_eq_map, List.map_map]
      exact conveys_block arrays depth fun item member =>
        (inductionHypothesis item member (depth + 1)).item
  | object parts inductionHypothesis =>
      rw [Writer.pretty, prettyMembers_eq_map, List.map_map]
      refine conveys_block objects depth fun member isMember => ?_
      have value := (inductionHypothesis member isMember (depth + 1)).spaces_append space
      have adds := value.member member.1
      have text : Writer.quoted member.1 ++ ": " ++ Writer.pretty (depth + 1) member.2.1 =
          Writer.quoted member.1 ++ ":" ++ (" " ++ Writer.pretty (depth + 1) member.2.1) := by
        have mark : ": " = ":" ++ " " := by decide
        rw [mark]
        simp only [String.append_assoc]
      show Adds objects _ (Writer.quoted member.1 ++ ": " ++ Writer.pretty (depth + 1) member.2.1) _
      rw [text]
      exact adds

/-- From the text of a value on several lines the value is read that it is read as. -/
theorem IsReadAs.read?_pretty {room : Nat} {value other : Json Float}
    (isReadAs : IsReadAs room value other) (fits : room ≤ Reader.depthLimit) :
    read? (pretty value) = some other :=
  (isReadAs.conveys_pretty 0).read? fits

/-- The text of a value on several lines holds the value. -/
theorem Legible.read?_pretty {room : Nat} {value : Json Float} (legible : Legible room value)
    (fits : room ≤ Reader.depthLimit) : read? (pretty value) = some value :=
  legible.isReadAs.read?_pretty fits

end Montage.Json

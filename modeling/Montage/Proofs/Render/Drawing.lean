import Montage.Proofs.Graph.Reading
import Montage.Proofs.Number.Binary64
import Montage.Proofs.Number.Layout
import Montage.Proofs.Render.Composition

/-!
Contract: a compiled graph can be read, and a text is drawn as it was typed.

Owns:
- the options by which an overlay is drawn (`drawingOptions`);
- that the texts of numbers and colours hold nothing that an option parser gives a meaning;
- that the graph of every compiled job is legible, and each of its text stages is read back as the
  options of its overlay.

Does **not** own: the readers (`Montage.Proofs.Graph.Reading`).

A value goes through two parsers. What is escaped for the inner one is escaped again for the outer one, and
each takes its own level away.
-/

set_option autoImplicit false

namespace Montage.Render

open Montage.Graph Montage.Graph.Reading

/-! ## Plain values -/

/-- The option parser gives no character of a text a meaning. -/
def IsPlain (text : String) : Prop :=
  ∀ c ∈ text.toList, Escape.isOptionSpecial c = false

instance (text : String) : Decidable (IsPlain text) :=
  decidable_of_iff (text.toList.all (fun c => !Escape.isOptionSpecial c) = true) (by simp [IsPlain])

section Plain

variable {text other : String}

theorem isPlain_append (first : IsPlain text) (second : IsPlain other) : IsPlain (text ++ other) := by
  intro c member
  rw [String.toList_append, List.mem_append] at member
  rcases member with inFirst | inSecond
  · exact first c inFirst
  · exact second c inSecond

theorem isPlain_of_words (words : ∀ c ∈ text.toList, (c.isAlphanum || c = '_') = true) :
    IsPlain text := by
  intro c member
  have plain := not_special_of_isWord (words c member)
  simp only [specialCharacters, List.mem_cons, not_or] at plain
  simp [Escape.isOptionSpecial, plain]

/-- A plain value is written as it stands. -/
theorem optionValue_of_isPlain (plain : IsPlain text) : Escape.optionValue text = text := by
  rw [Escape.optionValue, escape_eq_self plain, String.ofList_toList]

theorem quote_not_mem_of_isPlain (plain : IsPlain text) : '\'' ∉ text.toList := by
  intro member
  cases plain '\'' member

end Plain

/-! ## Numbers and colours -/

theorem isPlain_trimEnd {text : String} (plain : IsPlain text) (c : Char) :
    IsPlain (Layout.trimEnd c text) := by
  intro d member
  rw [Layout.trimEnd, String.toList_ofList, List.mem_reverse] at member
  exact plain d (List.mem_reverse.mp ((List.dropWhile_sublist _).mem member))

theorem isPlain_digits {digits : List Char} (all : ∀ c ∈ digits, c.isDigit = true) :
    IsPlain (String.ofList digits) := by
  refine isPlain_of_words fun c member => ?_
  rw [String.toList_ofList] at member
  simp [Char.isAlphanum, all c member]

theorem isPlain_withPlaces (n : Nat) : IsPlain (Layout.withPlaces 6 n) := by
  have whole : IsPlain (toString (n / tenTo 6)) := by
    rw [Nat.toString_eq_repr, ← String.ofList_toList (s := Nat.repr _), Nat.toList_repr]
    exact isPlain_digits fun c member => Nat.isDigit_of_mem_toDigits (by decide) (by decide) member
  have fraction : IsPlain (Layout.padded 6 (n % tenTo 6)) := by
    rw [← String.ofList_toList (s := Layout.padded _ _)]
    exact isPlain_digits (Layout.isDigit_padded _ _)
  exact isPlain_append (isPlain_append whole (by decide)) fraction

theorem isOptionSpecial_hexDigit (n : Nat) :
    Escape.isOptionSpecial (Text.Hex.digit n).toUpper = false := by
  have small : ∀ k < 16, Escape.isOptionSpecial (Text.Hex.digit k).toUpper = false := by decide
  have reduced : Text.Hex.digit n = Text.Hex.digit (n % 16) := by
    rw [Text.Hex.digit, Text.Hex.digit, Nat.mod_mod]
  rw [reduced]
  exact small _ (Nat.mod_lt _ (by decide))

theorem isPlain_rgbText (c : Color) : IsPlain c.rgbText := by
  have channel (b : UInt8) : ∀ d ∈ Color.channel b, Escape.isOptionSpecial d.toUpper = false := by
    intro d member
    obtain ⟨place, -, rfl⟩ := List.mem_map.mp member
    exact isOptionSpecial_hexDigit _
  refine isPlain_append (by decide) ?_
  intro d member
  rw [String.toList_ofList] at member
  obtain ⟨e, inChannels, rfl⟩ := List.mem_map.mp member
  rw [List.mem_append, List.mem_append] at inChannels
  rcases inChannels with (isRed | isGreen) | isBlue
  · exact channel c.red e isRed
  · exact channel c.green e isGreen
  · exact channel c.blue e isBlue

variable {α : Type} [Scalar α]

theorem isPlain_fixed (x : α) : IsPlain (Layout.fixed 6 x) := by
  have nan : IsPlain "NaN" := by decide
  have posInf : IsPlain "inf" := by decide
  have negInf : IsPlain "-inf" := by decide
  unfold Layout.fixed
  cases Scalar.exact x with
  | nan => exact nan
  | posInf => exact posInf
  | negInf => exact negInf
  | fin q =>
      refine isPlain_append ?_ (isPlain_withPlaces _)
      split <;> decide

/-- The text of a number is made of digits, a point and a sign, or is a word. -/
theorem isPlain_number (x : α) : IsPlain (number x) := by
  simp only [number, Layout.compact]
  split
  · decide
  · exact isPlain_trimEnd (isPlain_trimEnd (isPlain_fixed x) '0') '.'

theorem isPlain_window (start stop : α) : IsPlain (window start stop) := by
  have opened : IsPlain "between(t," := by decide
  have comma : IsPlain "," := by decide
  have closed : IsPlain ")" := by decide
  exact isPlain_append (isPlain_append (isPlain_append (isPlain_append opened (isPlain_number start))
    comma) (isPlain_number stop)) closed

/-! ## Options -/

def drawingOptions (o : Overlay α) : List (String × String) :=
  [("font", o.fontFamily), ("text", o.text), ("expansion", "none"), ("fontsize", number o.fontSize),
   ("fontcolor", o.color.rgbText ++ "@" ++ number (textAlpha o)), ("x", number o.x),
   ("y", number o.y), ("enable", window o.timelineStart o.timelineEnd)]

theorem drawingStage_args (o : Overlay α) :
    (drawingStage o).args.map Arg.content = (drawingOptions o).map optionText := by
  have color : IsPlain (o.color.rgbText ++ "@" ++ number (textAlpha o)) :=
    isPlain_append (isPlain_append (isPlain_rgbText o.color) (by decide)) (isPlain_number _)
  have expansion : IsPlain "none" := by decide
  simp [drawingStage, drawingOptions, Stage.ofName, Stage.arg, Stage.expression, Arg.content,
    ArgValue.content, optionText, optionValue_of_isPlain, isPlain_number, isPlain_window, color,
    expansion]

theorem drawingStage_isLegible (o : Overlay α) : (drawingStage o).IsLegible := by
  have unquoted := quote_not_mem_of_isPlain (isPlain_window o.timelineStart o.timelineEnd)
  refine Stage.IsLegible.expression ?_ (by decide) unquoted
  repeat refine Stage.IsLegible.arg ?_ (by decide) _
  exact Stage.isLegible_ofName (by decide)

/-! ## Legible jobs -/

theorem compositionStage_isLegible (c : Clip α) : (compositionStage c).IsLegible := by
  have unquoted := quote_not_mem_of_isPlain (isPlain_window c.timelineStart c.timelineEnd)
  refine Stage.IsLegible.expression ?_ (by decide) unquoted
  repeat refine Stage.IsLegible.arg ?_ (by decide) _
  exact Stage.isLegible_ofName (by decide)

theorem cropStages_isLegible (c : Clip α) : ∀ s ∈ cropStages c, s.IsLegible := by
  unfold cropStages
  cases c.crop with
  | none => exact List.forall_mem_nil _
  | some r =>
      refine List.forall_mem_singleton.mpr ?_
      repeat refine Stage.IsLegible.arg ?_ (by decide) _
      exact Stage.isLegible_ofName (by decide)

theorem trimStages_isLegible (c : Clip α) : ∀ s ∈ trimStages c, s.IsLegible := by
  unfold trimStages
  split
  · exact List.forall_mem_nil _
  · refine List.forall_mem_singleton.mpr ?_
    repeat refine Stage.IsLegible.arg ?_ (by decide) _
    exact Stage.isLegible_ofName (by decide)

theorem rotationStages_isLegible (c : Clip α) : ∀ s ∈ rotationStages c, s.IsLegible := by
  unfold rotationStages
  split
  · refine List.forall_mem_singleton.mpr ?_
    repeat refine Stage.IsLegible.arg ?_ (by decide) _
    exact Stage.isLegible_ofName (by decide)
  · exact List.forall_mem_nil _

theorem frameStages_isLegible (c : Clip α) : ∀ s ∈ frameStages c, s.IsLegible := by
  unfold frameStages
  simp only [List.forall_mem_cons]
  refine ⟨?_, ?_, ?_, List.forall_mem_nil _⟩
  all_goals
    repeat refine Stage.IsLegible.arg ?_ (by decide) _
    exact Stage.isLegible_ofName (by decide)

theorem videoChain_isLegible (p : PlannedClip α) (l : PadLabel) : (videoChain p l).IsLegible := by
  have shift (value : String) : ((Stage.ofName "setpts").positional value).IsLegible :=
    (Stage.isLegible_ofName (by decide)).positional value
  have fade (value : String) : ((Stage.ofName "colorchannelmixer").arg "aa" value).IsLegible :=
    (Stage.isLegible_ofName (by decide)).arg (by decide) value
  refine ⟨videoChain_stages_ne_nil p l, ?_⟩
  simp only [videoChain, List.forall_mem_append, List.forall_mem_cons]
  exact ⟨⟨⟨⟨⟨trimStages_isLegible p.clip, shift _, List.forall_mem_nil _⟩,
    cropStages_isLegible p.clip⟩, frameStages_isLegible p.clip⟩, rotationStages_isLegible p.clip⟩,
    shift _, fade _, List.forall_mem_nil _⟩

theorem audioChain_isLegible {p : PlannedClip α} {l : PadLabel} {chain : Chain}
    (made : audioChain p l = some chain) : chain.IsLegible := by
  refine ⟨audioChain_stages_ne_nil made, ?_⟩
  obtain ⟨factors, -, rfl⟩ := audioChain_eq_some.mp made
  have tempo : ∀ s ∈ factors.map fun factor =>
      (Stage.ofName "atempo").positional (number factor), s.IsLegible := by
    intro s member
    obtain ⟨factor, -, rfl⟩ := List.mem_map.mp member
    exact (Stage.isLegible_ofName (by decide)).positional _
  simp only [soundStages, List.forall_mem_append, List.forall_mem_cons]
  refine ⟨⟨⟨?_, ?_, List.forall_mem_nil _⟩, tempo⟩, ?_, ?_, List.forall_mem_nil _⟩
  case refine_2 => exact (Stage.isLegible_ofName (by decide)).positional _
  all_goals
    repeat refine Stage.IsLegible.arg ?_ (by decide) _
    exact Stage.isLegible_ofName (by decide)

theorem single_isLegible {inputs : List Pad} {outputs : List PadLabel} {s : Stage}
    (legible : s.IsLegible) : Chain.IsLegible ⟨inputs, [s], outputs⟩ :=
  ⟨List.cons_ne_nil _ _, List.forall_mem_singleton.mpr legible⟩

theorem buildGraph_isLegible {t : Timeline α} {total : α} {planned : List (PlannedClip α)}
    {g : FilterGraph} (built : buildGraph t total planned = some g) : g.IsLegible := by
  have base : (baseChain t total).IsLegible := by
    refine single_isLegible ?_
    repeat refine Stage.IsLegible.arg ?_ (by decide) _
    exact Stage.isLegible_ofName (by decide)
  have last : (lastChain t planned).IsLegible := by
    have format (value : String) : ((Stage.ofName "format").arg "pix_fmts" value).IsLegible :=
      (Stage.isLegible_ofName (by decide)).arg (by decide) value
    have aspect (value : String) : ((Stage.ofName "setsar").positional value).IsLegible :=
      (Stage.isLegible_ofName (by decide)).positional value
    exact ⟨List.cons_ne_nil _ _,
      List.forall_mem_cons.mpr ⟨format _, List.forall_mem_singleton.mpr (aspect _)⟩⟩
  have mix : (mixChain (soundingClips planned).length).IsLegible := by
    refine single_isLegible ?_
    repeat refine Stage.IsLegible.arg ?_ (by decide) _
    exact Stage.isLegible_ofName (by decide)
  intro c member
  obtain ⟨sounds, isSounds, isGraph⟩ := buildGraph_chains_eq built
  rw [isGraph] at member
  simp only [List.mem_append, List.mem_cons, List.mem_flatMap, List.not_mem_nil, or_false] at member
  rcases member with (((rfl | ⟨⟨p, n⟩, -, rfl | rfl⟩) | isDrawing) | rfl) | (isSound | isMix)
  · exact base
  · exact videoChain_isLegible p _
  · exact single_isLegible (compositionStage_isLegible p.clip)
  · obtain ⟨⟨o, n⟩, -, rfl⟩ := List.mem_map.mp isDrawing
    exact single_isLegible (drawingStage_isLegible o)
  · exact last
  · obtain ⟨p, -, l, made⟩ := exists_of_mem_soundChains isSounds c isSound
    exact audioChain_isLegible made
  · unfold mixChains at isMix
    split at isMix
    · cases isMix
    · rw [List.mem_singleton.mp isMix]
      exact mix

/-- The graph of every compiled job can be read from its text. -/
theorem compile_isLegible {t : Timeline α} {assets : Store} {options : Options} {job : Job α}
    (compiled : compile t assets options = some (.ok job)) : job.graph.IsLegible := by
  obtain ⟨-, -, plans, graph, -, -, built, rfl⟩ := compile_eq_ok_iff.mp compiled
  exact buildGraph_isLegible built

/-! ## Texts -/

/-- A stage draws an overlay and nothing else. Its options show the graph parser nothing that separates
stages, chains or pads. What that parser leaves of them is read as the options of the overlay, by an option
parser that knows quotes or by one that does not. -/
structure Draws (stage : Stage) (o : Overlay α) : Prop where
  text : stage.text = "drawtext=" ++ stage.optionsText
  hidden : Hides isSeparator (scan true .outside stage.optionsText.toList)
  options :
    ∀ quotes, options quotes (plainText (scan true .outside stage.optionsText.toList)) =
      (drawingOptions o).map fun option => ⟨option.1, some option.2⟩

theorem drawingStage_draws (o : Overlay α) : Draws (drawingStage o) o := by
  have legible := drawingStage_isLegible o
  have spells := legible.spells_options.scan_eq
  have some : (drawingStage o).args ≠ [] := by simp [drawingStage, Stage.expression]
  constructor
  · rw [Stage.text_eq, if_neg some, ← String.append_assoc]
    rfl
  · rw [spells]
    exact legible.hides_options
  · intro quotes
    rw [spells, Stage.plainText_optionSymbols, Stage.content, drawingStage_args]
    refine options_join (List.cons_ne_nil _ _) ?_
    have keys : ∀ key ∈ (drawingOptions o).map (·.1), isLabelText key = true := by
      show ∀ key ∈ ["font", "text", "expansion", "fontsize", "fontcolor", "x", "y", "enable"], _
      decide
    exact fun entry member => keys entry.1 (List.mem_map_of_mem member)

/-- Every overlay of a compiled timeline is drawn by a stage of its own, and by no other options than
its own, whatever its text and its font hold. -/
theorem compile_draws
    {t : Timeline α}
    {assets : Store}
    {options : Options}
    {job : Job α}
    (compiled : compile t assets options = some (.ok job)) :
    ∃ drawn, IsStableOrder (·.zIndex) t.overlays drawn ∧
      List.Forall₂ Draws (job.graph.stagesNamed "drawtext") drawn := by
  obtain ⟨-, -, plans, graph, -, -, built, rfl⟩ := compile_eq_ok_iff.mp compiled
  refine ⟨orderedOverlays t, orderedOverlays_isStableOrder t, ?_⟩
  show List.Forall₂ Draws (graph.stagesNamed "drawtext") _
  rw [stagesNamed_drawtext built, List.forall₂_map_left_iff, List.forall₂_same]
  exact fun o _ => drawingStage_draws o

/-- A single text that tries to close its option, its quotes, its stage and its chain. -/
def unruly : Timeline Float :=
  { (Timeline.empty : Timeline Float) with
    overlays :=
      [{ Overlay.ofText ⟨1⟩ "it's 5\\:00'[v0];drawtext=text=x," 0 with fontFamily := "A:expansion=normal" }] }

/-- The unruly text is drawn as it is, in its own font. -/
theorem compile_draws_unruly :
    ∃ job stage, compile unruly (fun _ => none) ⟨false, "medium", 23, 192⟩ = some (.ok job) ∧
      job.graph.stagesNamed "drawtext" = [stage] ∧
      Hides isSeparator (scan true .outside stage.optionsText.toList) ∧
      ∀ quotes,
        (options quotes (plainText (scan true .outside stage.optionsText.toList))).take 3 =
          [⟨"font", some "A:expansion=normal"⟩,
           ⟨"text", some "it's 5\\:00'[v0];drawtext=text=x,"⟩, ⟨"expansion", some "none"⟩] := by
  have lasting : ∀ o ∈ unruly.overlays, isRenderable o.timelineSpan = true := by decide +kernel
  obtain ⟨job, compiled⟩ :=
    (compile_isOk_iff unruly (fun _ => none) ⟨false, "medium", 23, 192⟩).mpr
      ⟨⟨Or.inl rfl, isRenderable_totalDuration unruly, List.forall_mem_nil _, lasting⟩,
        List.forall_mem_nil _⟩
  obtain ⟨drawn, isOrder, draws⟩ := compile_draws compiled
  have single : drawn = unruly.overlays := isOrder.unique ⟨List.pairwise_singleton _ _, fun _ => rfl⟩
  rw [single] at draws
  obtain ⟨stage, others, draws, rest, stages⟩ := List.forall₂_cons_right_iff.mp draws
  rw [List.forall₂_nil_right_iff.mp rest] at stages
  refine ⟨job, stage, compiled, stages, draws.hidden, fun quotes => ?_⟩
  rw [draws.options quotes]
  rfl

end Montage.Render

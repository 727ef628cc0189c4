import Montage.Proofs.Edit.Place
import Montage.Proofs.Number.Compact
import Montage.Proofs.Render.Acceptance
import Montage.Proofs.Render.Drawing

/-!
Contract: the times at which a text is drawn.

Owns:
- the times at which a stage is enabled, as its text says (`IsEnabledAt`);
- that a text is enabled from its start to its end as they are printed, both included;
- that the halves of a cut text are both enabled at the cut, as it is printed, and at no other time.

Does **not** own: the other options of a text (`Montage.Proofs.Render.Drawing`).

Times are printed with six places. Rounding keeps their order, so that windows which meet before it still
meet behind it, and in one instant only.
-/

set_option autoImplicit false

namespace Montage.Render

open Montage.Graph Montage.Graph.Reading
open Rounding (rounded rounded_mono)
open Scalar (exact)

/-! ## Enabled stages -/

/-- The bounds in an expression `between(t,low,high)`. -/
def bounds? (expression : String) : Option (Extended × Extended) :=
  match expression.toList.splitOn ',' with
  | [function, low, high] =>
    if function = "between(t".toList ∧ high.getLast? = some ')' then do
      some (← Layout.read? (String.ofList low), ← Layout.read? (String.ofList high.dropLast))
    else none
  | _ => none

/-- A stage has an option `enable`, and the time is between its bounds or is one of them: `between` holds
at both. -/
def IsEnabledAt (quotes : Bool) (stage : Stage) (time : ℝ) : Prop :=
  ∃ expression low high,
    ⟨"enable", some expression⟩ ∈
        options quotes (plainText (scan true .outside stage.optionsText.toList)) ∧
      bounds? expression = some (.fin low, .fin high) ∧ (low : ℝ) ≤ time ∧ time ≤ high

variable {α : Type} [Scalar α]

section Window

variable [Scalar.Signed α] {start stop : α} {p q : ℚ}

theorem bounds?_window (isStart : exact start = .fin p) (isStop : exact stop = .fin q) :
    bounds? (window start stop) = some (.fin (rounded 6 p), .fin (rounded 6 q)) := by
  have parts : (window start stop).toList =
      [','].intercalate ["between(t".toList, (number start).toList, (number stop).toList ++ [')']] := by
    have opened : "between(t,".toList = "between(t".toList ++ [','] := by decide
    simp only [window, String.toList_append, opened, List.intercalate_cons_cons,
      List.intercalate_singleton, List.append_assoc]
    rfl
  have separate : ∀ part ∈
      ["between(t".toList, (number start).toList, (number stop).toList ++ [')']], ',' ∉ part := by
    have noCommas {x : α} {q : ℚ} (isExact : exact x = .fin q) : ',' ∉ (number x).toList :=
      Layout.not_mem_compact isExact rfl (by decide)
    simp only [List.forall_mem_cons, List.mem_append, not_or]
    exact ⟨by decide, noCommas isStart, ⟨noCommas isStop, by decide⟩, List.forall_mem_nil _⟩
  have low : Layout.read? (number start) = some (Extended.fin (rounded 6 p)) :=
    Layout.read?_compact isStart
  have high : Layout.read? (number stop) = some (Extended.fin (rounded 6 q)) :=
    Layout.read?_compact isStop
  unfold bounds?
  rw [parts, List.splitOn_intercalate _ separate (List.cons_ne_nil _ _)]
  simp [low, high]

/-- A text is enabled between its start and its end as they are printed, and at both of them. -/
theorem Draws.isEnabledAt_iff {stage : Stage} {o : Overlay α} (draws : Draws stage o)
    (isStart : exact o.timelineStart = .fin p) (isStop : exact o.timelineEnd = .fin q)
    (quotes : Bool) (time : ℝ) :
    IsEnabledAt quotes stage time ↔ (rounded 6 p : ℝ) ≤ time ∧ time ≤ rounded 6 q := by
  have enabling (expression : String) :
      ⟨"enable", some expression⟩ ∈
          (drawingOptions o).map (fun option => (⟨option.1, some option.2⟩ : Assignment)) ↔
        expression = window o.timelineStart o.timelineEnd := by
    simp [drawingOptions]
  unfold IsEnabledAt
  simp only [draws.options quotes, enabling]
  constructor
  · rintro ⟨expression, low, high, rfl, bounds, inside⟩
    rw [bounds?_window isStart isStop] at bounds
    cases bounds
    exact inside
  · intro inside
    exact ⟨_, _, _, rfl, bounds?_window isStart isStop, inside⟩

end Window

/-! ## Cut texts -/

theorem IsStableOrder.sublist {β κ : Type} [LE κ] [DecidableEq κ] {key : β → κ}
    {given sorted : List β} (isOrder : IsStableOrder key given sorted) {part : List β} {k : κ}
    (isPart : part.Sublist given) (alike : ∀ x ∈ part, key x = k) : part.Sublist sorted := by
  have kept : part.filter (fun x => key x = k) = part :=
    List.filter_eq_self.mpr fun x member => decide_eq_true (alike x member)
  have filtered := isPart.filter fun x => key x = k
  rw [kept, ← isOrder.stable k] at filtered
  exact filtered.trans List.filter_sublist

theorem exact_of_isRenderable_sub [Scalar.Faithful α] {start stop : α}
    (lasting : isRenderable (stop - start) = true) :
    ∃ p q, exact start = .fin p ∧ exact stop = .fin q := by
  rw [isRenderable, Bool.and_eq_true] at lasting
  obtain ⟨isStop, isStart⟩ := Scalar.Faithful.isFinite_of_sub stop start lasting.1
  obtain ⟨p, isStart⟩ := (Scalar.isFinite_iff_exact start).mp isStart
  obtain ⟨q, isStop⟩ := (Scalar.isFinite_iff_exact stop).mp isStop
  exact ⟨p, q, isStart, isStop⟩

section Halves

variable {t next : Timeline α} {id : Identity} {o : Overlay α} {before after : List (Overlay α)}
  {position : α} {supply left : IdSupply} {assets : Store} {options : Options} {job : Job α}

/-- Texts of one `zIndex` are drawn in the order in which they stand. -/
theorem compile_draws_sublist (compiled : compile t assets options = some (.ok job))
    {part : List (Overlay α)} {k : Int32} (isPart : part.Sublist t.overlays)
    (alike : ∀ o ∈ part, o.zIndex = k) :
    (part.map drawingStage).Sublist (job.graph.stagesNamed "drawtext") := by
  obtain ⟨-, -, plans, graph, -, -, built, rfl⟩ := compile_eq_ok_iff.mp compiled
  show List.Sublist _ (graph.stagesNamed "drawtext")
  rw [stagesNamed_drawtext built]
  exact ((orderedOverlays_isStableOrder t).sublist isPart alike).map drawingStage

/-- A text that is cut and compiled is drawn by two stages, and its times are finite numbers. -/
theorem compile_halves [Scalar.Faithful α] (place : t.HasOverlay id before o after)
    (applied : t.apply supply (.split id position) = .ok (next, left))
    (compiled : compile next assets options = some (.ok job)) :
    ∃ a b p cut q,
      o.halves? supply.next (supply.advance 1).next position = some (a, b) ∧
        next = { t with overlays := before ++ [a, b] ++ after } ∧
        [drawingStage a, drawingStage b].Sublist (job.graph.stagesNamed "drawtext") ∧
        (exact a.timelineStart = .fin p ∧ exact a.timelineEnd = .fin cut) ∧
        (exact b.timelineStart = .fin cut ∧ exact b.timelineEnd = .fin q) ∧
        exact position = .fin cut ∧ p < cut ∧ cut < q := by
  simp only [Timeline.apply, place.split_eq] at applied
  unfold Overlay.halves? at applied
  by_cases inside : o.timelineStart < position ∧ position < o.timelineEnd
  · rw [if_pos inside] at applied
    obtain ⟨rfl, -⟩ := Prod.mk.inj (Except.ok.inj applied)
    -- A length that can be rendered is finite, which the difference of two times is only if both are.
    obtain ⟨-, -, -, -, -, checked, -⟩ := compile_eq_ok_iff.mp compiled
    have lasting := (checkOverlays_eq_ok_iff _).mp checked
    simp only [List.forall_mem_append, List.forall_mem_cons] at lasting
    obtain ⟨⟨-, firstLasts, secondLasts, -⟩, -⟩ := lasting
    obtain ⟨p, cut, isStart, isCut⟩ := exact_of_isRenderable_sub firstLasts
    obtain ⟨-, q, -, isStop⟩ := exact_of_isRenderable_sub secondLasts
    have isCut : exact position = .fin cut := isCut
    have stages := compile_draws_sublist compiled (List.infix_append before [_, _] after).sublist
      (List.forall_mem_cons.mpr ⟨rfl, List.forall_mem_singleton.mpr rfl⟩)
    exact ⟨_, _, p, cut, q, if_pos inside, rfl, stages, ⟨isStart, isCut⟩, ⟨isCut, isStop⟩, isCut,
      (Scalar.lt_iff_of_exact isStart isCut).mp inside.1,
      (Scalar.lt_iff_of_exact isCut isStop).mp inside.2⟩
  · rw [if_neg inside] at applied
    cases applied

/-- The halves of a cut text are both drawn at the instant of the cut as it is printed, which is at most
half a microsecond from the cut, and never else. -/
theorem split_drawn_together [Scalar.Faithful α] [Scalar.Signed α] (absent : t.clip? id = none)
    (found : t.overlay? id = some o)
    (applied : t.apply supply (.split id position) = .ok (next, left))
    (compiled : compile next assets options = some (.ok job)) :
    ∃ before after a b first second, ∃ cut printed : ℚ,
      t.HasOverlay id before o after ∧
        o.halves? supply.next (supply.advance 1).next position = some (a, b) ∧
        next = { t with overlays := before ++ [a, b] ++ after } ∧
        [first, second].Sublist (job.graph.stagesNamed "drawtext") ∧
        Draws first a ∧ Draws second b ∧
        exact position = .fin cut ∧
        Layout.read? (number position) = some (Extended.fin printed) ∧
        |printed - cut| ≤ 1 / 2 / 10 ^ 6 ∧
        ∀ quotes (time : ℝ),
          IsEnabledAt quotes first time ∧ IsEnabledAt quotes second time ↔ time = printed := by
  obtain ⟨before, after, place⟩ := Timeline.exists_hasOverlay absent found
  obtain ⟨a, b, p, cut, q, halves, isNext, stages, ⟨isStart, isEnd⟩, ⟨isBegin, isStop⟩, isCut, below,
    above⟩ := compile_halves place applied compiled
  refine ⟨before, after, a, b, _, _, cut, rounded 6 cut, place, halves, isNext, stages,
    drawingStage_draws a, drawingStage_draws b, isCut, Layout.read?_compact isCut,
    Rounding.abs_rounded_sub_le 6 cut, fun quotes time => ?_⟩
  rw [(drawingStage_draws a).isEnabledAt_iff isStart isEnd,
    (drawingStage_draws b).isEnabledAt_iff isBegin isStop]
  have starts : (rounded 6 p : ℝ) ≤ rounded 6 cut := by exact_mod_cast rounded_mono 6 below.le
  have stops : (rounded 6 cut : ℝ) ≤ rounded 6 q := by exact_mod_cast rounded_mono 6 above.le
  constructor
  · rintro ⟨⟨-, ends⟩, begins, -⟩
    exact le_antisymm ends begins
  · rintro rfl
    exact ⟨⟨starts, le_rfl⟩, le_rfl, stops⟩

end Halves

/-- A caption from zero to ten seconds. -/
def caption : Overlay Float := .ofText ⟨1⟩ "caption" 0

def captioned : Timeline Float := { (Timeline.empty : Timeline Float) with overlays := [caption] }

/-- The caption up to five seconds. -/
def captionBefore : Overlay Float :=
  { caption with id := (IdSupply.ofSeed 2).next, timelineEnd := 5 }

/-- The caption from five seconds on. -/
def captionBehind : Overlay Float :=
  { caption with id := ((IdSupply.ofSeed 2).advance 1).next, timelineStart := 5 }

def captionedTwice : Timeline Float := { captioned with overlays := [captionBefore, captionBehind] }

theorem captioned_split :
    captioned.apply (.ofSeed 2) (.split ⟨1⟩ 5) = .ok (captionedTwice, (IdSupply.ofSeed 2).advance 2) := by
  have place : captioned.HasOverlay ⟨1⟩ [] caption [] := ⟨⟨rfl, rfl, nofun⟩, rfl⟩
  have inside : caption.timelineStart < 5 ∧ 5 < caption.timelineEnd := by decide +kernel
  have halves : caption.halves? (IdSupply.ofSeed 2).next ((IdSupply.ofSeed 2).advance 1).next 5 =
      some (captionBefore, captionBehind) := if_pos inside
  simp only [Timeline.apply, place.split_eq, halves]
  rfl

theorem captionedTwice_compiles :
    ∃ job, compile captionedTwice (fun _ => none) ⟨false, "medium", 23, 192⟩ = some (.ok job) := by
  have lasting : ∀ o ∈ captionedTwice.overlays, isRenderable o.timelineSpan = true := by
    decide +kernel
  exact (compile_isOk_iff _ _ _).mpr
    ⟨⟨Or.inl rfl, isRenderable_totalDuration captionedTwice, List.forall_mem_nil _, lasting⟩,
      List.forall_mem_nil _⟩

theorem captionedTwice_drawn_together :
    ∃ job first second, ∃ printed : ℚ,
      compile captionedTwice (fun _ => none) ⟨false, "medium", 23, 192⟩ = some (.ok job) ∧
        [first, second].Sublist (job.graph.stagesNamed "drawtext") ∧
        Layout.read? (number (5 : Float)) = some (Extended.fin printed) ∧
        ∀ quotes (time : ℝ),
          IsEnabledAt quotes first time ∧ IsEnabledAt quotes second time ↔ time = printed := by
  have absent : captioned.clip? ⟨1⟩ = none := rfl
  have found : captioned.overlay? ⟨1⟩ = some caption := rfl
  obtain ⟨job, compiled⟩ := captionedTwice_compiles
  obtain ⟨-, -, -, -, first, second, -, printed, -, -, -, stages, -, -, -, isPrinted, -, together⟩ :=
    split_drawn_together absent found captioned_split compiled
  exact ⟨job, first, second, printed, compiled, stages, isPrinted, together⟩

/-- After five seconds both halves of the caption are drawn. -/
theorem captionedTwice_drawn_twice :
    captioned.apply (.ofSeed 2) (.split ⟨1⟩ 5) =
        .ok (captionedTwice, (IdSupply.ofSeed 2).advance 2) ∧
      captionedTwice.overlays = [captionBefore, captionBehind] ∧
      ∃ job first second,
        compile captionedTwice (fun _ => none) ⟨false, "medium", 23, 192⟩ = some (.ok job) ∧
          [first, second].Sublist (job.graph.stagesNamed "drawtext") ∧
          Draws first captionBefore ∧ Draws second captionBehind ∧
          ∀ quotes, IsEnabledAt quotes first 5 ∧ IsEnabledAt quotes second 5 := by
  obtain ⟨job, compiled⟩ := captionedTwice_compiles
  have stages := compile_draws_sublist compiled (List.Sublist.refl _)
    (List.forall_mem_cons.mpr ⟨rfl, List.forall_mem_singleton.mpr rfl⟩)
  have before := drawingStage_draws captionBefore
  have behind := drawingStage_draws captionBehind
  have begun : exact captionBefore.timelineStart = .fin 0 := by decide +kernel
  have cut : exact (5 : Float) = .fin 5 := by decide +kernel
  have ended : exact captionBehind.timelineEnd = .fin 10 := by decide +kernel
  have printed : rounded 6 0 = 0 ∧ rounded 6 5 = 5 ∧ rounded 6 10 = 10 := by decide +kernel
  refine ⟨captioned_split, rfl, job, _, _, compiled, stages, before, behind, fun quotes => ?_⟩
  rw [before.isEnabledAt_iff begun cut, behind.isEnabledAt_iff cut ended, printed.1, printed.2.1,
    printed.2.2]
  norm_num

end Montage.Render

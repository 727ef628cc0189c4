import Mathlib.Data.List.Basic
import Montage.Proofs.Edit.Outcome
import Montage.Proofs.Number.Exact

/-!
Contract: overlays with a placement, and what each command makes of them.

Owns: `Overlay.Valid`, and that every command keeps it.

Does **not** own: whole timelines (`Montage.Proofs.Edit.Bounds`).
-/

set_option autoImplicit false

namespace Montage.Overlay

open Extended

/-- An overlay whose placement is finite, not empty and not before zero. -/
structure Valid (o : Overlay Extended) : Prop where
  finite : Scalar.isFinite o.timelineStart = true ∧ Scalar.isFinite o.timelineEnd = true
  begun : 0 ≤ o.timelineStart
  running : o.timelineStart < o.timelineEnd

variable {o : Overlay Extended}

theorem valid_iff :
    o.Valid ↔
      ∃ start stop, o.timelineStart = fin start ∧ o.timelineEnd = fin stop ∧ 0 ≤ start ∧
        start < stop := by
  constructor
  · rintro ⟨⟨finiteStart, finiteStop⟩, begun, running⟩
    obtain ⟨start, isStart⟩ := (isFinite_iff _).mp finiteStart
    obtain ⟨stop, isStop⟩ := (isFinite_iff _).mp finiteStop
    rw [isStart, zero_eq, fin_le_fin] at begun
    rw [isStart, isStop, fin_lt_fin] at running
    exact ⟨start, stop, isStart, isStop, begun, running⟩
  · rintro ⟨start, stop, isStart, isStop, begun, running⟩
    refine ⟨⟨?_, ?_⟩, ?_, ?_⟩
    · rw [isStart, isFinite_fin]
    · rw [isStop, isFinite_fin]
    · rwa [isStart, zero_eq, fin_le_fin]
    · rwa [isStart, isStop, fin_lt_fin]

/-- The length of a placement carries it to any start that is not before zero. -/
theorem Valid.movedTo (valid : o.Valid) {start : ℚ} (begun : 0 ≤ start) :
    Valid { o with timelineStart := fin start, timelineEnd := fin start + o.timelineSpan } := by
  obtain ⟨first, last, isFirst, isLast, -, running⟩ := valid_iff.mp valid
  refine valid_iff.mpr ⟨start, start + (last - first), rfl, ?_, begun, by linarith⟩
  show fin start + (o.timelineEnd - o.timelineStart) = _
  rw [isFirst, isLast, fin_sub_fin, fin_add_fin]

theorem Valid.reposition (valid : o.Valid) (start : Extended) : (o.reposition start).Valid := by
  cases finite : Scalar.isFinite start with
  | false => simpa [Overlay.reposition, finite] using valid
  | true =>
      obtain ⟨q, rfl⟩ := (isFinite_iff start).mp finite
      simp only [Overlay.reposition, isFinite_fin, if_true, zero_eq, max_fin]
      exact valid.movedTo (le_max_right q 0)

theorem Valid.resizeRight (valid : o.Valid) (request : Extended) :
    (o.resizeRight request).Valid := by
  cases finite : Scalar.isFinite request with
  | false => simpa [Overlay.resizeRight, finite] using valid
  | true =>
      obtain ⟨q, rfl⟩ := (isFinite_iff request).mp finite
      obtain ⟨first, last, isFirst, isLast, begun, running⟩ := valid_iff.mp valid
      refine valid_iff.mpr ⟨first, max q (first + 1 / 10), ?_, ?_, begun, ?_⟩
      · simp only [Overlay.resizeRight, isFinite_fin, if_true, isFirst]
      · simp only [Overlay.resizeRight, isFinite_fin, if_true, isFirst, minimumSpan_eq, fin_add_fin,
          max_fin]
      · have above := le_max_right q (first + 1 / 10)
        linarith

/-- Both halves of an overlay that is cut inside its placement have a placement. -/
theorem Valid.halves (valid : o.Valid) {first second : Identity} {position : Extended}
    {a b : Overlay Extended} (halves : o.halves? first second position = some (a, b)) :
    a.Valid ∧ b.Valid := by
  obtain ⟨start, stop, isStart, isStop, begun, running⟩ := valid_iff.mp valid
  unfold halves? at halves
  by_cases inside : o.timelineStart < position ∧ position < o.timelineEnd
  · rw [if_pos inside] at halves
    obtain ⟨rfl, rfl⟩ := Prod.mk.inj (Option.some.inj halves)
    rw [isStart, isStop] at inside
    obtain ⟨cut, rfl, after, before⟩ := eq_fin_of_between inside.1 inside.2
    exact ⟨valid_iff.mpr ⟨start, cut, isStart, rfl, begun, after⟩,
      valid_iff.mpr ⟨cut, stop, rfl, isStop, begun.trans after.le, before⟩⟩
  · rw [if_neg inside] at halves
    cases halves

/-- Every part that a command makes of an overlay with a placement has one. -/
theorem Valid.overlayParts
    (valid : o.Valid)
    {command : Command Extended}
    {supply : IdSupply}
    {parts : List (Overlay Extended)}
    (made : command.overlayParts? supply o = some parts) :
    ∀ p ∈ parts, p.Valid := by
  intro p member
  cases command with
  | split id position =>
      obtain ⟨⟨a, b⟩, halves, rfl⟩ := Option.map_eq_some_iff.mp made
      obtain ⟨first, second⟩ := valid.halves halves
      rcases List.mem_pair.mp member with rfl | rfl
      · exact first
      · exact second
  | duplicate id =>
      cases made
      rcases List.mem_pair.mp member with rfl | rfl
      · exact valid
      · exact ⟨valid.finite, valid.begun, valid.running⟩
  | delete id =>
      cases made
      cases member
  | reposition id start =>
      cases made
      rw [List.mem_singleton.mp member]
      exact valid.reposition start
  | resizeRight id request =>
      cases made
      rw [List.mem_singleton.mp member]
      exact valid.resizeRight request
  | updateText id patch =>
      cases made
      rw [List.mem_singleton.mp member]
      exact ⟨valid.finite, valid.begun, valid.running⟩
  | _ => cases made

/-- An overlay is appended as it is, from a start that is not before zero. -/
theorem appendedOverlay_eq (o : Overlay Extended) {t : Timeline Extended}
    (all : ∀ p ∈ t.overlays, p.Valid) :
    ∃ start, 0 ≤ start ∧
      t.appendedOverlay o =
        { o with timelineStart := fin start, timelineEnd := fin start + o.timelineSpan } := by
  have finite : ∀ x ∈ t.overlays.map (·.timelineEnd), Scalar.isFinite x = true := by
    intro x member
    obtain ⟨p, isMember, rfl⟩ := List.mem_map.mp member
    exact (all p isMember).finite.2
  obtain ⟨start, latest, begun⟩ := latestEnd_eq finite
  refine ⟨start, begun, ?_⟩
  unfold Timeline.appendedOverlay
  rw [latest]

/-- An overlay is appended with a placement. -/
theorem Valid.appended (valid : o.Valid) {t : Timeline Extended} (all : ∀ p ∈ t.overlays, p.Valid) :
    (t.appendedOverlay o).Valid := by
  obtain ⟨start, begun, appended⟩ := appendedOverlay_eq o all
  rw [appended]
  exact valid.movedTo begun

end Montage.Overlay

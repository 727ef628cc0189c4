import Montage.Mapping
import Montage.Proofs.Clip.Times

/-!
Contract: the source time that plays at a timeline position, in exact arithmetic.

Owns:
- the map from positions to source times as a line whose slope is the speed;
- that the two parts of a clip at a position lie on the line of the whole clip;
- the agreement of this line with `Clip.sourceAt?`.

Does **not** own: which parts a cut accepts (`Montage.Proofs.Edit.Cut`).
-/

set_option autoImplicit false

namespace Montage

open Extended

namespace Times

variable {w : Times} {position cut : ℚ}

/-- The source plays at the speed from the start of the placement on. -/
theorem sourceAt_eq (w : Times) (position : ℚ) :
    w.sourceAt position = w.sourceIn + (position - w.start) * w.speed := by
  unfold sourceAt speed
  ring

theorem span_mul_speed (running : w.start < w.stop) : w.span * w.speed = w.sourceSpan :=
  mul_div_cancel₀ w.sourceSpan (sub_pos.mpr running).ne'

theorem sourceAt_stop (running : w.start < w.stop) : w.sourceAt w.stop = w.sourceOut := by
  have whole : (w.stop - w.start) * w.speed = w.sourceOut - w.sourceIn := span_mul_speed running
  rw [sourceAt_eq, whole]
  ring

/-- The part before a position plays at the speed of the whole. -/
theorem upTo_speed (after : w.start < cut) : (w.upTo cut).speed = w.speed := by
  have length : cut - w.start ≠ 0 := (sub_pos.mpr after).ne'
  have window : (w.upTo cut).sourceSpan = (cut - w.start) * w.speed := by
    show w.sourceAt cut - w.sourceIn = _
    rw [sourceAt_eq]
    ring
  show (w.upTo cut).sourceSpan / (cut - w.start) = w.speed
  rw [window, mul_div_cancel_left₀ _ length]

/-- The part from a position on plays at the speed of the whole. -/
theorem onward_speed (running : w.start < w.stop) (before : cut < w.stop) :
    (w.onward cut).speed = w.speed := by
  have length : w.stop - cut ≠ 0 := (sub_pos.mpr before).ne'
  have window : (w.onward cut).sourceSpan = (w.stop - cut) * w.speed := by
    show w.sourceOut - w.sourceAt cut = _
    rw [← sourceAt_stop running, sourceAt_eq, sourceAt_eq]
    ring
  show (w.onward cut).sourceSpan / (w.stop - cut) = w.speed
  rw [window, mul_div_cancel_left₀ _ length]

theorem upTo_sourceAt (after : w.start < cut) (position : ℚ) :
    (w.upTo cut).sourceAt position = w.sourceAt position := by
  rw [sourceAt_eq, sourceAt_eq, upTo_speed after]
  rfl

theorem onward_sourceAt (running : w.start < w.stop) (before : cut < w.stop) (position : ℚ) :
    (w.onward cut).sourceAt position = w.sourceAt position := by
  rw [sourceAt_eq, sourceAt_eq w, onward_speed running before]
  show w.sourceAt cut + (position - cut) * w.speed = _
  rw [sourceAt_eq]
  ring

/-- What plays inside the placement lies inside the window. -/
theorem sourceAt_mem (window : w.sourceIn ≤ w.sourceOut) (running : w.start < w.stop)
    (after : w.start ≤ position) (before : position ≤ w.stop) :
    w.sourceIn ≤ w.sourceAt position ∧ w.sourceAt position ≤ w.sourceOut := by
  have forward : 0 ≤ w.speed := div_nonneg (sub_nonneg.mpr window) (sub_pos.mpr running).le
  constructor
  · have played : 0 ≤ (position - w.start) * w.speed :=
      mul_nonneg (sub_nonneg.mpr after) forward
    rw [sourceAt_eq]
    linarith
  · have left : 0 ≤ (w.stop - position) * w.speed := mul_nonneg (sub_nonneg.mpr before) forward
    rw [← sourceAt_stop running, sourceAt_eq, sourceAt_eq]
    linarith

end Times

namespace Clip

variable {c : Clip Extended} {w : Times}

/-- The source time at a finite position inside the placement. -/
theorem HasTimes.sourceAt?_fin (times : c.HasTimes w) (window : w.sourceIn ≤ w.sourceOut)
    (running : w.start < w.stop) {position : ℚ} (after : w.start ≤ position)
    (before : position ≤ w.stop) :
    c.sourceAt? (fin position) = some (fin (w.sourceAt position)) := by
  obtain ⟨lower, upper⟩ := Times.sourceAt_mem window running after before
  have length : w.stop - w.start ≠ 0 := (sub_pos.mpr running).ne'
  have inside : fin w.start ≤ fin position ∧ fin position ≤ fin w.stop ∧ ¬ fin w.stop ≤ fin w.start := by
    rw [fin_le_fin, fin_le_fin, fin_le_fin]
    exact ⟨after, before, not_le.mpr running⟩
  have source : fin w.sourceIn + fin (position - w.start) / fin (w.stop - w.start) *
      fin (w.sourceOut - w.sourceIn) = fin (w.sourceAt position) := by
    rw [fin_div_fin _ _ length, fin_mul_fin, fin_add_fin]
    rfl
  unfold sourceAt?
  rw [times.start, times.stop, times.sourceIn, times.sourceOut, if_pos inside]
  simp only [fin_sub_fin, source, between, max_fin, min_fin, max_eq_left lower, min_eq_left upper]

/-- What lies in a placement is finite. -/
theorem HasTimes.exists_position (times : c.HasTimes w) {position : Extended}
    (after : c.timelineStart ≤ position) (before : position ≤ c.timelineEnd) :
    ∃ q, position = fin q ∧ w.start ≤ q ∧ q ≤ w.stop := by
  rw [times.start] at after
  rw [times.stop] at before
  exact exists_fin_between after before

end Clip

end Montage

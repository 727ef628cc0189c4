import Montage.Proofs.Clip.Absorption
import Montage.Proofs.Clip.Mapping

/-!
Contract: no edit of a clip's times slides the material that stays.

Owns:
- the timeline position of a source time as a line, and its agreement with `Clip.positionOf?`;
- that every command keeps the speed, and that the edits of one edge keep the line.

Does **not** own: the map from positions to source times (`Montage.Proofs.Clip.Mapping`).

The line is known from its slope and one of its points. An edit of the right edge leaves the start of the
window at the start of the placement, and an edit of the left edge the end at the end.
-/

set_option autoImplicit false

namespace Montage

open Extended

namespace Times

variable {w w' : Times} {limit : Extended}

/-! ## The speed -/

/-- Every command keeps the speed of a clip within its bounds. -/
theorem Bounded.becomes_speed (bounded : w.Bounded 0 limit) {command : Command Extended}
    (becomes : Becomes limit w command w') : w'.speed = w.speed := by
  have plays := bounded.speed_pos (by norm_num)
  cases becomes with
  | kept => rfl
  | @entered id request number =>
      have late := earliest_le_entry bounded.earliest_le request
      exact enteringAt_speed plays late (bounded.entry_lt request)
  | @ended id request number =>
      have longer := le_fitted (w.sourceIn + 1 / 10) limit request
      exact playing_speed plays (by linarith)
  | @opened id high isHigh =>
      exact playing_speed plays (by linarith [le_max_right high (1 / 10)])
  | rewound unbounded => exact playing_speed plays (bounded.sourceSpan_pos (by norm_num))
  | moved start =>
      show w.sourceSpan / (max start 0 + w.span - max start 0) = w.speed
      rw [add_sub_cancel_left]
      rfl
  | @resized id request number =>
      have longer : 1 / 10 ≤ w.length limit request := le_fitted _ _ _
      exact playing_speed plays (by linarith)
  | firstHalf after before long rest => exact upTo_speed after
  | secondHalf after before rest long => exact onward_speed bounded.running before

/-! ## Positions -/

def positionAt (w : Times) (source : ℚ) : ℚ :=
  w.start + (source - w.sourceIn) / w.sourceSpan * w.span

theorem positionAt_eq (w : Times) (source : ℚ) :
    w.positionAt source = w.start + (source - w.sourceIn) / w.speed := by
  unfold positionAt speed
  rw [div_div_eq_mul_div, div_mul_eq_mul_div]

/-- Positions counted back from the end of the placement. -/
theorem positionAt_eq_sub (running : w.start < w.stop) (plays : 0 < w.speed) (source : ℚ) :
    w.positionAt source = w.stop - (w.sourceOut - source) / w.speed := by
  have whole : (w.stop - w.start) * w.speed = w.sourceOut - w.sourceIn := span_mul_speed running
  have length : w.stop - w.start = (w.sourceOut - w.sourceIn) / w.speed := by
    rw [← whole, mul_div_cancel_right₀ _ plays.ne']
  rw [positionAt_eq, sub_div, sub_div]
  rw [sub_div] at length
  linarith

theorem positionAt_grows (plays : 0 < w.speed) : Monotone w.positionAt := by
  intro first second later
  rw [positionAt_eq, positionAt_eq]
  gcongr

theorem positionAt_sourceIn (w : Times) : w.positionAt w.sourceIn = w.start := by
  unfold positionAt
  rw [sub_self, zero_div, zero_mul, add_zero]

theorem positionAt_sourceOut (long : w.sourceIn < w.sourceOut) : w.positionAt w.sourceOut = w.stop := by
  have nonzero : w.sourceSpan ≠ 0 := (sub_pos.mpr long).ne'
  show w.start + w.sourceSpan / w.sourceSpan * (w.stop - w.start) = w.stop
  rw [div_self nonzero]
  ring

theorem playing_positionAt {sourceOut : ℚ}
    (same : (w.playing w.sourceIn sourceOut).speed = w.speed) (source : ℚ) :
    (w.playing w.sourceIn sourceOut).positionAt source = w.positionAt source := by
  rw [positionAt_eq, positionAt_eq, same]
  rfl

theorem enteringAt_positionAt (running : w.start < w.stop) (plays : 0 < w.speed) {sourceIn : ℚ}
    (late : w.earliest ≤ sourceIn) (same : (w.enteringAt sourceIn).speed = w.speed) (source : ℚ) :
    (w.enteringAt sourceIn).positionAt source = w.positionAt source := by
  rw [positionAt_eq_sub running plays, positionAt_eq, same, enteringAt_start plays late]
  show w.stop - (w.sourceOut - sourceIn) / w.speed + (source - sourceIn) / w.speed = _
  ring

/-- What plays inside the window plays inside the placement. -/
theorem positionAt_mem (long : w.sourceIn < w.sourceOut) (running : w.start < w.stop) {source : ℚ}
    (after : w.sourceIn ≤ source) (before : source ≤ w.sourceOut) :
    w.start ≤ w.positionAt source ∧ w.positionAt source ≤ w.stop := by
  have grows := positionAt_grows (div_pos (sub_pos.mpr long) (sub_pos.mpr running))
  exact ⟨(positionAt_sourceIn w).ge.trans (grows after),
    (grows before).trans (positionAt_sourceOut long).le⟩

end Times

namespace Clip

variable {c d : Clip Extended} {w w' : Times}

/-- The position of a finite source time inside the window. -/
theorem HasTimes.positionOf?_fin (times : c.HasTimes w) (long : w.sourceIn < w.sourceOut)
    (running : w.start < w.stop) {source : ℚ} (after : w.sourceIn ≤ source)
    (before : source ≤ w.sourceOut) :
    c.positionOf? (fin source) = some (fin (w.positionAt source)) := by
  obtain ⟨lower, upper⟩ := Times.positionAt_mem long running after before
  have length : w.sourceOut - w.sourceIn ≠ 0 := (sub_pos.mpr long).ne'
  have inside : fin w.sourceIn ≤ fin source ∧ fin source ≤ fin w.sourceOut ∧
      ¬ fin w.sourceOut ≤ fin w.sourceIn := by
    rw [fin_le_fin, fin_le_fin, fin_le_fin]
    exact ⟨after, before, not_le.mpr long⟩
  have position : fin w.start + fin (source - w.sourceIn) / fin (w.sourceOut - w.sourceIn) *
      fin (w.stop - w.start) = fin (w.positionAt source) := by
    rw [fin_div_fin _ _ length, fin_mul_fin, fin_add_fin]
    rfl
  unfold positionOf?
  rw [times.start, times.stop, times.sourceIn, times.sourceOut, if_pos inside]
  simp only [fin_sub_fin, position, between, max_fin, min_fin, max_eq_left lower, min_eq_left upper]

/-- A clip that plays as fast as another one, and every source time of both windows at the position where
the other one plays it. -/
structure KeepsPlace (c d : Clip Extended) : Prop where
  speed : d.speed = c.speed
  position :
    ∀ source, c.sourceIn ≤ source → source ≤ c.sourceOut →
      d.sourceIn ≤ source → source ≤ d.sourceOut →
      ∃ position, c.positionOf? source = some position ∧ d.positionOf? source = some position

/-- Two clips on one line keep each other's place. -/
theorem HasTimes.keepsPlace (times : c.HasTimes w) (others : d.HasTimes w')
    (long : w.sourceIn < w.sourceOut) (longer : w'.sourceIn < w'.sourceOut)
    (running : w.start < w.stop) (placed : w'.start < w'.stop) (same : w'.speed = w.speed)
    (onLine : ∀ source, w'.positionAt source = w.positionAt source) : c.KeepsPlace d := by
  constructor
  · rw [others.speed (sub_pos.mpr placed), times.speed (sub_pos.mpr running), same]
  · intro source after before later earlier
    rw [times.sourceIn] at after
    rw [times.sourceOut] at before
    rw [others.sourceIn] at later
    rw [others.sourceOut] at earlier
    rcases (fin_le_iff _ source).mp after with rfl | ⟨q, rfl, above⟩
    · exact (Bool.false_ne_true before).elim
    · rw [fin_le_fin] at before later earlier
      refine ⟨_, times.positionOf?_fin long running above before, ?_⟩
      rw [← onLine]
      exact others.positionOf?_fin longer placed later earlier

theorem HasTimes.keepsPlace_self {limit : Extended} (times : c.HasTimes w)
    (bounded : w.Bounded 0 limit) : c.KeepsPlace c := by
  have long := sub_pos.mp (bounded.sourceSpan_pos (by norm_num))
  exact times.keepsPlace times long long bounded.running bounded.running rfl fun _ => rfl

end Clip

end Montage

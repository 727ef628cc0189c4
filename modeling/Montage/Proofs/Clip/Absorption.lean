import Montage.Proofs.Clip.Bounds

/-!
Contract: of several edits of one edge, the last alone counts.

Owns:
- that an edge of a clip within its bounds moves without a change of the speed;
- the absorption of an earlier edit by a later one, for the start of the window, the end of the
  placement, and the placement as a whole.

Does **not** own: the timelines on which edits follow each other (`Montage.Proofs.Edit.Drag`).

An edit fits its request by the other edges and the speed, so it is enough that an earlier edit of the
same edge leaves those alone. The placement of a clip within its bounds is never cut at zero, where the
speed would change: its window starts no earlier than the source time that plays at zero.
-/

set_option autoImplicit false

namespace Montage

open Extended

namespace Times

variable {w : Times}

/-! ## The speed -/

theorem div_div_speed {length speed : ℚ} (long : 0 < length) (plays : 0 < speed) :
    length / (length / speed) = speed := by
  have nonzero := long.ne'
  field_simp

/-- Another window from the same start plays at the same speed. -/
theorem playing_speed (plays : 0 < w.speed) {sourceIn sourceOut : ℚ}
    (long : sourceIn < sourceOut) : (w.playing sourceIn sourceOut).speed = w.speed := by
  show (sourceOut - sourceIn) / (w.start + (sourceOut - sourceIn) / w.speed - w.start) = w.speed
  rw [add_sub_cancel_left]
  exact div_div_speed (sub_pos.mpr long) plays

/-- A window that is opened no further than zero is placed without a cut. -/
theorem enteringAt_start (plays : 0 < w.speed) {sourceIn : ℚ} (late : w.earliest ≤ sourceIn) :
    (w.enteringAt sourceIn).start = w.stop - (w.sourceOut - sourceIn) / w.speed := by
  have fits : (w.sourceOut - sourceIn) / w.speed ≤ w.stop := by
    rw [div_le_iff₀ plays]
    unfold earliest at late
    linarith
  exact max_eq_left (sub_nonneg.mpr fits)

theorem enteringAt_speed (plays : 0 < w.speed) {sourceIn : ℚ} (late : w.earliest ≤ sourceIn)
    (long : sourceIn < w.sourceOut) : (w.enteringAt sourceIn).speed = w.speed := by
  have span : (w.enteringAt sourceIn).span = (w.sourceOut - sourceIn) / w.speed := by
    show w.stop - (w.enteringAt sourceIn).start = _
    rw [enteringAt_start plays late, sub_sub_cancel]
  show (w.sourceOut - sourceIn) / (w.enteringAt sourceIn).span = w.speed
  rw [span]
  exact div_div_speed (sub_pos.mpr long) plays

/-! ## Edits after edits -/

/-- The start of the window is fitted to no earlier source time than the one that plays at zero. -/
theorem earliest_le_entry (fits : w.earliest ≤ w.sourceOut - 1 / 10) (request : Extended) :
    w.earliest ≤ w.entry request := by
  simp only [entry, min_eq_left fits]
  split
  · exact le_rfl
  · rename_i late
    exact not_lt.mp late

/-- Opening the window anew depends on its end and the speed alone. -/
theorem entry_enteringAt {sourceIn : ℚ} (same : (w.enteringAt sourceIn).speed = w.speed)
    (request : Extended) : (w.enteringAt sourceIn).entry request = w.entry request := by
  unfold entry earliest
  rw [same]
  rfl

theorem enteringAt_enteringAt {first : ℚ} (same : (w.enteringAt first).speed = w.speed)
    (second : ℚ) : (w.enteringAt first).enteringAt second = w.enteringAt second := by
  unfold enteringAt at same ⊢
  rw [same]

theorem length_playing {sourceOut : ℚ} (same : (w.playing w.sourceIn sourceOut).speed = w.speed)
    (limit request : Extended) :
    (w.playing w.sourceIn sourceOut).length limit request = w.length limit request := by
  unfold length
  rw [same]
  rfl

theorem playing_playing {sourceOut : ℚ} (same : (w.playing w.sourceIn sourceOut).speed = w.speed)
    (first second : ℚ) :
    (w.playing w.sourceIn sourceOut).playing first second = w.playing first second := by
  unfold playing at same ⊢
  rw [same]

theorem Bounded.earliest_le {limit : Extended} (bounded : w.Bounded 0 limit) :
    w.earliest ≤ w.sourceOut - 1 / 10 := by
  have window : 1 / 10 - 0 ≤ w.sourceOut - w.sourceIn := bounded.window
  linarith [bounded.sound.earliest_le]

/-- Some window is left wherever its start is fitted to. -/
theorem Bounded.entry_lt {limit : Extended} (bounded : w.Bounded 0 limit)
    (request : Extended) :
    w.entry request < w.sourceOut := by
  have window : 1 / 10 - 0 ≤ w.sourceOut - w.sourceIn := bounded.window
  have begun := bounded.entry
  rcases w.entry_cases request with fitted | ⟨short, -⟩ | ⟨short, -⟩
  · linarith [fitted.2]
  · linarith
  · linarith

end Times

namespace Clip

variable {c : Clip Extended} {w : Times}

theorem withTimes_hasTimes (c : Clip Extended) (w : Times) : (c.withTimes w).HasTimes w :=
  ⟨rfl, rfl, rfl, rfl⟩

/-- A request for the start of the window is absorbed by the next one that is a number. -/
theorem Valid.trimStart_trimStart (valid : c.Valid) (first : Extended) {second : Extended}
    (number : Scalar.isNaN second = false) :
    (c.trimStart first).trimStart second = c.trimStart second := by
  cases isNumber : Scalar.isNaN first with
  | true => rw [trimStart_of_isNaN isNumber]
  | false =>
      obtain ⟨w, times, -, bounded⟩ := valid.timed
      have plays := bounded.speed_pos (by norm_num)
      have late := Times.earliest_le_entry bounded.earliest_le first
      have long := bounded.entry_lt first
      have same := Times.enteringAt_speed plays late long
      have placed := Times.enteringAt_placed bounded.toPlaced plays long
      rw [trimStart_eq times bounded.span_pos plays isNumber,
        trimStart_eq (c.withTimes_hasTimes _) placed.span_pos (same.symm ▸ plays) number,
        trimStart_eq times bounded.span_pos plays number, Times.entry_enteringAt same,
        Times.enteringAt_enteringAt same]
      rfl

/-- A request for the end of the placement is absorbed by the next one that can be met. -/
theorem Valid.resizeRight_resizeRight (valid : c.Valid) (first : Extended) {second : Extended}
    (accepted : c.acceptsEnd second = true) :
    (c.resizeRight first).resizeRight second = c.resizeRight second := by
  cases isAccepted : c.acceptsEnd first with
  | false => rw [resizeRight_of_not_acceptsEnd isAccepted]
  | true =>
      obtain ⟨w, times, upper, bounded⟩ := valid.timed
      have plays := bounded.speed_pos (by norm_num)
      have longer : 1 / 10 ≤ w.length c.sourceLimit first := le_fitted _ _ _
      have long : w.sourceIn < w.sourceIn + w.length c.sourceLimit first := by linarith
      have same := Times.playing_speed plays long
      have placed := Times.playing_placed bounded.begun plays long
      have limit (w' : Times) : (c.withTimes w').sourceLimit = c.sourceLimit := rfl
      rw [resizeRight_eq times bounded.span_pos plays upper isAccepted,
        resizeRight_eq (c.withTimes_hasTimes _) placed.span_pos (same.symm ▸ plays) upper accepted,
        resizeRight_eq times bounded.span_pos plays upper accepted, limit,
        Times.length_playing same, Times.playing_playing same]
      rfl

/-- A clip that is moved is moved by the last finite request. -/
theorem reposition_reposition (first : Extended) {second : Extended}
    (finite : Scalar.isFinite second = true) :
    (c.reposition first).reposition second = c.reposition second := by
  cases isFinite : Scalar.isFinite first with
  | false => rw [reposition_of_not_isFinite isFinite]
  | true =>
      obtain ⟨p, rfl⟩ := (isFinite_iff first).mp isFinite
      simp only [reposition, isFinite_fin, if_true, finite, timelineSpan, zero_eq, max_fin,
        fin_add_sub_fin]

end Clip

namespace Overlay

variable (o : Overlay Extended)

/-- An overlay that is moved is moved by the last request, if all of them are finite or none is. -/
theorem reposition_reposition {first second : Extended}
    (alike : Scalar.isFinite first = Scalar.isFinite second) :
    (o.reposition first).reposition second = o.reposition second := by
  cases finite : Scalar.isFinite second with
  | false => simp only [reposition, alike, finite, Bool.false_eq_true, if_false]
  | true =>
      obtain ⟨p, rfl⟩ := (isFinite_iff first).mp (alike.trans finite)
      simp only [reposition, isFinite_fin, if_true, finite, timelineSpan, zero_eq, max_fin,
        fin_add_sub_fin]

/-- The last request for the end of an overlay counts, if all of them are finite or none is. -/
theorem resizeRight_resizeRight {first second : Extended}
    (alike : Scalar.isFinite first = Scalar.isFinite second) :
    (o.resizeRight first).resizeRight second = o.resizeRight second := by
  cases finite : Scalar.isFinite second with
  | false => simp only [resizeRight, alike, finite, Bool.false_eq_true, if_false]
  | true => simp only [resizeRight, alike, finite, if_true]

end Overlay

end Montage

import Montage.Proofs.Clip.Retiming
import Montage.Proofs.Edit.Drag

/-!
Contract: a dragged edge is where the pointer is, as far as the clip can follow.

Owns:
- source times that are clamped, seen as positions (`Times.positionAt_clamped`);
- the clip that a movement of each handle leaves (`Clip.Follows`).

Does **not** own: the movements that a throttle holds back (`Montage.Proofs.Edit.Drag`).

The left edge is dragged in source time and the right edge is fitted there, but the pointer moves in
timeline time. A position grows with the source time that plays at it, so clamping the one is clamping
the other.
-/

set_option autoImplicit false

namespace Montage

open Extended

/-- A request that is clamped between two bounds, which do not cross. -/
structure Extended.IsClamped (low high request value : Extended) : Prop where
  room : low ≤ high
  clamped : value = Scalar.clamp request low high

namespace Times

variable {w : Times}

theorem positionAt_add_mul (plays : 0 < w.speed) (seconds : ℚ) :
    w.positionAt (w.sourceIn + seconds * w.speed) = w.start + seconds := by
  rw [positionAt_eq, add_sub_cancel_left, mul_div_cancel_right₀ _ plays.ne']

theorem positionAt_earliest (running : w.start < w.stop) (plays : 0 < w.speed) :
    w.positionAt w.earliest = 0 := by
  rw [positionAt_eq_sub running plays, earliest, sub_sub_cancel,
    mul_div_cancel_right₀ _ plays.ne', sub_self]

/-- A request that is fitted in source time is clamped in timeline time. -/
theorem positionAt_clamped (plays : 0 < w.speed) {low : ℚ} {limit : Extended}
    (room : fin low ≤ limit) (request : ℚ) :
    IsClamped (fin (w.positionAt low)) (fin w.start + (limit - fin w.sourceIn) / fin w.speed)
      (fin (w.positionAt request)) (fin (w.positionAt (fitted low limit (fin request)))) := by
  have grows := positionAt_grows plays
  rcases (fin_le_iff low limit).mp room with rfl | ⟨high, rfl, within⟩
  · have endless : (posInf : Extended) / fin w.speed = posInf := if_neg plays.not_gt
    have latest : fin w.start + (posInf - fin w.sourceIn) / fin w.speed = posInf :=
      congrArg (fin w.start + ·) endless
    have unbounded : fin (w.positionAt low) ≤ posInf := fin_le_posInf _
    rw [latest]
    refine ⟨unbounded, ?_⟩
    rw [clamp_eq_fitted unbounded, map_fitted_posInf grows]
  · have latest : fin w.start + (fin high - fin w.sourceIn) / fin w.speed =
        fin (w.positionAt high) := by
      rw [fin_sub_fin, fin_div_fin _ _ plays.ne', fin_add_fin, positionAt_eq]
    have ordered : fin (w.positionAt low) ≤ fin (w.positionAt high) :=
      (fin_le_fin _ _).mpr (grows within)
    rw [latest]
    refine ⟨ordered, ?_⟩
    rw [clamp_eq_fitted ordered, map_fitted grows]

/-- The end of the placement, after it was asked to move by some seconds. -/
theorem Bounded.stop_clamped {limit : Extended} (bounded : w.Bounded 0 limit) (seconds : ℚ) :
    IsClamped (fin (w.start + 1 / 10 / w.speed))
      (fin w.start + (limit - fin w.sourceIn) / fin w.speed) (fin (w.stop + seconds))
      (fin (w.playing w.sourceIn (fitted (w.sourceIn + 1 / 10) limit
        (fin (w.sourceIn + (w.stop + seconds - w.start) * w.speed)))).stop) := by
  have plays := bounded.speed_pos (by norm_num)
  have clamped := positionAt_clamped plays bounded.exit_room
    (w.sourceIn + (w.stop + seconds - w.start) * w.speed)
  have shortest : w.positionAt (w.sourceIn + 1 / 10) = w.start + 1 / 10 / w.speed := by
    rw [positionAt_eq, add_sub_cancel_left]
  rw [shortest, positionAt_add_mul plays, add_sub_cancel, positionAt_eq _ (fitted _ _ _)] at clamped
  exact clamped

/-- The start of the placement, after it was asked to move by some seconds. -/
theorem Bounded.start_clamped {limit : Extended} (bounded : w.Bounded 0 limit) (seconds : ℚ) :
    IsClamped (fin (max 0 (w.start - w.sourceIn / w.speed))) (fin (w.stop - 1 / 10 / w.speed))
      (fin (w.start + seconds))
      (fin (w.enteringAt (w.entry (fin (w.sourceIn + seconds * w.speed)))).start) := by
  have plays := bounded.speed_pos (by norm_num)
  have running := bounded.running
  have late := earliest_le_entry bounded.earliest_le (fin (w.sourceIn + seconds * w.speed))
  have clamped := positionAt_clamped plays ((fin_le_fin _ _).mpr bounded.entry_room)
    (w.sourceIn + seconds * w.speed)
  have longest : w.positionAt (max 0 w.earliest) = max 0 (w.start - w.sourceIn / w.speed) := by
    rw [(positionAt_grows plays).map_max, positionAt_earliest running plays, positionAt_eq, zero_sub,
      neg_div, ← sub_eq_add_neg, max_comm]
  have shortest : fin w.start + (fin (w.sourceOut - 1 / 10) - fin w.sourceIn) / fin w.speed =
      fin (w.stop - 1 / 10 / w.speed) := by
    rw [fin_sub_fin, fin_div_fin _ _ plays.ne', fin_add_fin, ← positionAt_eq,
      positionAt_eq_sub running plays, sub_sub_cancel]
  rw [longest, shortest, positionAt_add_mul plays, ← bounded.entry_eq_fitted,
    positionAt_eq_sub running plays, ← enteringAt_start plays late] at clamped
  exact clamped

end Times

namespace Clip

variable {c : Clip Extended}

/-- What a clip becomes when the pointer has moved one of its handles by some seconds. -/
def Follows (c : Clip Extended) (seconds : Extended) (d : Clip Extended) : Handle → Prop
  | .body =>
      d.timelineStart = Scalar.max 0 (c.timelineStart + seconds) ∧
        d.sourceSpan = c.sourceSpan ∧ d.timelineSpan = c.timelineSpan
  | .rightEdge =>
      d.timelineStart = c.timelineStart ∧
        IsClamped (c.timelineStart + minimumSpan / c.speed)
          (c.timelineStart + (c.sourceLimit - c.sourceIn) / c.speed) (c.timelineEnd + seconds)
          d.timelineEnd
  | .leftEdge =>
      d.timelineEnd = c.timelineEnd ∧
        IsClamped (Scalar.max 0 (c.timelineStart - c.sourceIn / c.speed))
          (c.timelineEnd - minimumSpan / c.speed) (c.timelineStart + seconds) d.timelineStart

theorem Valid.reposition_follows (valid : c.Valid) (seconds : ℚ) :
    c.Follows (fin seconds) (c.reposition (c.timelineStart + fin seconds)) .body := by
  obtain ⟨w, times, -, bounded⟩ := valid.timed
  have moved := reposition_eq times (w.start + seconds)
  rw [times.start, fin_add_fin, moved]
  refine ⟨?_, ?_, ?_⟩
  · rw [times.start, zero_eq, fin_add_fin, max_fin, max_comm]
    rfl
  · rw [(c.withTimes_hasTimes _).sourceSpan, times.sourceSpan]
    rfl
  · rw [(c.withTimes_hasTimes _).timelineSpan, times.timelineSpan]
    show fin (max (w.start + seconds) 0 + w.span - max (w.start + seconds) 0) = fin w.span
    rw [add_sub_cancel_left]

/-- The right edge is fitted as a length, so its clamp is read off the request for the source time that
would play at the pointer. -/
theorem Valid.resizeRight_follows (valid : c.Valid) (seconds : ℚ) :
    c.Follows (fin seconds) (c.resizeRight (c.timelineEnd + fin seconds)) .rightEdge := by
  obtain ⟨w, times, upper, bounded⟩ := valid.timed
  have plays := bounded.speed_pos (by norm_num)
  have inSource : c.sourceIn + (c.timelineEnd + fin seconds - c.timelineStart) * c.speed =
      fin (w.sourceIn + (w.stop + seconds - w.start) * w.speed) := by
    rw [times.sourceIn, times.stop, times.start, times.speed bounded.span_pos, fin_add_fin,
      fin_sub_fin, fin_mul_fin, fin_add_fin]
  rw [← times.trimEnd_eq_resizeRight (bounded.sourceSpan_pos (by norm_num)) bounded.span_pos
    (isNaN_of_fin_le upper), inSource,
    trimEnd_eq times bounded.span_pos plays upper ((acceptsEnd_iff _).mpr ⟨rfl, Or.inl rfl⟩)]
  refine ⟨times.start.symm, ?_⟩
  rw [times.start, times.stop, times.sourceIn, times.speed bounded.span_pos, minimumSpan_eq,
    fin_div_fin _ _ plays.ne', fin_add_fin, fin_add_fin]
  exact bounded.stop_clamped seconds

theorem Valid.trimStart_follows (valid : c.Valid) (seconds : ℚ) :
    c.Follows (fin seconds) (c.trimStart (c.sourceIn + fin seconds * c.speed)) .leftEdge := by
  obtain ⟨w, times, -, bounded⟩ := valid.timed
  have plays := bounded.speed_pos (by norm_num)
  rw [times.sourceIn, times.speed bounded.span_pos, fin_mul_fin, fin_add_fin,
    trimStart_eq times bounded.span_pos plays rfl]
  refine ⟨times.stop.symm, ?_⟩
  rw [times.start, times.stop, times.sourceIn, times.speed bounded.span_pos, minimumSpan_eq, zero_eq,
    fin_div_fin _ _ plays.ne', fin_div_fin _ _ plays.ne', fin_sub_fin, fin_sub_fin, fin_add_fin,
    max_fin]
  exact bounded.start_clamped seconds

end Clip

namespace Drag

/-- The one command of a movement makes the dragged clip follow it. -/
theorem moveClip_follows {c : Clip Extended} (valid : c.Valid) (target : Identity) (handle : Handle)
    (zoom : Zoom Extended) (rate : Nat) {pixels : Extended}
    (finite : Scalar.isFinite pixels = true) :
    let drag := ofElement target (.clip c) handle zoom rate
    c.Follows (zoom.toSeconds pixels) (drag.moveClip c (drag.value pixels)) handle := by
  obtain ⟨seconds, isSeconds⟩ := zoom.toSeconds_fin finite
  cases handle with
  | body =>
      show c.Follows _ (c.reposition (c.timelineStart + zoom.toSeconds pixels)) .body
      rw [isSeconds]
      exact valid.reposition_follows seconds
  | leftEdge =>
      show c.Follows _ (c.trimStart (c.sourceIn + zoom.toSeconds pixels * c.speed)) .leftEdge
      rw [isSeconds]
      exact valid.trimStart_follows seconds
  | rightEdge =>
      show c.Follows _ (c.resizeRight (c.timelineEnd + zoom.toSeconds pixels)) .rightEdge
      rw [isSeconds]
      exact valid.resizeRight_follows seconds

/-- A dragged clip follows the pointer until its handle meets a bound. -/
theorem clip_follows_pointer {t : Timeline Extended} {target : Identity} {c : Clip Extended}
    (found : t.clip? target = some c) (valid : c.Valid) (handle : Handle) (zoom : Zoom Extended)
    (rate : Nat) {pixels : Extended} (finite : Scalar.isFinite pixels = true)
    (supply : IdSupply) :
    ∃ drag before after d,
      start t target handle zoom rate = .ok drag ∧
        t.HasClip target before c after ∧
        t.apply supply (drag.command (drag.value pixels)) =
          .ok ({ t with clips := before ++ [d] ++ after }, supply) ∧
        c.Follows (zoom.toSeconds pixels) d handle := by
  have element : t.element? target = some (.clip c) := by
    unfold Timeline.element?
    rw [found]
  obtain ⟨before, after, place⟩ := Timeline.exists_hasClip found
  exact ⟨_, before, after, _, start_eq element handle zoom rate, place,
    (apply_clip (d := ofElement target (.clip c) handle zoom rate) place supply _).1,
    moveClip_follows valid target handle zoom rate finite⟩

/-- The start of a film is dragged half a second before the beginning of its source. -/
theorem film_follows_pointer :
    ∃ drag before after d,
      start ({ Timeline.empty with clips := [Timeline.film] } : Timeline Extended) Timeline.film.id
          .leftEdge ⟨50, by decide +kernel⟩ 60 = .ok drag ∧
        Timeline.HasClip { Timeline.empty with clips := [Timeline.film] } Timeline.film.id before
          Timeline.film after ∧
        ({ Timeline.empty with clips := [Timeline.film] } : Timeline Extended).apply (.ofSeed 1)
          (drag.command (drag.value (0 - 25))) =
          .ok ({ Timeline.empty with clips := before ++ [d] ++ after }, .ofSeed 1) ∧
        Timeline.film.Follows (Zoom.toSeconds ⟨50, by decide +kernel⟩ (0 - 25)) d .leftEdge :=
  clip_follows_pointer (c := Timeline.film) rfl (Clip.ofAsset_valid _ _ _ _ _ _) .leftEdge _ 60
    (by decide +kernel) (.ofSeed 1)

end Drag

end Montage

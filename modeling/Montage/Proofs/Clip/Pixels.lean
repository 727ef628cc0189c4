import Montage.Proofs.Clip.Inverse

/-!
Contract: pixels counted from the left edge of a clip are a third reading of its scale.

Owns:
- the width of a clip in pixels and the slack at its edges, as rationals;
- the source time under a pixel, also under one that misses an edge by no more than the slack;
- that pixels and source times are the same pairs in both directions (`Clip.PixelsMatch`).

Does **not** own: the two readings in seconds (`Montage.Proofs.Clip.Inverse`).

A pixel is turned into a position, which is moved into the placement before its source time is looked up. In
exact arithmetic only pixels beyond an edge are moved, so on the clip itself the way back is a line.
-/

set_option autoImplicit false

namespace Montage

open Extended

namespace Times

variable {w : Times} {scale : ℚ}

/-- The width of a placement in pixels. -/
def width (w : Times) (scale : ℚ) : ℚ := w.span * scale

/-- The source time under a pixel, with the position moved into the placement. -/
def sourceAtPixel (w : Times) (scale pixels : ℚ) : ℚ :=
  w.sourceAt (min (max (w.start + pixels / scale) w.start) w.stop)

def pixelsAt (w : Times) (scale source : ℚ) : ℚ :=
  w.positionAt source * scale - w.start * scale

theorem width_pos (running : w.start < w.stop) (magnifies : 0 < scale) : 0 < w.width scale :=
  mul_pos (sub_pos.mpr running) magnifies

/-- On the clip the source time under a pixel is that of the position as it is. -/
theorem sourceAtPixel_eq (magnifies : 0 < scale) {pixels : ℚ} (after : 0 ≤ pixels)
    (before : pixels ≤ w.width scale) :
    w.sourceAtPixel scale pixels = w.sourceAt (w.start + pixels / scale) := by
  have fromStart : w.start ≤ w.start + pixels / scale :=
    le_add_of_nonneg_right (div_nonneg after magnifies.le)
  have upToStop : w.start + pixels / scale ≤ w.stop := by
    have seconds : pixels / scale ≤ w.stop - w.start := (div_le_iff₀ magnifies).mpr before
    linarith
  rw [sourceAtPixel, max_eq_left fromStart, min_eq_left upToStop]

theorem sourceAtPixel_of_nonpos (running : w.start < w.stop) (magnifies : 0 < scale) {pixels : ℚ}
    (before : pixels ≤ 0) : w.sourceAtPixel scale pixels = w.sourceIn := by
  have upToStart : w.start + pixels / scale ≤ w.start :=
    add_le_of_nonpos_right (div_nonpos_of_nonpos_of_nonneg before magnifies.le)
  rw [sourceAtPixel, max_eq_right upToStart, min_eq_left running.le, sourceAt_eq, sub_self, zero_mul,
    add_zero]

theorem sourceAtPixel_of_width_le (running : w.start < w.stop) (magnifies : 0 < scale) {pixels : ℚ}
    (after : w.width scale ≤ pixels) : w.sourceAtPixel scale pixels = w.sourceOut := by
  have fromStop : w.stop ≤ w.start + pixels / scale := by
    have seconds : w.stop - w.start ≤ pixels / scale := (le_div_iff₀ magnifies).mpr after
    linarith
  rw [sourceAtPixel, min_eq_right (fromStop.trans (le_max_left _ _)), sourceAt_stop running]

theorem pixelsAt_eq (w : Times) (scale source : ℚ) :
    w.pixelsAt scale source = (source - w.sourceIn) / w.speed * scale := by
  rw [pixelsAt, positionAt_eq]
  ring

/-- The source times of the window lie on the clip. -/
theorem pixelsAt_mem (window : w.sourceIn < w.sourceOut) (running : w.start < w.stop)
    (magnifies : 0 < scale) {source : ℚ} (after : w.sourceIn ≤ source) (before : source ≤ w.sourceOut) :
    0 ≤ w.pixelsAt scale source ∧ w.pixelsAt scale source ≤ w.width scale := by
  obtain ⟨lower, upper⟩ := positionAt_mem window running after before
  have factored : w.pixelsAt scale source = (w.positionAt source - w.start) * scale :=
    (sub_mul _ _ _).symm
  rw [factored, width, span]
  exact ⟨mul_nonneg (sub_nonneg.mpr lower) magnifies.le, by gcongr⟩

theorem sourceAtPixel_pixelsAt (window : w.sourceIn < w.sourceOut) (running : w.start < w.stop)
    (magnifies : 0 < scale) {source : ℚ} (after : w.sourceIn ≤ source) (before : source ≤ w.sourceOut) :
    w.sourceAtPixel scale (w.pixelsAt scale source) = source := by
  obtain ⟨lower, upper⟩ := pixelsAt_mem window running magnifies after before
  rw [sourceAtPixel_eq magnifies lower upper, pixelsAt_eq, mul_div_cancel_right₀ _ magnifies.ne',
    ← positionAt_eq, sourceAt_positionAt (speed_pos window running)]

theorem pixelsAt_sourceAtPixel (window : w.sourceIn < w.sourceOut) (running : w.start < w.stop)
    (magnifies : 0 < scale) {pixels : ℚ} (after : 0 ≤ pixels) (before : pixels ≤ w.width scale) :
    w.pixelsAt scale (w.sourceAtPixel scale pixels) = pixels := by
  rw [sourceAtPixel_eq magnifies after before, pixelsAt,
    positionAt_sourceAt (speed_pos window running), ← sub_mul, add_sub_cancel_left,
    div_mul_cancel₀ _ magnifies.ne']

theorem sourceAtPixel_mem (window : w.sourceIn < w.sourceOut) (running : w.start < w.stop)
    (scale pixels : ℚ) :
    w.sourceIn ≤ w.sourceAtPixel scale pixels ∧ w.sourceAtPixel scale pixels ≤ w.sourceOut :=
  sourceAt_mem window.le running (le_min (le_max_right _ _) running.le) (min_le_right _ _)

end Times

theorem Zoom.exists_scale (zoom : Zoom Extended) :
    ∃ scale, zoom.pixelsPerSecond = fin scale ∧ 0 < scale := by
  obtain ⟨finite, positive⟩ := zoom.valid
  obtain ⟨scale, isScale⟩ := (isFinite_iff _).mp finite
  rw [isScale, zero_eq, fin_lt_fin] at positive
  exact ⟨scale, isScale, positive⟩

theorem edgeSlack_eq : (Clip.edgeSlack : Extended) = fin (1 / 1000000000) := by
  show fin (Rat.ofScientific 1 true 9) = _
  norm_num [Rat.ofScientific]

namespace Clip

variable {c : Clip Extended} {w : Times} {zoom : Zoom Extended} {scale : ℚ}

def pixelWidth (c : Clip Extended) (zoom : Zoom Extended) : Extended := zoom.toPixels c.timelineSpan

/-- How far pixels may miss an edge: a billionth of the width, or of a pixel where the clip is narrower. -/
def pixelSlack (c : Clip Extended) (zoom : Zoom Extended) : Extended :=
  1e-9 * Scalar.max (c.pixelWidth zoom) 1

/-- Pixels and source times are the same pairs in both directions, and pixels that miss an edge by the
slack count as that edge. -/
structure PixelsMatch (c : Clip Extended) (zoom : Zoom Extended) : Prop where
  sourceBack : ∀ source, c.sourceIn ≤ source → source ≤ c.sourceOut →
    ∃ pixels, c.pixelsOf? zoom source = some pixels ∧ 0 ≤ pixels ∧ pixels ≤ c.pixelWidth zoom ∧
      c.sourceAtPixel? zoom pixels = some source
  pixelsBack : ∀ pixels, 0 ≤ pixels → pixels ≤ c.pixelWidth zoom →
    ∃ source, c.sourceAtPixel? zoom pixels = some source ∧ c.pixelsOf? zoom source = some pixels
  domain : ∀ pixels, c.sourceAtPixel? zoom pixels = none ↔
    Scalar.isNaN pixels = true ∨ pixels < 0 - c.pixelSlack zoom ∨
      c.pixelWidth zoom + c.pixelSlack zoom < pixels
  leftEdge : ∀ pixels, 0 - c.pixelSlack zoom ≤ pixels → pixels ≤ 0 →
    c.sourceAtPixel? zoom pixels = some c.sourceIn
  rightEdge : ∀ pixels, c.pixelWidth zoom ≤ pixels →
    pixels ≤ c.pixelWidth zoom + c.pixelSlack zoom → c.sourceAtPixel? zoom pixels = some c.sourceOut

def slackOf (width : ℚ) : ℚ := 1 / 1000000000 * max width 1

theorem slackOf_pos (width : ℚ) : 0 < slackOf width :=
  mul_pos (by norm_num) (zero_lt_one.trans_le (le_max_right width 1))

theorem HasTimes.pixelWidth (times : c.HasTimes w) (isScale : zoom.pixelsPerSecond = fin scale) :
    c.pixelWidth zoom = fin (w.width scale) := by
  rw [Clip.pixelWidth, Zoom.toPixels, times.timelineSpan, isScale, fin_mul_fin]
  rfl

theorem HasTimes.pixelSlack (times : c.HasTimes w) (isScale : zoom.pixelsPerSecond = fin scale) :
    c.pixelSlack zoom = fin (slackOf (w.width scale)) := by
  rw [Clip.pixelSlack, times.pixelWidth isScale, one_eq, max_fin]
  show (edgeSlack : Extended) * _ = _
  rw [edgeSlack_eq, fin_mul_fin]
  rfl

theorem HasTimes.pixelsOf?_fin (times : c.HasTimes w) (isScale : zoom.pixelsPerSecond = fin scale)
    (window : w.sourceIn < w.sourceOut) (running : w.start < w.stop) {source : ℚ}
    (after : w.sourceIn ≤ source) (before : source ≤ w.sourceOut) :
    c.pixelsOf? zoom (fin source) = some (fin (w.pixelsAt scale source)) := by
  rw [pixelsOf?, times.positionOf?_fin window running after before, Option.map_some, Zoom.toPixels,
    Zoom.toPixels, times.start, isScale, fin_mul_fin, fin_mul_fin, fin_sub_fin]
  rfl

/-- The pixels that count are those from one slack before the clip to one behind it. -/
theorem HasTimes.pixelBand (times : c.HasTimes w) (isScale : zoom.pixelsPerSecond = fin scale) :
    0 - c.pixelSlack zoom = fin (-slackOf (w.width scale)) ∧
      c.pixelWidth zoom + c.pixelSlack zoom = fin (w.width scale + slackOf (w.width scale)) := by
  rw [times.pixelSlack isScale, times.pixelWidth isScale, zero_eq, fin_sub_fin, fin_add_fin, zero_sub]
  exact ⟨rfl, rfl⟩

/-- A clip that lasts has a width that is its own magnitude. -/
theorem HasTimes.edgeSlack_mul (times : c.HasTimes w) (isScale : zoom.pixelsPerSecond = fin scale)
    (wide : 0 < w.width scale) :
    edgeSlack * Scalar.max (Scalar.abs (zoom.toPixels c.timelineSpan)) 1 = c.pixelSlack zoom := by
  have upright : Scalar.abs (c.pixelWidth zoom) = c.pixelWidth zoom := by
    rw [times.pixelWidth isScale, Scalar.abs, zero_eq, if_neg (by rw [fin_lt_fin]; exact wide.not_gt)]
  show edgeSlack * Scalar.max (Scalar.abs (c.pixelWidth zoom)) 1 = _
  rw [upright]
  rfl

theorem HasTimes.sourceAtPixel?_outside (times : c.HasTimes w)
    (isScale : zoom.pixelsPerSecond = fin scale) (wide : 0 < w.width scale) {pixels : Extended}
    (beyond : ¬ (0 - c.pixelSlack zoom ≤ pixels ∧ pixels ≤ c.pixelWidth zoom + c.pixelSlack zoom)) :
    c.sourceAtPixel? zoom pixels = none := by
  simp only [sourceAtPixel?, times.edgeSlack_mul isScale wide]
  exact if_neg beyond

/-- The source time under a pixel that counts is that of its position, moved into the placement. -/
theorem HasTimes.sourceAtPixel?_fin (times : c.HasTimes w) (isScale : zoom.pixelsPerSecond = fin scale)
    (magnifies : 0 < scale) (window : w.sourceIn < w.sourceOut) (running : w.start < w.stop) {pixels : ℚ}
    (above : -slackOf (w.width scale) ≤ pixels)
    (below : pixels ≤ w.width scale + slackOf (w.width scale)) :
    c.sourceAtPixel? zoom (fin pixels) = some (fin (w.sourceAtPixel scale pixels)) := by
  have wide := Times.width_pos running magnifies
  have inBand : 0 - c.pixelSlack zoom ≤ fin pixels ∧
      fin pixels ≤ zoom.toPixels c.timelineSpan + c.pixelSlack zoom := by
    obtain ⟨lowest, highest⟩ := times.pixelBand isScale
    show _ ≤ _ ∧ _ ≤ c.pixelWidth zoom + c.pixelSlack zoom
    rw [lowest, highest, fin_le_fin, fin_le_fin]
    exact ⟨above, below⟩
  have position :
      between c.timelineStart c.timelineEnd (c.timelineStart + zoom.toSeconds (fin pixels)) =
        fin (min (max (w.start + pixels / scale) w.start) w.stop) := by
    rw [between, times.start, times.stop, Zoom.toSeconds, isScale, fin_div_fin _ _ magnifies.ne',
      fin_add_fin, max_fin, min_fin]
  simp only [sourceAtPixel?, times.edgeSlack_mul isScale wide]
  rw [if_pos inBand, position]
  exact times.sourceAt?_fin window.le running (le_min (le_max_right _ _) running.le)
    (min_le_right _ _)

/-- A pixel has no source time exactly if it is no number or misses the clip by more than the slack. -/
theorem HasTimes.sourceAtPixel?_eq_none_iff (times : c.HasTimes w)
    (isScale : zoom.pixelsPerSecond = fin scale) (magnifies : 0 < scale)
    (window : w.sourceIn < w.sourceOut) (running : w.start < w.stop) (pixels : Extended) :
    c.sourceAtPixel? zoom pixels = none ↔
      Scalar.isNaN pixels = true ∨ pixels < 0 - c.pixelSlack zoom ∨
        c.pixelWidth zoom + c.pixelSlack zoom < pixels := by
  obtain ⟨lowest, highest⟩ := times.pixelBand isScale
  have beyond (outside : ¬ (0 - c.pixelSlack zoom ≤ pixels ∧
      pixels ≤ c.pixelWidth zoom + c.pixelSlack zoom)) : c.sourceAtPixel? zoom pixels = none :=
    times.sourceAtPixel?_outside isScale (Times.width_pos running magnifies) outside
  rw [lowest, highest] at beyond ⊢
  cases pixels with
  | fin q =>
      rw [fin_le_fin, fin_le_fin] at beyond
      rw [fin_lt_fin, fin_lt_fin]
      constructor
      · intro missing
        by_contra inBand
        simp only [isNaN_fin, Bool.false_eq_true, false_or, not_or, not_lt] at inBand
        rw [times.sourceAtPixel?_fin isScale magnifies window running inBand.1 inBand.2] at missing
        cases missing
      · rintro (isNone | tooLow | tooHigh)
        · cases isNone
        · exact beyond fun inBand => tooLow.not_ge inBand.1
        · exact beyond fun inBand => tooHigh.not_ge inBand.2
  | nan => exact iff_of_true (beyond fun inBand => Bool.false_ne_true inBand.1) (Or.inl rfl)
  | negInf =>
      exact iff_of_true (beyond fun inBand => Bool.false_ne_true inBand.1) (Or.inr (Or.inl rfl))
  | posInf =>
      exact iff_of_true (beyond fun inBand => Bool.false_ne_true inBand.2) (Or.inr (Or.inr rfl))

/-- Every pixel of a clip that shows some source for some time is a source time of its window, and the other
way about. -/
theorem pixelsMatch (zoom : Zoom Extended) (finite : ∀ x ∈ c.times, Scalar.isFinite x = true)
    (window : c.sourceIn < c.sourceOut) (running : c.timelineStart < c.timelineEnd) :
    c.PixelsMatch zoom := by
  obtain ⟨w, times⟩ := exists_hasTimes finite
  obtain ⟨scale, isScale, magnifies⟩ := zoom.exists_scale
  rw [times.sourceIn, times.sourceOut, fin_lt_fin] at window
  rw [times.start, times.stop, fin_lt_fin] at running
  have wide := Times.width_pos running magnifies
  have slack := slackOf_pos (w.width scale)
  have isWidth := times.pixelWidth isScale
  obtain ⟨lowest, highest⟩ := times.pixelBand isScale
  have shown {q : ℚ} (above : -slackOf (w.width scale) ≤ q)
      (below : q ≤ w.width scale + slackOf (w.width scale)) :=
    times.sourceAtPixel?_fin isScale magnifies window running above below
  constructor
  case sourceBack =>
    intro source after before
    rw [times.sourceIn] at after
    rw [times.sourceOut] at before
    obtain ⟨q, rfl, above, below⟩ := exists_fin_between after before
    obtain ⟨lower, upper⟩ := Times.pixelsAt_mem window running magnifies above below
    refine ⟨fin (w.pixelsAt scale q), times.pixelsOf?_fin isScale window running above below, ?_, ?_, ?_⟩
    · rwa [zero_eq, fin_le_fin]
    · rwa [isWidth, fin_le_fin]
    · rw [shown (by linarith) (by linarith),
        Times.sourceAtPixel_pixelsAt window running magnifies above below]
  case pixelsBack =>
    intro pixels after before
    rw [zero_eq] at after
    rw [isWidth] at before
    obtain ⟨q, rfl, above, below⟩ := exists_fin_between after before
    obtain ⟨lower, upper⟩ := Times.sourceAtPixel_mem window running scale q
    refine ⟨fin (w.sourceAtPixel scale q), shown (by linarith) (by linarith), ?_⟩
    rw [times.pixelsOf?_fin isScale window running lower upper,
      Times.pixelsAt_sourceAtPixel window running magnifies above below]
  case domain => exact times.sourceAtPixel?_eq_none_iff isScale magnifies window running
  case leftEdge =>
    intro pixels after before
    rw [lowest] at after
    rw [zero_eq] at before
    obtain ⟨q, rfl, above, below⟩ := exists_fin_between after before
    rw [shown above (by linarith), Times.sourceAtPixel_of_nonpos running magnifies below,
      times.sourceIn]
  case rightEdge =>
    intro pixels after before
    rw [isWidth] at after
    rw [highest] at before
    obtain ⟨q, rfl, above, below⟩ := exists_fin_between after before
    rw [shown (by linarith) below, Times.sourceAtPixel_of_width_le running magnifies above,
      times.sourceOut]

theorem fastForward_pixelsMatch :
    ((∀ x ∈ fastForward.times, Scalar.isFinite x = true) ∧
        fastForward.sourceIn < fastForward.sourceOut ∧
        fastForward.timelineStart < fastForward.timelineEnd) ∧
      fastForward.PixelsMatch ⟨40, by decide +kernel⟩ := by
  have finite : ∀ x ∈ fastForward.times, Scalar.isFinite x = true := by decide +kernel
  have window : fastForward.sourceIn < fastForward.sourceOut := by decide +kernel
  have running : fastForward.timelineStart < fastForward.timelineEnd := by decide +kernel
  exact ⟨⟨finite, window, running⟩, pixelsMatch ⟨40, by decide +kernel⟩ finite window running⟩

end Clip

end Montage

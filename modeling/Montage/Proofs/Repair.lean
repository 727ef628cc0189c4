import Montage.Proofs.Clip.Parts
import Montage.Proofs.Number.Settling
import Montage.Proofs.Overlay.Bounds
import Montage.Repair

/-!
Contract: mended elements.

Owns:
- what a repair makes of any element (`Clip.Mended`, `Overlay.Mended`, `Timeline.Mended`);
- that a repair leaves exactly the mended elements alone, so that a second one changes nothing.

Does **not** own: the bounds of a clip that the edits keep (`Montage.Proofs.Clip.Bounds`).

A repair computes the end of a placement from the speed that the stored spans give. It is idempotent
because the new spans give that speed again: the window is not empty after the first repair.
-/

set_option autoImplicit false

namespace Montage

open Extended

namespace Extended

/-! ## Numbers -/

@[simp] theorem canvasWidth_eq : (1920 : Extended) = fin 1920 := ofNat_eq 1920

@[simp] theorem canvasHeight_eq : (1080 : Extended) = fin 1080 := ofNat_eq 1080

@[simp] theorem defaultFontSize_eq : (24 : Extended) = fin 24 := ofNat_eq 24

@[simp] theorem defaultTextDuration_eq : (defaultTextDuration : Extended) = fin 10 := ofNat_eq 10

@[simp] theorem finiteOr_fin (q : ℚ) (fallback : Extended) :
    Scalar.finiteOr (fin q) fallback = fin q := rfl

theorem exists_finiteOr (x : Extended) (fallback : ℚ) :
    ∃ q, Scalar.finiteOr x (fin fallback) = fin q := by
  unfold Scalar.finiteOr
  cases finite : Scalar.isFinite x with
  | true =>
      obtain ⟨q, rfl⟩ := (isFinite_iff x).mp finite
      exact ⟨q, rfl⟩
  | false => exact ⟨fallback, rfl⟩

theorem exists_repaired_atLeastOne (x : Extended) (fallback : ℚ) :
    ∃ size, atLeastOne (Scalar.finiteOr x (fin fallback)) = fin size ∧ 1 ≤ size := by
  obtain ⟨q, isNumber⟩ := exists_finiteOr x fallback
  rw [isNumber, Clip.atLeastOne_fin]
  exact ⟨max q 1, rfl, le_max_right q 1⟩

theorem exists_repaired_percentage (x : Extended) (fallback : ℚ) {largest : ℚ}
    (nonneg : 0 ≤ largest) :
    ∃ part, percentage (fin largest) (Scalar.finiteOr x (fin fallback)) = fin part ∧ 0 ≤ part ∧
      part ≤ largest := by
  obtain ⟨q, isNumber⟩ := exists_finiteOr x fallback
  rw [isNumber, Clip.percentage_fin]
  exact ⟨min (max q 0) largest, rfl, le_min (le_max_right q 0) nonneg, min_le_right _ _⟩

theorem finiteOr_of_isFinite {x : Extended} (finite : Scalar.isFinite x = true)
    (fallback : Extended) : Scalar.finiteOr x fallback = x := if_pos finite

theorem repaired_atLeastOne_eq {x : Extended} (finite : Scalar.isFinite x = true) (large : 1 ≤ x)
    (fallback : Extended) : atLeastOne (Scalar.finiteOr x fallback) = x := by
  obtain ⟨size, rfl⟩ := (isFinite_iff x).mp finite
  rw [one_eq, fin_le_fin] at large
  rw [finiteOr_fin, Clip.atLeastOne_fin, max_eq_left large]

theorem repaired_percentage_eq {x : Extended} (finite : Scalar.isFinite x = true) {largest : ℚ}
    (bounds : 0 ≤ x ∧ x ≤ fin largest) (fallback : Extended) :
    percentage (fin largest) (Scalar.finiteOr x fallback) = x := by
  obtain ⟨part, rfl⟩ := (isFinite_iff x).mp finite
  rw [zero_eq, fin_le_fin, fin_le_fin] at bounds
  rw [finiteOr_fin, Clip.percentage_fin, max_eq_left bounds.1, min_eq_left bounds.2]

end Extended

/-! ## Clips -/

namespace Clip

/-- A clip as a repair leaves it, apart from its times: its numbers are finite and within their bounds,
its source is not too short for a window, it is turned by less than a full turn, and its crop is not
empty. -/
structure Settled (c : Clip Extended) : Prop extends c.Presentable where
  long : minimumSpan ≤ c.sourceDuration
  turn : ∃ angle : ℚ, c.rotation = fin angle ∧ |angle| < 360
  kept : ∀ r ∈ c.crop, r.isKept = true

/-- A clip as a repair leaves it. -/
structure Mended (c : Clip Extended) : Prop extends c.Settled where
  valid : c.Valid

section Times

variable {c : Clip Extended} {w : Times}

theorem exists_storedSpeed (c : Clip Extended) : ∃ speed, c.storedSpeed = fin speed ∧ 0 < speed := by
  simp only [storedSpeed]
  split
  · rename_i usable
    rw [Bool.and_eq_true, decide_eq_true_eq, isFinite_iff] at usable
    obtain ⟨⟨speed, isSpeed⟩, plays⟩ := usable
    rw [isSpeed, zero_eq, fin_lt_fin] at plays
    exact ⟨speed, isSpeed, plays⟩
  · exact ⟨1, one_eq, one_pos⟩

theorem HasTimes.storedSpeed (times : c.HasTimes w) (placed : w.Placed) (plays : 0 < w.speed) :
    c.storedSpeed = fin w.speed := by
  have quotient : c.sourceSpan / c.timelineSpan = fin w.speed := by
    rw [times.sourceSpan, times.timelineSpan, fin_div_fin _ _ placed.span_pos.ne', Times.speed]
  unfold Clip.storedSpeed
  simp [quotient, plays]

/-- The start of the repaired window is not before the source, and leaves room for the shortest window
if the source has. -/
theorem exists_repairedIn (c : Clip Extended) {limit : Extended} (long : fin (1 / 10) ≤ limit) :
    ∃ sourceIn, c.repairedIn limit = fin sourceIn ∧ 0 ≤ sourceIn ∧ fin (sourceIn + 1 / 10) ≤ limit := by
  obtain ⟨first, isFirst⟩ := exists_finiteOr c.sourceIn 0
  have start : Scalar.max (Scalar.finiteOr c.sourceIn 0) 0 = fin (max first 0) := by
    rw [zero_eq, isFirst, max_fin]
  unfold repairedIn
  rw [start]
  rcases (fin_le_iff _ limit).mp long with rfl | ⟨high, rfl, long⟩
  · exact ⟨max first 0, rfl, le_max_right first 0, fin_le_posInf _⟩
  · have room : 0 ≤ high - 1 / 10 := by linarith
    have moved := min_le_right (max first 0) (high - 1 / 10)
    have within := max_le moved room
    refine ⟨max (min (max first 0) (high - 1 / 10)) 0, ?_, le_max_right _ 0, ?_⟩
    · simp only [isFinite_fin, if_true, minimumSpan_eq, zero_eq, fin_sub_fin, min_fin, max_fin]
    · rw [fin_le_fin]
      linarith

/-- The repaired window is long enough and ends within the source. -/
theorem exists_repairedOut (c : Clip Extended) {sourceIn : ℚ} {limit : Extended}
    (within : fin (sourceIn + 1 / 10) ≤ limit) :
    ∃ sourceOut, c.repairedOut (fin sourceIn) limit = fin sourceOut ∧ sourceIn + 1 / 10 ≤ sourceOut ∧
      fin sourceOut ≤ limit := by
  have fallback : fin sourceIn + defaultMediaDuration = fin (sourceIn + 30) := by
    rw [defaultMediaDuration_eq, fin_add_fin]
  obtain ⟨last, isLast⟩ := exists_finiteOr c.sourceOut (sourceIn + 30)
  unfold repairedOut
  rw [fallback, isLast, minimumSpan_eq, fin_add_fin,
    max_min_eq_fitted within (isNaN_fin last) (Or.inl (isFinite_fin last))]
  refine ⟨_, rfl, le_fitted _ _ _, ?_⟩
  rcases fitted_le (sourceIn + 1 / 10) within (fin last) with below | shortest
  · exact below
  · rw [shortest]
    exact within

/-- A repaired clip has times within their bounds. -/
theorem repair_timed (c : Clip Extended) :
    c.repair.Timed fun limit w => w.Bounded 0 limit := by
  obtain ⟨length, isLength⟩ := exists_finiteOr c.sourceDuration 30
  obtain ⟨first, isFirst⟩ := exists_finiteOr c.timelineStart 0
  obtain ⟨speed, isSpeed, plays⟩ := c.exists_storedSpeed
  have long : fin (1 / 10) ≤ c.repair.sourceLimit := by
    unfold repair sourceLimit
    cases c.kind with
    | image =>
        rw [one_eq, zero_eq, fin_div_zero one_pos]
        exact fin_le_posInf _
    | _ =>
        rw [defaultMediaDuration_eq, isLength, minimumSpan_eq, max_fin]
        exact (fin_le_fin _ _).mpr (le_max_right length (1 / 10))
  obtain ⟨sourceIn, isIn, entry, room⟩ := c.exists_repairedIn long
  obtain ⟨sourceOut, isOut, window, exit⟩ := c.exists_repairedOut room
  have start : c.repair.timelineStart = fin (max first 0) := by
    show Scalar.max (Scalar.finiteOr c.timelineStart 0) 0 = _
    rw [zero_eq, isFirst, max_fin]
  have opened : c.repair.sourceIn = fin sourceIn := isIn
  have closed : c.repair.sourceOut = fin sourceOut := by
    show c.repairedOut c.repair.sourceIn c.repair.sourceLimit = _
    rw [opened, isOut]
  have stop : c.repair.timelineEnd = fin (max first 0 + (sourceOut - sourceIn) / speed) := by
    show c.repair.timelineStart + (c.repair.sourceOut - c.repair.sourceIn) / c.storedSpeed = _
    rw [start, opened, closed, isSpeed, fin_sub_fin, fin_div_fin _ _ plays.ne', fin_add_fin]
  have length : 0 < (sourceOut - sourceIn) / speed := div_pos (by linarith) plays
  refine ⟨⟨sourceIn, sourceOut, max first 0, max first 0 + (sourceOut - sourceIn) / speed⟩,
    ⟨opened, closed, start, stop⟩, long, ⟨le_max_right first 0, ?_⟩, entry, exit, ?_⟩
  · show max first 0 < max first 0 + (sourceOut - sourceIn) / speed
    linarith
  · show 1 / 10 - 0 ≤ sourceOut - sourceIn
    linarith

end Times

/-- A repair makes the numbers of any clip finite and fits them, apart from its times. -/
theorem repair_presentable (c : Clip Extended) : c.repair.Presentable := by
  obtain ⟨length, isLength⟩ := exists_finiteOr c.sourceDuration 30
  obtain ⟨x, isX⟩ := exists_finiteOr c.x 0
  obtain ⟨y, isY⟩ := exists_finiteOr c.y 0
  obtain ⟨width, isWidth, wide⟩ := exists_repaired_atLeastOne c.width 1920
  obtain ⟨height, isHeight, high⟩ := exists_repaired_atLeastOne c.height 1080
  obtain ⟨angle, isAngle⟩ := exists_finiteOr c.rotation 0
  obtain ⟨opacity, isOpacity, visible⟩ :=
    exists_repaired_percentage c.opacity 100 (show (0 : ℚ) ≤ 100 by norm_num)
  obtain ⟨volume, isVolume, audible⟩ :=
    exists_repaired_percentage c.volume 100 (show (0 : ℚ) ≤ 200 by norm_num)
  constructor
  · simp only [List.mem_cons, List.not_mem_nil, or_false, forall_eq_or_imp, forall_eq, repair,
      defaultMediaDuration_eq, minimumSpan_eq, maximumVolume_eq, zero_eq, hundred_eq, fullTurn_eq,
      canvasWidth_eq, canvasHeight_eq, isLength, isX, isY, isWidth, isHeight, isAngle, isOpacity,
      isVolume, max_fin, remainder_fin angle (show (360 : ℚ) ≠ 0 by norm_num), isFinite_fin, and_self]
  · intro r member
    have kept := (Option.filter_eq_some_iff.mp member).2
    exact ((Bool.and_eq_true _ _).mp kept).1
  · show 0 ≤ percentage 100 (Scalar.finiteOr c.opacity 100) ∧
      percentage 100 (Scalar.finiteOr c.opacity 100) ≤ 100
    rw [hundred_eq, isOpacity, zero_eq, fin_le_fin, fin_le_fin]
    exact visible
  · show 0 ≤ percentage maximumVolume (Scalar.finiteOr c.volume 100) ∧
      percentage maximumVolume (Scalar.finiteOr c.volume 100) ≤ maximumVolume
    rw [hundred_eq, maximumVolume_eq, isVolume, zero_eq, fin_le_fin, fin_le_fin]
    exact audible
  · show 1 ≤ atLeastOne (Scalar.finiteOr c.width 1920) ∧
      1 ≤ atLeastOne (Scalar.finiteOr c.height 1080)
    rw [canvasWidth_eq, canvasHeight_eq, isWidth, isHeight, one_eq, fin_le_fin, fin_le_fin]
    exact ⟨wide, high⟩

/-- A repair mends any clip, whatever its numbers. -/
theorem repair_mended (c : Clip Extended) : c.repair.Mended := by
  obtain ⟨length, isLength⟩ := exists_finiteOr c.sourceDuration 30
  obtain ⟨angle, isAngle⟩ := exists_finiteOr c.rotation 0
  have nonzero : (360 : ℚ) ≠ 0 := by norm_num
  refine ⟨⟨c.repair_presentable, ?_, ?_, ?_⟩, c.repair_timed.valid⟩
  · show minimumSpan ≤ Scalar.max (Scalar.finiteOr c.sourceDuration defaultMediaDuration) minimumSpan
    rw [defaultMediaDuration_eq, isLength, minimumSpan_eq, max_fin, fin_le_fin]
    exact le_max_right length (1 / 10)
  · refine ⟨_, ?_, abs_remainder_lt angle (show (0 : ℚ) < 360 by norm_num)⟩
    show Scalar.remainder (Scalar.finiteOr c.rotation 0) 360 = _
    rw [zero_eq, isAngle, fullTurn_eq, remainder_fin angle nonzero]
  · intro r member
    exact (Option.filter_eq_some_iff.mp member).2

section Mended

variable {c : Clip Extended} {w : Times}

/-- The window of a clip within its bounds stays open where it is. -/
theorem HasTimes.repairedIn (times : c.HasTimes w) {limit : Extended} (bounded : w.Bounded 0 limit) :
    c.repairedIn limit = c.sourceIn := by
  have window : 1 / 10 - 0 ≤ w.sourceOut - w.sourceIn := bounded.window
  have start : Scalar.max (Scalar.finiteOr c.sourceIn 0) 0 = fin w.sourceIn := by
    rw [times.sourceIn, finiteOr_fin, zero_eq, max_fin, max_eq_left bounded.entry]
  unfold Clip.repairedIn
  rw [start, times.sourceIn]
  rcases (fin_le_iff _ limit).mp bounded.exit with rfl | ⟨high, rfl, exit⟩
  · rfl
  · have room : w.sourceIn ≤ high - 1 / 10 := by linarith
    simp only [isFinite_fin, if_true, minimumSpan_eq, zero_eq, fin_sub_fin, min_fin, max_fin,
      min_eq_left room, max_eq_left bounded.entry]

/-- The window of a clip within its bounds is closed where it is. -/
theorem HasTimes.repairedOut (times : c.HasTimes w) {limit : Extended} (bounded : w.Bounded 0 limit) :
    c.repairedOut c.sourceIn limit = c.sourceOut := by
  have window : 1 / 10 - 0 ≤ w.sourceOut - w.sourceIn := bounded.window
  have late : w.sourceIn + 1 / 10 ≤ w.sourceOut := by linarith
  have kept : Scalar.min (fin w.sourceOut) limit = fin w.sourceOut := by
    rcases (fin_le_iff _ limit).mp bounded.exit with rfl | ⟨high, rfl, exit⟩
    · rfl
    · rw [min_fin, min_eq_left exit]
  unfold Clip.repairedOut
  rw [times.sourceIn, times.sourceOut, finiteOr_fin, kept, minimumSpan_eq, fin_add_fin, max_fin,
    max_eq_left late]

theorem HasTimes.repairedStart (times : c.HasTimes w) (begun : 0 ≤ w.start) :
    c.repair.timelineStart = c.timelineStart := by
  show Scalar.max (Scalar.finiteOr c.timelineStart 0) 0 = c.timelineStart
  rw [times.start, finiteOr_fin, zero_eq, max_fin, max_eq_left begun]

/-- The end of a placement follows from its start, the window and the speed. -/
theorem HasTimes.repairedEnd (times : c.HasTimes w) (bounded : w.Bounded 0 c.sourceLimit) :
    c.timelineStart + (c.sourceOut - c.sourceIn) / c.storedSpeed = c.timelineEnd := by
  have plays := bounded.speed_pos (by norm_num)
  have long := bounded.sourceSpan_pos (by norm_num)
  have length : w.sourceSpan / w.speed = w.span := by
    rw [Times.speed, div_div_cancel₀ long.ne']
  rw [times.storedSpeed bounded.toPlaced plays, times.sourceIn, times.sourceOut, times.start,
    times.stop, fin_sub_fin, fin_div_fin _ _ plays.ne', fin_add_fin]
  show fin (w.start + w.sourceSpan / w.speed) = fin w.stop
  rw [length, Times.span, add_sub_cancel]

/-- A repair changes nothing but the times of a settled clip. -/
theorem Settled.repair_eq (settled : c.Settled) :
    c.repair =
      { c with
        sourceIn := c.repair.sourceIn
        sourceOut := c.repair.sourceOut
        timelineStart := c.repair.timelineStart
        timelineEnd := c.repair.timelineEnd } := by
  obtain ⟨angle, isAngle, less⟩ := settled.turn
  have finite := settled.finite
  simp only [List.mem_cons, List.not_mem_nil, or_false, forall_eq_or_imp, forall_eq] at finite
  obtain ⟨finiteDuration, x, y, finiteWidth, finiteHeight, -, finiteOpacity, finiteVolume⟩ := finite
  have source :
      Scalar.max (Scalar.finiteOr c.sourceDuration defaultMediaDuration) minimumSpan =
        c.sourceDuration := by
    obtain ⟨length, isLength⟩ := (isFinite_iff _).mp finiteDuration
    have long := settled.long
    rw [isLength, minimumSpan_eq, fin_le_fin] at long
    rw [isLength, finiteOr_fin, minimumSpan_eq, max_fin, max_eq_left long]
  have rotation : Scalar.remainder (Scalar.finiteOr c.rotation 0) 360 = c.rotation := by
    rw [isAngle, finiteOr_fin, fullTurn_eq, remainder_of_abs_lt (by norm_num) less]
  have opacity : percentage 100 (Scalar.finiteOr c.opacity 100) = c.opacity := by
    have bounds := settled.opacity
    rw [hundred_eq] at bounds ⊢
    exact repaired_percentage_eq finiteOpacity bounds _
  have volume : percentage maximumVolume (Scalar.finiteOr c.volume 100) = c.volume := by
    have bounds := settled.volume
    rw [maximumVolume_eq] at bounds ⊢
    exact repaired_percentage_eq finiteVolume bounds _
  have crop : c.crop.filter Crop.isKept = c.crop := by
    cases isCrop : c.crop with
    | none => rfl
    | some r => exact Option.filter_some_pos (settled.kept r isCrop)
  simp only [repair, source, finiteOr_of_isFinite x, finiteOr_of_isFinite y,
    repaired_atLeastOne_eq finiteWidth settled.size.1,
    repaired_atLeastOne_eq finiteHeight settled.size.2, rotation, opacity, volume, crop]

theorem Settled.repair_sourceLimit (settled : c.Settled) : c.repair.sourceLimit = c.sourceLimit := by
  have duration : c.repair.sourceDuration = c.sourceDuration := by rw [settled.repair_eq]
  unfold sourceLimit
  rw [duration]
  rfl

/-- A repair leaves a mended clip alone. -/
theorem Mended.repair_eq (mended : c.Mended) : c.repair = c := by
  obtain ⟨w, times, -, bounded⟩ := mended.valid.timed
  have limit := mended.repair_sourceLimit
  have opened : c.repair.sourceIn = c.sourceIn := by
    show c.repairedIn c.repair.sourceLimit = c.sourceIn
    rw [limit, times.repairedIn bounded]
  have closed : c.repair.sourceOut = c.sourceOut := by
    show c.repairedOut c.repair.sourceIn c.repair.sourceLimit = c.sourceOut
    rw [limit, opened, times.repairedOut bounded]
  have start := times.repairedStart bounded.begun
  have stop : c.repair.timelineEnd = c.timelineEnd := by
    show c.repair.timelineStart + (c.repair.sourceOut - c.repair.sourceIn) / c.storedSpeed = _
    rw [start, opened, closed, times.repairedEnd bounded]
  rw [mended.toSettled.repair_eq, opened, closed, start, stop]

theorem Mended.wellFormed (mended : c.Mended) : c.WellFormed :=
  ⟨mended.valid, mended.toPresentable⟩

end Mended

theorem repair_eq_self_iff {c : Clip Extended} : c.repair = c ↔ c.Mended := by
  constructor
  · intro same
    rw [← same]
    exact c.repair_mended
  · exact Mended.repair_eq

/-- A second repair changes nothing. -/
theorem repair_repair (c : Clip Extended) : c.repair.repair = c.repair :=
  c.repair_mended.repair_eq

end Clip

/-! ## Overlays -/

namespace Overlay

/-- An overlay whose numbers are finite and within their bounds, apart from its times. -/
structure Presentable (o : Overlay Extended) : Prop where
  finite : ∀ x ∈ [o.x, o.y, o.fontSize, o.opacity], Scalar.isFinite x = true
  size : 1 ≤ o.fontSize
  opacity : 0 ≤ o.opacity ∧ o.opacity ≤ 100

/-- An overlay as a repair leaves it: placed for the shortest span at least, and presentable. -/
structure Mended (o : Overlay Extended) : Prop where
  valid : o.Valid
  long : o.timelineStart + minimumSpan ≤ o.timelineEnd
  presentable : o.Presentable

/-- A repair mends any overlay, whatever its numbers. -/
theorem repair_mended (o : Overlay Extended) : o.repair.Mended := by
  obtain ⟨first, isFirst⟩ := exists_finiteOr o.timelineStart 0
  obtain ⟨last, isLast⟩ := exists_finiteOr o.timelineEnd (max first 0 + 10)
  obtain ⟨x, isX⟩ := exists_finiteOr o.x 0
  obtain ⟨y, isY⟩ := exists_finiteOr o.y 0
  obtain ⟨size, isSize, large⟩ := exists_repaired_atLeastOne o.fontSize 24
  obtain ⟨opacity, isOpacity, visible⟩ :=
    exists_repaired_percentage o.opacity 100 (show (0 : ℚ) ≤ 100 by norm_num)
  have start : o.repair.timelineStart = fin (max first 0) := by
    show Scalar.max (Scalar.finiteOr o.timelineStart 0) 0 = _
    rw [zero_eq, isFirst, max_fin]
  have stop : o.repair.timelineEnd = fin (max last (max first 0 + 1 / 10)) := by
    show Scalar.max (Scalar.finiteOr o.timelineEnd (o.repair.timelineStart + defaultTextDuration))
      (o.repair.timelineStart + minimumSpan) = _
    rw [start, defaultTextDuration_eq, minimumSpan_eq, fin_add_fin, fin_add_fin, isLast, max_fin]
  have late := le_max_right last (max first 0 + 1 / 10)
  refine ⟨valid_iff.mpr ⟨_, _, start, stop, le_max_right first 0, ?_⟩, ?_, ?_, ?_, ?_⟩
  · linarith
  · rw [start, stop, minimumSpan_eq, fin_add_fin, fin_le_fin]
    exact late
  · simp only [List.mem_cons, List.not_mem_nil, or_false, forall_eq_or_imp, forall_eq, repair,
      zero_eq, hundred_eq, defaultFontSize_eq, isX, isY, isSize, isOpacity, isFinite_fin, and_self]
  · show 1 ≤ atLeastOne (Scalar.finiteOr o.fontSize 24)
    rw [defaultFontSize_eq, isSize, one_eq, fin_le_fin]
    exact large
  · show 0 ≤ percentage 100 (Scalar.finiteOr o.opacity 100) ∧
      percentage 100 (Scalar.finiteOr o.opacity 100) ≤ 100
    rw [hundred_eq, isOpacity, zero_eq, fin_le_fin, fin_le_fin]
    exact visible

/-- A repair changes nothing of a presentable overlay with a placement but that it may end later. -/
theorem Presentable.repair_eq {o : Overlay Extended} (presentable : o.Presentable) (valid : o.Valid) :
    o.repair =
      { o with timelineEnd := Scalar.max o.timelineEnd (o.timelineStart + minimumSpan) } := by
  have finite := presentable.finite
  simp only [List.mem_cons, List.not_mem_nil, or_false, forall_eq_or_imp, forall_eq] at finite
  obtain ⟨x, y, finiteSize, finiteOpacity⟩ := finite
  have start : Scalar.max (Scalar.finiteOr o.timelineStart 0) 0 = o.timelineStart := by
    obtain ⟨first, -, isFirst, -, begun, -⟩ := valid_iff.mp valid
    rw [isFirst, finiteOr_fin, zero_eq, max_fin, max_eq_left begun]
  have opacity : percentage 100 (Scalar.finiteOr o.opacity 100) = o.opacity := by
    have bounds := presentable.opacity
    rw [hundred_eq] at bounds ⊢
    exact repaired_percentage_eq finiteOpacity bounds _
  simp only [repair, start, finiteOr_of_isFinite valid.finite.2, finiteOr_of_isFinite x,
    finiteOr_of_isFinite y, repaired_atLeastOne_eq finiteSize presentable.size, opacity]

/-- A repair leaves a mended overlay alone. -/
theorem Mended.repair_eq {o : Overlay Extended} (mended : o.Mended) : o.repair = o := by
  obtain ⟨first, last, isFirst, isLast, -, -⟩ := valid_iff.mp mended.valid
  have long : Scalar.max o.timelineEnd (o.timelineStart + minimumSpan) = o.timelineEnd := by
    have long := mended.long
    rw [isFirst, isLast, minimumSpan_eq, fin_add_fin, fin_le_fin] at long
    rw [isFirst, isLast, minimumSpan_eq, fin_add_fin, max_fin, max_eq_left long]
  rw [mended.presentable.repair_eq mended.valid, long]

theorem repair_eq_self_iff {o : Overlay Extended} : o.repair = o ↔ o.Mended := by
  constructor
  · intro same
    rw [← same]
    exact o.repair_mended
  · exact Mended.repair_eq

theorem repair_repair (o : Overlay Extended) : o.repair.repair = o.repair :=
  o.repair_mended.repair_eq

end Overlay

/-! ## Timelines -/

namespace Timeline

/-- A timeline as a repair leaves it. -/
structure Mended (t : Timeline Extended) : Prop where
  running : t.frameRate ≠ 0
  visible : t.canvas.width ≠ 0 ∧ t.canvas.height ≠ 0
  clips : ∀ c ∈ t.clips, c.Mended
  overlays : ∀ o ∈ t.overlays, o.Mended

/-- A repair mends any timeline, whatever its numbers. -/
theorem repair_mended (t : Timeline Extended) : t.repair.Mended := by
  constructor
  · show (if t.frameRate = 0 then standardFrameRate else t.frameRate) ≠ 0
    split
    · decide
    · assumption
  · show (if t.canvas.width = 0 ∨ t.canvas.height = 0 then Canvas.standard else t.canvas).width ≠ 0 ∧
      (if t.canvas.width = 0 ∨ t.canvas.height = 0 then Canvas.standard else t.canvas).height ≠ 0
    split
    · decide
    · rename_i visible
      exact not_or.mp visible
  · intro c member
    obtain ⟨d, -, rfl⟩ := List.mem_map.mp member
    exact d.repair_mended
  · intro o member
    obtain ⟨p, -, rfl⟩ := List.mem_map.mp member
    exact p.repair_mended

/-- A repair of a timeline with a usable frame rate and canvas is the repair of its elements. -/
theorem repair_of_usable {t : Timeline Extended} (running : t.frameRate ≠ 0)
    (visible : t.canvas.width ≠ 0 ∧ t.canvas.height ≠ 0) :
    t.repair =
      { t with clips := t.clips.map Clip.repair, overlays := t.overlays.map Overlay.repair } := by
  unfold repair
  rw [if_neg running, if_neg (not_or.mpr visible)]

theorem repair_eq_self_iff {t : Timeline Extended} : t.repair = t ↔ t.Mended := by
  constructor
  · intro same
    rw [← same]
    exact t.repair_mended
  · intro mended
    have clips : t.clips.map Clip.repair = t.clips :=
      (List.map_congr_left fun c member => (mended.clips c member).repair_eq).trans (List.map_id _)
    have overlays : t.overlays.map Overlay.repair = t.overlays :=
      (List.map_congr_left fun o member => (mended.overlays o member).repair_eq).trans
        (List.map_id _)
    rw [repair_of_usable mended.running mended.visible, clips, overlays]

theorem repair_repair (t : Timeline Extended) : t.repair.repair = t.repair :=
  repair_eq_self_iff.mpr t.repair_mended

end Timeline

end Montage

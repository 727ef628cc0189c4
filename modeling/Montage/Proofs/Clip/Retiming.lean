import Montage.Proofs.Clip.Parts
import Montage.Proofs.Clip.Position
import Montage.Proofs.Number.Nearest

/-!
Contract: the five edits that change nothing of a clip but its times.

Owns:
- these edits (`Retiming`), and that any run of them keeps a clip within its bounds and at its speed;
- what trimming or resizing leaves in place, and which edge a request becomes;
- that an end of the placement and the source time that plays there are one request.

Does **not** own: the timeline that the clip stands on (`Montage.Proofs.Edit.Retiming`).
-/

set_option autoImplicit false

namespace Montage

/-- An edit of a clip's times. -/
inductive Retiming (α : Type) where
  | trimStart (request : α)
  | trimEnd (request : α)
  | clearTrim
  | reposition (start : α)
  | resizeRight (request : α)
  deriving DecidableEq

variable {α : Type}

def Retiming.command (id : Identity) : Retiming α → Command α
  | .trimStart request => .trimStart id request
  | .trimEnd request => .trimEnd id request
  | .clearTrim => .clearTrim id
  | .reposition start => .reposition id start
  | .resizeRight request => .resizeRight id request

/-- A clip after an edit. -/
def Clip.retimed [Scalar α] (c : Clip α) : Retiming α → Clip α
  | .trimStart request => c.trimStart request
  | .trimEnd request => c.trimEnd request
  | .clearTrim => c.clearTrim
  | .reposition start => c.reposition start
  | .resizeRight request => c.resizeRight request

namespace Retiming

variable (edit : Retiming α) (id : Identity)

theorem command_target? : (edit.command id).target? = some id := by cases edit <;> rfl

theorem command_clipParts? [Scalar α] (supply : IdSupply) (c : Clip α) :
    (edit.command id).clipParts? supply c = some [c.retimed edit] := by cases edit <;> rfl

end Retiming

open Extended

namespace Times

variable {w : Times} {limit : Extended}

theorem Bounded.entry_room (bounded : w.Bounded 0 limit) :
    max 0 w.earliest ≤ w.sourceOut - 1 / 10 := by
  have window : 1 / 10 - 0 ≤ w.sourceOut - w.sourceIn := bounded.window
  exact max_le (by linarith [bounded.entry]) bounded.earliest_le

theorem Bounded.exit_room (bounded : w.Bounded 0 limit) : fin (w.sourceIn + 1 / 10) ≤ limit := by
  have window : 1 / 10 - 0 ≤ w.sourceOut - w.sourceIn := bounded.window
  exact fin_le_of_le (by linarith) bounded.exit

/-- In a clip within its bounds, the start of the window is fitted between the source time that plays at
zero, or the beginning of the source, and the latest start. -/
theorem Bounded.entry_eq_fitted (bounded : w.Bounded 0 limit) (q : ℚ) :
    w.entry (fin q) = fitted (max 0 w.earliest) (fin (w.sourceOut - 1 / 10)) (fin q) := by
  have early := bounded.earliest_le
  show (if max (min q (w.sourceOut - 1 / 10)) 0 < w.earliest then
      min w.earliest (w.sourceOut - 1 / 10) else max (min q (w.sourceOut - 1 / 10)) 0) =
    max (min q (w.sourceOut - 1 / 10)) (max 0 w.earliest)
  rw [min_eq_left early, ← max_assoc]
  split
  · rename_i less
    exact (max_eq_right less.le).symm
  · rename_i notLess
    exact (max_eq_left (not_lt.mp notLess)).symm

end Times

namespace Clip

variable {c d : Clip Extended} {w : Times}

/-! ## Runs of edits -/

/-- Another clip of the same source, within its bounds and at the same speed. -/
structure PlaysAlike (c d : Clip Extended) : Prop where
  valid : d.Valid
  speed : d.speed = c.speed
  kind : d.kind = c.kind
  duration : d.sourceDuration = c.sourceDuration
  id : d.id = c.id

theorem Valid.playsAlike_self (valid : c.Valid) : c.PlaysAlike c := ⟨valid, rfl, rfl, rfl, rfl⟩

theorem PlaysAlike.trans {e : Clip Extended} (first : c.PlaysAlike d) (second : d.PlaysAlike e) :
    c.PlaysAlike e :=
  ⟨second.valid, second.speed.trans first.speed, second.kind.trans first.kind,
    second.duration.trans first.duration, second.id.trans first.id⟩

theorem retimed_id (c : Clip Extended) (edit : Retiming Extended) : (c.retimed edit).id = c.id := by
  cases edit with
  | clearTrim => rfl
  | trimStart request | trimEnd request | reposition start | resizeRight request =>
      exact (apply_ite Clip.id _ _ _).trans (ite_self _)

/-- One edit keeps a clip within its bounds and at its speed. -/
theorem Valid.playsAlike_retimed (valid : c.Valid) (edit : Retiming Extended) :
    c.PlaysAlike (c.retimed edit) := by
  obtain ⟨w, times, upper, bounded⟩ := valid.timed
  obtain ⟨placed, plays⟩ := bounded.plays (by norm_num)
  obtain ⟨w', becomes, retimed | ⟨id, patch, isPatch, -⟩⟩ :=
    clipParts?_becomes times placed plays upper (edit.command_clipParts? c.id (.ofSeed 0) c)
      (List.mem_singleton_self _)
  -- The edits are among the commands that keep a clip within its bounds: none of them cuts, and within
  -- its bounds none overreaches.
  · have kept : w'.Bounded 0 c.sourceLimit := by
      refine bounded.becomes le_rfl (by norm_num) upper becomes (bounded.not_overreaches _) ?_
      intro id position isSplit
      cases edit <;> cases isSplit
    have sameSpeed := bounded.becomes_speed becomes
    refine ⟨Timed.valid ⟨w', retimed.hasTimes, ?_, ?_⟩, ?_, ?_, ?_, retimed_id c edit⟩
    · rwa [retimed.sourceLimit]
    · rwa [retimed.sourceLimit]
    · rw [retimed.hasTimes.speed kept.span_pos, times.speed placed.span_pos, sameSpeed]
    · rw [retimed]
      rfl
    · rw [retimed]
      rfl
  · cases edit <;> cases isPatch

/-- Any run of edits keeps a clip within its bounds and at its speed. -/
theorem Valid.playsAlike_foldl (valid : c.Valid) (edits : List (Retiming Extended)) :
    c.PlaysAlike (edits.foldl retimed c) := by
  induction edits generalizing c with
  | nil => exact valid.playsAlike_self
  | cons edit rest inductionHypothesis =>
      have first := valid.playsAlike_retimed edit
      exact first.trans (inductionHypothesis first.valid)

/-- A clip of a bounded source is opened to the whole of it. -/
theorem Valid.clearTrim_window (valid : c.Valid) (moving : c.kind ≠ .image)
    (known : Scalar.isFinite c.sourceDuration = true) :
    c.clearTrim.sourceIn = 0 ∧ c.clearTrim.sourceOut = c.sourceDuration := by
  obtain ⟨w, times, upper, bounded⟩ := valid.timed
  obtain ⟨placed, plays⟩ := bounded.plays (by norm_num)
  have isLimit : c.sourceLimit = c.sourceDuration := by
    unfold sourceLimit
    cases kind : c.kind with
    | image => exact absurd kind moving
    | video | audio => rfl
  rcases clearTrim_eq times placed.span_pos plays upper with ⟨limit, isBound, opened⟩ | ⟨unbounded, -⟩
  · rw [isBound, fin_le_fin] at upper
    rw [opened, ← isLimit, isBound, zero_eq]
    exact ⟨rfl, congrArg fin (max_eq_left upper)⟩
  · rw [← isLimit, unbounded] at known
    cases known

/-! ## One edge under two requests -/

/-- A request for the end of the placement is one for the source time that would play there. -/
theorem HasTimes.trimEnd_eq_resizeRight (times : c.HasTimes w) (long : 0 < w.sourceSpan)
    (placed : 0 < w.span) (number : Scalar.isNaN c.sourceLimit = false) (stop : Extended) :
    c.trimEnd (c.sourceIn + (stop - c.timelineStart) * c.speed) = c.resizeRight stop := by
  have plays : 0 < w.speed := div_pos long placed
  obtain ⟨sameNumber, sameFinite⟩ := rescaled_isNaN stop w.start plays
  have accepted :
      c.acceptsEnd (fin w.sourceIn + (stop - fin w.start) * fin w.speed) = c.acceptsEnd stop := by
    unfold acceptsEnd
    rw [isNaN_fin_add, isFinite_fin_add, sameNumber, sameFinite]
  -- No bound on the window is used: a limit that leaves no room for the shortest window binds in
  -- neither clamp.
  have clamped := fin_add_max_min w.sourceIn (1 / 10) ((stop - fin w.start) * fin w.speed) number
  rw [times.sourceIn, times.start, times.speed placed]
  unfold trimEnd resizeRight
  rw [accepted]
  split
  · simp only [times.sourceIn, times.start, times.speed placed, minimumSpan_eq, ← clamped,
      fin_add_sub_fin]
  · rfl

/-! ## Trimmed edges -/

/-- What a request for the start of the window makes of a clip: the ends of the window and of the placement
stay, and a finite request becomes the nearest source time that leaves the shortest window and does not
play before the beginning of the source or of the timeline. -/
structure StartTrimmed (c : Clip Extended) (request : Extended) (d : Clip Extended) : Prop where
  rest : d = { c with sourceIn := d.sourceIn, timelineStart := d.timelineStart }
  place : c.KeepsPlace d
  nearest :
    Scalar.isFinite request = true →
      IsNearest (Scalar.max 0 (c.sourceOut - c.timelineEnd * c.speed)) (c.sourceOut - minimumSpan)
        request d.sourceIn

/-- What a request for either end makes of a clip: the starts of the window and of the placement stay. -/
structure EndMoved (c d : Clip Extended) : Prop where
  rest : d = { c with sourceOut := d.sourceOut, timelineEnd := d.timelineEnd }
  place : c.KeepsPlace d

theorem Valid.trimStart_isNearest (valid : c.Valid) {request : Extended}
    (finite : Scalar.isFinite request = true) :
    IsNearest (Scalar.max 0 (c.sourceOut - c.timelineEnd * c.speed)) (c.sourceOut - minimumSpan)
      request (c.trimStart request).sourceIn := by
  obtain ⟨w, times, -, bounded⟩ := valid.timed
  obtain ⟨q, rfl⟩ := (isFinite_iff request).mp finite
  rw [trimStart_eq times bounded.span_pos (bounded.speed_pos (by norm_num)) rfl, times.sourceOut,
    times.stop, times.speed bounded.span_pos, minimumSpan_eq, zero_eq, fin_mul_fin, fin_sub_fin,
    fin_sub_fin, max_fin]
  show IsNearest (fin (max 0 w.earliest)) _ _ (fin (w.entry (fin q)))
  rw [bounded.entry_eq_fitted]
  exact fitted_isNearest ((fin_le_fin _ _).mpr bounded.entry_room) q

theorem Valid.trimStart_startTrimmed (valid : c.Valid) (request : Extended) :
    c.StartTrimmed request (c.trimStart request) := by
  obtain ⟨w, times, -, bounded⟩ := valid.timed
  cases number : Scalar.isNaN request with
  | true =>
      refine ⟨?_, ?_, valid.trimStart_isNearest⟩
      · rw [trimStart_of_isNaN number]
      · rw [trimStart_of_isNaN number]
        exact times.keepsPlace_self bounded
  | false =>
      have plays := bounded.speed_pos (by norm_num)
      have late := Times.earliest_le_entry bounded.earliest_le request
      have long := bounded.entry_lt request
      have same := Times.enteringAt_speed plays late long
      have placed := Times.enteringAt_placed bounded.toPlaced plays long
      have window := sub_pos.mp (bounded.sourceSpan_pos (by norm_num))
      refine ⟨?_, ?_, valid.trimStart_isNearest⟩
      · rw [trimStart_eq times bounded.span_pos plays number]
        simp only [withTimes, Times.enteringAt, ← times.sourceOut, ← times.stop]
      · rw [trimStart_eq times bounded.span_pos plays number]
        exact times.keepsPlace (c.withTimes_hasTimes _) window long bounded.running placed.running
          same (Times.enteringAt_positionAt bounded.running plays late same)

/-- A clip that plays another window from its start on has its end moved. -/
theorem HasTimes.endMoved (times : c.HasTimes w) {limit : Extended} (bounded : w.Bounded 0 limit)
    {sourceOut : ℚ} (longer : w.sourceIn < sourceOut) :
    c.EndMoved (c.withTimes (w.playing w.sourceIn sourceOut)) := by
  have plays := bounded.speed_pos (by norm_num)
  have same := Times.playing_speed plays longer
  have placed := Times.playing_placed bounded.begun plays longer
  have window := sub_pos.mp (bounded.sourceSpan_pos (by norm_num))
  constructor
  · simp only [withTimes, Times.playing, ← times.sourceIn, ← times.start]
  · exact times.keepsPlace (c.withTimes_hasTimes _) window longer bounded.running placed.running same
      (Times.playing_positionAt same)

theorem Valid.trimEnd_endMoved (valid : c.Valid) (request : Extended) :
    c.EndMoved (c.trimEnd request) := by
  obtain ⟨w, times, upper, bounded⟩ := valid.timed
  cases accepted : c.acceptsEnd request with
  | false =>
      rw [trimEnd_of_not_acceptsEnd accepted]
      exact ⟨rfl, times.keepsPlace_self bounded⟩
  | true =>
      have longer := le_fitted (w.sourceIn + 1 / 10) c.sourceLimit request
      rw [trimEnd_eq times bounded.span_pos (bounded.speed_pos (by norm_num)) upper accepted]
      exact times.endMoved bounded (by linarith)

theorem Valid.resizeRight_endMoved (valid : c.Valid) (request : Extended) :
    c.EndMoved (c.resizeRight request) := by
  obtain ⟨w, times, upper, bounded⟩ := valid.timed
  have long := bounded.sourceSpan_pos (by norm_num)
  rw [← times.trimEnd_eq_resizeRight long bounded.span_pos (isNaN_of_fin_le upper)]
  exact valid.trimEnd_endMoved _

/-- A finite request for the end of the window becomes the nearest source time that leaves the shortest
window and is not after the end of the source. -/
theorem Valid.trimEnd_isNearest (valid : c.Valid) {request : Extended}
    (finite : Scalar.isFinite request = true) :
    IsNearest (c.sourceIn + minimumSpan) c.sourceLimit request (c.trimEnd request).sourceOut := by
  obtain ⟨w, times, upper, bounded⟩ := valid.timed
  obtain ⟨q, rfl⟩ := (isFinite_iff request).mp finite
  have accepted : c.acceptsEnd (fin q) = true := (acceptsEnd_iff _).mpr ⟨rfl, Or.inl rfl⟩
  rw [trimEnd_eq times bounded.span_pos (bounded.speed_pos (by norm_num)) upper accepted,
    times.sourceIn, minimumSpan_eq, fin_add_fin]
  exact fitted_isNearest bounded.exit_room q

/-! ## The right edge in source time -/

end Clip

end Montage

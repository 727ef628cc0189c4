import Montage.Proofs.Clip.Times
import Montage.Proofs.Edit.Outcome

/-!
Contract: the bounds on the times of a clip, through every command.

Owns:
- what each command can make of the times of its clip (`Times.Becomes`);
- the bounds that a command keeps unless it overreaches (`Times.Bounded`, `Times.Overreaches`);
- the weaker bounds that every command keeps (`Times.Sound`).

Does **not** own: clips that have these times (`Montage.Proofs.Clip.Bounds`).

A cut leaves halves that may be shorter than the shortest window by a tolerance, while every later edit
fits its request to the whole shortest window. An edge of such a half can so be moved past the start or
the end of its source. The bounds of `Bounded` are therefore not kept by all commands. What a sequence of
commands does keep is that a window is at most two tolerances too short and starts at most one before
the source, and that only a window at the start of the source is too short by more than one.
-/

set_option autoImplicit false

namespace Montage.Times

open Extended

/-! ## What a command makes of the times -/

/-- What a command can make of the times of its clip, where the source has the given limit. -/
inductive Becomes (limit : Extended) (w : Times) : Command Extended → Times → Prop
  | kept {command : Command Extended} : Becomes limit w command w
  | entered {id : Identity} {request : Extended} (number : Scalar.isNaN request = false) :
      Becomes limit w (.trimStart id request) (w.enteringAt (w.entry request))
  | ended {id : Identity} {request : Extended} (number : Scalar.isNaN request = false) :
      Becomes limit w (.trimEnd id request)
        (w.playing w.sourceIn (fitted (w.sourceIn + 1 / 10) limit request))
  | opened {id : Identity} {high : ℚ} (bounded : limit = fin high) :
      Becomes limit w (.clearTrim id) (w.playing 0 (max high (1 / 10)))
  | rewound {id : Identity} (unbounded : limit = posInf) :
      Becomes limit w (.clearTrim id) (w.playing 0 w.sourceSpan)
  | moved {id : Identity} (start : ℚ) :
      Becomes limit w (.reposition id (fin start)) (w.movedTo (max start 0))
  | resized {id : Identity} {request : Extended} (number : Scalar.isNaN request = false) :
      Becomes limit w (.resizeRight id request)
        (w.playing w.sourceIn (w.sourceIn + w.length limit request))
  | firstHalf {id : Identity} {cut : ℚ} (after : w.start < cut) (before : cut < w.stop)
      (long : 1 / 10 - tolerance ≤ (w.upTo cut).sourceSpan)
      (rest : 1 / 10 - tolerance ≤ (w.onward cut).sourceSpan) :
      Becomes limit w (.split id (fin cut)) (w.upTo cut)
  | secondHalf {id : Identity} {cut : ℚ} (after : w.start < cut) (before : cut < w.stop)
      (rest : 1 / 10 - tolerance ≤ (w.upTo cut).sourceSpan)
      (long : 1 / 10 - tolerance ≤ (w.onward cut).sourceSpan) :
      Becomes limit w (.split id (fin cut)) (w.onward cut)

variable {w w' : Times} {limit : Extended}

/-! ## Placements -/

/-- A placement that is not empty and not before zero. -/
structure Placed (w : Times) : Prop where
  begun : 0 ≤ w.start
  running : w.start < w.stop

theorem Placed.span_pos (placed : w.Placed) : 0 < w.span := sub_pos.mpr placed.running

/-- The placement of a window that is not empty follows it at a positive speed. -/
theorem Placed.speed_pos (placed : w.Placed) (long : 0 < w.sourceSpan) : 0 < w.speed :=
  div_pos long placed.span_pos

theorem playing_placed (begun : 0 ≤ w.start) (plays : 0 < w.speed) {sourceIn sourceOut : ℚ}
    (long : sourceIn < sourceOut) : (w.playing sourceIn sourceOut).Placed := by
  refine ⟨begun, ?_⟩
  have length : 0 < (sourceOut - sourceIn) / w.speed := div_pos (sub_pos.mpr long) plays
  show w.start < w.start + (sourceOut - sourceIn) / w.speed
  linarith

theorem enteringAt_placed (placed : w.Placed) (plays : 0 < w.speed) {sourceIn : ℚ}
    (long : sourceIn < w.sourceOut) : (w.enteringAt sourceIn).Placed := by
  refine ⟨le_max_right _ _, ?_⟩
  have length : 0 < (w.sourceOut - sourceIn) / w.speed := div_pos (sub_pos.mpr long) plays
  have stop : 0 < w.stop := placed.begun.trans_lt placed.running
  show max (w.stop - (w.sourceOut - sourceIn) / w.speed) 0 < w.stop
  exact max_lt (by linarith) stop

theorem movedTo_placed (placed : w.Placed) {start : ℚ} (begun : 0 ≤ start) :
    (w.movedTo start).Placed := by
  refine ⟨begun, ?_⟩
  have length := placed.span_pos
  show start < start + w.span
  linarith

/-! ## Fitted edges -/

/-- A start of the window is fitted between zero and the latest start, unless the window ends before the
shortest one could. Then it is zero, or the latest start if the placement would begin before zero. -/
theorem entry_cases (w : Times) (request : Extended) :
    (0 ≤ w.entry request ∧ w.entry request ≤ w.sourceOut - 1 / 10) ∨
      (w.sourceOut < 1 / 10 ∧ w.earliest ≤ 0 ∧ w.entry request = 0) ∨
      (w.sourceOut < 1 / 10 ∧ 0 < w.earliest ∧ w.entry request = w.sourceOut - 1 / 10) := by
  obtain ⟨wanted, chosen, lower, upper⟩ :
      ∃ wanted,
        w.entry request =
          (if wanted < w.earliest then min w.earliest (w.sourceOut - 1 / 10) else wanted) ∧
        0 ≤ wanted ∧ (wanted ≤ w.sourceOut - 1 / 10 ∨ wanted = 0) := by
    refine ⟨fitted 0 (fin (w.sourceOut - 1 / 10)) request, rfl, le_fitted _ _ _, ?_⟩
    rw [← fin_le_fin]
    exact fitted_le 0 ((fin_le_fin _ _).mpr le_rfl) request
  rw [chosen]
  by_cases fits : 0 ≤ w.sourceOut - 1 / 10
  · have below : wanted ≤ w.sourceOut - 1 / 10 := upper.elim id fun zero => zero.trans_le fits
    refine Or.inl ?_
    by_cases early : wanted < w.earliest
    · rw [if_pos early]
      exact ⟨le_min (lower.trans early.le) fits, min_le_right _ _⟩
    · rw [if_neg early]
      exact ⟨lower, below⟩
  · -- The latest start lies before the source, so the request is fitted to zero first. A placement that
    -- would begin before zero then moves it to the latest start after all.
    have short : w.sourceOut < 1 / 10 := by linarith
    have zero : wanted = 0 := upper.elim (fun below => by linarith) id
    rw [zero]
    refine Or.inr ?_
    by_cases early : 0 < w.earliest
    · rw [if_pos early]
      exact Or.inr ⟨short, early, min_eq_right (by linarith)⟩
    · rw [if_neg early]
      exact Or.inl ⟨short, not_lt.mp early, rfl⟩

/-- A window of the fitted length ends within the source if the shortest one does. -/
theorem add_length_le (within : fin (w.sourceIn + 1 / 10) ≤ limit) (request : Extended) :
    fin (w.sourceIn + w.length limit request) ≤ limit := by
  rcases (fin_le_iff _ limit).mp within with rfl | ⟨high, rfl, fits⟩
  · exact fin_le_posInf _
  · rw [fin_le_fin]
    have upper := fitted_le (1 / 10) (w.le_room within) ((request - fin w.start) * fin w.speed)
    rw [room_of_bounded, fin_le_fin, max_eq_left (by linarith)] at upper
    unfold length
    rw [room_of_bounded, max_eq_left (by linarith)]
    rcases upper with below | shortest <;> linarith

/-- An end of the window is fitted to the end of the source if the shortest window ends within it. -/
theorem fitted_exit_le (within : fin (w.sourceIn + 1 / 10) ≤ limit) (request : Extended) :
    fin (fitted (w.sourceIn + 1 / 10) limit request) ≤ limit := by
  rcases fitted_le (w.sourceIn + 1 / 10) within request with below | shortest
  · exact below
  · rw [shortest]
    exact within

/-! ## Bounds that a command keeps unless it overreaches -/

/-- The bounds of a clip's times, where a window may be shorter than the shortest one by some slack. -/
structure Bounded (slack : ℚ) (limit : Extended) (w : Times) : Prop extends w.Placed where
  entry : 0 ≤ w.sourceIn
  exit : fin w.sourceOut ≤ limit
  window : 1 / 10 - slack ≤ w.sourceSpan

/-- Whether the shortest window, to which a command fits its request, does not lie within the source:
between its beginning and the present end, or between the present start and its end. -/
def Overreaches (limit : Extended) (w : Times) : Command Extended → Prop
  | .trimStart _ request =>
      Scalar.isNaN request = false ∧ w.sourceOut < 1 / 10 ∧ 0 < w.earliest
  | .trimEnd _ request => Scalar.isNaN request = false ∧ limit < fin (w.sourceIn + 1 / 10)
  | .resizeRight _ request => Scalar.isNaN request = false ∧ limit < fin (w.sourceIn + 1 / 10)
  | _ => False

section Bounded

variable {slack : ℚ}

theorem Bounded.sourceSpan_pos (bounded : w.Bounded slack limit) (small : slack < 1 / 10) :
    0 < w.sourceSpan := by
  have window := bounded.window
  linarith

theorem Bounded.speed_pos (bounded : w.Bounded slack limit) (small : slack < 1 / 10) :
    0 < w.speed :=
  bounded.toPlaced.speed_pos (bounded.sourceSpan_pos small)

theorem Bounded.plays (bounded : w.Bounded slack limit) (small : slack < 1 / 10) :
    w.Placed ∧ 0 < w.speed :=
  ⟨bounded.toPlaced, bounded.speed_pos small⟩

theorem Bounded.movedTo {start : ℚ} (begun : 0 ≤ start) (bounded : w.Bounded slack limit) :
    (w.movedTo start).Bounded slack limit :=
  ⟨movedTo_placed bounded.toPlaced begun, bounded.entry, bounded.exit, bounded.window⟩

theorem Bounded.slacken {more : ℚ} (bounded : w.Bounded slack limit) (wider : slack ≤ more) :
    w.Bounded more limit :=
  ⟨bounded.toPlaced, bounded.entry, bounded.exit,
    (sub_le_sub_left wider (1 / 10)).trans bounded.window⟩

/-- Another window within the source keeps the bounds. -/
theorem Bounded.playing (bounded : w.Bounded slack limit) (small : slack < 1 / 10)
    {sourceIn sourceOut : ℚ} (entry : 0 ≤ sourceIn) (exit : fin sourceOut ≤ limit)
    (window : 1 / 10 - slack ≤ sourceOut - sourceIn) :
    (w.playing sourceIn sourceOut).Bounded slack limit where
  toPlaced := playing_placed bounded.begun (bounded.speed_pos small) (by linarith)
  entry := entry
  exit := exit
  window := window

/-- Another start of the window before its end keeps the bounds. -/
theorem Bounded.enteringAt (bounded : w.Bounded slack limit) (small : slack < 1 / 10)
    {sourceIn : ℚ} (entry : 0 ≤ sourceIn) (window : 1 / 10 - slack ≤ w.sourceOut - sourceIn) :
    (w.enteringAt sourceIn).Bounded slack limit where
  toPlaced := enteringAt_placed bounded.toPlaced (bounded.speed_pos small) (by linarith)
  entry := entry
  exit := bounded.exit
  window := window

/-- A command that does not overreach keeps the bounds. A cut needs the tolerance as slack. -/
theorem Bounded.becomes (bounded : w.Bounded slack limit) (nonneg : 0 ≤ slack)
    (small : slack < 1 / 10) (long : fin (1 / 10) ≤ limit) {command : Command Extended}
    (becomes : Becomes limit w command w') (fair : ¬ Overreaches limit w command)
    (cuts : ∀ id position, command = .split id position → tolerance ≤ slack) :
    w'.Bounded slack limit := by
  have window : 1 / 10 - slack ≤ w.sourceOut - w.sourceIn := bounded.window
  have entry := bounded.entry
  cases becomes with
  | kept => exact bounded
  | @entered id request number =>
      rcases w.entry_cases request with fitted | ⟨short, inside, zero⟩ | ⟨short, outside, -⟩
      · exact bounded.enteringAt small fitted.1 (by linarith [fitted.2])
      · rw [zero]
        exact bounded.enteringAt small le_rfl (by linarith)
      · exact (fair ⟨number, short, outside⟩).elim
  | @ended id request number =>
      have within : fin (w.sourceIn + 1 / 10) ≤ limit :=
        (not_lt_fin bounded.exit _).mp fun beyond => fair ⟨number, beyond⟩
      have lower := le_fitted (w.sourceIn + 1 / 10) limit request
      exact bounded.playing small entry (fitted_exit_le within request) (by linarith)
  | @opened id high isHigh =>
      subst isHigh
      rw [fin_le_fin] at long
      rw [max_eq_left long]
      exact bounded.playing small le_rfl ((fin_le_fin _ _).mpr le_rfl) (by linarith)
  | rewound unbounded =>
      -- The window keeps its length, and only its slack is known of that.
      rw [unbounded] at bounded ⊢
      exact bounded.playing small le_rfl (fin_le_posInf _) (by linarith [bounded.window])
  | moved start => exact bounded.movedTo (le_max_right _ _)
  | @resized id request number =>
      have within : fin (w.sourceIn + 1 / 10) ≤ limit :=
        (not_lt_fin bounded.exit _).mp fun beyond => fair ⟨number, beyond⟩
      have lower : 1 / 10 ≤ w.length limit request := le_fitted _ _ _
      exact bounded.playing small entry (add_length_le within request) (by linarith)
  | @firstHalf id cut after before long rest =>
      have slackened := cuts id (fin cut) rfl
      have short : w.sourceAt cut ≤ w.sourceOut := by
        have rest : 1 / 10 - tolerance ≤ w.sourceOut - w.sourceAt cut := rest
        linarith [tolerance_small, tolerance_pos]
      exact ⟨⟨bounded.begun, after⟩, entry, fin_le_of_le short bounded.exit, by linarith⟩
  | @secondHalf id cut after before rest long =>
      have slackened := cuts id (fin cut) rfl
      have late : 0 ≤ w.sourceAt cut := by
        have rest : 1 / 10 - tolerance ≤ w.sourceAt cut - w.sourceIn := rest
        linarith [tolerance_small, tolerance_pos]
      exact ⟨⟨bounded.begun.trans after.le, before⟩, late, bounded.exit, by linarith⟩

/-- Without slack no command overreaches. -/
theorem Bounded.not_overreaches (bounded : w.Bounded 0 limit) (command : Command Extended) :
    ¬ Overreaches limit w command := by
  have window : 1 / 10 - 0 ≤ w.sourceOut - w.sourceIn := bounded.window
  have entry := bounded.entry
  have within : ¬ limit < fin (w.sourceIn + 1 / 10) :=
    (not_lt_fin bounded.exit _).mpr (fin_le_of_le (by linarith) bounded.exit)
  cases command with
  | trimStart id request =>
      rintro ⟨-, short, -⟩
      linarith
  | trimEnd id request => exact fun beyond => within beyond.2
  | resizeRight id request => exact fun beyond => within beyond.2
  | _ => exact id

end Bounded

/-! ## Bounds that every command keeps -/

/-- The bounds of a clip's times after any commands. -/
structure Sound (w : Times) : Prop extends w.Placed where
  entry : -tolerance ≤ w.sourceIn
  exit : 1 / 10 - 2 * tolerance ≤ w.sourceOut
  window : 1 / 10 - 2 * tolerance ≤ w.sourceSpan
  /-- Only a window at the start of the source is too short by more than one tolerance. -/
  late : 0 < w.sourceIn → 1 / 10 - tolerance ≤ w.sourceSpan

theorem Bounded.sound (bounded : w.Bounded 0 limit) : w.Sound := by
  have window : 1 / 10 - 0 ≤ w.sourceOut - w.sourceIn := bounded.window
  have entry := bounded.entry
  have positive := tolerance_pos
  exact
    { toPlaced := bounded.toPlaced
      entry := by linarith
      exit := by linarith
      window := show _ ≤ w.sourceOut - w.sourceIn by linarith
      late := fun _ => show _ ≤ w.sourceOut - w.sourceIn by linarith }

theorem Sound.sourceSpan_pos (sound : w.Sound) : 0 < w.sourceSpan := by
  have window := sound.window
  linarith [tolerance_small, tolerance_pos]

theorem Sound.speed_pos (sound : w.Sound) : 0 < w.speed :=
  sound.toPlaced.speed_pos sound.sourceSpan_pos

theorem Sound.plays (sound : w.Sound) : w.Placed ∧ 0 < w.speed :=
  ⟨sound.toPlaced, sound.speed_pos⟩

theorem Sound.movedTo {start : ℚ} (begun : 0 ≤ start) (sound : w.Sound) :
    (w.movedTo start).Sound :=
  ⟨movedTo_placed sound.toPlaced begun, sound.entry, sound.exit, sound.window, sound.late⟩

/-- A window of the shortest length or more keeps the bounds. -/
theorem Sound.playing (sound : w.Sound) {sourceIn sourceOut : ℚ} (entry : -tolerance ≤ sourceIn)
    (window : 1 / 10 ≤ sourceOut - sourceIn) : (w.playing sourceIn sourceOut).Sound := by
  have positive := tolerance_pos
  exact
    { toPlaced := playing_placed sound.begun sound.speed_pos (by linarith)
      entry := entry
      exit := show _ ≤ sourceOut by linarith
      window := show _ ≤ sourceOut - sourceIn by linarith
      late := fun _ => show _ ≤ sourceOut - sourceIn by linarith }

/-- The source time of a placement from zero on is not after the start of the window. -/
theorem Sound.earliest_le (sound : w.Sound) : w.earliest ≤ w.sourceIn := by
  have reached : w.start * w.speed + w.span * w.speed = w.stop * w.speed := by
    unfold span
    ring
  have whole : w.span * w.speed = w.sourceSpan := mul_div_cancel₀ _ sound.span_pos.ne'
  have begun : 0 ≤ w.start * w.speed := mul_nonneg sound.begun sound.speed_pos.le
  unfold sourceSpan at whole
  unfold earliest
  linarith

theorem Sound.enteringAt (sound : w.Sound) {sourceIn : ℚ} (entry : -tolerance ≤ sourceIn)
    (window : 1 / 10 - 2 * tolerance ≤ w.sourceOut - sourceIn)
    (late : 0 < sourceIn → 1 / 10 - tolerance ≤ w.sourceOut - sourceIn) :
    (w.enteringAt sourceIn).Sound where
  toPlaced :=
    enteringAt_placed sound.toPlaced sound.speed_pos (by linarith [tolerance_small, tolerance_pos])
  entry := entry
  exit := sound.exit
  window := window
  late := late

/-- Every command keeps the bounds. -/
theorem Sound.becomes (sound : w.Sound) {command : Command Extended}
    (becomes : Becomes limit w command w') : w'.Sound := by
  have positive := tolerance_pos
  have entry := sound.entry
  cases becomes with
  | kept => exact sound
  | @entered id request number =>
      rcases w.entry_cases request with fitted | ⟨short, inside, zero⟩ | ⟨short, outside, shortest⟩
      · exact sound.enteringAt (by linarith [fitted.1]) (by linarith [fitted.2])
          fun _ => by linarith [fitted.2]
      · rw [zero]
        exact sound.enteringAt (by linarith) (by linarith [sound.exit]) fun h => (lt_irrefl _ h).elim
      · -- The window starts after the source here, so that it is short by one tolerance at most.
        have late : 1 / 10 - tolerance ≤ w.sourceOut - w.sourceIn :=
          sound.late (outside.trans_le sound.earliest_le)
        have inside := outside.trans_le sound.earliest_le
        rw [shortest]
        exact sound.enteringAt (by linarith) (by linarith) fun _ => by linarith
  | @ended id request number =>
      have lower := le_fitted (w.sourceIn + 1 / 10) limit request
      exact sound.playing entry (by linarith)
  | @opened id high isHigh =>
      exact sound.playing (by linarith) (by linarith [le_max_right high (1 / 10)])
  | rewound unbounded =>
      have window : 1 / 10 - 2 * tolerance ≤ w.sourceSpan := sound.window
      exact
        { toPlaced := playing_placed sound.begun sound.speed_pos sound.sourceSpan_pos
          entry := show -tolerance ≤ 0 by linarith
          exit := window
          window := show _ ≤ w.sourceSpan - 0 by linarith
          late := fun h => (lt_irrefl _ h).elim }
  | moved start => exact sound.movedTo (le_max_right _ _)
  | @resized id request number =>
      have lower : 1 / 10 ≤ w.length limit request := le_fitted _ _ _
      exact sound.playing entry (by linarith)
  | @firstHalf id cut after before long rest =>
      have length : 1 / 10 - tolerance ≤ w.sourceAt cut - w.sourceIn := long
      exact
        { begun := sound.begun
          running := after
          entry := entry
          exit := show _ ≤ w.sourceAt cut by linarith
          window := show _ ≤ w.sourceAt cut - w.sourceIn by linarith
          late := fun _ => length }
  | @secondHalf id cut after before rest long =>
      have length : 1 / 10 - tolerance ≤ w.sourceOut - w.sourceAt cut := long
      have later : 1 / 10 - tolerance ≤ w.sourceAt cut - w.sourceIn := rest
      exact
        { begun := sound.begun.trans after.le
          running := before
          entry := show -tolerance ≤ w.sourceAt cut by linarith [tolerance_small]
          exit := sound.exit
          window := show _ ≤ w.sourceOut - w.sourceAt cut by linarith
          late := fun _ => length }

end Montage.Times

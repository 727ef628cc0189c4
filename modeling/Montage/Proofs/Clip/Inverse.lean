import Montage.Proofs.Clip.Position

/-!
Contract: source times and timeline positions are two readings of one scale.

Owns:
- partial maps that are defined on a range, and strictly growing there (`GrowsOn`);
- that the two maps of a clip are such maps between its window and its placement, and that each undoes
  the other.

Does **not** own: the maps to and from pixels.

Both maps move their result into the range of the other one. In exact arithmetic the result lies there
already, so the maps are lines, each with the slope that the other one divides by.
-/

set_option autoImplicit false

namespace Montage

open Extended

/-- A partial map that is defined exactly from one end to the other, and grows strictly in between. -/
structure GrowsOn (low high : Extended) (f : Extended → Option Extended) : Prop where
  domain : ∀ x, (f x).isSome = true ↔ low ≤ x ∧ x ≤ high
  grows : ∀ x y u v, f x = some u → f y = some v → x < y → u < v

/-- A partial map that follows a strictly growing line in a range and is undefined elsewhere. -/
theorem growsOn_of_strictMono {low high : ℚ} {f : Extended → Option Extended} {line : ℚ → ℚ}
    (inside : ∀ q, low ≤ q → q ≤ high → f (fin q) = some (fin (line q)))
    (outside : ∀ x, ¬ (fin low ≤ x ∧ x ≤ fin high) → f x = none) (grows : StrictMono line) :
    GrowsOn (fin low) (fin high) f := by
  have domain (x : Extended) : (f x).isSome = true ↔ fin low ≤ x ∧ x ≤ fin high := by
    constructor
    · intro isDefined
      by_contra beyond
      rw [outside x beyond] at isDefined
      cases isDefined
    · intro within
      obtain ⟨q, rfl, above, below⟩ := exists_fin_between within.1 within.2
      rw [inside q above below]
      rfl
  refine ⟨domain, ?_⟩
  intro x y u v isFirst isSecond less
  obtain ⟨after, before⟩ := (domain x).mp (Option.isSome_of_mem isFirst)
  obtain ⟨p, rfl, above, below⟩ := exists_fin_between after before
  obtain ⟨after, before⟩ := (domain y).mp (Option.isSome_of_mem isSecond)
  obtain ⟨q, rfl, later, earlier⟩ := exists_fin_between after before
  rw [inside p above below] at isFirst
  rw [inside q later earlier] at isSecond
  cases isFirst
  cases isSecond
  rw [fin_lt_fin] at less ⊢
  exact grows less

namespace Times

variable {w : Times}

theorem speed_pos (window : w.sourceIn < w.sourceOut) (running : w.start < w.stop) : 0 < w.speed :=
  div_pos (sub_pos.mpr window) (sub_pos.mpr running)

theorem positionAt_strictMono (plays : 0 < w.speed) : StrictMono w.positionAt := by
  intro first second later
  rw [positionAt_eq, positionAt_eq]
  gcongr

theorem sourceAt_strictMono (plays : 0 < w.speed) : StrictMono w.sourceAt := by
  intro first second later
  rw [sourceAt_eq, sourceAt_eq]
  gcongr

theorem sourceAt_positionAt (plays : 0 < w.speed) (source : ℚ) :
    w.sourceAt (w.positionAt source) = source := by
  rw [sourceAt_eq, positionAt_eq, add_sub_cancel_left, div_mul_cancel₀ _ plays.ne', add_sub_cancel]

theorem positionAt_sourceAt (plays : 0 < w.speed) (position : ℚ) :
    w.positionAt (w.sourceAt position) = position := by
  rw [sourceAt_eq, positionAt_eq, add_sub_cancel_left, mul_div_cancel_right₀ _ plays.ne',
    add_sub_cancel]

end Times

namespace Clip

variable {c : Clip Extended} {w : Times}

/-- The two maps of a clip are each defined on its own range, grow strictly and undo each other. -/
structure InverseMaps (c : Clip Extended) : Prop where
  positions : GrowsOn c.sourceIn c.sourceOut c.positionOf?
  sources : GrowsOn c.timelineStart c.timelineEnd c.sourceAt?
  sourceBack : ∀ source, c.sourceIn ≤ source → source ≤ c.sourceOut →
    (c.positionOf? source).bind c.sourceAt? = some source
  positionBack : ∀ position, c.timelineStart ≤ position → position ≤ c.timelineEnd →
    (c.sourceAt? position).bind c.positionOf? = some position

theorem positionOf?_outside {source : Extended}
    (outside : ¬ (c.sourceIn ≤ source ∧ source ≤ c.sourceOut)) : c.positionOf? source = none :=
  if_neg fun inside => outside ⟨inside.1, inside.2.1⟩

theorem sourceAt?_outside {position : Extended}
    (outside : ¬ (c.timelineStart ≤ position ∧ position ≤ c.timelineEnd)) :
    c.sourceAt? position = none :=
  if_neg fun inside => outside ⟨inside.1, inside.2.1⟩

theorem HasTimes.positions_growsOn (times : c.HasTimes w) (window : w.sourceIn < w.sourceOut)
    (running : w.start < w.stop) : GrowsOn c.sourceIn c.sourceOut c.positionOf? := by
  have outside (source : Extended) (beyond : ¬ (fin w.sourceIn ≤ source ∧ source ≤ fin w.sourceOut)) :
      c.positionOf? source = none := by
    rw [← times.sourceIn, ← times.sourceOut] at beyond
    exact positionOf?_outside beyond
  rw [times.sourceIn, times.sourceOut]
  exact growsOn_of_strictMono (fun q above below => times.positionOf?_fin window running above below)
    outside (Times.positionAt_strictMono (Times.speed_pos window running))

theorem HasTimes.sources_growsOn (times : c.HasTimes w) (window : w.sourceIn < w.sourceOut)
    (running : w.start < w.stop) : GrowsOn c.timelineStart c.timelineEnd c.sourceAt? := by
  have outside (position : Extended)
      (beyond : ¬ (fin w.start ≤ position ∧ position ≤ fin w.stop)) :
      c.sourceAt? position = none := by
    rw [← times.start, ← times.stop] at beyond
    exact sourceAt?_outside beyond
  rw [times.start, times.stop]
  exact growsOn_of_strictMono
    (fun q above below => times.sourceAt?_fin window.le running above below)
    outside (Times.sourceAt_strictMono (Times.speed_pos window running))

/-- A clip with a window and a placement that are not empty has a timeline position for each source time of
the window and a source time for each position of the placement, and they are the same pairs. -/
theorem inverseMaps (finite : ∀ x ∈ c.times, Scalar.isFinite x = true)
    (window : c.sourceIn < c.sourceOut) (running : c.timelineStart < c.timelineEnd) :
    c.InverseMaps := by
  obtain ⟨w, times⟩ := exists_hasTimes finite
  rw [times.sourceIn, times.sourceOut, fin_lt_fin] at window
  rw [times.start, times.stop, fin_lt_fin] at running
  have plays := Times.speed_pos window running
  refine ⟨times.positions_growsOn window running, times.sources_growsOn window running, ?_, ?_⟩
  · intro source after before
    rw [times.sourceIn] at after
    rw [times.sourceOut] at before
    obtain ⟨q, rfl, above, below⟩ := exists_fin_between after before
    -- The position lies in the placement, so the way back does not have to move it.
    obtain ⟨lower, upper⟩ := Times.positionAt_mem window running above below
    rw [times.positionOf?_fin window running above below, Option.bind_some,
      times.sourceAt?_fin window.le running lower upper, Times.sourceAt_positionAt plays]
  · intro position after before
    obtain ⟨q, rfl, above, below⟩ := times.exists_position after before
    obtain ⟨lower, upper⟩ := Times.sourceAt_mem window.le running above below
    rw [times.sourceAt?_fin window.le running above below, Option.bind_some,
      times.positionOf?_fin window running lower upper, Times.positionAt_sourceAt plays]

/-- Four seconds of a source that play in two seconds, from the tenth on. -/
def fastForward : Clip Extended :=
  { ofAsset ⟨3⟩ "reel" .video "reel.mp4" (some (fin 60)) (fin 10) with
    sourceIn := fin 2, sourceOut := fin 6, timelineEnd := fin 12 }

theorem fastForward_inverseMaps :
    ((∀ x ∈ fastForward.times, Scalar.isFinite x = true) ∧
        fastForward.sourceIn < fastForward.sourceOut ∧
        fastForward.timelineStart < fastForward.timelineEnd) ∧
      fastForward.InverseMaps := by
  have finite : ∀ x ∈ fastForward.times, Scalar.isFinite x = true := by decide +kernel
  have window : fastForward.sourceIn < fastForward.sourceOut := by decide +kernel
  have running : fastForward.timelineStart < fastForward.timelineEnd := by decide +kernel
  exact ⟨⟨finite, window, running⟩, inverseMaps finite window running⟩

end Clip

end Montage

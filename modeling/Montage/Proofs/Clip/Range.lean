import Montage.Mapping
import Montage.Proofs.Number.Binary64

/-!
Contract: the maps of a clip never leave its window and its placement, whatever its numbers are.

Owns:
- that a value moved between two bounds lies between them, also where it was infinite or no number;
- where the two maps of a clip are defined, and that what they give lies in their ranges.

Does **not** own: which value a map gives (`Montage.Proofs.Clip.Inverse`).

The quotients and products on the way may overflow or be no numbers at all. Nothing here looks at them: a
value that is no number gives way to the lower bound, and every other one is moved between the bounds.
-/

set_option autoImplicit false

namespace Montage

variable {α : Type} [Scalar α]

/-- A number from one bound to another. -/
structure IsWithin (low high x : α) : Prop where
  atLeast : low ≤ x
  atMost : x ≤ high
  isNumber : Scalar.isNaN x = false

namespace Scalar

variable {x y z : α}

theorem le_min (first : z ≤ x) (second : z ≤ y) : z ≤ min x y := by
  unfold min
  split
  · exact second
  · split
    · exact second
    · exact first

variable [Faithful α]

theorem le_max_right (number : isNaN y = false) (x : α) : y ≤ max x y := by
  cases missing : isNaN x with
  | true =>
      rw [max, missing, if_pos rfl]
      exact le_refl_of_isNaN number
  | false => exact (max_isGreatest missing y).2 ⟨number, Or.inr rfl⟩

theorem min_le_right (number : isNaN y = false) (x : α) : min x y ≤ y := by
  unfold min
  cases missing : isNaN x with
  | true =>
      rw [if_pos rfl]
      exact le_refl_of_isNaN number
  | false =>
      rw [if_neg Bool.false_ne_true]
      by_cases above : y < x
      · rw [if_pos above]
        exact le_refl_of_isNaN number
      · rw [if_neg above]
        exact le_of_not_lt number missing above

/-- Whatever the value, it is moved between the bounds. -/
theorem between_isWithin {low high : α} (ordered : low < high) (value : α) :
    IsWithin low high (between low high value) := by
  have weakly := le_of_lt_of_faithful ordered
  obtain ⟨lowNumber, highNumber⟩ := isNaN_of_le weakly
  have atMost : between low high value ≤ high := min_le_right highNumber _
  exact ⟨le_min (le_max_right lowNumber value) weakly, atMost, (isNaN_of_le atMost).1⟩

/-- A range that holds a value is empty exactly if its bounds are not in order. -/
theorem within_iff {low high x : α} :
    (low ≤ x ∧ x ≤ high ∧ ¬ high ≤ low) ↔ (low ≤ x ∧ x ≤ high) ∧ low < high := by
  rw [← and_assoc]
  apply and_congr_right
  intro within
  exact not_le_iff_lt (isNaN_of_le within.1).1 (isNaN_of_le within.2).2

end Scalar

namespace Clip

variable {c : Clip α} {zoom : Zoom α}

/-- Each of the two maps is defined exactly on its own range, as far as that is not empty. What is given of a
window or a placement that is not empty lies in it, for pixels too. -/
structure StaysInRange (c : Clip α) (zoom : Zoom α) : Prop where
  sources : ∀ position, (c.sourceAt? position).isSome = true ↔
    (c.timelineStart ≤ position ∧ position ≤ c.timelineEnd) ∧ c.timelineStart < c.timelineEnd
  positions : ∀ source, (c.positionOf? source).isSome = true ↔
    (c.sourceIn ≤ source ∧ source ≤ c.sourceOut) ∧ c.sourceIn < c.sourceOut
  sourceWithin : c.sourceIn < c.sourceOut → ∀ position source,
    c.sourceAt? position = some source → IsWithin c.sourceIn c.sourceOut source
  positionWithin : c.timelineStart < c.timelineEnd → ∀ source position,
    c.positionOf? source = some position → IsWithin c.timelineStart c.timelineEnd position
  pixelWithin : c.sourceIn < c.sourceOut → ∀ pixels source,
    c.sourceAtPixel? zoom pixels = some source → IsWithin c.sourceIn c.sourceOut source

theorem exists_between_of_sourceAt? {position source : α} (given : c.sourceAt? position = some source) :
    ∃ value, source = between c.sourceIn c.sourceOut value := by
  unfold sourceAt? at given
  split at given
  · exact ⟨_, (Option.some.inj given).symm⟩
  · cases given

theorem exists_between_of_positionOf? {source position : α}
    (given : c.positionOf? source = some position) :
    ∃ value, position = between c.timelineStart c.timelineEnd value := by
  unfold positionOf? at given
  split at given
  · exact ⟨_, (Option.some.inj given).symm⟩
  · cases given

theorem exists_sourceAt?_of_sourceAtPixel? {pixels source : α}
    (given : c.sourceAtPixel? zoom pixels = some source) :
    ∃ position, c.sourceAt? position = some source := by
  simp only [sourceAtPixel?] at given
  split at given
  · exact ⟨_, given⟩
  · cases given

variable [Scalar.Faithful α]

theorem isSome_sourceAt?_iff (c : Clip α) (position : α) :
    (c.sourceAt? position).isSome = true ↔
      (c.timelineStart ≤ position ∧ position ≤ c.timelineEnd) ∧ c.timelineStart < c.timelineEnd := by
  rw [← Scalar.within_iff, sourceAt?]
  split <;> simp_all

theorem isSome_positionOf?_iff (c : Clip α) (source : α) :
    (c.positionOf? source).isSome = true ↔
      (c.sourceIn ≤ source ∧ source ≤ c.sourceOut) ∧ c.sourceIn < c.sourceOut := by
  rw [← Scalar.within_iff, positionOf?]
  split <;> simp_all

theorem sourceAt?_isWithin (window : c.sourceIn < c.sourceOut) {position source : α}
    (given : c.sourceAt? position = some source) : IsWithin c.sourceIn c.sourceOut source := by
  obtain ⟨value, rfl⟩ := exists_between_of_sourceAt? given
  exact Scalar.between_isWithin window value

theorem positionOf?_isWithin (running : c.timelineStart < c.timelineEnd) {source position : α}
    (given : c.positionOf? source = some position) :
    IsWithin c.timelineStart c.timelineEnd position := by
  obtain ⟨value, rfl⟩ := exists_between_of_positionOf? given
  exact Scalar.between_isWithin running value

/-- The maps of every clip stay in range on machine numbers, whatever its fields, the zoom and the input. -/
theorem maps_stayInRange (c : Clip Float) (zoom : Zoom Float) : c.StaysInRange zoom := by
  constructor
  case sources => exact c.isSome_sourceAt?_iff
  case positions => exact c.isSome_positionOf?_iff
  case sourceWithin => exact fun window _ _ given => sourceAt?_isWithin window given
  case positionWithin => exact fun running _ _ given => positionOf?_isWithin running given
  case pixelWithin =>
    intro window pixels source given
    obtain ⟨position, isSource⟩ := exists_sourceAt?_of_sourceAtPixel? given
    exact sourceAt?_isWithin window isSource

/-- A window whose length overflows on a placement without ends: no step of the map gives a finite number. -/
def boundless : Clip Float :=
  { ofAsset ⟨4⟩ "reel" .video "reel.mp4" none 0 with
    sourceIn := 0 - 1e308, sourceOut := 1e308, timelineStart := 0 - 1 / 0, timelineEnd := 1 / 0 }

theorem boundless_staysInRange :
    (boundless.timelineStart ≤ 0 ∧ 0 ≤ boundless.timelineEnd ∧
        boundless.timelineStart < boundless.timelineEnd ∧ boundless.sourceIn < boundless.sourceOut) ∧
      ∃ source, boundless.sourceAt? 0 = some source ∧
        IsWithin boundless.sourceIn boundless.sourceOut source := by
  have after : boundless.timelineStart ≤ 0 := by decide +kernel
  have before : 0 ≤ boundless.timelineEnd := by decide +kernel
  have running : boundless.timelineStart < boundless.timelineEnd := by decide +kernel
  have window : boundless.sourceIn < boundless.sourceOut := by decide +kernel
  have stays := maps_stayInRange boundless .usual
  obtain ⟨source, given⟩ :=
    Option.isSome_iff_exists.mp ((stays.sources 0).mpr ⟨⟨after, before⟩, running⟩)
  exact ⟨⟨after, before, running, window⟩, source, given, stays.sourceWithin window 0 source given⟩

end Clip

end Montage

import Montage.Proofs.Clip.Bounds

/-!
Contract: what each command makes of a clip.

Owns:
- the times and the other numbers of the parts that a command puts in the place of a clip;
- the passage from a clip to its parts, for every property of times that single commands keep;
- that a command which overreaches leaves its clip out of bounds.

Does **not** own: whole timelines (`Montage.Proofs.Edit.Bounds`).
-/

set_option autoImplicit false

namespace Montage.Clip

open Extended

/-! ## Numbers that a patch changes -/

/-- A property of the present value, and of every fitted finite one, holds of the changed value. -/
theorem changed_of {P : Extended → Prop} {request : Option Extended} {present : Extended}
    {fit : Extended → Extended} (holds : P present) (fitted : ∀ q : ℚ, P (fit (fin q))) :
    P (changed request present fit) := by
  unfold changed
  cases request with
  | none => exact holds
  | some value =>
      cases finite : Scalar.isFinite value with
      | false => simpa only [finite, Bool.false_eq_true, if_false] using holds
      | true =>
          obtain ⟨q, rfl⟩ := (isFinite_iff value).mp finite
          exact fitted q

theorem atLeastOne_fin (q : ℚ) : atLeastOne (fin q) = fin (max q 1) := by
  rw [atLeastOne, one_eq, max_fin]

theorem percentage_fin (largest q : ℚ) :
    percentage (fin largest) (fin q) = fin (min (max q 0) largest) := by
  rw [percentage, zero_eq, clamp_fin]

/-- What a division of finite numbers leaves over is finite. -/
theorem isFinite_remainder (p : ℚ) {q : ℚ} (nonzero : q ≠ 0) :
    Scalar.isFinite (Scalar.remainder (fin p) (fin q)) = true := by
  simp only [Scalar.remainder, exact_eq, if_neg nonzero]
  split
  · unfold Scalar.zeroLike
    split
    · rw [zero_eq, one_eq]
      rfl
    · rw [zero_eq]
      rfl
  · rfl

theorem changed_isFinite (request : Option Extended) {present : Extended}
    (finite : Scalar.isFinite present = true) :
    Scalar.isFinite (changed request present fun x => x) = true :=
  changed_of (P := fun x => Scalar.isFinite x = true) finite fun _ => rfl

theorem changed_rotation (request : Option Extended) {present : Extended}
    (finite : Scalar.isFinite present = true) :
    Scalar.isFinite (changed request present fun angle => Scalar.remainder angle 360) = true := by
  refine changed_of (P := fun x => Scalar.isFinite x = true) finite fun q => ?_
  rw [fullTurn_eq]
  exact isFinite_remainder q (by norm_num)

theorem changed_atLeastOne (request : Option Extended) {present : Extended}
    (holds : Scalar.isFinite present = true ∧ 1 ≤ present) :
    Scalar.isFinite (changed request present atLeastOne) = true ∧
      1 ≤ changed request present atLeastOne := by
  refine changed_of (P := fun x => Scalar.isFinite x = true ∧ 1 ≤ x) holds fun q => ?_
  rw [atLeastOne_fin, one_eq, fin_le_fin]
  exact ⟨rfl, le_max_right q 1⟩

theorem changed_percentage (request : Option Extended) {present : Extended} {largest : ℚ}
    (nonneg : 0 ≤ largest)
    (holds : Scalar.isFinite present = true ∧ 0 ≤ present ∧ present ≤ fin largest) :
    Scalar.isFinite (changed request present (percentage (fin largest))) = true ∧
      0 ≤ changed request present (percentage (fin largest)) ∧
      changed request present (percentage (fin largest)) ≤ fin largest := by
  refine changed_of (P := fun x => Scalar.isFinite x = true ∧ 0 ≤ x ∧ x ≤ fin largest) holds
    fun q => ?_
  rw [percentage_fin, zero_eq, fin_le_fin, fin_le_fin]
  exact ⟨rfl, le_min (le_max_right q 0) nonneg, min_le_right _ _⟩

/-- A patch keeps the numbers that it changes finite and within their bounds. -/
theorem Presentable.patch {c : Clip Extended} (presentable : c.Presentable)
    (patch : ClipPatch Extended) : (patch.apply c).Presentable := by
  have finite := presentable.finite
  simp only [List.mem_cons, List.not_mem_nil, or_false, forall_eq_or_imp, forall_eq] at finite
  obtain ⟨duration, x, y, width, height, rotation, opacity, volume⟩ := finite
  have dim := presentable.opacity
  have loud := presentable.volume
  rw [hundred_eq] at dim
  rw [maximumVolume_eq] at loud
  have newWidth := changed_atLeastOne patch.width ⟨width, presentable.size.1⟩
  have newHeight := changed_atLeastOne patch.height ⟨height, presentable.size.2⟩
  have newOpacity := changed_percentage patch.opacity (by norm_num) ⟨opacity, dim⟩
  have newVolume := changed_percentage patch.volume (by norm_num) ⟨volume, loud⟩
  rw [← hundred_eq] at newOpacity
  rw [← maximumVolume_eq] at newVolume
  constructor
  · simp only [List.mem_cons, List.not_mem_nil, or_false, forall_eq_or_imp, forall_eq]
    exact ⟨duration, changed_isFinite patch.x x, changed_isFinite patch.y y, newWidth.1, newHeight.1,
      changed_rotation patch.rotation rotation, newOpacity.1, newVolume.1⟩
  · intro r member
    cases requested : patch.crop with
    | none =>
        simp only [ClipPatch.apply, requested] at member
        exact presentable.crop r member
    | some crop =>
        simp only [ClipPatch.apply, requested] at member
        have settable := (Option.filter_eq_some_iff.mp member).2
        exact ((Bool.and_eq_true _ _).mp settable).1
  · exact newOpacity.2
  · exact newVolume.2
  · exact ⟨newWidth.2, newHeight.2⟩

/-! ## Parts of a clip -/

section Parts

variable {c d : Clip Extended} {w w' : Times} {command : Command Extended}

/-- A clip that is another one with other times and perhaps another identity. -/
def IsRetimed (c : Clip Extended) (w : Times) (d : Clip Extended) : Prop :=
  d = { c.withTimes w with id := d.id }

theorem withTimes_isRetimed (c : Clip Extended) (w : Times) : c.IsRetimed w (c.withTimes w) := rfl

theorem HasTimes.withTimes_eq (times : c.HasTimes w) : c.withTimes w = c := by
  unfold withTimes
  rw [← times.sourceIn, ← times.sourceOut, ← times.start, ← times.stop]

theorem HasTimes.isRetimed (times : c.HasTimes w) : c.IsRetimed w c := by
  unfold IsRetimed
  rw [times.withTimes_eq]

theorem IsRetimed.hasTimes (retimed : c.IsRetimed w d) : d.HasTimes w := by
  rw [retimed]
  exact ⟨rfl, rfl, rfl, rfl⟩

theorem IsRetimed.presentable (retimed : c.IsRetimed w d) (presentable : c.Presentable) :
    d.Presentable := by
  rw [retimed]
  exact ⟨presentable.finite, presentable.crop, presentable.opacity, presentable.volume,
    presentable.size⟩

theorem IsRetimed.sourceLimit (retimed : c.IsRetimed w d) : d.sourceLimit = c.sourceLimit := by
  rw [retimed]
  rfl

theorem eq_of_some_singleton {x : Clip Extended} {parts : List (Clip Extended)}
    (made : some [x] = some parts) (member : d ∈ parts) : d = x := by
  cases made
  exact List.mem_singleton.mp member

/-- Every part that a command makes of a clip has times that the command makes of the clip's, and is the
clip otherwise, unless the command patches it. -/
theorem clipParts?_becomes
    (times : c.HasTimes w)
    (placed : w.Placed)
    (plays : 0 < w.speed)
    (long : fin (1 / 10) ≤ c.sourceLimit)
    {supply : IdSupply}
    {parts : List (Clip Extended)}
    (made : command.clipParts? supply c = some parts)
    (member : d ∈ parts) :
    ∃ w', Times.Becomes c.sourceLimit w command w' ∧
      (c.IsRetimed w' d ∨ ∃ id patch, command = .updateClip id patch ∧ w' = w ∧ d = patch.apply c) := by
  have running := placed.span_pos
  -- A request that is refused leaves the clip as it is; any other is fitted first.
  cases command with
  | addClip clip => cases made
  | addText overlay => cases made
  | updateText id patch => cases made
  | delete id =>
      cases made
      cases member
  | duplicate id =>
      cases made
      refine ⟨w, .kept, Or.inl ?_⟩
      have same := times.withTimes_eq
      rcases List.mem_pair.mp member with rfl | rfl <;> simp only [IsRetimed, same]
  | updateClip id patch =>
      have patched := eq_of_some_singleton made member
      exact ⟨w, .kept, Or.inr ⟨id, patch, rfl, rfl, patched⟩⟩
  | split id position =>
      obtain ⟨⟨a, b⟩, halves, rfl⟩ := Option.map_eq_some_iff.mp made
      obtain ⟨cut, rfl, after, before, first, second, rfl, rfl⟩ :=
        halves?_eq_some times running halves
      rcases List.mem_pair.mp member with rfl | rfl
      · exact ⟨_, .firstHalf after before first second, Or.inl rfl⟩
      · exact ⟨_, .secondHalf after before first second, Or.inl rfl⟩
  | trimStart id request =>
      obtain rfl := eq_of_some_singleton made member
      cases number : Scalar.isNaN request with
      | true =>
          rw [trimStart_of_isNaN number]
          exact ⟨w, .kept, Or.inl times.isRetimed⟩
      | false =>
          rw [trimStart_eq times running plays number]
          exact ⟨_, .entered number, Or.inl (withTimes_isRetimed c _)⟩
  | trimEnd id request =>
      obtain rfl := eq_of_some_singleton made member
      cases accepted : c.acceptsEnd request with
      | false =>
          rw [trimEnd_of_not_acceptsEnd accepted]
          exact ⟨w, .kept, Or.inl times.isRetimed⟩
      | true =>
          rw [trimEnd_eq times running plays long accepted]
          exact ⟨_, .ended ((acceptsEnd_iff request).mp accepted).1, Or.inl (withTimes_isRetimed c _)⟩
  | clearTrim id =>
      obtain rfl := eq_of_some_singleton made member
      rcases clearTrim_eq times running plays long with ⟨limit, bounded, cleared⟩ | ⟨unbounded, cleared⟩
      · rw [cleared]
        exact ⟨_, .opened bounded, Or.inl (withTimes_isRetimed c _)⟩
      · rw [cleared]
        exact ⟨_, .rewound unbounded, Or.inl (withTimes_isRetimed c _)⟩
  | reposition id start =>
      obtain rfl := eq_of_some_singleton made member
      cases finite : Scalar.isFinite start with
      | false =>
          rw [reposition_of_not_isFinite finite]
          exact ⟨w, .kept, Or.inl times.isRetimed⟩
      | true =>
          obtain ⟨q, rfl⟩ := (isFinite_iff start).mp finite
          rw [reposition_eq times q]
          exact ⟨_, .moved q, Or.inl (withTimes_isRetimed c _)⟩
  | resizeRight id request =>
      obtain rfl := eq_of_some_singleton made member
      cases accepted : c.acceptsEnd request with
      | false =>
          rw [resizeRight_of_not_acceptsEnd accepted]
          exact ⟨w, .kept, Or.inl times.isRetimed⟩
      | true =>
          rw [resizeRight_eq times running plays long accepted]
          exact ⟨_, .resized ((acceptsEnd_iff request).mp accepted).1, Or.inl (withTimes_isRetimed c _)⟩

/-- A property of times that a command keeps passes from a clip to its parts. -/
theorem Timed.clipParts
    {P : Extended → Times → Prop}
    (timed : c.Timed P)
    (plays : ∀ limit w, P limit w → w.Placed ∧ 0 < w.speed)
    (keeps :
      ∀ w w', c.HasTimes w → fin (1 / 10) ≤ c.sourceLimit → P c.sourceLimit w →
        Times.Becomes c.sourceLimit w command w' → P c.sourceLimit w')
    {supply : IdSupply}
    {parts : List (Clip Extended)}
    (made : command.clipParts? supply c = some parts) :
    ∀ d ∈ parts, d.Timed P := by
  intro d member
  obtain ⟨w, times, long, holds⟩ := timed
  obtain ⟨placed, speed⟩ := plays _ _ holds
  obtain ⟨w', becomes, retimed | ⟨id, patch, -, rfl, rfl⟩⟩ :=
    clipParts?_becomes times placed speed long made member
  · have kept := keeps w w' times long holds becomes
    refine ⟨w', retimed.hasTimes, ?_, ?_⟩
    · rwa [retimed.sourceLimit]
    · rwa [retimed.sourceLimit]
  · exact ⟨w', ⟨times.sourceIn, times.sourceOut, times.start, times.stop⟩, long, holds⟩

/-- Every part of a clip has finite numbers within their bounds, apart from its times. -/
theorem Presentable.clipParts
    (presentable : c.Presentable)
    (times : c.HasTimes w)
    (placed : w.Placed)
    (plays : 0 < w.speed)
    (long : fin (1 / 10) ≤ c.sourceLimit)
    {supply : IdSupply}
    {parts : List (Clip Extended)}
    (made : command.clipParts? supply c = some parts) :
    ∀ d ∈ parts, d.Presentable := by
  intro d member
  obtain ⟨w', -, retimed | ⟨id, patch, -, -, rfl⟩⟩ :=
    clipParts?_becomes times placed plays long made member
  · exact retimed.presentable presentable
  · exact presentable.patch patch

/-- A clip is appended as it is, from a start that is not before zero. -/
theorem appendedClip_isRetimed
    (times : c.HasTimes w)
    {t : Timeline Extended}
    (ends : ∀ d ∈ t.clips, Scalar.isFinite d.timelineEnd = true) :
    ∃ start, 0 ≤ start ∧ c.IsRetimed (w.movedTo start) (t.appendedClip c) := by
  have finite : ∀ x ∈ (t.clips.filter fun d => d.kind == c.kind).map (·.timelineEnd),
      Scalar.isFinite x = true := by
    intro x member
    obtain ⟨d, kept, rfl⟩ := List.mem_map.mp member
    exact ends d (List.mem_filter.mp kept).1
  obtain ⟨start, latest, begun⟩ := latestEnd_eq finite
  refine ⟨start, begun, ?_⟩
  unfold IsRetimed Timeline.appendedClip
  simp only [latest, times.timelineSpan, fin_add_fin, withTimes, Times.movedTo, ← times.sourceIn,
    ← times.sourceOut]

theorem Timed.appended
    {P : Extended → Times → Prop}
    (timed : c.Timed P)
    (moves : ∀ limit w start, 0 ≤ start → P limit w → P limit (w.movedTo start))
    {t : Timeline Extended}
    (ends : ∀ d ∈ t.clips, Scalar.isFinite d.timelineEnd = true) :
    (t.appendedClip c).Timed P := by
  obtain ⟨w, times, long, holds⟩ := timed
  obtain ⟨start, begun, retimed⟩ := appendedClip_isRetimed times ends
  refine ⟨w.movedTo start, retimed.hasTimes, ?_, ?_⟩
  · rwa [retimed.sourceLimit]
  · rw [retimed.sourceLimit]
    exact moves _ _ _ begun holds

/-- A command that overreaches leaves its clip out of bounds. -/
theorem exists_not_inBounds
    (times : c.HasTimes w)
    (placed : w.Placed)
    (plays : 0 < w.speed)
    (long : fin (1 / 10) ≤ c.sourceLimit)
    (overreaches : Times.Overreaches c.sourceLimit w command)
    {supply : IdSupply}
    {parts : List (Clip Extended)}
    (made : command.clipParts? supply c = some parts)
    (slack : Extended) :
    ∃ d ∈ parts, ¬ d.InBounds slack := by
  have accepts (request : Extended) (number : Scalar.isNaN request = false)
      (beyond : c.sourceLimit < fin (w.sourceIn + 1 / 10)) : c.acceptsEnd request = true := by
    refine (acceptsEnd_iff request).mpr ⟨number, Or.inr ?_⟩
    rcases (fin_le_iff _ c.sourceLimit).mp long with unbounded | ⟨limit, bounded, -⟩
    · rw [unbounded] at beyond
      exact (Bool.false_ne_true beyond).elim
    · rw [bounded, isFinite_fin]
  have ends {sourceOut : ℚ} (beyond : c.sourceLimit < fin (w.sourceIn + 1 / 10))
      (late : w.sourceIn + 1 / 10 ≤ sourceOut) :
      ¬ (c.withTimes (w.playing w.sourceIn sourceOut)).InBounds slack := by
    intro inBounds
    exact (not_lt_fin long _).mpr (fin_le_of_le late inBounds.exit) beyond
  cases command with
  | trimStart id request =>
      obtain ⟨number, short, outside⟩ := overreaches
      cases made
      refine ⟨_, List.mem_singleton_self _, ?_⟩
      rw [trimStart_eq times placed.span_pos plays number]
      intro inBounds
      have entry : (0 : Extended) ≤ fin (w.entry request) := inBounds.entry
      rw [zero_eq, fin_le_fin] at entry
      rcases w.entry_cases request with fitted | ⟨-, inside, -⟩ | ⟨-, -, shortest⟩ <;> linarith
  | trimEnd id request =>
      obtain ⟨number, beyond⟩ := overreaches
      cases made
      refine ⟨_, List.mem_singleton_self _, ?_⟩
      rw [trimEnd_eq times placed.span_pos plays long (accepts request number beyond)]
      exact ends beyond (le_fitted _ _ _)
  | resizeRight id request =>
      obtain ⟨number, beyond⟩ := overreaches
      cases made
      refine ⟨_, List.mem_singleton_self _, ?_⟩
      rw [resizeRight_eq times placed.span_pos plays long (accepts request number beyond)]
      exact ends beyond (add_le_add_right (le_fitted _ _ _) _)
  | _ => exact overreaches.elim

/-! ## Well-formed clips -/

/-- Every part that a command other than a cut makes of a well-formed clip is well-formed. -/
theorem WellFormed.clipParts
    (wellFormed : c.WellFormed)
    (whole : ∀ id position, command ≠ .split id position)
    {supply : IdSupply}
    {parts : List (Clip Extended)}
    (made : command.clipParts? supply c = some parts) :
    ∀ d ∈ parts, d.WellFormed := by
  have timed := wellFormed.valid.timed
  have valid := timed.clipParts (fun _ _ bounded => bounded.plays (by norm_num))
    (fun w w' _ long bounded becomes =>
      bounded.becomes le_rfl (by norm_num) long becomes (bounded.not_overreaches command)
        fun id position isSplit => (whole id position isSplit).elim) made
  obtain ⟨w, times, long, bounded⟩ := timed
  obtain ⟨placed, plays⟩ := bounded.plays (by norm_num)
  intro d member
  exact ⟨(valid d member).valid,
    wellFormed.presentable.clipParts times placed plays long made d member⟩

theorem WellFormed.appended
    (wellFormed : c.WellFormed)
    {t : Timeline Extended}
    (ends : ∀ d ∈ t.clips, Scalar.isFinite d.timelineEnd = true) :
    (t.appendedClip c).WellFormed := by
  have timed := wellFormed.valid.timed
  refine ⟨(timed.appended (fun _ _ _ => Times.Bounded.movedTo) ends).valid, ?_⟩
  obtain ⟨w, times, -⟩ := timed
  obtain ⟨start, -, retimed⟩ := appendedClip_isRetimed times ends
  exact retimed.presentable wellFormed.presentable

end Parts

end Montage.Clip

import Montage.Proofs.Clip.Window

/-!
Contract: clips within their bounds.

Owns:
- the bounds of a clip (`Clip.InBounds`, `Clip.Valid`, `Clip.WellFormed`);
- the commands that leave them (`Clip.Overreaches`);
- that a clip of a whole asset is within them.

Does **not** own: the arithmetic of times (`Montage.Proofs.Clip.Window`) and what a command makes of a
clip (`Montage.Proofs.Clip.Parts`).
-/

set_option autoImplicit false

namespace Montage.Clip

open Extended

/-! ## Bounds -/

/-- The bounds of a clip: its source window lies within the source and is as long as the shortest one up
to a slack, and its placement is not empty and not before zero. -/
structure InBounds (slack : Extended) (c : Clip Extended) : Prop where
  entry : 0 ≤ c.sourceIn
  exit : c.sourceOut ≤ c.sourceLimit
  window : minimumSpan - slack ≤ c.sourceSpan
  begun : 0 ≤ c.timelineStart
  running : c.timelineStart < c.timelineEnd

/-- A clip whose times are finite and within their bounds. -/
structure Valid (c : Clip Extended) : Prop extends c.InBounds 0 where
  finite :
    ∀ x ∈ [c.sourceIn, c.sourceOut, c.timelineStart, c.timelineEnd], Scalar.isFinite x = true

/-- A clip whose other numbers are finite and within their bounds. -/
structure Presentable (c : Clip Extended) : Prop where
  finite :
    ∀ x ∈ [c.sourceDuration, c.x, c.y, c.width, c.height, c.rotation, c.opacity, c.volume],
      Scalar.isFinite x = true
  crop : ∀ r ∈ c.crop, r.isFinite = true
  opacity : 0 ≤ c.opacity ∧ c.opacity ≤ 100
  volume : 0 ≤ c.volume ∧ c.volume ≤ maximumVolume
  size : 1 ≤ c.width ∧ 1 ≤ c.height

/-- A clip all of whose numbers are finite and within their bounds. -/
structure WellFormed (c : Clip Extended) : Prop where
  valid : c.Valid
  presentable : c.Presentable

/-- Whether a command moves an edge of this clip past the beginning or the end of its source: the
shortest window, to which it fits its request, does not lie within the source. -/
def Overreaches (c : Clip Extended) : Command Extended → Prop
  | .trimStart _ request =>
      Scalar.isNaN request = false ∧ c.sourceOut < minimumSpan ∧
        0 < c.sourceOut - c.timelineEnd * c.speed
  | .trimEnd _ request => Scalar.isNaN request = false ∧ c.sourceLimit < c.sourceIn + minimumSpan
  | .resizeRight _ request =>
      Scalar.isNaN request = false ∧ c.sourceLimit < c.sourceIn + minimumSpan
  | _ => False

section Times

variable {c d : Clip Extended} {w : Times}

theorem HasTimes.inBounds_iff (times : c.HasTimes w) (slack : ℚ) :
    c.InBounds (fin slack) ↔ w.Bounded slack c.sourceLimit := by
  constructor
  · rintro ⟨entry, exit, window, begun, running⟩
    rw [times.sourceIn, zero_eq, fin_le_fin] at entry
    rw [times.sourceOut] at exit
    rw [times.sourceSpan, minimumSpan_eq, fin_sub_fin, fin_le_fin] at window
    rw [times.start, zero_eq, fin_le_fin] at begun
    rw [times.start, times.stop, fin_lt_fin] at running
    exact ⟨⟨begun, running⟩, entry, exit, window⟩
  · rintro ⟨⟨begun, running⟩, entry, exit, window⟩
    constructor
    · rwa [times.sourceIn, zero_eq, fin_le_fin]
    · rwa [times.sourceOut]
    · rwa [times.sourceSpan, minimumSpan_eq, fin_sub_fin, fin_le_fin]
    · rwa [times.start, zero_eq, fin_le_fin]
    · rwa [times.start, times.stop, fin_lt_fin]

theorem HasTimes.overreaches_iff (times : c.HasTimes w) (placed : w.Placed)
    (command : Command Extended) :
    c.Overreaches command ↔ Times.Overreaches c.sourceLimit w command := by
  cases command with
  | trimStart id request =>
      simp only [Overreaches, Times.Overreaches, times.sourceOut, times.stop,
        times.speed placed.span_pos, minimumSpan_eq, zero_eq, fin_mul_fin, fin_sub_fin, fin_lt_fin,
        Times.earliest]
  | trimEnd id request =>
      simp only [Overreaches, Times.Overreaches, times.sourceIn, minimumSpan_eq, fin_add_fin]
  | resizeRight id request =>
      simp only [Overreaches, Times.Overreaches, times.sourceIn, minimumSpan_eq, fin_add_fin]
  | _ => exact Iff.rfl

/-- The times of a clip are finite and have a property; its source is not too short for a window. -/
def Timed (P : Extended → Times → Prop) (c : Clip Extended) : Prop :=
  ∃ w, c.HasTimes w ∧ fin (1 / 10) ≤ c.sourceLimit ∧ P c.sourceLimit w

theorem Valid.timed (valid : c.Valid) : c.Timed (fun limit w => w.Bounded 0 limit) := by
  obtain ⟨w, times⟩ := exists_hasTimes valid.finite
  have inBounds := valid.toInBounds
  rw [zero_eq] at inBounds
  have bounded := (times.inBounds_iff 0).mp inBounds
  have window : 1 / 10 - 0 ≤ w.sourceOut - w.sourceIn := bounded.window
  have entry := bounded.entry
  exact ⟨w, times, fin_le_of_le (by linarith) bounded.exit, bounded⟩

theorem Timed.valid (timed : c.Timed (fun limit w => w.Bounded 0 limit)) : c.Valid := by
  obtain ⟨w, times, -, bounded⟩ := timed
  have inBounds := (times.inBounds_iff 0).mpr bounded
  rw [← zero_eq] at inBounds
  refine ⟨inBounds, ?_⟩
  simp [times.sourceIn, times.sourceOut, times.start, times.stop]

theorem Timed.ends {P : Extended → Times → Prop} (timed : c.Timed P) :
    Scalar.isFinite c.timelineEnd = true := by
  obtain ⟨w, times, -⟩ := timed
  rw [times.stop, isFinite_fin]

theorem Timed.mono {P Q : Extended → Times → Prop} (timed : c.Timed P)
    (weaker : ∀ limit w, P limit w → Q limit w) : c.Timed Q := by
  obtain ⟨w, times, long, holds⟩ := timed
  exact ⟨w, times, long, weaker _ _ holds⟩

end Times

/-! ## Clips of whole assets -/

section OfAsset

variable (id : Identity) (asset : AssetRef) (kind : MediaKind) (fileName : String)
  (duration : Option Extended) (start : Extended)

/-- The length of a clip of a whole asset is a finite one, and no shorter than the shortest window. -/
theorem ofAsset_sourceOut :
    ∃ length, (ofAsset id asset kind fileName duration start).sourceOut = fin length ∧
      1 / 10 ≤ length := by
  show ∃ length, (duration.filter fun d =>
    Scalar.isFinite d && decide ((minimumSpan : Extended) ≤ d)).getD defaultMediaDuration = fin length ∧
      1 / 10 ≤ length
  cases usable : duration.filter fun d =>
      Scalar.isFinite d && decide ((minimumSpan : Extended) ≤ d) with
  | none => exact ⟨30, defaultMediaDuration_eq, by norm_num⟩
  | some d =>
      have holds := (Option.filter_eq_some_iff.mp usable).2
      simp only [Bool.and_eq_true, decide_eq_true_eq, isFinite_iff] at holds
      obtain ⟨⟨length, rfl⟩, long⟩ := holds
      rw [minimumSpan_eq, fin_le_fin] at long
      exact ⟨length, rfl, long⟩

theorem ofAsset_sourceDuration :
    (ofAsset id asset kind fileName duration start).sourceDuration =
      (ofAsset id asset kind fileName duration start).sourceOut := rfl

/-- A clip of a whole asset ends where its source does, if its source ends. -/
theorem ofAsset_exit {length : ℚ}
    (isLength : (ofAsset id asset kind fileName duration start).sourceOut = fin length) :
    fin length ≤ (ofAsset id asset kind fileName duration start).sourceLimit := by
  unfold sourceLimit
  rw [ofAsset_sourceDuration, isLength]
  cases kind with
  | image =>
      show fin length ≤ 1 / 0
      rw [one_eq, zero_eq, fin_div_zero one_pos]
      exact fin_le_posInf length
  | video => exact (fin_le_fin length length).mpr le_rfl
  | audio => exact (fin_le_fin length length).mpr le_rfl

theorem ofAsset_valid : (ofAsset id asset kind fileName duration start).Valid := by
  obtain ⟨first, isFirst, begun⟩ := placement_eq start
  obtain ⟨length, isLength, long⟩ := ofAsset_sourceOut id asset kind fileName duration start
  have exit := ofAsset_exit id asset kind fileName duration start isLength
  refine Timed.valid ⟨⟨0, length, first, first + length⟩, ⟨zero_eq, isLength, isFirst, ?_⟩,
    fin_le_of_le long exit, ⟨begun, ?_⟩, le_rfl, exit, ?_⟩
  · show placement start + (ofAsset id asset kind fileName duration start).sourceOut = _
    rw [isFirst, isLength, fin_add_fin]
  · show first < first + length
    linarith
  · show 1 / 10 - 0 ≤ length - 0
    linarith

theorem ofAsset_presentable : (ofAsset id asset kind fileName duration start).Presentable := by
  obtain ⟨length, isLength, -⟩ := ofAsset_sourceOut id asset kind fileName duration start
  constructor
  · simp only [List.mem_cons, List.not_mem_nil, or_false, forall_eq_or_imp, forall_eq,
      ofAsset_sourceDuration, isLength]
    exact ⟨rfl, rfl, rfl, rfl, rfl, rfl, rfl, rfl⟩
  · intro r member
    cases member
  · show (0 : Extended) ≤ 100 ∧ (100 : Extended) ≤ 100
    rw [zero_eq, hundred_eq, fin_le_fin, fin_le_fin]
    norm_num
  · show (0 : Extended) ≤ 100 ∧ (100 : Extended) ≤ maximumVolume
    rw [zero_eq, hundred_eq, maximumVolume_eq, fin_le_fin, fin_le_fin]
    norm_num
  · show (1 : Extended) ≤ 1920 ∧ (1 : Extended) ≤ 1080
    rw [ofNat_eq 1920, ofNat_eq 1080, one_eq, fin_le_fin, fin_le_fin]
    norm_num

/-- A clip of a whole asset is well-formed, whatever length and start are asked for. -/
theorem ofAsset_wellFormed : (ofAsset id asset kind fileName duration start).WellFormed :=
  ⟨ofAsset_valid id asset kind fileName duration start,
    ofAsset_presentable id asset kind fileName duration start⟩

end OfAsset

end Montage.Clip

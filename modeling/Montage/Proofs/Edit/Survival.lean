import Montage.Proofs.Edit.Bounds
import Montage.Proofs.Stored.Forgiving

/-!
Contract: edited timelines in files.

Owns:
- what every run of commands keeps of the elements that it was given new (`Clip.Storable`,
  `Overlay.Storable`);
- the cuts that leave a half too short for a file (`Timeline.cutsShort`);
- what comes back when an edited timeline is written and read.

Does **not** own: the reading of other timelines (`Montage.Proofs.Stored.Forgiving`).

Editing bounds what it changes, and reading mends what is out of bounds. The two agree on everything but
the shortest span: a cut asks it of the window of a clip only up to a tolerance, and of an overlay not at
all. A half that is too short is therefore made longer when it is read.
-/

set_option autoImplicit false

namespace Montage

open Extended

/-! ## Clips -/

namespace Clip

/-- A clip that plays a whole asset. -/
def IsNew (c : Clip Extended) : Prop :=
  ∃ id asset kind fileName duration start, c = ofAsset id asset kind fileName duration start

/-- A clip that comes back from a file with at most other times. -/
structure Storable (c : Clip Extended) : Prop extends c.Settled where
  timed : c.Timed fun _ w => w.Sound

section Storable

variable {c d : Clip Extended} {w : Times} {command : Command Extended}

theorem IsNew.settled (isNew : c.IsNew) : c.Settled := by
  obtain ⟨id, asset, kind, fileName, duration, start, rfl⟩ := isNew
  obtain ⟨length, isLength, long⟩ := ofAsset_sourceOut id asset kind fileName duration start
  refine ⟨ofAsset_presentable id asset kind fileName duration start, ?_,
    ⟨0, zero_eq, by norm_num⟩, nofun⟩
  rw [ofAsset_sourceDuration, isLength, minimumSpan_eq, fin_le_fin]
  exact long

theorem IsNew.valid (isNew : c.IsNew) : c.Valid := by
  obtain ⟨id, asset, kind, fileName, duration, start, rfl⟩ := isNew
  exact ofAsset_valid id asset kind fileName duration start

theorem IsNew.storable (isNew : c.IsNew) : c.Storable :=
  ⟨isNew.settled, isNew.valid.timed.mono fun _ _ bounded => bounded.sound⟩

theorem IsRetimed.settled (retimed : c.IsRetimed w d) (settled : c.Settled) : d.Settled := by
  refine ⟨retimed.presentable settled.toPresentable, ?_, ?_, ?_⟩
  · rw [retimed]
    exact settled.long
  · rw [retimed]
    exact settled.turn
  · rw [retimed]
    exact settled.kept

/-- A patch keeps the numbers that it changes as a repair would leave them. -/
theorem Settled.patch (settled : c.Settled) (patch : ClipPatch Extended) : (patch.apply c).Settled := by
  refine ⟨settled.toPresentable.patch patch, settled.long, ?_, ?_⟩
  · refine changed_of (P := fun x => ∃ angle : ℚ, x = fin angle ∧ |angle| < 360) settled.turn fun q => ?_
    refine ⟨_, ?_, abs_remainder_lt q (show (0 : ℚ) < 360 by norm_num)⟩
    rw [fullTurn_eq, remainder_fin q (by norm_num)]
  · intro r member
    cases requested : patch.crop with
    | none =>
        simp only [ClipPatch.apply, requested] at member
        exact settled.kept r member
    | some crop =>
        simp only [ClipPatch.apply, requested] at member
        have settable := (Option.filter_eq_some_iff.mp member).2
        simp only [Crop.isSettable, Bool.and_eq_true, decide_eq_true_eq] at settable
        simp only [Crop.isKept, Bool.and_eq_true, decide_eq_true_eq]
        exact ⟨settable.1, settable.2.2.2⟩

theorem Storable.appended (storable : c.Storable) {t : Timeline Extended}
    (ends : ∀ d ∈ t.clips, Scalar.isFinite d.timelineEnd = true) : (t.appendedClip c).Storable := by
  refine ⟨?_, storable.timed.appended (fun _ _ _ => Times.Sound.movedTo) ends⟩
  obtain ⟨w, times, -⟩ := storable.timed
  obtain ⟨start, -, retimed⟩ := appendedClip_isRetimed times ends
  exact retimed.settled storable.toSettled

/-- Every part that a command makes of a storable clip is storable. -/
theorem Storable.clipParts (storable : c.Storable) {supply : IdSupply} {parts : List (Clip Extended)}
    (made : command.clipParts? supply c = some parts) : ∀ d ∈ parts, d.Storable := by
  intro d member
  have timed := storable.timed.clipParts (fun _ _ sound => sound.plays)
    (fun w w' _ _ sound becomes => sound.becomes becomes) made d member
  refine ⟨?_, timed⟩
  obtain ⟨w, times, long, sound⟩ := storable.timed
  obtain ⟨w', -, retimed | ⟨id, patch, -, -, rfl⟩⟩ :=
    clipParts?_becomes times sound.toPlaced sound.speed_pos long made member
  · exact retimed.settled storable.toSettled
  · exact storable.toSettled.patch patch

/-- A storable clip comes back with its start. -/
theorem Storable.repair_eq (storable : c.Storable) :
    c.repair =
      { c with
        sourceIn := c.repair.sourceIn
        sourceOut := c.repair.sourceOut
        timelineEnd := c.repair.timelineEnd } := by
  obtain ⟨w, times, -, sound⟩ := storable.timed
  have start := times.repairedStart sound.begun
  have rest := storable.toSettled.repair_eq
  rw [start] at rest
  exact rest

theorem Storable.repair_eq_self_iff (storable : c.Storable) : c.repair = c ↔ c.InBounds 0 := by
  rw [Clip.repair_eq_self_iff]
  constructor
  · intro mended
    exact mended.valid.toInBounds
  · intro inBounds
    obtain ⟨w, times, -⟩ := storable.timed
    refine ⟨storable.toSettled, inBounds, ?_⟩
    simp [times.sourceIn, times.sourceOut, times.start, times.stop]

theorem Storable.isFinite (storable : c.Storable) : ∀ x ∈ c.numbers, Scalar.isFinite x = true := by
  obtain ⟨w, times, -⟩ := storable.timed
  have finite := storable.finite
  simp only [List.mem_cons, List.not_mem_nil, or_false, forall_eq_or_imp, forall_eq] at finite
  have crop : ∀ r ∈ c.crop, ∀ x ∈ r.numbers, Scalar.isFinite x = true := by
    intro r isCrop
    exact List.all_eq_true.mp (storable.crop r isCrop)
  intro x member
  rcases List.mem_append.mp member with own | cropped
  · simp only [times.sourceIn, times.sourceOut, times.start, times.stop, List.mem_cons,
      List.not_mem_nil, or_false] at own
    rcases own with rfl | rfl | rfl | rfl | rfl | rfl | rfl | rfl | rfl | rfl | rfl | rfl <;>
      simp [finite]
  · obtain ⟨r, isCrop, isNumber⟩ := List.mem_flatMap.mp cropped
    exact crop r (Option.mem_toList.mp isCrop) x isNumber

end Storable

end Clip

/-! ## Overlays -/

namespace Overlay

/-- An overlay in the default style. -/
def IsNew (o : Overlay Extended) : Prop :=
  ∃ id text start, o = ofText id text start

/-- An overlay that comes back from a file with at most another end. -/
structure Storable (o : Overlay Extended) : Prop where
  valid : o.Valid
  presentable : o.Presentable
  named : Text.isBlankText o.fontFamily = false

section Storable

variable {o p : Overlay Extended} {command : Command Extended}

theorem IsNew.storable (isNew : o.IsNew) : o.Storable := by
  obtain ⟨id, text, start, rfl⟩ := isNew
  obtain ⟨first, isFirst, begun⟩ := placement_eq start
  refine ⟨valid_iff.mpr ⟨first, first + 10, isFirst, ?_, begun, by linarith⟩, ⟨?_, ?_, ?_⟩, ?_⟩
  · show placement start + defaultTextDuration = _
    rw [isFirst, defaultTextDuration_eq, fin_add_fin]
  · simp only [List.mem_cons, List.not_mem_nil, or_false, forall_eq_or_imp, forall_eq]
    exact ⟨rfl, rfl, rfl, rfl⟩
  · show (1 : Extended) ≤ 24
    rw [one_eq, defaultFontSize_eq, fin_le_fin]
    norm_num
  · show (0 : Extended) ≤ 100 ∧ (100 : Extended) ≤ 100
    rw [zero_eq, hundred_eq, fin_le_fin, fin_le_fin]
    norm_num
  · show Text.isBlankText defaultFont = false
    decide

/-- A patch keeps the numbers that it changes as a repair would leave them. -/
theorem Presentable.patch (presentable : o.Presentable) (patch : TextPatch Extended) :
    (patch.apply o).Presentable := by
  have finite := presentable.finite
  simp only [List.mem_cons, List.not_mem_nil, or_false, forall_eq_or_imp, forall_eq] at finite
  obtain ⟨x, y, size, opacity⟩ := finite
  have dim := presentable.opacity
  rw [hundred_eq] at dim
  have newSize := Clip.changed_atLeastOne patch.fontSize ⟨size, presentable.size⟩
  have newOpacity := Clip.changed_percentage patch.opacity (by norm_num) ⟨opacity, dim⟩
  rw [← hundred_eq] at newOpacity
  refine ⟨?_, newSize.2, newOpacity.2⟩
  simp only [List.mem_cons, List.not_mem_nil, or_false, forall_eq_or_imp, forall_eq]
  exact ⟨Clip.changed_isFinite patch.x x, Clip.changed_isFinite patch.y y, newSize.1, newOpacity.1⟩

theorem Storable.patch (storable : o.Storable) (patch : TextPatch Extended) :
    (patch.apply o).Storable := by
  have valid := storable.valid
  refine ⟨⟨valid.finite, valid.begun, valid.running⟩, storable.presentable.patch patch, ?_⟩
  show Text.isBlankText
    ((patch.fontFamily.filter fun font => !Text.isBlankText font).getD o.fontFamily) = false
  cases named : patch.fontFamily.filter fun font => !Text.isBlankText font with
  | none => exact storable.named
  | some font => simpa using (Option.filter_eq_some_iff.mp named).2

/-- An overlay that is another one with other times and perhaps another identity. -/
def IsRetimed (o p : Overlay Extended) : Prop :=
  p = { o with id := p.id, timelineStart := p.timelineStart, timelineEnd := p.timelineEnd }

theorem IsRetimed.storable (retimed : o.IsRetimed p) (storable : o.Storable) (valid : p.Valid) :
    p.Storable := by
  refine ⟨valid, ⟨?_, ?_, ?_⟩, ?_⟩
  · rw [retimed]
    exact storable.presentable.finite
  · rw [retimed]
    exact storable.presentable.size
  · rw [retimed]
    exact storable.presentable.opacity
  · rw [retimed]
    exact storable.named

/-- Every part that a command makes of an overlay is the overlay at other times, unless the command
patches it. -/
theorem overlayParts?_isRetimed {supply : IdSupply} {parts : List (Overlay Extended)}
    (made : command.overlayParts? supply o = some parts) (member : p ∈ parts) :
    o.IsRetimed p ∨ ∃ id patch, command = .updateText id patch ∧ p = patch.apply o := by
  cases command with
  | split id position =>
      obtain ⟨⟨a, b⟩, halves, rfl⟩ := Option.map_eq_some_iff.mp made
      unfold halves? at halves
      split at halves
      · cases halves
        rcases List.mem_pair.mp member with rfl | rfl <;> exact Or.inl rfl
      · cases halves
  | duplicate id =>
      cases made
      rcases List.mem_pair.mp member with rfl | rfl <;> exact Or.inl rfl
  | delete id =>
      cases made
      cases member
  | reposition id start =>
      cases made
      rw [List.mem_singleton.mp member]
      unfold Overlay.reposition
      split <;> exact Or.inl rfl
  | resizeRight id request =>
      cases made
      rw [List.mem_singleton.mp member]
      unfold Overlay.resizeRight
      split <;> exact Or.inl rfl
  | updateText id patch =>
      cases made
      exact Or.inr ⟨id, patch, rfl, List.mem_singleton.mp member⟩
  | _ => cases made

theorem Storable.overlayParts (storable : o.Storable) {supply : IdSupply}
    {parts : List (Overlay Extended)} (made : command.overlayParts? supply o = some parts) :
    ∀ p ∈ parts, p.Storable := by
  intro p member
  rcases overlayParts?_isRetimed made member with retimed | ⟨id, patch, -, rfl⟩
  · exact retimed.storable storable (storable.valid.overlayParts made p member)
  · exact storable.patch patch

theorem Storable.appended (storable : o.Storable) {t : Timeline Extended}
    (all : ∀ p ∈ t.overlays, p.Valid) : (t.appendedOverlay o).Storable :=
  IsRetimed.storable rfl storable (storable.valid.appended all)

theorem Storable.repair_eq_self_iff (storable : o.Storable) :
    o.repair = o ↔ o.timelineStart + minimumSpan ≤ o.timelineEnd := by
  rw [Overlay.repair_eq_self_iff]
  constructor
  · exact Mended.long
  · exact fun long => ⟨storable.valid, long, storable.presentable⟩

theorem Presentable.isFinite (presentable : o.Presentable) (valid : o.Valid) :
    ∀ x ∈ o.numbers, Scalar.isFinite x = true := by
  have finite := presentable.finite
  simp only [List.mem_cons, List.not_mem_nil, or_false, forall_eq_or_imp, forall_eq] at finite
  simp [numbers, finite, valid.finite]

end Storable

end Overlay

/-! ## Cuts -/

/-- Whether a cut leaves a half whose window is shorter than the shortest one. -/
def Clip.cutsShort (c : Clip Extended) (position : Extended) : Bool :=
  (c.halves? c.id c.id position).any fun (a, b) =>
    decide (a.sourceSpan < minimumSpan ∨ b.sourceSpan < minimumSpan)

/-- Whether an overlay is shown for less than the shortest span. -/
def Overlay.isShort (o : Overlay Extended) : Bool :=
  decide (o.timelineEnd < o.timelineStart + minimumSpan)

/-- Whether a cut leaves a half that is shown for less than the shortest span. -/
def Overlay.cutsShort (o : Overlay Extended) (position : Extended) : Bool :=
  (o.halves? o.id o.id position).any fun (a, b) => a.isShort || b.isShort

/-- Whether a command cuts an element so that a half is shorter than the shortest span. -/
def Timeline.cutsShort (t : Timeline Extended) : Command Extended → Bool
  | .split id position =>
    match t.element? id with
    | some (.clip c) => c.cutsShort position
    | some (.text o) => o.cutsShort position
    | none => false
  | _ => false

section Cuts

variable {c : Clip Extended} {o : Overlay Extended} {w w' : Times} {command : Command Extended}

theorem Clip.HasTimes.long_of_cutsShort_eq_false (times : c.HasTimes w) (placed : w.Placed) {cut : ℚ}
    (after : w.start < cut) (before : cut < w.stop)
    (first : 1 / 10 - tolerance ≤ (w.upTo cut).sourceSpan)
    (second : 1 / 10 - tolerance ≤ (w.onward cut).sourceSpan)
    (fair : c.cutsShort (fin cut) = false) :
    1 / 10 ≤ (w.upTo cut).sourceSpan ∧ 1 / 10 ≤ (w.onward cut).sourceSpan := by
  have firstTimes : HasTimes { c.withTimes (w.upTo cut) with id := c.id } (w.upTo cut) :=
    ⟨rfl, rfl, rfl, rfl⟩
  have secondTimes : HasTimes { c.withTimes (w.onward cut) with id := c.id } (w.onward cut) :=
    ⟨rfl, rfl, rfl, rfl⟩
  unfold Clip.cutsShort at fair
  rw [Clip.halves?_fin times placed.span_pos, if_pos ⟨⟨after, before⟩, first, second⟩, Option.any_some,
    decide_eq_false_iff_not, firstTimes.sourceSpan, secondTimes.sourceSpan, minimumSpan_eq,
    fin_lt_fin, fin_lt_fin] at fair
  exact ⟨not_lt.mp (not_or.mp fair).1, not_lt.mp (not_or.mp fair).2⟩

/-- A cut that leaves both halves long enough keeps the bounds. -/
theorem Times.Bounded.halves {limit : Extended} (bounded : w.Bounded 0 limit) {cut : ℚ}
    (after : w.start < cut) (before : cut < w.stop) (first : 1 / 10 ≤ (w.upTo cut).sourceSpan)
    (second : 1 / 10 ≤ (w.onward cut).sourceSpan) :
    (w.upTo cut).Bounded 0 limit ∧ (w.onward cut).Bounded 0 limit := by
  have entry := bounded.entry
  have long : 1 / 10 ≤ w.sourceAt cut - w.sourceIn := first
  have rest : 1 / 10 ≤ w.sourceOut - w.sourceAt cut := second
  constructor
  · exact ⟨⟨bounded.begun, after⟩, entry,
      fin_le_of_le (show w.sourceAt cut ≤ w.sourceOut by linarith) bounded.exit, by linarith⟩
  · exact ⟨⟨bounded.begun.trans after.le, before⟩, show 0 ≤ w.sourceAt cut by linarith, bounded.exit,
      by linarith⟩

/-- A command that does not cut short keeps the bounds of a clip. -/
theorem Clip.HasTimes.bounded_of_cutsShort_eq_false (times : c.HasTimes w) {limit : Extended}
    (bounded : w.Bounded 0 limit) (long : fin (1 / 10) ≤ limit)
    (becomes : Times.Becomes limit w command w')
    (fair : ∀ id position, command = .split id position → c.cutsShort position = false) :
    w'.Bounded 0 limit := by
  cases command with
  | split id position =>
      cases becomes with
      | kept => exact bounded
      | firstHalf after before first second =>
          obtain ⟨first, second⟩ :=
            times.long_of_cutsShort_eq_false bounded.toPlaced after before first second (fair id _ rfl)
          exact (bounded.halves after before first second).1
      | secondHalf after before first second =>
          obtain ⟨first, second⟩ :=
            times.long_of_cutsShort_eq_false bounded.toPlaced after before first second (fair id _ rfl)
          exact (bounded.halves after before first second).2
  | _ => exact bounded.becomes le_rfl (by norm_num) long becomes (bounded.not_overreaches _) nofun

/-- An overlay that is shown for the shortest span at least. -/
structure Overlay.Lasting (o : Overlay Extended) : Prop extends o.Valid where
  long : o.timelineStart + minimumSpan ≤ o.timelineEnd

theorem Overlay.lasting_iff :
    o.Lasting ↔
      ∃ start stop, o.timelineStart = fin start ∧ o.timelineEnd = fin stop ∧ 0 ≤ start ∧
        start + 1 / 10 ≤ stop := by
  constructor
  · rintro ⟨valid, long⟩
    obtain ⟨start, stop, isStart, isStop, begun, -⟩ := Overlay.valid_iff.mp valid
    rw [isStart, isStop, minimumSpan_eq, fin_add_fin, fin_le_fin] at long
    exact ⟨start, stop, isStart, isStop, begun, long⟩
  · rintro ⟨start, stop, isStart, isStop, begun, long⟩
    refine ⟨Overlay.valid_iff.mpr ⟨start, stop, isStart, isStop, begun, by linarith⟩, ?_⟩
    rw [isStart, isStop, minimumSpan_eq, fin_add_fin, fin_le_fin]
    exact long

theorem Overlay.IsNew.lasting (isNew : o.IsNew) : o.Lasting := by
  obtain ⟨id, text, start, rfl⟩ := isNew
  obtain ⟨first, isFirst, begun⟩ := placement_eq start
  refine Overlay.lasting_iff.mpr ⟨first, first + 10, isFirst, ?_, begun, by linarith⟩
  show placement start + defaultTextDuration = _
  rw [isFirst, defaultTextDuration_eq, fin_add_fin]

theorem Overlay.Lasting.movedTo (lasting : o.Lasting) {start : ℚ} (begun : 0 ≤ start) :
    Overlay.Lasting
      { o with timelineStart := fin start, timelineEnd := fin start + o.timelineSpan } := by
  obtain ⟨first, last, isFirst, isLast, -, long⟩ := Overlay.lasting_iff.mp lasting
  refine Overlay.lasting_iff.mpr ⟨start, start + (last - first), rfl, ?_, begun, by linarith⟩
  show fin start + (o.timelineEnd - o.timelineStart) = _
  rw [isFirst, isLast, fin_sub_fin, fin_add_fin]

theorem Overlay.Valid.lasting (valid : o.Valid) (long : o.isShort = false) : o.Lasting := by
  obtain ⟨start, stop, isStart, isStop, begun, -⟩ := Overlay.valid_iff.mp valid
  rw [Overlay.isShort, decide_eq_false_iff_not, isStart, isStop, minimumSpan_eq, fin_add_fin,
    fin_lt_fin, not_lt] at long
  exact Overlay.lasting_iff.mpr ⟨start, stop, isStart, isStop, begun, long⟩

/-- Every part that a command makes of a lasting overlay is lasting, unless it cuts short. -/
theorem Overlay.Lasting.overlayParts (lasting : o.Lasting)
    (fair : ∀ id position, command = .split id position → o.cutsShort position = false)
    {supply : IdSupply} {parts : List (Overlay Extended)} (made : command.overlayParts? supply o = some parts) :
    ∀ p ∈ parts, p.Lasting := by
  intro p member
  have valid := lasting.toValid.overlayParts made p member
  cases command with
  | split id position =>
      obtain ⟨⟨a, b⟩, halves, rfl⟩ := Option.map_eq_some_iff.mp made
      have long := fair id position rfl
      unfold Overlay.cutsShort Overlay.halves? at long
      unfold Overlay.halves? at halves
      split at halves
      · rename_i inside
        cases halves
        rw [if_pos inside, Option.any_some, Bool.or_eq_false_iff] at long
        rcases List.mem_pair.mp member with rfl | rfl
        · exact valid.lasting long.1
        · exact valid.lasting long.2
      · cases halves
  | duplicate id =>
      cases made
      rcases List.mem_pair.mp member with rfl | rfl
      · exact lasting
      · exact ⟨valid, lasting.long⟩
  | delete id =>
      cases made
      cases member
  | reposition id start =>
      cases made
      rw [List.mem_singleton.mp member]
      cases finite : Scalar.isFinite start with
      | false => simpa [Overlay.reposition, finite] using lasting
      | true =>
          obtain ⟨q, rfl⟩ := (isFinite_iff start).mp finite
          simp only [Overlay.reposition, isFinite_fin, if_true, zero_eq, max_fin]
          exact lasting.movedTo (le_max_right q 0)
  | resizeRight id request =>
      cases made
      rw [List.mem_singleton.mp member]
      cases finite : Scalar.isFinite request with
      | false => simpa [Overlay.resizeRight, finite] using lasting
      | true =>
          obtain ⟨q, rfl⟩ := (isFinite_iff request).mp finite
          obtain ⟨first, -, isFirst, -, begun, -⟩ := Overlay.lasting_iff.mp lasting
          refine Overlay.lasting_iff.mpr ⟨first, max q (first + 1 / 10), ?_, ?_, begun,
            le_max_right q (first + 1 / 10)⟩
          · simp only [Overlay.resizeRight, isFinite_fin, if_true, isFirst]
          · simp only [Overlay.resizeRight, isFinite_fin, if_true, isFirst, minimumSpan_eq,
              fin_add_fin, max_fin]
  | updateText id patch =>
      cases made
      rw [List.mem_singleton.mp member] at valid ⊢
      exact ⟨valid, lasting.long⟩
  | _ => cases made

end Cuts

/-! ## Runs -/

namespace Timeline

variable {t next : Timeline Extended} {supply left : IdSupply} {command : Command Extended}

/-- Every command keeps all elements storable. -/
theorem apply_storable
    (applied : t.apply supply command = .ok (next, left))
    (introduced : command.Introduces Clip.IsNew Overlay.IsNew)
    (all : t.All Clip.Storable Overlay.Storable) :
    next.All Clip.Storable Overlay.Storable := by
  constructor
  · refine (apply_outcome applied).forall_clips all.1 ?_ ?_
    · rintro c rfl
      exact (Clip.IsNew.storable introduced).appended fun d member => (all.1 d member).timed.ends
    · intro id c made _ _ storable isMade
      exact storable.clipParts isMade
  · refine (apply_outcome applied).forall_overlays all.2 ?_ ?_
    · rintro o rfl
      exact (Overlay.IsNew.storable introduced).appended fun p member => (all.2 p member).valid
    · intro id o made _ _ _ storable isMade
      exact storable.overlayParts isMade

/-- A clip within its bounds without slack. -/
def Exact : Clip Extended → Prop := Clip.Timed fun limit w => w.Bounded 0 limit

/-- A command that does not cut short keeps all clips within their bounds and all overlays lasting. -/
theorem apply_lasting
    (applied : t.apply supply command = .ok (next, left))
    (introduced : command.Introduces Clip.IsNew Overlay.IsNew)
    (fair : t.cutsShort command = false)
    (all : t.All Exact Overlay.Lasting) :
    next.All Exact Overlay.Lasting := by
  constructor
  · refine apply_timed (fun _ _ bounded => bounded.plays (by norm_num))
      (fun _ _ _ => Times.Bounded.movedTo) ?_ applied all.1 ?_
    · intro id c w w' target found times long bounded becomes
      refine times.bounded_of_cutsShort_eq_false bounded long becomes ?_
      rintro id' position rfl
      cases target
      simpa only [cutsShort, element?, found] using fair
    · rintro c rfl
      exact (Clip.IsNew.valid introduced).timed
  · refine (apply_outcome applied).forall_overlays all.2 ?_ ?_
    · rintro o rfl
      obtain ⟨start, begun, appended⟩ :=
        Overlay.appendedOverlay_eq o fun p member => (all.2 p member).toValid
      rw [appended]
      exact (Overlay.IsNew.lasting introduced).movedTo begun
    · intro id o made target found noClip lasting isMade
      refine lasting.overlayParts ?_ isMade
      rintro id' position rfl
      cases target
      rcases noClip with absent | ⟨patch, isText⟩
      · simpa only [cutsShort, element?, absent, found, Option.map_some] using fair
      · cases isText

/-- A run that is given new elements leads to storable ones, with the settings of an empty timeline. -/
theorem applyAll_storable
    {commands : List (Command Extended)}
    (introduced : ∀ command ∈ commands, command.Introduces Clip.IsNew Overlay.IsNew)
    (ran : empty.applyAll supply commands = .ok (t, left)) :
    t.All Clip.Storable Overlay.Storable ∧
      t.frameRate = standardFrameRate ∧ t.canvas = .standard := by
  have kept := @applyAll_induction Extended _ fun t =>
    t.All Clip.Storable Overlay.Storable ∧ t.frameRate = standardFrameRate ∧ t.canvas = .standard
  refine kept ?_ ⟨empty_all _ _, rfl, rfl⟩ ran
  rintro command member t next supply left ⟨all, rate, canvas⟩ applied
  obtain ⟨-, sameRate, sameCanvas⟩ := (apply_outcome applied).same_settings
  exact ⟨apply_storable applied (introduced command member) all, sameRate.trans rate,
    sameCanvas.trans canvas⟩

/-- A run that never cuts short leads to clips within their bounds and lasting overlays. -/
theorem applyAll_lasting
    {commands : List (Command Extended)}
    (introduced : ∀ command ∈ commands, command.Introduces Clip.IsNew Overlay.IsNew)
    (fair : ∀ stage ∈ empty.stages supply commands, stage.1.cutsShort stage.2 = false)
    (ran : empty.applyAll supply commands = .ok (t, left)) :
    t.All Exact Overlay.Lasting := by
  refine applyAll_induction_stages ?_ (empty_all _ _) ran
  intro stage member next supply left all applied
  exact apply_lasting applied (introduced _ (mem_of_mem_stages member)) (fair stage member) all

/-! ## Files -/

/-- How a timeline comes back when it is written and read again. -/
structure Returns (t : Timeline Extended) (fresh : IdSupply) : Prop where
  /-- It is accepted, and comes back as its repair. -/
  accepted : load? fresh t.toJson = some (t.repair, fresh)
  /-- Its elements come back in their order, and all else as it was. -/
  settings :
    t.repair = { t with clips := t.clips.map Clip.repair, overlays := t.overlays.map Overlay.repair }
  /-- A clip comes back with another window at most, and with the end of its placement. -/
  clips : ∀ c ∈ t.clips,
    c.repair =
      { c with
        sourceIn := c.repair.sourceIn
        sourceOut := c.repair.sourceOut
        timelineEnd := c.repair.timelineEnd }
  /-- An overlay that is too short comes back with the shortest span. -/
  overlays : ∀ o ∈ t.overlays,
    o.repair = { o with timelineEnd := Scalar.max o.timelineEnd (o.timelineStart + minimumSpan) }
  /-- It comes back unchanged exactly if no clip is out of bounds and no overlay is too short. -/
  unchanged_iff :
    load? fresh t.toJson = some (t, fresh) ↔
      (∀ c ∈ t.clips, c.InBounds 0) ∧
        ∀ o ∈ t.overlays, o.timelineStart + minimumSpan ≤ o.timelineEnd

theorem load?_toJson_of_storable (all : t.All Clip.Storable Overlay.Storable)
    (rate : t.frameRate ≤ 240) (fresh : IdSupply) :
    load? fresh t.toJson = some (t.repair, fresh) := by
  have numbers : ∀ x ∈ t.numbers, Scalar.isFinite x = true :=
    forall_numbers (fun c member => (all.1 c member).isFinite)
      fun o member => (all.2 o member).presentable.isFinite (all.2 o member).valid
  have durations : ∀ c ∈ t.clips, 0 < c.sourceDuration := by
    intro c member
    have long := (all.1 c member).long
    rw [minimumSpan_eq] at long
    rw [zero_eq]
    rcases (fin_le_iff _ _).mp long with unbounded | ⟨length, isLength, above⟩
    · rw [unbounded]
      rfl
    · rw [isLength, fin_lt_fin]
      linarith
  obtain ⟨m, isRecord, held⟩ := heldBy_of_ofJson? (ofJson?_toJson numbers)
  rw [load?_of_heldBy (t.toJson_holdsFinite.of_members? isRecord) isRecord held rate durations
    (fun o member => (all.2 o member).named) fresh, repair_elementsRepaired]

theorem repair_eq_self_iff_of_storable (all : t.All Clip.Storable Overlay.Storable)
    (running : t.frameRate ≠ 0) (visible : t.canvas.width ≠ 0 ∧ t.canvas.height ≠ 0) :
    t.repair = t ↔
      (∀ c ∈ t.clips, c.InBounds 0) ∧
        ∀ o ∈ t.overlays, o.timelineStart + minimumSpan ≤ o.timelineEnd := by
  rw [repair_eq_self_iff]
  constructor
  · intro mended
    exact ⟨fun c member => (mended.clips c member).valid.toInBounds,
      fun o member => (mended.overlays o member).long⟩
  · rintro ⟨clips, overlays⟩
    refine ⟨running, visible, fun c member => ?_, fun o member => ?_⟩
    · exact Clip.repair_eq_self_iff.mp
        ((all.1 c member).repair_eq_self_iff.mpr (clips c member))
    · exact Overlay.repair_eq_self_iff.mp
        ((all.2 o member).repair_eq_self_iff.mpr (overlays o member))

/-- An edited timeline comes back as it is but for the halves that its cuts left too short. -/
theorem applyAll_returns
    {commands : List (Command Extended)}
    (introduced : ∀ command ∈ commands, command.Introduces Clip.IsNew Overlay.IsNew)
    (ran : empty.applyAll supply commands = .ok (t, left))
    (fresh : IdSupply) :
    t.Returns fresh ∧
      ((∀ stage ∈ empty.stages supply commands, stage.1.cutsShort stage.2 = false) →
        load? fresh t.toJson = some (t, fresh)) := by
  obtain ⟨all, rate, canvas⟩ := applyAll_storable introduced ran
  have running : t.frameRate ≠ 0 := by
    rw [rate]
    decide
  have visible : t.canvas.width ≠ 0 ∧ t.canvas.height ≠ 0 := by
    rw [canvas]
    decide
  have accepted : load? fresh t.toJson = some (t.repair, fresh) := by
    refine load?_toJson_of_storable all ?_ fresh
    rw [rate]
    decide
  have unchanged : load? fresh t.toJson = some (t, fresh) ↔
      (∀ c ∈ t.clips, c.InBounds 0) ∧
        ∀ o ∈ t.overlays, o.timelineStart + minimumSpan ≤ o.timelineEnd := by
    rw [accepted, Option.some.injEq, Prod.mk.injEq, and_iff_left rfl]
    exact repair_eq_self_iff_of_storable all running visible
  refine ⟨⟨accepted, repair_of_usable running visible, fun c member => (all.1 c member).repair_eq,
    fun o member => (all.2 o member).presentable.repair_eq (all.2 o member).valid, unchanged⟩, ?_⟩
  intro fair
  obtain ⟨clips, overlays⟩ := applyAll_lasting introduced fair ran
  refine unchanged.mpr ⟨fun c member => (Clip.Timed.valid (clips c member)).toInBounds,
    fun o member => (overlays o member).long⟩

/-- A caption is cut shortly before its end. -/
def lateCut : List (Command Extended) :=
  [.addText (.ofText ⟨7⟩ "caption" 0), .split ⟨7⟩ 9.95]

theorem lateCut_introduces :
    ∀ command ∈ lateCut, command.Introduces Clip.IsNew Overlay.IsNew := by
  intro command member
  rcases List.mem_pair.mp member with rfl | rfl
  · exact ⟨_, _, _, rfl⟩
  · trivial

theorem lateCut_leadsTo_short :
    empty.leadsTo (.ofSeed 1) lateCut
      (fun t => decide ((load? (.ofSeed 2) t.toJson).map (·.1) ≠ some t)) = true := by
  decide +kernel

/-- The second half of the caption comes back with another end. -/
theorem lateCut_not_unchanged :
    (∀ command ∈ lateCut, command.Introduces Clip.IsNew Overlay.IsNew) ∧
      ∃ t left, empty.applyAll (.ofSeed 1) lateCut = .ok (t, left) ∧
        load? (.ofSeed 2) t.toJson ≠ some (t, .ofSeed 2) := by
  refine ⟨lateCut_introduces, ?_⟩
  obtain ⟨t, left, ran, changed⟩ := leadsTo_iff.mp lateCut_leadsTo_short
  refine ⟨t, left, ran, fun same => of_decide_eq_true changed ?_⟩
  rw [same]
  rfl

/-- A film and a caption are cut in the middle. -/
def evenCut : List (Command Extended) :=
  [.addClip film, .addText (.ofText ⟨8⟩ "caption" 0), .split film.id 5, .split ⟨8⟩ 5]

theorem evenCut_leadsTo_four :
    empty.leadsTo (.ofSeed 1) evenCut (fun t => decide (t.ids.length = 4)) = true := by
  decide +kernel

/-- The halves come back as they are. -/
theorem evenCut_returns :
    ∃ t left, empty.applyAll (.ofSeed 1) evenCut = .ok (t, left) ∧ t.Returns (.ofSeed 2) ∧
      load? (.ofSeed 2) t.toJson = some (t, .ofSeed 2) := by
  have introduced : ∀ command ∈ evenCut, command.Introduces Clip.IsNew Overlay.IsNew := by
    intro command member
    simp only [evenCut, List.mem_cons, List.not_mem_nil, or_false] at member
    rcases member with rfl | rfl | rfl | rfl
    · exact ⟨_, _, _, _, _, _, rfl⟩
    · exact ⟨_, _, _, rfl⟩
    · trivial
    · trivial
  obtain ⟨t, left, ran, -⟩ := leadsTo_iff.mp evenCut_leadsTo_four
  have returns := applyAll_returns introduced ran (.ofSeed 2)
  exact ⟨t, left, ran, returns.1, returns.2 (by decide +kernel)⟩

end Timeline

end Montage

import Mathlib.Tactic.FieldSimp
import Mathlib.Tactic.Ring
import Montage.Proofs.Number.Exact

/-!
Contract: what the edits of a clip do to its times.

Owns: the four times of a clip as rationals, and the equation of every edit of a clip's edges on them.

Does **not** own: the bounds that the edits keep (`Montage.Proofs.Clip.Bounds`).

While its times are finite a clip is a window of the source and a placement, and every edit moves one
edge of either and then the other so that the speed stays. Requests may still be anything; they are
fitted between two bounds before they become a time.
-/

set_option autoImplicit false

namespace Montage

open Extended

/-- The times of a clip: its window of the source and its placement. -/
structure Times where
  sourceIn : ℚ
  sourceOut : ℚ
  start : ℚ
  stop : ℚ
  deriving DecidableEq, Repr

namespace Times

def sourceSpan (w : Times) : ℚ := w.sourceOut - w.sourceIn

def span (w : Times) : ℚ := w.stop - w.start

def speed (w : Times) : ℚ := w.sourceSpan / w.span

/-- Another window at the same speed, from the same start on. -/
def playing (w : Times) (sourceIn sourceOut : ℚ) : Times :=
  { sourceIn, sourceOut, start := w.start, stop := w.start + (sourceOut - sourceIn) / w.speed }

/-- Another start of the window at the same speed, up to the same stop; the placement is cut at zero. -/
def enteringAt (w : Times) (sourceIn : ℚ) : Times :=
  { w with sourceIn, start := max (w.stop - (w.sourceOut - sourceIn) / w.speed) 0 }

/-- The same window and length from another start on. -/
def movedTo (w : Times) (start : ℚ) : Times :=
  { w with start, stop := start + w.span }

/-- The source time that plays at zero if the window is opened that far. -/
def earliest (w : Times) : ℚ := w.sourceOut - w.stop * w.speed

/-- The start of the window that a request is fitted to. -/
def entry (w : Times) (request : Extended) : ℚ :=
  let latest := w.sourceOut - 1 / 10
  let wanted := fitted 0 (fin latest) request
  if wanted < w.earliest then min w.earliest latest else wanted

def sourceAt (w : Times) (position : ℚ) : ℚ :=
  w.sourceIn + (position - w.start) / w.span * w.sourceSpan

/-- The part of a clip before a position. -/
def upTo (w : Times) (position : ℚ) : Times :=
  { w with sourceOut := w.sourceAt position, stop := position }

/-- The part of a clip from a position on. -/
def onward (w : Times) (position : ℚ) : Times :=
  { w with sourceIn := w.sourceAt position, start := position }

/-- The longest window that does not move its start, where the source has the given limit. -/
def room (w : Times) (limit : Extended) : Extended :=
  Scalar.max (limit - fin w.sourceIn) (fin (1 / 10))

/-- The length of the window that a request for an end of the placement is fitted to. -/
def length (w : Times) (limit request : Extended) : ℚ :=
  fitted (1 / 10) (w.room limit) ((request - fin w.start) * fin w.speed)

theorem room_of_bounded (w : Times) (limit : ℚ) :
    w.room (fin limit) = fin (max (limit - w.sourceIn) (1 / 10)) := by
  rw [room, fin_sub_fin, max_fin]

theorem room_of_unbounded (w : Times) : w.room posInf = posInf := rfl

theorem le_room (w : Times) {bound : ℚ} {limit : Extended} (upper : fin bound ≤ limit) :
    fin (1 / 10) ≤ w.room limit := by
  rcases (fin_le_iff bound limit).mp upper with rfl | ⟨high, rfl, -⟩
  · exact fin_le_posInf _
  · rw [room_of_bounded, fin_le_fin]
    exact le_max_right _ _

theorem isFinite_room (w : Times) {bound : ℚ} {limit : Extended} (upper : fin bound ≤ limit) :
    Scalar.isFinite (w.room limit) = Scalar.isFinite limit := by
  rcases (fin_le_iff bound limit).mp upper with rfl | ⟨high, rfl, -⟩
  · rw [room_of_unbounded]
  · rw [room_of_bounded]
    rfl

end Times

namespace Clip

def withTimes (c : Clip Extended) (w : Times) : Clip Extended :=
  { c with
    sourceIn := fin w.sourceIn
    sourceOut := fin w.sourceOut
    timelineStart := fin w.start
    timelineEnd := fin w.stop }

/-- The times of a clip are finite, and these. -/
structure HasTimes (c : Clip Extended) (w : Times) : Prop where
  sourceIn : c.sourceIn = fin w.sourceIn
  sourceOut : c.sourceOut = fin w.sourceOut
  start : c.timelineStart = fin w.start
  stop : c.timelineEnd = fin w.stop

def times (c : Clip Extended) : List Extended :=
  [c.sourceIn, c.sourceOut, c.timelineStart, c.timelineEnd]

section Edits

variable {c : Clip Extended} {w : Times}

theorem exists_hasTimes (finite : ∀ x ∈ c.times, Scalar.isFinite x = true) :
    ∃ w, c.HasTimes w := by
  simp only [times, List.mem_cons, List.not_mem_nil, or_false, forall_eq_or_imp, forall_eq,
    isFinite_iff] at finite
  obtain ⟨⟨sourceIn, isIn⟩, ⟨sourceOut, isOut⟩, ⟨start, isStart⟩, ⟨stop, isStop⟩⟩ := finite
  exact ⟨⟨sourceIn, sourceOut, start, stop⟩, ⟨isIn, isOut, isStart, isStop⟩⟩

theorem HasTimes.sourceSpan (times : c.HasTimes w) : c.sourceSpan = fin w.sourceSpan := by
  unfold Clip.sourceSpan Times.sourceSpan
  rw [times.sourceIn, times.sourceOut, fin_sub_fin]

theorem HasTimes.timelineSpan (times : c.HasTimes w) : c.timelineSpan = fin w.span := by
  unfold Clip.timelineSpan Times.span
  rw [times.start, times.stop, fin_sub_fin]

theorem HasTimes.speed (times : c.HasTimes w) (placed : 0 < w.span) : c.speed = fin w.speed := by
  unfold Clip.speed Times.speed
  rw [times.timelineSpan, times.sourceSpan, zero_eq, if_pos ((fin_lt_fin _ _).mpr placed),
    fin_div_fin _ _ placed.ne']

/-- The request for a start of the window is fitted, and the placement follows. -/
theorem trimStart_eq (times : c.HasTimes w) (placed : 0 < w.span) (plays : 0 < w.speed)
    {request : Extended} (number : Scalar.isNaN request = false) :
    c.trimStart request = c.withTimes (w.enteringAt (w.entry request)) := by
  have wanted : Scalar.max (Scalar.min request (fin (w.sourceOut - 1 / 10))) (fin 0) =
      fin (fitted 0 (fin (w.sourceOut - 1 / 10)) request) :=
    max_min_eq_fitted ((fin_le_fin _ _).mpr le_rfl) number (Or.inr rfl)
  unfold trimStart
  simp only [number, Bool.false_eq_true, if_false, times.speed placed, times.sourceOut, times.stop,
    minimumSpan_eq, zero_eq, fin_sub_fin, fin_mul_fin, wanted, min_fin, ite_fin_lt,
    fin_div_fin _ _ plays.ne', max_fin]
  rfl

theorem trimStart_of_isNaN {request : Extended} (number : Scalar.isNaN request = true) :
    c.trimStart request = c := by
  unfold trimStart
  rw [if_pos number]

/-- Whether an end can be met says what is needed to fit it. -/
theorem acceptsEnd_iff (request : Extended) :
    c.acceptsEnd request = true ↔ Scalar.isNaN request = false ∧
      (Scalar.isFinite request = true ∨ Scalar.isFinite c.sourceLimit = true) := by
  simp [acceptsEnd]

/-- The request for an end of the window is fitted, and the placement follows. -/
theorem trimEnd_eq (times : c.HasTimes w) (placed : 0 < w.span) (plays : 0 < w.speed) {bound : ℚ}
    (upper : fin bound ≤ c.sourceLimit) {request : Extended}
    (accepted : c.acceptsEnd request = true) :
    c.trimEnd request = c.withTimes
      (w.playing w.sourceIn (fitted (w.sourceIn + 1 / 10) c.sourceLimit request)) := by
  obtain ⟨number, meetable⟩ := (acceptsEnd_iff request).mp accepted
  unfold trimEnd
  simp only [accepted, if_true, times.speed placed, times.sourceIn, times.start, minimumSpan_eq,
    fin_add_fin, max_min_eq_fitted upper number meetable, fin_sub_fin, fin_div_fin _ _ plays.ne']
  rfl

theorem trimEnd_of_not_acceptsEnd {request : Extended} (refused : c.acceptsEnd request = false) :
    c.trimEnd request = c := by
  simp [trimEnd, refused]

/-- A window opened to the whole asset; that of an unbounded source keeps its length. -/
theorem clearTrim_eq (times : c.HasTimes w) (placed : 0 < w.span) (plays : 0 < w.speed) {bound : ℚ}
    (upper : fin bound ≤ c.sourceLimit) :
    (∃ limit, c.sourceLimit = fin limit ∧
        c.clearTrim = c.withTimes (w.playing 0 (max limit (1 / 10)))) ∨
      (c.sourceLimit = posInf ∧ c.clearTrim = c.withTimes (w.playing 0 w.sourceSpan)) := by
  rcases (fin_le_iff bound c.sourceLimit).mp upper with unbounded | ⟨limit, bounded, -⟩
  · refine Or.inr ⟨unbounded, ?_⟩
    have infinite : Scalar.isFinite c.sourceLimit = false := by rw [unbounded]; rfl
    unfold clearTrim
    simp only [infinite, Bool.false_eq_true, if_false, times.speed placed, times.sourceSpan,
      times.start, zero_eq, fin_div_fin _ _ plays.ne', fin_add_fin, withTimes, Times.playing, sub_zero]
  · refine Or.inl ⟨limit, bounded, ?_⟩
    have finite : Scalar.isFinite c.sourceLimit = true := by rw [bounded]; rfl
    have duration : c.sourceDuration = fin limit := by
      rw [← bounded]
      unfold sourceLimit at bounded ⊢
      cases kind : c.kind with
      | image =>
          simp only [kind, one_eq, zero_eq, fin_div_zero one_pos] at bounded
          cases bounded
      | video => rfl
      | audio => rfl
    unfold clearTrim
    simp only [finite, if_true, duration, minimumSpan_eq, max_fin, times.speed placed, times.start,
      zero_eq, fin_div_fin _ _ plays.ne', fin_add_fin, withTimes, Times.playing, sub_zero]

/-- The request for an end of the placement is fitted as a length of the window. -/
theorem resizeRight_eq (times : c.HasTimes w) (placed : 0 < w.span) (plays : 0 < w.speed)
    {bound : ℚ} (upper : fin bound ≤ c.sourceLimit) {request : Extended}
    (accepted : c.acceptsEnd request = true) :
    c.resizeRight request =
      c.withTimes (w.playing w.sourceIn (w.sourceIn + w.length c.sourceLimit request)) := by
  obtain ⟨number, meetable⟩ := (acceptsEnd_iff request).mp accepted
  obtain ⟨sameNumber, sameFinite⟩ := rescaled_isNaN request w.start plays
  have fit : Scalar.max (Scalar.min ((request - fin w.start) * fin w.speed) (w.room c.sourceLimit))
      (fin (1 / 10)) = fin (w.length c.sourceLimit request) := by
    apply max_min_eq_fitted (w.le_room upper) (sameNumber.trans number)
    rw [sameFinite, w.isFinite_room upper]
    exact meetable
  unfold Times.room at fit
  unfold resizeRight
  simp only [accepted, if_true, times.speed placed, times.sourceIn, times.start, minimumSpan_eq,
    fit, fin_add_fin, fin_div_fin _ _ plays.ne']
  simp only [withTimes, Times.playing, add_sub_cancel_left]

theorem resizeRight_of_not_acceptsEnd {request : Extended}
    (refused : c.acceptsEnd request = false) : c.resizeRight request = c := by
  simp [resizeRight, refused]

theorem reposition_eq (times : c.HasTimes w) (start : ℚ) :
    c.reposition (fin start) = c.withTimes (w.movedTo (max start 0)) := by
  unfold reposition
  simp only [isFinite_fin, if_true, zero_eq, max_fin, times.timelineSpan, fin_add_fin]
  simp only [withTimes, Times.movedTo, times.sourceIn, times.sourceOut]

theorem reposition_of_not_isFinite {start : Extended} (infinite : Scalar.isFinite start = false) :
    c.reposition start = c := by
  simp [reposition, infinite]

/-- A clip is cut at a finite position if that lies inside it and both windows stay long enough. -/
theorem halves?_fin (times : c.HasTimes w) (placed : 0 < w.span) (first second : Identity)
    (cut : ℚ) :
    c.halves? first second (fin cut) =
      if (w.start < cut ∧ cut < w.stop) ∧ 1 / 10 - tolerance ≤ (w.upTo cut).sourceSpan ∧
          1 / 10 - tolerance ≤ (w.onward cut).sourceSpan then
        some ({ c.withTimes (w.upTo cut) with id := first },
          { c.withTimes (w.onward cut) with id := second })
      else none := by
  have source : fin w.sourceIn + fin (cut - w.start) / fin w.span * fin w.sourceSpan =
      fin (w.sourceAt cut) := by
    rw [fin_div_fin _ _ placed.ne', fin_mul_fin, fin_add_fin, Times.sourceAt]
  unfold halves?
  simp only [times.start, times.stop, times.sourceIn, times.sourceOut, times.timelineSpan,
    times.sourceSpan, fin_sub_fin, source, minimumSpan_eq, spanTolerance_eq, fin_lt_fin]
  by_cases inside : w.start < cut ∧ cut < w.stop
  · by_cases long : 1 / 10 - tolerance ≤ (w.upTo cut).sourceSpan ∧
        1 / 10 - tolerance ≤ (w.onward cut).sourceSpan
    · have kept : ¬ (w.sourceAt cut - w.sourceIn < 1 / 10 - tolerance ∨
          w.sourceOut - w.sourceAt cut < 1 / 10 - tolerance) :=
        not_or.mpr ⟨not_lt.mpr long.1, not_lt.mpr long.2⟩
      rw [if_pos inside, if_neg kept, if_pos ⟨inside, long⟩]
      rfl
    · have refused : w.sourceAt cut - w.sourceIn < 1 / 10 - tolerance ∨
          w.sourceOut - w.sourceAt cut < 1 / 10 - tolerance := by
        rcases not_and_or.mp long with before | after
        · exact Or.inl (not_le.mp before)
        · exact Or.inr (not_le.mp after)
      rw [if_pos inside, if_pos refused, if_neg fun both => long both.2]
  · rw [if_neg inside, if_neg fun both => inside both.1]

/-- A clip is cut only at a finite position inside it, into the parts before and from there on. -/
theorem halves?_eq_some (times : c.HasTimes w) (placed : 0 < w.span) {first second : Identity}
    {position : Extended} {a b : Clip Extended}
    (halves : c.halves? first second position = some (a, b)) :
    ∃ cut, position = fin cut ∧ w.start < cut ∧ cut < w.stop ∧
      1 / 10 - tolerance ≤ (w.upTo cut).sourceSpan ∧
      1 / 10 - tolerance ≤ (w.onward cut).sourceSpan ∧
      a = { c.withTimes (w.upTo cut) with id := first } ∧
      b = { c.withTimes (w.onward cut) with id := second } := by
  by_cases inside : c.timelineStart < position ∧ position < c.timelineEnd
  · rw [times.start, times.stop] at inside
    obtain ⟨cut, rfl, -⟩ := eq_fin_of_between inside.1 inside.2
    rw [halves?_fin times placed] at halves
    split at halves
    · rename_i fits
      obtain ⟨rfl, rfl⟩ := Prod.mk.inj (Option.some.inj halves)
      exact ⟨cut, rfl, fits.1.1, fits.1.2, fits.2.1, fits.2.2, rfl, rfl⟩
    · cases halves
  · unfold halves? at halves
    rw [if_neg inside] at halves
    cases halves

end Edits

end Clip

end Montage

import Montage.Proofs.Clip.Retiming
import Montage.Proofs.Edit.Bounds
import Montage.Proofs.Edit.Place

/-!
Contract: the edits of a clip's times, on the timeline that the clip stands on.

Owns:
- runs of such edits of one clip;
- that trimming and resizing leave what stays where it is, and that a clip can be opened again whole;
- that moving the right edge in timeline time and in source time is the same.

Does **not** own: what an edit makes of the clip (`Montage.Proofs.Clip.Retiming`).
-/

set_option autoImplicit false

namespace Montage.Timeline

open Extended

variable {t : Timeline Extended} {id : Identity} {before after : List (Clip Extended)}
  {c : Clip Extended}

theorem HasClip.apply_retiming (place : t.HasClip id before c after) (supply : IdSupply)
    (edit : Retiming Extended) :
    t.apply supply (edit.command id) =
      .ok ({ t with clips := before ++ [c.retimed edit] ++ after }, supply) := by
  have drawn : (edit.command id).drawn = 0 := by cases edit <;> rfl
  rw [place.apply_eq (edit.command_target? id) (edit.command_clipParts? id supply c), drawn]
  rfl

/-- A run of edits of a clip leaves the clip after all of them in its place. -/
theorem HasClip.applyAll_retimings (place : t.HasClip id before c after) (supply : IdSupply)
    (edits : List (Retiming Extended)) :
    t.applyAll supply (edits.map (Retiming.command id)) =
      .ok ({ t with clips := before ++ [edits.foldl Clip.retimed c] ++ after }, supply) := by
  induction edits generalizing t c with
  | nil =>
      have unchanged : before ++ [c] ++ after = t.clips := by
        rw [place.place, List.append_assoc, List.singleton_append]
      simp only [List.map_nil, applyAll, List.foldl_nil, unchanged]
  | cons edit rest inductionHypothesis =>
      have meant : ((c.retimed edit).id == id) = true := by
        rw [c.retimed_id]
        exact place.meant
      have retimed : HasClip { t with clips := before ++ [c.retimed edit] ++ after } id before
          (c.retimed edit) after := place.replaced meant
      simp only [List.map_cons, applyAll, place.apply_retiming supply edit, List.foldl_cons]
      exact inductionHypothesis retimed

/-- Trimming or resizing a clip slides nothing of it that stays, and opening it after any edits of its
times brings the whole source back at the old speed. -/
theorem retimings_keep_place (found : t.clip? id = some c) (valid : c.Valid) (supply : IdSupply) :
    ∃ before after, t.HasClip id before c after ∧
      (∀ request, ∃ d,
        t.apply supply (.trimStart id request) =
            .ok ({ t with clips := before ++ [d] ++ after }, supply) ∧
          c.StartTrimmed request d) ∧
      (∀ request, ∃ d,
        t.apply supply (.trimEnd id request) =
            .ok ({ t with clips := before ++ [d] ++ after }, supply) ∧
          c.EndMoved d ∧
          (Scalar.isFinite request = true →
            IsNearest (c.sourceIn + minimumSpan) c.sourceLimit request d.sourceOut)) ∧
      (∀ request, ∃ d,
        t.apply supply (.resizeRight id request) =
            .ok ({ t with clips := before ++ [d] ++ after }, supply) ∧
          c.EndMoved d) ∧
      ∀ edits : List (Retiming Extended), ∃ d opened,
        t.applyAll supply (edits.map (Retiming.command id)) =
            .ok ({ t with clips := before ++ [d] ++ after }, supply) ∧
          d.speed = c.speed ∧
          t.applyAll supply ((edits ++ [Retiming.clearTrim]).map (Retiming.command id)) =
            .ok ({ t with clips := before ++ [opened] ++ after }, supply) ∧
          opened.speed = c.speed ∧
          (c.kind ≠ .image → Scalar.isFinite c.sourceDuration = true →
            opened.sourceIn = 0 ∧ opened.sourceOut = c.sourceDuration) := by
  obtain ⟨before, after, place⟩ := exists_hasClip found
  refine ⟨before, after, place, fun request => ?_, fun request => ?_, fun request => ?_,
    fun edits => ?_⟩
  · exact ⟨c.trimStart request, place.apply_retiming supply (.trimStart request),
      valid.trimStart_startTrimmed request⟩
  · exact ⟨c.trimEnd request, place.apply_retiming supply (.trimEnd request),
      valid.trimEnd_endMoved request, valid.trimEnd_isNearest⟩
  · exact ⟨c.resizeRight request, place.apply_retiming supply (.resizeRight request),
      valid.resizeRight_endMoved request⟩
  · have alike := valid.playsAlike_foldl edits
    have opens := alike.trans (alike.valid.playsAlike_retimed .clearTrim)
    have openedLast : (edits ++ [Retiming.clearTrim]).foldl Clip.retimed c =
        (edits.foldl Clip.retimed c).clearTrim := by
      rw [List.foldl_append]
      rfl
    have applied := place.applyAll_retimings supply (edits ++ [.clearTrim])
    rw [openedLast] at applied
    refine ⟨_, _, place.applyAll_retimings supply edits, alike.speed, applied, opens.speed, ?_⟩
    intro moving known
    rw [← alike.duration]
    exact alike.valid.clearTrim_window (alike.kind ▸ moving) (alike.duration ▸ known)

/-- A film is trimmed, moved and opened again. -/
theorem film_retimings_keep_place :
    ∃ before after d opened,
      ({ empty with clips := [film] } : Timeline Extended).apply (.ofSeed 1)
          (.trimStart film.id 3) =
          .ok ({ empty with clips := before ++ [d] ++ after }, .ofSeed 1) ∧
        film.StartTrimmed 3 d ∧
        ({ empty with clips := [film] } : Timeline Extended).applyAll (.ofSeed 1)
          ([.trimStart film.id 3, .reposition film.id 20, .trimEnd film.id posInf,
            .clearTrim film.id]) =
          .ok ({ empty with clips := before ++ [opened] ++ after }, .ofSeed 1) ∧
        opened.speed = film.speed ∧
        opened.sourceIn = 0 ∧
        opened.sourceOut = film.sourceDuration := by
  have found : ({ empty with clips := [film] } : Timeline Extended).clip? film.id = some film := rfl
  obtain ⟨before, after, -, started, -, -, run⟩ :=
    retimings_keep_place found (Clip.ofAsset_valid _ _ _ _ _ _) (.ofSeed 1)
  obtain ⟨d, applied, trimmed⟩ := started 3
  obtain ⟨-, opened, -, -, ran, speed, whole⟩ := run [.trimStart 3, .reposition 20, .trimEnd posInf]
  obtain ⟨sourceIn, sourceOut⟩ := whole (by decide) (by decide +kernel)
  exact ⟨before, after, d, opened, applied, trimmed, ran, speed, sourceIn, sourceOut⟩

/-- An end of the placement and the source time that plays there are one request: where the right edge
is moved to either of them, the same timeline comes of it. -/
theorem apply_resizeRight_eq_trimEnd (found : t.clip? id = some c)
    (finite : ∀ x ∈ c.times, Scalar.isFinite x = true) (long : 0 < c.sourceSpan)
    (placed : 0 < c.timelineSpan) (number : Scalar.isNaN c.sourceLimit = false)
    (supply : IdSupply) (stop : Extended) :
    ∃ next,
      t.apply supply (.resizeRight id stop) = .ok (next, supply) ∧
        t.apply supply (.trimEnd id (c.sourceIn + (stop - c.timelineStart) * c.speed)) =
          .ok (next, supply) := by
  obtain ⟨before, after, place⟩ := exists_hasClip found
  obtain ⟨w, times⟩ := Clip.exists_hasTimes finite
  rw [times.sourceSpan, zero_eq, fin_lt_fin] at long
  rw [times.timelineSpan, zero_eq, fin_lt_fin] at placed
  refine ⟨_, place.apply_retiming supply (.resizeRight stop), ?_⟩
  have trimmed := place.apply_retiming supply
    (.trimEnd (c.sourceIn + (stop - c.timelineStart) * c.speed))
  simp only [Clip.retimed, times.trimEnd_eq_resizeRight long placed number stop] at trimmed
  exact trimmed

/-- The rest of this source is shorter than the shortest window. -/
theorem apply_resizeRight_eq_trimEnd_outrun :
    ∃ next,
      ({ empty with clips := [{ film with sourceDuration := 0 }] } : Timeline Extended).apply
          (.ofSeed 1) (.resizeRight film.id posInf) = .ok (next, .ofSeed 1) ∧
        ({ empty with clips := [{ film with sourceDuration := 0 }] } : Timeline Extended).apply
          (.ofSeed 1) (.trimEnd film.id (film.sourceIn + (posInf - film.timelineStart) * film.speed)) =
          .ok (next, .ofSeed 1) :=
  apply_resizeRight_eq_trimEnd (c := { film with sourceDuration := 0 }) rfl (by decide +kernel)
    (by decide +kernel) (by decide +kernel) rfl (.ofSeed 1) posInf

end Montage.Timeline

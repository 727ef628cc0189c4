import Montage.Proofs.Clip.Mapping
import Montage.Proofs.Edit.Bounds
import Montage.Proofs.Edit.Place

/-!
Contract: cutting a clip in two changes nothing that plays.

Owns:
- what the two halves of a clip are (`Clip.IsCut`);
- the positions at which a clip can be cut (`Clip.CanCut`), and the timeline that results.

Does **not** own: the cut of an overlay, which has no source (`Montage.Proofs.Overlay.Bounds`).

The cut is computed as a share of the window and is read back through the map of each half. All three
agree because the halves lie on one line with the whole clip.
-/

set_option autoImplicit false

namespace Montage

open Extended

/-! ## Fresh identities -/

namespace IdSupply

def upcoming (supply : IdSupply) (count : Nat) : List Identity :=
  (List.range count).map fun n => (supply.advance n).next

/-- The next identities of a supply differ from each other and from those in use. -/
structure IsFresh (supply : IdSupply) (count : Nat) (used : List Identity) : Prop where
  distinct : (supply.upcoming count).Nodup
  unused : ∀ i ∈ supply.upcoming count, i ∉ used

theorem upcoming_add (supply : IdSupply) (first rest : Nat) :
    supply.upcoming (first + rest) =
      supply.upcoming first ++ (supply.advance first).upcoming rest := by
  simp only [upcoming, List.range_add, List.map_append, List.map_map]
  simp [Function.comp_def, advance, Nat.add_assoc]

/-- What is left of a fresh supply is fresh beside the identities that were taken. -/
theorem IsFresh.advance
    {supply : IdSupply}
    {first rest : Nat}
    {used used' : List Identity}
    (fresh : supply.IsFresh (first + rest) used)
    (taken : ∀ i ∈ used', i ∈ used ∨ i ∈ supply.upcoming first) :
    (supply.advance first).IsFresh rest used' := by
  have distinct := fresh.distinct
  have unused := fresh.unused
  rw [upcoming_add] at distinct unused
  obtain ⟨-, restDistinct, apart⟩ := List.nodup_append.mp distinct
  refine ⟨restDistinct, ?_⟩
  intro i later present
  rcases taken i present with old | new
  · exact unused i (List.mem_append_right _ later) old
  · exact apart i new i later rfl

end IdSupply

namespace Clip

/-! ## The halves of a clip -/

/-- Two clips are the halves of a clip at a position: they share its placement and its window there, they
are the same clip otherwise, and each plays what the clip plays. -/
structure IsCut (c : Clip Extended) (position : Extended) (a b : Clip Extended) : Prop where
  first : a = { c with id := a.id, sourceOut := a.sourceOut, timelineEnd := position }
  second : b = { c with id := b.id, sourceIn := a.sourceOut, timelineStart := position }
  speed : a.speed = c.speed ∧ b.speed = c.speed
  plays :
    ∀ half ∈ [a, b], ∀ p, half.timelineStart ≤ p → p ≤ half.timelineEnd →
      ∃ source, half.sourceAt? p = some source ∧ c.sourceAt? p = some source

/-- Whether a clip can be cut at a position: it lies inside the placement, and what plays there leaves
enough of the window on both sides. -/
def CanCut (c : Clip Extended) (position : Extended) : Prop :=
  c.timelineStart < position ∧ position < c.timelineEnd ∧
    ∃ cut, c.sourceAt? position = some cut ∧
      minimumSpan - spanTolerance ≤ cut - c.sourceIn ∧
      minimumSpan - spanTolerance ≤ c.sourceOut - cut

section Halves

variable {c : Clip Extended} {w : Times}

/-- A part of a clip plays what the clip plays, if its times lie on the clip's line. -/
theorem HasTimes.plays_part
    (times : c.HasTimes w)
    (window : w.sourceIn ≤ w.sourceOut)
    (running : w.start < w.stop)
    {part : Clip Extended}
    {w' : Times}
    (partTimes : part.HasTimes w')
    (partWindow : w'.sourceIn ≤ w'.sourceOut)
    (partRunning : w'.start < w'.stop)
    (inside : w.start ≤ w'.start ∧ w'.stop ≤ w.stop)
    (onLine : ∀ p, w'.sourceAt p = w.sourceAt p)
    {p : Extended}
    (after : part.timelineStart ≤ p)
    (before : p ≤ part.timelineEnd) :
    ∃ source, part.sourceAt? p = some source ∧ c.sourceAt? p = some source := by
  obtain ⟨q, rfl, later, earlier⟩ := partTimes.exists_position after before
  refine ⟨_, partTimes.sourceAt?_fin partWindow partRunning later earlier, ?_⟩
  rw [onLine]
  exact times.sourceAt?_fin window running (inside.1.trans later) (earlier.trans inside.2)

/-- The two halves that a cut makes of a clip are its halves. -/
theorem HasTimes.isCut
    (times : c.HasTimes w)
    (window : w.sourceIn < w.sourceOut)
    {cut : ℚ}
    (after : w.start < cut)
    (before : cut < w.stop)
    (first second : Identity) :
    c.IsCut (fin cut) { c.withTimes (w.upTo cut) with id := first }
      { c.withTimes (w.onward cut) with id := second } := by
  have running := after.trans before
  obtain ⟨lower, upper⟩ := Times.sourceAt_mem window.le running after.le before.le
  have firstTimes : HasTimes { c.withTimes (w.upTo cut) with id := first } (w.upTo cut) :=
    ⟨rfl, rfl, rfl, rfl⟩
  have secondTimes : HasTimes { c.withTimes (w.onward cut) with id := second } (w.onward cut) :=
    ⟨rfl, rfl, rfl, rfl⟩
  constructor
  · simp only [withTimes, Times.upTo, ← times.sourceIn, ← times.start]
  · simp only [withTimes, Times.upTo, Times.onward, ← times.sourceOut, ← times.stop]
  · have placed : 0 < w.span := sub_pos.mpr running
    have firstPlaced : 0 < (w.upTo cut).span := sub_pos.mpr after
    have secondPlaced : 0 < (w.onward cut).span := sub_pos.mpr before
    rw [firstTimes.speed firstPlaced, secondTimes.speed secondPlaced, times.speed placed,
      Times.upTo_speed after, Times.onward_speed running before]
    exact ⟨rfl, rfl⟩
  · intro half member p later earlier
    rcases List.mem_pair.mp member with rfl | rfl
    · exact times.plays_part window.le running firstTimes lower after ⟨le_rfl, before.le⟩
        (Times.upTo_sourceAt after) later earlier
    · exact times.plays_part window.le running secondTimes upper before ⟨after.le, le_rfl⟩
        (Times.onward_sourceAt running before) later earlier

/-- A clip can be cut at a finite position exactly if the cut there is accepted. -/
theorem HasTimes.canCut_iff
    (times : c.HasTimes w)
    (window : w.sourceIn < w.sourceOut)
    (cut : ℚ) :
    c.CanCut (fin cut) ↔
      (w.start < cut ∧ cut < w.stop) ∧ 1 / 10 - tolerance ≤ (w.upTo cut).sourceSpan ∧
        1 / 10 - tolerance ≤ (w.onward cut).sourceSpan := by
  have source (after : w.start < cut) (before : cut < w.stop) :
      c.sourceAt? (fin cut) = some (fin (w.sourceAt cut)) :=
    times.sourceAt?_fin window.le (after.trans before) after.le before.le
  unfold CanCut
  rw [times.start, times.stop, times.sourceIn, times.sourceOut, minimumSpan_eq, spanTolerance_eq,
    fin_sub_fin, fin_lt_fin, fin_lt_fin]
  constructor
  · rintro ⟨after, before, x, isSource, long, rest⟩
    obtain rfl := Option.some.inj (isSource.symm.trans (source after before))
    rw [fin_sub_fin, fin_le_fin] at long rest
    exact ⟨⟨after, before⟩, long, rest⟩
  · rintro ⟨⟨after, before⟩, long, rest⟩
    refine ⟨after, before, _, source after before, ?_, ?_⟩
    · rw [fin_sub_fin, fin_le_fin]
      exact long
    · rw [fin_sub_fin, fin_le_fin]
      exact rest

/-- A clip is cut exactly where it can be, and then into its halves. -/
theorem HasTimes.halves?_cases
    (times : c.HasTimes w)
    (window : w.sourceIn < w.sourceOut)
    (running : w.start < w.stop)
    (first second : Identity)
    (position : Extended) :
    (¬ c.CanCut position ∧ c.halves? first second position = none) ∨
      (c.CanCut position ∧ ∃ a b, c.halves? first second position = some (a, b) ∧
        c.IsCut position a b ∧ a.id = first ∧ b.id = second) := by
  have placed : 0 < w.span := sub_pos.mpr running
  by_cases inside : c.timelineStart < position ∧ position < c.timelineEnd
  · obtain ⟨cut, rfl, after, before⟩ :=
      eq_fin_of_between (times.start ▸ inside.1) (times.stop ▸ inside.2)
    rw [times.canCut_iff window, halves?_fin times placed]
    split
    · rename_i fits
      exact Or.inr ⟨fits, _, _, rfl, times.isCut window after before first second, rfl, rfl⟩
    · rename_i short
      exact Or.inl ⟨short, rfl⟩
  · refine Or.inl ⟨fun can => inside ⟨can.1, can.2.1⟩, ?_⟩
    unfold halves?
    rw [if_neg inside]

end Halves

end Clip

namespace Timeline

/-! ## Cuts on a timeline -/

/-- The halves of a clip bring the identities that were taken; what is left stays fresh. -/
theorem ids_split
    {α : Type}
    {t : Timeline α}
    {before after : List (Clip α)}
    {c a b : Clip α}
    (place : t.clips = before ++ [c] ++ after)
    {supply : IdSupply}
    (drawn : [a.id, b.id] = supply.upcoming 2)
    {count : Nat}
    (fresh : supply.IsFresh (2 + count) t.ids) :
    a.id ≠ b.id ∧ a.id ∉ t.ids ∧ b.id ∉ t.ids ∧
      (supply.advance 2).IsFresh count
        ({ t with clips := before ++ [a, b] ++ after } : Timeline α).ids := by
  have distinct := fresh.distinct
  have unused := fresh.unused
  rw [IdSupply.upcoming_add, ← drawn] at distinct unused
  have apart : a.id ≠ b.id := by simpa using (List.nodup_append.mp distinct).1
  refine ⟨apart, unused _ (by simp), unused _ (by simp), fresh.advance ?_⟩
  intro i member
  rw [← drawn]
  simp only [ids, place, List.map_append, List.map_cons, List.map_nil, List.mem_append,
    List.mem_cons, List.not_mem_nil, or_false] at member ⊢
  tauto

/-- A film of ten seconds that plays at double speed. -/
def quickFilm : Clip Extended :=
  { film with id := ⟨8⟩, timelineEnd := 5 }

/-- A clip can be cut exactly inside its placement where what plays leaves enough of the window on both
sides. Its halves then stand in its place, with the next two identities of the supply. -/
theorem apply_split_isCut
    {t : Timeline Extended}
    {id : Identity}
    {c : Clip Extended}
    (found : t.clip? id = some c)
    (finite : ∀ x ∈ c.times, Scalar.isFinite x = true)
    (window : c.sourceIn < c.sourceOut)
    (running : c.timelineStart < c.timelineEnd)
    (supply : IdSupply)
    (position : Extended) :
    ((∃ next left, t.apply supply (.split id position) = .ok (next, left)) ↔ c.CanCut position) ∧
      ∀ next left, t.apply supply (.split id position) = .ok (next, left) →
        ∃ before after a b,
          t.clips = before ++ [c] ++ after ∧ (∀ d ∈ before, d.id ≠ id) ∧
          next = { t with clips := before ++ [a, b] ++ after } ∧ c.IsCut position a b ∧
          [a.id, b.id] = supply.upcoming 2 ∧ left = supply.advance 2 ∧
          ∀ count, supply.IsFresh (2 + count) t.ids →
            a.id ≠ b.id ∧ a.id ∉ t.ids ∧ b.id ∉ t.ids ∧ left.IsFresh count next.ids := by
  obtain ⟨w, times⟩ := Clip.exists_hasTimes finite
  rw [times.sourceIn, times.sourceOut, fin_lt_fin] at window
  rw [times.start, times.stop, fin_lt_fin] at running
  obtain ⟨before, after, place⟩ := exists_hasClip found
  have applied : t.apply supply (.split id position) =
      (t.split id supply.next (supply.advance 1).next position).map
        fun next => (next, supply.advance 2) := rfl
  rw [applied, place.split_eq]
  rcases times.halves?_cases window running supply.next (supply.advance 1).next position with
    ⟨cannot, refused⟩ | ⟨can, a, b, halves, isCut, isFirst, isSecond⟩
  · rw [refused]
    refine ⟨iff_of_false ?_ cannot, ?_⟩
    · rintro ⟨next, left, accepted⟩
      cases accepted
    · intro next left accepted
      cases accepted
  · rw [halves]
    refine ⟨iff_of_true ⟨_, _, rfl⟩ can, ?_⟩
    intro next left accepted
    cases accepted
    have drawn : [a.id, b.id] = supply.upcoming 2 := by
      rw [isFirst, isSecond]
      rfl
    refine ⟨before, after, a, b, by simpa using place.place,
      fun d member => by simpa using place.others d member, rfl, isCut, drawn, rfl, ?_⟩
    exact fun count fresh => ids_split (by simpa using place.place) drawn fresh

/-- A film at double speed is cut in the middle, behind another film. -/
theorem apply_split_quickFilm :
    ∃ next left before after a b,
      ({ empty with clips := [film, quickFilm] } : Timeline Extended).apply (.ofSeed 1)
          (.split quickFilm.id (5 / 2)) = .ok (next, left) ∧
        [film, quickFilm] = before ++ [quickFilm] ++ after ∧ quickFilm.IsCut (5 / 2) a b ∧
        a.id ≠ b.id ∧ left.IsFresh 1 next.ids := by
  have found : ({ empty with clips := [film, quickFilm] } : Timeline Extended).clip? quickFilm.id =
      some quickFilm := by decide +kernel
  have fresh : (IdSupply.ofSeed 1).IsFresh (2 + 1)
      ({ empty with clips := [film, quickFilm] } : Timeline Extended).ids :=
    ⟨by decide +kernel, by decide +kernel⟩
  have can : quickFilm.CanCut (5 / 2) :=
    ⟨by decide +kernel, by decide +kernel, 5, by decide +kernel, by decide +kernel, by decide +kernel⟩
  obtain ⟨accepted, cuts⟩ := apply_split_isCut found (by decide +kernel) (by decide +kernel)
    (by decide +kernel) (.ofSeed 1) (5 / 2)
  obtain ⟨next, left, applied⟩ := accepted.mpr can
  obtain ⟨before, after, a, b, place, -, -, isCut, -, -, isFresh⟩ := cuts next left applied
  obtain ⟨apart, -, -, leftFresh⟩ := isFresh 1 fresh
  exact ⟨next, left, before, after, a, b, applied, place, isCut, apart, leftFresh⟩

end Timeline

end Montage

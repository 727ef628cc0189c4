import Montage.Proofs.Clip.Parts
import Montage.Proofs.Overlay.Bounds

/-!
Contract: the bounds of a timeline's elements, through single commands and through whole runs.

Owns:
- that every command but a cut keeps all elements within their bounds;
- that a run keeps all clips within their bounds exactly if none of its commands overreaches;
- what every run keeps (`Timeline.applyAll_sound`).

Does **not** own: what becomes of one clip (`Montage.Proofs.Clip.Parts`) or one overlay
(`Montage.Proofs.Overlay.Bounds`).
-/

set_option autoImplicit false

namespace Montage.Timeline

open Extended

variable {t next : Timeline Extended} {supply left : IdSupply} {command : Command Extended}

/-! ## Single commands -/

/-- A property of times that a command keeps, it keeps of all clips. -/
theorem apply_timed
    {P : Extended → Times → Prop}
    (plays : ∀ limit w, P limit w → w.Placed ∧ 0 < w.speed)
    (moves : ∀ limit w start, 0 ≤ start → P limit w → P limit (w.movedTo start))
    (keeps :
      ∀ id c w w', command.target? = some id → t.clip? id = some c → c.HasTimes w →
        fin (1 / 10) ≤ c.sourceLimit → P c.sourceLimit w →
        Times.Becomes c.sourceLimit w command w' → P c.sourceLimit w')
    (applied : t.apply supply command = .ok (next, left))
    (timed : ∀ c ∈ t.clips, c.Timed P)
    (introduced : ∀ c, command = .addClip c → c.Timed P) :
    ∀ c ∈ next.clips, c.Timed P := by
  refine (apply_outcome applied).forall_clips timed ?_ ?_
  · intro c isCommand
    exact (introduced c isCommand).appended moves fun d member => (timed d member).ends
  · intro id c made target found holds isMade
    exact holds.clipParts plays (keeps id c · · target found) isMade

/-- Every command keeps the placements of overlays. -/
theorem apply_overlays
    (applied : t.apply supply command = .ok (next, left))
    (all : ∀ o ∈ t.overlays, o.Valid)
    (introduced : ∀ o, command = .addText o → o.Valid) :
    ∀ o ∈ next.overlays, o.Valid := by
  refine (apply_outcome applied).forall_overlays all ?_ ?_
  · intro o isCommand
    exact (introduced o isCommand).appended all
  · intro id o made _ _ _ valid isMade
    exact valid.overlayParts isMade

/-- Every command but a cut keeps all elements within their bounds, whatever its arguments. -/
theorem apply_wellFormed
    (applied : t.apply supply command = .ok (next, left))
    (whole : ∀ id position, command ≠ .split id position)
    (introduced : command.Introduces Clip.WellFormed Overlay.Valid)
    (all : t.All Clip.WellFormed Overlay.Valid) :
    next.All Clip.WellFormed Overlay.Valid := by
  constructor
  · refine (apply_outcome applied).forall_clips all.1 ?_ ?_
    · rintro c rfl
      exact Clip.WellFormed.appended introduced fun d member => (all.1 d member).valid.timed.ends
    · intro id c made _ _ wellFormed isMade
      exact wellFormed.clipParts whole isMade
  · refine apply_overlays applied all.2 ?_
    rintro o rfl
    exact introduced

/-- A film of ten seconds. -/
def film : Clip Extended :=
  .ofAsset ⟨7⟩ "film" .video "film.mp4" (some 10) 0

/-- A film stays well-formed when its start is trimmed to infinity. -/
theorem trimmed_film_wellFormed :
    ∃ next,
      ({ empty with clips := [film] } : Timeline Extended).apply (.ofSeed 1)
          (.trimStart film.id posInf) = .ok (next, .ofSeed 1) ∧
        next.All Clip.WellFormed Overlay.Valid := by
  have applied :
      ({ empty with clips := [film] } : Timeline Extended).apply (.ofSeed 1)
          (.trimStart film.id posInf) =
        .ok ({ empty with clips := [film.trimStart posInf] }, .ofSeed 1) := rfl
  have wellFormed : film.WellFormed := Clip.ofAsset_wellFormed _ _ _ _ _ _
  exact ⟨_, applied, apply_wellFormed applied nofun trivial
    ⟨List.forall_mem_singleton.mpr wellFormed, List.forall_mem_nil _⟩⟩

/-! ## Runs that stay within bounds -/

/-- Whether a command moves an edge of its clip past the beginning or the end of the source. -/
def Overreaches (t : Timeline Extended) (command : Command Extended) : Prop :=
  ∃ id c, command.target? = some id ∧ t.clip? id = some c ∧ c.Overreaches command

/-- All clips are within their bounds up to the tolerance of a cut. -/
def InBounds (t : Timeline Extended) : Prop :=
  ∀ c ∈ t.clips, c.InBounds spanTolerance

/-- The times of all clips are finite and within their bounds up to the tolerance of a cut. -/
def Bounded (t : Timeline Extended) : Prop :=
  ∀ c ∈ t.clips, c.Timed fun limit w => w.Bounded tolerance limit

theorem Bounded.inBounds (bounded : t.Bounded) : t.InBounds := by
  intro c member
  obtain ⟨w, times, -, holds⟩ := bounded c member
  rw [spanTolerance_eq]
  exact (times.inBounds_iff tolerance).mpr holds

theorem tolerance_lt : tolerance < 1 / 10 := by
  linarith [tolerance_small, tolerance_pos]

/-- A command that does not overreach keeps all clips within their bounds. -/
theorem apply_bounded
    (applied : t.apply supply command = .ok (next, left))
    (introduced : command.Introduces Clip.Valid fun _ => True)
    (fair : ¬ t.Overreaches command)
    (bounded : t.Bounded) :
    next.Bounded := by
  refine apply_timed (fun _ _ holds => holds.plays tolerance_lt)
    (fun _ _ _ => Times.Bounded.movedTo) ?_ applied bounded ?_
  · intro id c w w' target found times long holds becomes
    refine holds.becomes tolerance_pos.le tolerance_lt long becomes ?_ fun _ _ _ => le_rfl
    intro overreaches
    exact fair ⟨id, c, target, found,
      (times.overreaches_iff holds.toPlaced command).mpr overreaches⟩
  · rintro c rfl
    exact Clip.Valid.timed introduced |>.mono fun _ _ holds => holds.slacken tolerance_pos.le

/-- A command that overreaches leaves a clip out of bounds. -/
theorem not_inBounds_of_overreaches
    (applied : t.apply supply command = .ok (next, left))
    (bounded : t.Bounded)
    (overreaches : t.Overreaches command) :
    ¬ next.InBounds := by
  obtain ⟨id, c, target, found, overreaches⟩ := overreaches
  obtain ⟨w, times, long, holds⟩ := bounded c (List.mem_of_find?_eq_some found)
  obtain ⟨placed, plays⟩ := holds.plays tolerance_lt
  have notText : ∀ patch, command ≠ .updateText id patch := by
    rintro patch rfl
    exact overreaches
  obtain ⟨parts, made, present⟩ :=
    (apply_outcome applied).exists_clipParts target found notText
  obtain ⟨d, member, outside⟩ := Clip.exists_not_inBounds times placed plays long
    ((times.overreaches_iff placed command).mp overreaches) made spanTolerance
  exact fun inBounds => outside (inBounds d (present d member))

theorem inBounds_iff_of_bounded
    {commands : List (Command Extended)}
    (introduced : ∀ command ∈ commands, command.Introduces Clip.Valid fun _ => True)
    (bounded : t.Bounded)
    (ran : t.applyAll supply commands = .ok (next, left)) :
    ((∀ stage ∈ t.stages supply commands, stage.1.InBounds) ∧ next.InBounds) ↔
      ∀ stage ∈ t.stages supply commands, ¬ stage.1.Overreaches stage.2 := by
  -- The run stays bounded up to its first command that overreaches, and one timeline further it is not.
  induction commands generalizing t supply with
  | nil =>
      cases ran
      exact iff_of_true ⟨List.forall_mem_nil _, bounded.inBounds⟩ (List.forall_mem_nil _)
  | cons command rest inductionHypothesis =>
      obtain ⟨middle, supply', applied, ran⟩ := applyAll_cons_eq_ok_iff.mp ran
      have later : ∀ command ∈ rest, command.Introduces Clip.Valid fun _ => True :=
        fun later member => introduced later (List.mem_cons_of_mem _ member)
      rw [stages, applied, List.forall_mem_cons, List.forall_mem_cons, and_assoc]
      by_cases overreaches : t.Overreaches command
      · -- The next timeline is out of bounds, and it is one that the run passes or ends with.
        have outside := not_inBounds_of_overreaches applied bounded overreaches
        refine iff_of_false ?_ fun fair => fair.1 overreaches
        rintro ⟨-, passed, last⟩
        exact outside (holds_of_stages ran passed last)
      · have kept : middle.Bounded :=
          apply_bounded applied (introduced command List.mem_cons_self) overreaches bounded
        rw [inductionHypothesis later kept ran]
        exact and_congr_left' (iff_of_true bounded.inBounds overreaches)

/-- A run from the empty timeline keeps all clips within their bounds exactly if none of its commands
overreaches. -/
theorem inBounds_iff_no_overreach
    {commands : List (Command Extended)}
    (introduced : ∀ command ∈ commands, command.Introduces Clip.Valid fun _ => True)
    (ran : empty.applyAll supply commands = .ok (t, left)) :
    ((∀ stage ∈ empty.stages supply commands, stage.1.InBounds) ∧ t.InBounds) ↔
      ∀ stage ∈ empty.stages supply commands, ¬ stage.1.Overreaches stage.2 :=
  inBounds_iff_of_bounded introduced (List.forall_mem_nil _) ran

/-- A film is cut so close to its end that the second half is too short by less than the tolerance, and
that half is trimmed to the end that it has already. -/
def closeCut : List (Command Extended) :=
  [.addClip film, .split film.id 9.9000000005,
    .trimEnd ((IdSupply.ofSeed 1).advance 1).next 10]

theorem closeCut_introduces {Q : Overlay Extended → Prop} :
    ∀ command ∈ closeCut, command.Introduces Clip.Valid Q := by
  have valid : film.Valid := (Clip.ofAsset_wellFormed _ _ _ _ _ _).valid
  simp [closeCut, Command.Introduces, valid]

/-- The trimmed half then ends after its source. -/
theorem closeCut_leadsTo_beyond :
    empty.leadsTo (.ofSeed 1) closeCut
      (fun t => t.clips.any fun c => decide (¬ c.sourceOut ≤ c.sourceLimit)) = true := by
  decide +kernel

/-- Commands that bring only valid clips can move one past the end of its source. -/
theorem closeCut_not_inBounds :
    (∀ command ∈ closeCut, command.Introduces Clip.Valid fun _ => True) ∧
      ∃ t left, empty.applyAll (.ofSeed 1) closeCut = .ok (t, left) ∧ ¬ t.InBounds := by
  refine ⟨closeCut_introduces, ?_⟩
  obtain ⟨t, left, ran, beyond⟩ := leadsTo_iff.mp closeCut_leadsTo_beyond
  obtain ⟨c, member, late⟩ := List.any_eq_true.mp beyond
  exact ⟨t, left, ran, fun inBounds => of_decide_eq_true late (inBounds c member).exit⟩

/-- The run of the close cut leaves the bounds exactly because one of its commands overreaches. -/
theorem closeCut_inBounds_iff :
    ∃ t left, empty.applyAll (.ofSeed 1) closeCut = .ok (t, left) ∧
      (((∀ stage ∈ empty.stages (.ofSeed 1) closeCut, stage.1.InBounds) ∧ t.InBounds) ↔
        ∀ stage ∈ empty.stages (.ofSeed 1) closeCut, ¬ stage.1.Overreaches stage.2) := by
  obtain ⟨t, left, ran, -⟩ := leadsTo_iff.mp closeCut_leadsTo_beyond
  exact ⟨t, left, ran, inBounds_iff_no_overreach closeCut_introduces ran⟩

/-! ## What every run keeps -/

/-- After any commands every clip plays for a while, and every overlay is placed. -/
theorem applyAll_sound
    {commands : List (Command Extended)}
    (introduced : ∀ command ∈ commands, command.Introduces Clip.Valid Overlay.Valid)
    (ran : empty.applyAll supply commands = .ok (t, left)) :
    t.All (Clip.Timed fun _ w => w.Sound) Overlay.Valid := by
  refine applyAll_induction ?_ (empty_all _ _) ran
  intro command member t next supply left all applied
  have brought := introduced command member
  constructor
  · refine apply_timed (fun _ _ holds => holds.plays) (fun _ _ _ => Times.Sound.movedTo) ?_ applied
      all.1 ?_
    · intro id c w w' _ _ _ _ sound becomes
      exact sound.becomes becomes
    · rintro c rfl
      exact (Clip.Valid.timed brought).mono fun _ _ bounded => bounded.sound
  · refine apply_overlays applied all.2 ?_
    rintro o rfl
    exact brought

end Montage.Timeline

import Mathlib.Data.List.Perm.Basic
import Montage.Proofs.Edit.Bounds
import Montage.Proofs.Number.Faithful
import Montage.Proofs.Render.Order
import Montage.Proofs.Render.Tempo

/-!
Contract: which timelines are compiled.

Owns:
- the conditions on a clip and on an overlay under which their checks pass;
- the timelines whose sound can be stepped to its tempo (`IsPaced`);
- the conditions under which a compilation succeeds (`compile_isOk_iff`);
- the duration of a timeline as the greatest of its ends, which can always be rendered;
- that every edited timeline meets the conditions, and is paced, of exact numbers.

Does **not** own: the job that is returned (`Montage.Proofs.Render.Compile`), and which speeds can be
stepped (`Montage.Proofs.Render.Tempo`).
-/

set_option autoImplicit false

namespace Montage.Render

section Conditions

variable {α : Type} [Scalar α]

/-- The store has the clip's asset, of a type that can be rendered. -/
def IsStored (assets : Store) (c : Clip α) : Prop :=
  ∃ asset, assets c.asset = some asset ∧ (Media.extensionFor asset.mime).isSome = true

omit [Scalar α] in
theorem isStored_iff {assets : Store} {c : Clip α} :
    IsStored assets c ↔
      ((assets c.asset).bind fun asset => Media.extensionFor asset.mime).isSome = true := by
  unfold IsStored
  cases assets c.asset <;> simp

instance (assets : Store) (c : Clip α) : Decidable (IsStored assets c) :=
  decidable_of_iff _ isStored_iff.symm

/-- A clip passes its checks exactly if its asset is stored and it plays for a while. -/
theorem planClip_isOk_iff (assets : Store) (index : Nat) (c : Clip α) :
    (∃ plan, planClip assets index c = .ok plan) ↔
      IsStored assets c ∧ isRenderable c.timelineSpan = true ∧ isRenderable c.sourceSpan = true := by
  unfold planClip checkClip IsStored
  cases assets c.asset with
  | none => simp [bind, Except.bind]
  | some asset =>
      cases isRenderable c.timelineSpan with
      | false => simp [bind, Except.bind]
      | true =>
          cases isRenderable c.sourceSpan with
          | false => simp [bind, Except.bind]
          | true => cases known : Media.extensionFor asset.mime <;> simp [bind, Except.bind, known]

/-- Clips are planned exactly if each of them can be. -/
theorem planClips_isOk_iff (assets : Store) (clips : List (Clip α)) (index : Nat) :
    (∃ plans, planClips assets index clips = .ok plans) ↔
      ∀ c ∈ clips, IsStored assets c ∧ isRenderable c.timelineSpan = true ∧
        isRenderable c.sourceSpan = true := by
  induction clips generalizing index with
  | nil => simp [planClips]
  | cons c rest inductionHypothesis =>
      rw [List.forall_mem_cons, ← planClip_isOk_iff assets index c,
        ← inductionHypothesis (index + 1)]
      constructor
      · rintro ⟨plans, planned⟩
        obtain ⟨plan, others, first, second, -⟩ := planClips_cons_eq_ok.mp planned
        exact ⟨⟨plan, first⟩, ⟨others, second⟩⟩
      · rintro ⟨⟨plan, first⟩, ⟨others, second⟩⟩
        exact ⟨plan :: others, planClips_cons_eq_ok.mpr ⟨plan, others, first, second, rfl⟩⟩

theorem checkOverlays_eq_ok_iff (overlays : List (Overlay α)) :
    checkOverlays overlays = .ok () ↔ ∀ o ∈ overlays, isRenderable o.timelineSpan = true := by
  induction overlays with
  | nil => simp [checkOverlays]
  | cons o rest inductionHypothesis =>
      rw [List.forall_mem_cons, ← inductionHypothesis]
      cases lasting : isRenderable o.timelineSpan <;>
        simp [checkOverlays, checkOverlay, lasting, bind, Except.bind]

/-- The tempo of every clip that is heard can be stepped. -/
def IsPaced (t : Timeline α) (assets : Store) : Prop :=
  ∀ c ∈ t.clips, ∀ asset, assets c.asset = some asset → carriesAudio c asset = true →
    (Tempo.steps? c.speed).isSome = true

/-- The graph of a plan is built exactly if its timeline is paced. -/
theorem isSome_buildGraph_iff {t : Timeline α} {assets : Store} {total : α}
    {plans : List (Input α × PlannedClip α)}
    (planned : planClips assets 0 (orderedClips t) = .ok plans) :
    (buildGraph t total (plans.map (·.2))).isSome = true ↔ IsPaced t assets := by
  obtain ⟨isPlan, -⟩ := isPlan_of_planClips planned
  rw [isSome_buildGraph]
  simp only [soundingClips, List.mem_filter]
  constructor
  · intro ends c member asset found heard
    have inOrder : c ∈ (plans.map (·.2)).map (·.clip) := by
      rw [isPlan.clips]
      exact List.mem_mergeSort.mpr member
    obtain ⟨p, inPlan, rfl⟩ := List.mem_map.mp inOrder
    obtain rfl := Option.some.inj ((isPlan.stored p inPlan).symm.trans found)
    exact ends p ⟨inPlan, heard⟩
  · rintro paced p ⟨inPlan, heard⟩
    have inOrder : p.clip ∈ orderedClips t := isPlan.clips ▸ List.mem_map_of_mem inPlan
    exact paced p.clip (List.mem_mergeSort.mp inOrder) p.asset (isPlan.stored p inPlan) heard

/-- All checks pass exactly if the timeline may be empty or is not, its duration can be rendered, and every
element can. -/
theorem planTimeline_isOk_iff (t : Timeline α) (assets : Store) (options : Options) :
    (∃ plans, planTimeline t assets options = .ok plans) ↔
      (t.isEmpty = false ∨ options.allowEmpty = true) ∧ isRenderable t.totalDuration = true ∧
        (∀ c ∈ t.clips, IsStored assets c ∧ isRenderable c.timelineSpan = true ∧
          isRenderable c.sourceSpan = true) ∧
        ∀ o ∈ t.overlays, isRenderable o.timelineSpan = true := by
  have permitted :
      (t.isEmpty && !options.allowEmpty) = false ↔
        t.isEmpty = false ∨ options.allowEmpty = true := by
    cases t.isEmpty <;> simp
  have reordered (c : Clip α) : c ∈ orderedClips t ↔ c ∈ t.clips := List.mem_mergeSort
  simp only [planTimeline_eq_ok_iff, permitted, ← checkOverlays_eq_ok_iff, ← reordered,
    ← planClips_isOk_iff assets (orderedClips t) 0]
  constructor
  · rintro ⟨plans, notEmpty, lasting, planned, checked⟩
    exact ⟨notEmpty, lasting, ⟨plans, planned⟩, checked⟩
  · rintro ⟨notEmpty, lasting, ⟨plans, planned⟩, checked⟩
    exact ⟨plans, notEmpty, lasting, planned, checked⟩

/-- A compilation succeeds exactly if all its checks do and the timeline is paced. -/
theorem compile_isOk_iff_plan {t : Timeline α} {assets : Store} {options : Options} :
    (∃ job, compile t assets options = some (.ok job)) ↔
      (∃ plans, planTimeline t assets options = .ok plans) ∧ IsPaced t assets := by
  constructor
  · rintro ⟨job, compiled⟩
    obtain ⟨permitted, lasting, plans, graph, planned, checked, built, -⟩ :=
      compile_eq_ok_iff.mp compiled
    have isPlan := planTimeline_eq_ok_iff.mpr ⟨permitted, lasting, planned, checked⟩
    exact ⟨⟨plans, isPlan⟩, (isSome_buildGraph_iff planned).mp (Option.isSome_iff_exists.mpr ⟨graph, built⟩)⟩
  · rintro ⟨⟨plans, isPlan⟩, paced⟩
    obtain ⟨permitted, lasting, planned, checked⟩ := planTimeline_eq_ok_iff.mp isPlan
    obtain ⟨graph, built⟩ := Option.isSome_iff_exists.mp ((isSome_buildGraph_iff planned).mpr paced)
    exact ⟨_, compile_eq_ok_iff.mpr ⟨permitted, lasting, plans, graph, planned, checked, built, rfl⟩⟩

/-- A compilation succeeds exactly if the timeline may be empty or is not, its duration can be rendered,
every element can, and the timeline is paced. -/
theorem compile_isOk_iff (t : Timeline α) (assets : Store) (options : Options) :
    (∃ job, compile t assets options = some (.ok job)) ↔
      ((t.isEmpty = false ∨ options.allowEmpty = true) ∧ isRenderable t.totalDuration = true ∧
        (∀ c ∈ t.clips, IsStored assets c ∧ isRenderable c.timelineSpan = true ∧
          isRenderable c.sourceSpan = true) ∧
        ∀ o ∈ t.overlays, isRenderable o.timelineSpan = true) ∧ IsPaced t assets := by
  rw [compile_isOk_iff_plan, planTimeline_isOk_iff]

/-- A compilation ends exactly if it fails at a check or the timeline is paced. -/
theorem isSome_compile_iff {t : Timeline α} {assets : Store} {options : Options} :
    (compile t assets options).isSome = true ↔
      (∃ e, compile t assets options = some (.error e)) ∨ IsPaced t assets := by
  simp only [compile_eq_error_iff_plan]
  rw [compile_eq]
  cases isPlan : planTimeline t assets options with
  | error e => simp
  | ok plans =>
      obtain ⟨-, -, planned, -⟩ := planTimeline_eq_ok_iff.mp isPlan
      have paced : (buildGraph t t.totalDuration (plans.map (·.2))).isSome = true ↔ IsPaced t assets :=
        isSome_buildGraph_iff planned
      simp [← paced]

end Conditions

/-! ## Durations -/

section Durations

variable {α : Type} [Scalar α] [Scalar.Faithful α]

open Scalar

/-- A length that is finite and positive. -/
def Lasts (length : α) : Prop :=
  ∃ q, exact length = .fin q ∧ 0 < q

theorem isRenderable_iff_lasts (length : α) : isRenderable length = true ↔ Lasts length := by
  rw [isRenderable, Bool.and_eq_true, decide_eq_true_iff, isFinite_iff_exact]
  constructor
  · rintro ⟨⟨q, isLength⟩, positive⟩
    exact ⟨q, isLength, (lt_iff_of_exact Faithful.exact_zero isLength).mp positive⟩
  · rintro ⟨q, isLength, positive⟩
    exact ⟨⟨q, isLength⟩, (lt_iff_of_exact Faithful.exact_zero isLength).mpr positive⟩

/-- The duration of a timeline is the latest of one second and the finite ends. -/
theorem totalDuration_isGreatest (t : Timeline α) :
    IsGreatest {x | x = 1 ∨ ∃ e ∈ t.elements, isFinite e.span.2 = true ∧ x = e.span.2}
      t.totalDuration := by
  have finite : ∀ x ∈ (t.elements.map fun e => e.span.2).filter isFinite, isFinite x = true :=
    fun x member => (List.mem_filter.mp member).2
  have greatest := foldl_max_isGreatest isFinite_one finite
  have same : {x | x ∈ 1 :: (t.elements.map fun e => e.span.2).filter isFinite} =
      {x | x = 1 ∨ ∃ e ∈ t.elements, isFinite e.span.2 = true ∧ x = e.span.2} := by
    ext x
    simp only [Set.mem_ofPred_eq, List.mem_cons, List.mem_filter, List.mem_map]
    refine or_congr_right ⟨?_, ?_⟩
    · rintro ⟨⟨e, member, rfl⟩, finite⟩
      exact ⟨e, member, finite, rfl⟩
    · rintro ⟨e, member, finite, rfl⟩
      exact ⟨⟨e, member, rfl⟩, finite⟩
  rwa [same] at greatest

/-- The latest finite end can always be rendered. -/
theorem isRenderable_totalDuration (t : Timeline α) : isRenderable t.totalDuration = true := by
  rw [isRenderable_iff_lasts]
  obtain ⟨isEnd, above⟩ := totalDuration_isGreatest t
  have finite : isFinite t.totalDuration = true := by
    rcases isEnd with isOne | ⟨e, -, finite, isEnd⟩
    · rw [isOne]
      exact isFinite_one
    · rwa [isEnd]
  obtain ⟨q, isTotal⟩ := (isFinite_iff_exact _).mp finite
  have atLeast := (le_iff_of_exact Faithful.exact_one isTotal).mp (above (Or.inl rfl))
  exact ⟨q, isTotal, one_pos.trans_le atLeast⟩

end Durations

/-! ## Edited timelines -/

open Extended

theorem isRenderable_fin (q : ℚ) : isRenderable (fin q) = true ↔ 0 < q := by
  simp [isRenderable]

theorem isRenderable_of_sound {c : Clip Extended}
    (timed : c.Timed fun _ w => w.Sound) :
    isRenderable c.timelineSpan = true ∧ isRenderable c.sourceSpan = true := by
  obtain ⟨w, times, -, sound⟩ := timed
  rw [times.timelineSpan, times.sourceSpan, isRenderable_fin, isRenderable_fin]
  exact ⟨sound.span_pos, sound.sourceSpan_pos⟩

theorem isRenderable_of_valid {o : Overlay Extended} (valid : o.Valid) :
    isRenderable o.timelineSpan = true := by
  obtain ⟨start, stop, isStart, isStop, -, running⟩ := Overlay.valid_iff.mp valid
  unfold Overlay.timelineSpan
  rw [isStart, isStop, fin_sub_fin, isRenderable_fin]
  exact sub_pos.mpr running

/-- A clip whose spans can be rendered has finite times, and plays forward. -/
theorem exists_times {c : Clip Extended}
    (lasting : isRenderable c.timelineSpan = true ∧ isRenderable c.sourceSpan = true) :
    ∃ w, c.HasTimes w ∧ 0 < w.speed ∧ c.speed = fin w.speed := by
  simp only [isRenderable_iff_lasts] at lasting
  obtain ⟨⟨span, isSpan, placed⟩, source, isSource, long⟩ := lasting
  obtain ⟨stop, start⟩ := Scalar.Faithful.isFinite_of_sub c.timelineEnd c.timelineStart
    ((Scalar.isFinite_iff_exact _).mpr ⟨span, isSpan⟩)
  obtain ⟨sourceOut, sourceIn⟩ := Scalar.Faithful.isFinite_of_sub c.sourceOut c.sourceIn
    ((Scalar.isFinite_iff_exact _).mpr ⟨source, isSource⟩)
  obtain ⟨w, times⟩ := Clip.exists_hasTimes (c := c) (by simp [Clip.times, *])
  have placed : 0 < w.span := by
    rw [times.timelineSpan] at isSpan
    obtain rfl : w.span = span := Extended.fin.inj isSpan
    exact placed
  have long : 0 < w.sourceSpan := by
    rw [times.sourceSpan] at isSource
    obtain rfl : w.sourceSpan = source := Extended.fin.inj isSource
    exact long
  exact ⟨w, times, div_pos long placed, times.speed placed⟩

/-- Of exact numbers, a timeline whose clips can be rendered is paced. -/
theorem isPaced_of_renderable {t : Timeline Extended} (assets : Store)
    (lasting : ∀ c ∈ t.clips, isRenderable c.timelineSpan = true ∧ isRenderable c.sourceSpan = true) :
    IsPaced t assets := by
  intro c member asset _ _
  obtain ⟨w, -, forward, plays⟩ := exists_times (lasting c member)
  obtain ⟨factors, isFactors, -⟩ := Tempo.steps?_factorize forward
  rw [plays, isFactors]
  rfl

/-- Of exact numbers, a compilation succeeds as soon as its checks do. -/
theorem compile_isOk_of_renderable {t : Timeline Extended} {assets : Store} {options : Options}
    (permitted : t.isEmpty = false ∨ options.allowEmpty = true)
    (clips : ∀ c ∈ t.clips, IsStored assets c ∧ isRenderable c.timelineSpan = true ∧
      isRenderable c.sourceSpan = true)
    (overlays : ∀ o ∈ t.overlays, isRenderable o.timelineSpan = true) :
    ∃ job, compile t assets options = some (.ok job) :=
  (compile_isOk_iff t assets options).mpr
    ⟨⟨permitted, isRenderable_totalDuration t, clips, overlays⟩,
      isPaced_of_renderable assets fun c member => (clips c member).2⟩

/-- Whatever is edited together from clips and overlays within their bounds is compiled, if the store has
its assets: the compilation ends, and with a job. -/
theorem compile_applyAll
    {supply left : IdSupply}
    {commands : List (Command Extended)}
    {t : Timeline Extended}
    (introduced : ∀ command ∈ commands, command.Introduces Clip.Valid Overlay.Valid)
    (ran : Timeline.empty.applyAll supply commands = .ok (t, left))
    (notEmpty : t.isEmpty = false)
    {assets : Store}
    (stored : ∀ c ∈ t.clips, IsStored assets c)
    (options : Options) :
    ∃ job, compile t assets options = some (.ok job) := by
  obtain ⟨sound, valid⟩ := Timeline.applyAll_sound introduced ran
  refine compile_isOk_of_renderable (Or.inl notEmpty) ?_ ?_
  · intro c member
    exact ⟨stored c member, isRenderable_of_sound (sound c member)⟩
  · intro o member
    exact isRenderable_of_valid (valid o member)

/-- A film that was trimmed past the end of its source is compiled. -/
theorem compile_closeCut :
    ∃ t left, Timeline.empty.applyAll (.ofSeed 1) Timeline.closeCut = .ok (t, left) ∧
      ∃ job,
        compile t (fun _ => some ⟨.file "film.mp4", "video/mp4", true⟩) ⟨false, "medium", 23, 192⟩ =
          some (.ok job) := by
  have leads :
      Timeline.empty.leadsTo (.ofSeed 1) Timeline.closeCut (fun t => !t.isEmpty) = true := by
    decide +kernel
  obtain ⟨t, left, ran, nonempty⟩ := Timeline.leadsTo_iff.mp leads
  have notEmpty : t.isEmpty = false := by simpa using nonempty
  refine ⟨t, left, ran, compile_applyAll Timeline.closeCut_introduces ran notEmpty ?_ _⟩
  intro c member
  exact ⟨_, rfl, by decide +kernel⟩

end Montage.Render

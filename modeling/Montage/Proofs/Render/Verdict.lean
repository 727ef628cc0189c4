import Montage.Proofs.Number.Binary64
import Montage.Proofs.Render.Ending

/-!
Contract: which element a failed compilation is blamed on.

Owns:
- what is wrong with a clip, the gravest fault first (`ClipFault`);
- the reason of a failed compilation (`Reason`), which is the error that it returns;
- the conditions on a timeline under which nothing is wrong with it (`Accepts`), and that it is compiled
  then if it is paced.

Does **not** own: the job that is returned (`Montage.Proofs.Render.Composition`), and which timelines are
paced (`Montage.Proofs.Render.Ending`).

Clips are checked in the order in which they are composed, overlays as they are stored, and no overlay
before all clips. Whatever comes later does not matter to the first error. Lengths are compared and ends are
maximized but nothing is added up, so that the verdict holds of machine numbers as of exact ones. What no
check looks at is the quotient of two lengths, and only that can keep a compilation from a verdict.
-/

set_option autoImplicit false

namespace Montage.Render

/-! ## The first element at fault -/

/-- An element of a list is at fault, and no element before it is. -/
def IsFirstFault {β : Type} (isFit : β → Prop) (list : List β) (x : β) : Prop :=
  ∃ before after, list = before ++ x :: after ∧ (∀ y ∈ before, isFit y) ∧ ¬ isFit x

section FirstFault

variable {β : Type} {isFit : β → Prop} {rest : List β} {x y : β}

theorem not_isFirstFault_nil : ¬ IsFirstFault isFit [] x := by
  rintro ⟨before, after, place, -⟩
  cases before <;> cases place

theorem isFirstFault_cons_of_fit (fit : isFit y) :
    IsFirstFault isFit (y :: rest) x ↔ IsFirstFault isFit rest x := by
  constructor
  · rintro ⟨before, after, place, others, fault⟩
    cases before with
    | nil =>
        rw [List.nil_append, List.cons.injEq] at place
        exact (fault (place.1 ▸ fit)).elim
    | cons first before =>
        rw [List.cons_append, List.cons.injEq] at place
        exact ⟨before, after, place.2, (List.forall_mem_cons.mp others).2, fault⟩
  · rintro ⟨before, after, rfl, others, fault⟩
    exact ⟨y :: before, after, rfl, List.forall_mem_cons.mpr ⟨fit, others⟩, fault⟩

theorem isFirstFault_cons_of_not_fit (fault : ¬ isFit y) :
    IsFirstFault isFit (y :: rest) x ↔ x = y := by
  constructor
  · rintro ⟨before, after, place, others, -⟩
    cases before with
    | nil =>
        rw [List.nil_append, List.cons.injEq] at place
        exact place.1.symm
    | cons first before =>
        rw [List.cons_append, List.cons.injEq] at place
        exact (fault (place.1 ▸ (List.forall_mem_cons.mp others).1)).elim
  · rintro rfl
    exact ⟨[], rest, rfl, List.forall_mem_nil _, fault⟩

theorem IsFirstFault.mem {list : List β} (isFirst : IsFirstFault isFit list x) : x ∈ list := by
  obtain ⟨before, after, rfl, -⟩ := isFirst
  exact List.mem_append_cons_self

end FirstFault

variable {α : Type} [Scalar α]

/-! ## Faults -/

/-- The asset of a clip is stored, and the clip takes time on the timeline and in its source. -/
structure ClipFits (assets : Store) (c : Clip α) : Prop where
  stored : IsStored assets c
  placed : Lasts c.timelineSpan
  plays : Lasts c.sourceSpan

/-- What is wrong with a clip. A fault counts only if those before it are absent. -/
inductive ClipFault (assets : Store) (c : Clip α) : CompileError α → Prop
  | unresolved (missing : assets c.asset = none) :
      ClipFault assets c (.assetUnresolved c.id c.asset)
  | timelineSpan {asset : Resolved} (found : assets c.asset = some asset)
      (unplaced : ¬ Lasts c.timelineSpan) :
      ClipFault assets c (.invalidDuration (.clip c.id) c.timelineSpan)
  | sourceSpan {asset : Resolved} (found : assets c.asset = some asset)
      (placed : Lasts c.timelineSpan) (still : ¬ Lasts c.sourceSpan) :
      ClipFault assets c (.invalidDuration (.clip c.id) c.sourceSpan)
  | unsupported {asset : Resolved} (found : assets c.asset = some asset)
      (placed : Lasts c.timelineSpan) (plays : Lasts c.sourceSpan)
      (unknown : Media.extensionFor asset.mime = none) :
      ClipFault assets c (.unsupportedMedia c.id asset.mime)

/-- An overlay takes time on the timeline. -/
def OverlayFits (o : Overlay α) : Prop := Lasts o.timelineSpan

/-- Why a timeline is not compiled: it is empty, or its first clip at fault in the stable order of
`zIndex`, or, when no clip is at fault, its first overlay at fault as stored. -/
inductive Reason (t : Timeline α) (assets : Store) (options : Options) : CompileError α → Prop
  | empty (isEmpty : t.isEmpty = true) (refused : options.allowEmpty = false) :
      Reason t assets options .emptyTimeline
  | clip {sorted : List (Clip α)} {c : Clip α} {e : CompileError α}
      (isOrder : IsStableOrder (·.zIndex) t.clips sorted)
      (isFirst : IsFirstFault (ClipFits assets) sorted c)
      (fault : ClipFault assets c e) : Reason t assets options e
  | overlay {o : Overlay α} (fit : ∀ c ∈ t.clips, ClipFits assets c)
      (isFirst : IsFirstFault OverlayFits t.overlays o) :
      Reason t assets options (.invalidDuration (.text o.id) o.timelineSpan)

/-- Nothing is wrong with a timeline or its elements. -/
structure Accepts (t : Timeline α) (assets : Store) (options : Options) : Prop where
  permitted : t.isEmpty = false ∨ options.allowEmpty = true
  clips : ∀ c ∈ t.clips, ClipFits assets c
  overlays : ∀ o ∈ t.overlays, OverlayFits o

/-- A clip that does not fit has a fault. -/
theorem exists_clipFault {assets : Store} {c : Clip α} (unfit : ¬ ClipFits assets c) :
    ∃ e, ClipFault assets c e := by
  cases found : assets c.asset with
  | none => exact ⟨_, .unresolved found⟩
  | some asset =>
      by_cases placed : Lasts c.timelineSpan
      · by_cases plays : Lasts c.sourceSpan
        · cases known : Media.extensionFor asset.mime with
          | none => exact ⟨_, .unsupported found placed plays known⟩
          | some extension =>
              have stored : IsStored assets c := ⟨asset, found, by rw [known]; rfl⟩
              exact (unfit ⟨stored, placed, plays⟩).elim
        · exact ⟨_, .sourceSpan found placed plays⟩
      · exact ⟨_, .timelineSpan found placed⟩

theorem ClipFault.ne_timeline {assets : Store} {c : Clip α} {e : CompileError α}
    (fault : ClipFault assets c e) (duration : α) : e ≠ .invalidDuration .timeline duration := by
  cases fault <;> simp

theorem Reason.ne_timeline {t : Timeline α} {assets : Store} {options : Options}
    {e : CompileError α} (reason : Reason t assets options e) (duration : α) :
    e ≠ .invalidDuration .timeline duration := by
  cases reason with
  | empty isEmpty refused => simp
  | clip isOrder isFirst fault => exact fault.ne_timeline duration
  | overlay fit isFirst => simp

omit [Scalar α] in
theorem isEmpty_eq_true_iff (t : Timeline α) : t.isEmpty = true ↔ t.clips = [] ∧ t.overlays = [] := by
  simp [Timeline.isEmpty]

variable [Scalar.Faithful α]

/-! ## Checks of single elements -/

theorem isRenderable_eq_false_iff (length : α) : isRenderable length = false ↔ ¬ Lasts length := by
  rw [← isRenderable_iff_lasts, Bool.not_eq_true]

theorem clipFits_iff (assets : Store) (c : Clip α) :
    ClipFits assets c ↔
      IsStored assets c ∧ isRenderable c.timelineSpan = true ∧ isRenderable c.sourceSpan = true := by
  rw [isRenderable_iff_lasts, isRenderable_iff_lasts]
  constructor
  · rintro ⟨stored, placed, plays⟩
    exact ⟨stored, placed, plays⟩
  · rintro ⟨stored, placed, plays⟩
    exact ⟨stored, placed, plays⟩

theorem planClip_isOk_iff_fits (assets : Store) (index : Nat) (c : Clip α) :
    (∃ plan, planClip assets index c = .ok plan) ↔ ClipFits assets c := by
  rw [planClip_isOk_iff, clipFits_iff]

theorem planClip_of_fault {assets : Store} {c : Clip α} {e : CompileError α}
    (fault : ClipFault assets c e) (index : Nat) : planClip assets index c = .error e := by
  unfold planClip checkClip
  cases fault with
  | unresolved missing => rw [missing]; rfl
  | timelineSpan found unplaced =>
      rw [found, (isRenderable_eq_false_iff _).mpr unplaced]
      rfl
  | sourceSpan found placed still =>
      rw [found, (isRenderable_iff_lasts _).mpr placed, (isRenderable_eq_false_iff _).mpr still]
      rfl
  | unsupported found placed plays unknown =>
      rw [found, (isRenderable_iff_lasts _).mpr placed, (isRenderable_iff_lasts _).mpr plays]
      simp only [Bool.not_true, Bool.false_eq_true, if_false, bind, Except.bind, unknown]

/-- The check of a clip fails with its gravest fault. -/
theorem planClip_eq_error_iff {assets : Store} (index : Nat) {c : Clip α} {e : CompileError α} :
    planClip assets index c = .error e ↔ ClipFault assets c e := by
  refine ⟨fun failed => ?_, fun fault => planClip_of_fault fault index⟩
  have unfit : ¬ ClipFits assets c := by
    intro fits
    obtain ⟨plan, planned⟩ := (planClip_isOk_iff_fits assets index c).mpr fits
    rw [planned] at failed
    cases failed
  obtain ⟨f, fault⟩ := exists_clipFault unfit
  rw [planClip_of_fault fault index] at failed
  rwa [← Except.error.inj failed]

theorem checkOverlay_of_fits {o : Overlay α} (fits : OverlayFits o) : checkOverlay o = .ok () := by
  rw [checkOverlay, if_pos ((isRenderable_iff_lasts _).mpr fits)]

theorem checkOverlay_of_not_fits {o : Overlay α} (brief : ¬ OverlayFits o) :
    checkOverlay o = .error (.invalidDuration (.text o.id) o.timelineSpan) := by
  rw [checkOverlay, if_neg (mt (isRenderable_iff_lasts _).mp brief)]

/-! ## Checks of all elements -/

/-- The clips are blamed on the first one at fault. -/
theorem planClips_eq_error_iff {assets : Store} (clips : List (Clip α)) (index : Nat)
    {e : CompileError α} :
    planClips assets index clips = .error e ↔
      ∃ c, IsFirstFault (ClipFits assets) clips c ∧ ClipFault assets c e := by
  induction clips generalizing index with
  | nil => simp [planClips, not_isFirstFault_nil]
  | cons c rest inductionHypothesis =>
      by_cases fits : ClipFits assets c
      · obtain ⟨plan, planned⟩ := (planClip_isOk_iff_fits assets index c).mpr fits
        simp only [isFirstFault_cons_of_fit fits, ← inductionHypothesis (index + 1),
          planClips, planned, bind, Except.bind]
        cases planClips assets (index + 1) rest <;> simp
      · obtain ⟨f, fault⟩ := exists_clipFault fits
        simp only [isFirstFault_cons_of_not_fit fits, exists_eq_left,
          ← planClip_eq_error_iff index, planClips, planClip_of_fault fault index, bind,
          Except.bind, Except.error.injEq]

/-- The overlays are blamed on the first one at fault. -/
theorem checkOverlays_eq_error_iff (overlays : List (Overlay α)) {e : CompileError α} :
    checkOverlays overlays = .error e ↔
      ∃ o, IsFirstFault OverlayFits overlays o ∧
        e = .invalidDuration (.text o.id) o.timelineSpan := by
  induction overlays with
  | nil => simp [checkOverlays, not_isFirstFault_nil]
  | cons o rest inductionHypothesis =>
      by_cases fits : OverlayFits o
      · simp only [isFirstFault_cons_of_fit fits, ← inductionHypothesis, checkOverlays,
          checkOverlay_of_fits fits, bind, Except.bind]
      · simp only [isFirstFault_cons_of_not_fit fits, exists_eq_left, checkOverlays,
          checkOverlay_of_not_fits fits, bind, Except.bind, Except.error.injEq]
        exact eq_comm

theorem planClips_isOk_iff_fit {t : Timeline α} {assets : Store} :
    (∃ plans, planClips assets 0 (orderedClips t) = .ok plans) ↔
      ∀ c ∈ t.clips, ClipFits assets c := by
  have reordered (c : Clip α) : c ∈ orderedClips t ↔ c ∈ t.clips := List.mem_mergeSort
  simp only [planClips_isOk_iff, ← clipFits_iff, reordered]

/-! ## Verdicts -/

theorem planTimeline_isOk_iff_accepts {t : Timeline α} {assets : Store} {options : Options} :
    (∃ plans, planTimeline t assets options = .ok plans) ↔ Accepts t assets options := by
  simp only [planTimeline_isOk_iff, isRenderable_totalDuration, true_and, ← clipFits_iff]
  constructor
  · rintro ⟨permitted, clips, overlays⟩
    exact ⟨permitted, clips, fun o member => (isRenderable_iff_lasts _).mp (overlays o member)⟩
  · rintro ⟨permitted, clips, overlays⟩
    exact ⟨permitted, clips, fun o member => (isRenderable_iff_lasts _).mpr (overlays o member)⟩

theorem compile_isOk_iff_accepts {t : Timeline α} {assets : Store} {options : Options} :
    (∃ job, compile t assets options = some (.ok job)) ↔
      Accepts t assets options ∧ IsPaced t assets := by
  rw [compile_isOk_iff_plan, planTimeline_isOk_iff_accepts]

/-- A compilation fails if its timeline is refused as empty, or its clips fail, or they do not but its
overlays fail. -/
theorem compile_eq_error_cases (t : Timeline α) (assets : Store) (options : Options)
    (e : CompileError α) :
    compile t assets options = some (.error e) ↔
      (t.isEmpty = true ∧ options.allowEmpty = false) ∧ e = .emptyTimeline ∨
      ¬ (t.isEmpty = true ∧ options.allowEmpty = false) ∧
        (planClips assets 0 (orderedClips t) = .error e ∨
          (∃ plans, planClips assets 0 (orderedClips t) = .ok plans) ∧
            checkOverlays t.overlays = .error e) := by
  rw [compile_eq_error_iff_plan, planTimeline, isRenderable_totalDuration]
  by_cases refused : t.isEmpty = true ∧ options.allowEmpty = false
  · simp [refused.1, refused.2, eq_comm]
  · have permitted : (t.isEmpty && !options.allowEmpty) = false := by simpa using refused
    rw [permitted]
    cases planClips assets 0 (orderedClips t) with
    | error f => simp [refused, bind, Except.bind]
    | ok plans => cases checkOverlays t.overlays <;> simp [refused, bind, Except.bind]

/-- A failed compilation returns the reason. -/
theorem compile_eq_error_iff (t : Timeline α) (assets : Store) (options : Options)
    (e : CompileError α) :
    compile t assets options = some (.error e) ↔ Reason t assets options e := by
  rw [compile_eq_error_cases, planClips_eq_error_iff, planClips_isOk_iff_fit,
    checkOverlays_eq_error_iff]
  constructor
  · rintro (⟨⟨isEmpty, refused⟩, rfl⟩ | ⟨-, ⟨c, isFirst, fault⟩ | ⟨fit, o, isFirst, rfl⟩⟩)
    · exact .empty isEmpty refused
    · exact .clip (orderedClips_isStableOrder t) isFirst fault
    · exact .overlay fit isFirst
  · rintro (⟨isEmpty, refused⟩ | ⟨isOrder, isFirst, fault⟩ | ⟨fit, isFirst⟩)
    · exact Or.inl ⟨⟨isEmpty, refused⟩, rfl⟩
    · -- Clips are blamed in the order of the compilation, as there is one stable order only.
      obtain rfl := isOrder.unique (orderedClips_isStableOrder t)
      have inTimeline := List.mem_mergeSort.mp isFirst.mem
      refine Or.inr ⟨fun ⟨isEmpty, _⟩ => ?_, Or.inl ⟨_, isFirst, fault⟩⟩
      rw [((isEmpty_eq_true_iff t).mp isEmpty).1] at inTimeline
      exact List.not_mem_nil inTimeline
    · have inTimeline := isFirst.mem
      refine Or.inr ⟨fun ⟨isEmpty, _⟩ => ?_, Or.inr ⟨fit, _, isFirst, rfl⟩⟩
      rw [((isEmpty_eq_true_iff t).mp isEmpty).2] at inTimeline
      exact List.not_mem_nil inTimeline

theorem isFinite_of_lasts_sub {start stop : α} (lasts : Lasts (stop - start)) :
    Scalar.isFinite stop = true := by
  obtain ⟨q, isSpan, -⟩ := lasts
  exact (Scalar.Faithful.isFinite_of_sub stop start ((Scalar.isFinite_iff_exact _).mpr ⟨q, isSpan⟩)).1

/-- All elements of an accepted timeline have finite ends. -/
theorem Accepts.isFinite_end {t : Timeline α} {assets : Store} {options : Options}
    (accepted : Accepts t assets options) :
    ∀ e ∈ t.elements, Scalar.isFinite e.span.2 = true := by
  intro e member
  rcases List.mem_append.mp member with isClip | isText
  · obtain ⟨c, inClips, rfl⟩ := List.mem_map.mp isClip
    exact isFinite_of_lasts_sub (accepted.clips c inClips).placed
  · obtain ⟨o, inOverlays, rfl⟩ := List.mem_map.mp isText
    exact isFinite_of_lasts_sub (accepted.overlays o inOverlays)

theorem Accepts.totalDuration_isGreatest {t : Timeline α} {assets : Store} {options : Options}
    (accepted : Accepts t assets options) :
    IsGreatest {x | x = 1 ∨ ∃ e ∈ t.elements, x = e.span.2} t.totalDuration := by
  have same : {x | x = 1 ∨ ∃ e ∈ t.elements, Scalar.isFinite e.span.2 = true ∧ x = e.span.2} =
      {x | x = 1 ∨ ∃ e ∈ t.elements, x = e.span.2} := by
    ext x
    refine or_congr_right (exists_congr fun e => and_congr_right fun member => ?_)
    rw [accepted.isFinite_end e member, eq_self_iff_true, true_and]
  exact same ▸ Render.totalDuration_isGreatest t

/-- A compilation does not end exactly if all that is wrong is that the timeline is not paced. -/
theorem compile_eq_none_iff {t : Timeline α} {assets : Store} {options : Options} :
    compile t assets options = none ↔ Accepts t assets options ∧ ¬ IsPaced t assets := by
  rw [← Option.not_isSome_iff_eq_none, isSome_compile_iff, not_or, ← planTimeline_isOk_iff_accepts]
  simp only [compile_eq_error_iff_plan]
  refine and_congr_left fun _ => ?_
  cases planTimeline t assets options <;> simp

/-- A timeline is compiled exactly if nothing is wrong with it and it is paced, and then lasts until the
latest end of its elements, one second at least. If something is wrong with it, the error is the reason,
which is never the duration of the timeline as a whole. If it only is not paced, there is no verdict. -/
theorem compile_verdict (t : Timeline α) (assets : Store) (options : Options) :
    ((∃ job, compile t assets options = some (.ok job)) ↔
        Accepts t assets options ∧ IsPaced t assets) ∧
      (∀ job, compile t assets options = some (.ok job) →
        IsGreatest {x | x = 1 ∨ ∃ e ∈ t.elements, x = e.span.2} job.encoding.totalDuration) ∧
      (∀ e, compile t assets options = some (.error e) ↔ Reason t assets options e) ∧
      (∀ duration, compile t assets options ≠ some (.error (.invalidDuration .timeline duration))) ∧
      (compile t assets options = none ↔ Accepts t assets options ∧ ¬ IsPaced t assets) := by
  refine ⟨compile_isOk_iff_accepts, ?_, compile_eq_error_iff t assets options, ?_, compile_eq_none_iff⟩
  · intro job compiled
    have accepted := (compile_isOk_iff_accepts.mp ⟨job, compiled⟩).1
    obtain ⟨-, -, plans, graph, -, -, -, rfl⟩ := compile_eq_ok_iff.mp compiled
    exact accepted.totalDuration_isGreatest
  · intro duration failed
    exact ((compile_eq_error_iff t assets options _).mp failed).ne_timeline duration rfl

/-- A clip whose end is no number, and which plays nothing of its source. -/
def endless : Clip Float :=
  { Clip.ofAsset ⟨2⟩ "film" .video "film.mp4" (some 10) 0 with timelineEnd := 0 / 0, sourceOut := 0 }

/-- Two clips and a text that are all at fault. The clip that lies lowest is stored last. -/
def mislaid : Timeline Float :=
  { (Timeline.empty : Timeline Float) with
    clips := [{ Clip.ofAsset ⟨1⟩ "lost" .video "lost.mp4" (some 10) 0 with zIndex := 1 }, endless]
    overlays := [{ Overlay.ofText ⟨3⟩ "text" 0 with timelineEnd := 0 }] }

/-- The lowest clip is blamed, for its length on the timeline. -/
theorem compile_verdict_mislaid :
    compile mislaid (.ofList [("film", ⟨.file "film.mp4", "video/mp4", true⟩)])
      ⟨false, "medium", 23, 192⟩ =
        some (.error (.invalidDuration (.clip ⟨2⟩) endless.timelineSpan)) := by
  obtain ⟨-, -, errors, -⟩ := compile_verdict mislaid
    (.ofList [("film", ⟨.file "film.mp4", "video/mp4", true⟩)]) ⟨false, "medium", 23, 192⟩
  have sorted : ∃ others, orderedClips mislaid = endless :: others := by
    simp [orderedClips, mislaid, endless, List.mergeSort, List.MergeSort.Internal.splitInTwo,
      Clip.ofAsset]
  obtain ⟨others, isOrder⟩ := sorted
  have unplaced : ¬ Lasts endless.timelineSpan :=
    (isRenderable_eq_false_iff _).mp (by decide +kernel)
  rw [errors]
  refine .clip (orderedClips_isStableOrder mislaid) ⟨[], others, isOrder, List.forall_mem_nil _, ?_⟩ ?_
  · exact fun fits => unplaced fits.placed
  · exact .timelineSpan rfl unplaced

theorem flash_fits : ClipFits shelf flash :=
  (clipFits_iff shelf flash).mpr ⟨excerpt_isStored 10 1e-308, by decide +kernel⟩

/-- Nothing is wrong with ten seconds of a film in next to no time, and they are never compiled. -/
theorem flash_accepted_not_compiled :
    Accepts (screening flash) shelf ⟨false, "medium", 23, 192⟩ ∧
      ¬ ((∃ job, compile (screening flash) shelf ⟨false, "medium", 23, 192⟩ = some (.ok job)) ↔
        Accepts (screening flash) shelf ⟨false, "medium", 23, 192⟩) := by
  have accepted : Accepts (screening flash) shelf ⟨false, "medium", 23, 192⟩ :=
    ⟨Or.inl rfl, List.forall_mem_singleton.mpr flash_fits, List.forall_mem_nil _⟩
  refine ⟨accepted, fun verdict => ?_⟩
  have paced := (compile_isOk_iff_accepts.mp (verdict.mpr accepted)).2
  exact not_isPaced_of_flash (List.mem_singleton_self _) rfl rfl paced

end Montage.Render

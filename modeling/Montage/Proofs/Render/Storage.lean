import Montage.Proofs.Render.Composition
import Montage.Proofs.Render.Verdict

/-!
Contract: where elements are stored matters only between elements of one `zIndex`.

Owns:
- what two timelines have in common that are stored differently but composed alike
  (`IsComposedAlike`);
- that both compilations end with the same job, or both with an error, or neither of them ends.

Does **not** own: stable orders (`Montage.Proofs.Render.Order`).

The duration is folded over the elements as they are stored. It is the greatest of their ends, and so
does not depend on their order either.
-/

set_option autoImplicit false

namespace Montage.Render

variable {α : Type}

/-- Two timelines with the same picture format whose clips and whose overlays have the same stable order
of `zIndex`. -/
structure IsComposedAlike (t u : Timeline α) : Prop where
  canvas : t.canvas = u.canvas
  frameRate : t.frameRate = u.frameRate
  clips : ∃ sorted, IsStableOrder (·.zIndex) t.clips sorted ∧ IsStableOrder (·.zIndex) u.clips sorted
  overlays :
    ∃ sorted, IsStableOrder (·.zIndex) t.overlays sorted ∧ IsStableOrder (·.zIndex) u.overlays sorted

namespace IsComposedAlike

variable {t u : Timeline α}

theorem orderedClips_eq (alike : IsComposedAlike t u) : orderedClips t = orderedClips u := by
  obtain ⟨sorted, isFirst, isSecond⟩ := alike.clips
  rw [(orderedClips_isStableOrder t).unique isFirst, isSecond.unique (orderedClips_isStableOrder u)]

theorem orderedOverlays_eq (alike : IsComposedAlike t u) :
    orderedOverlays t = orderedOverlays u := by
  obtain ⟨sorted, isFirst, isSecond⟩ := alike.overlays
  rw [(orderedOverlays_isStableOrder t).unique isFirst,
    isSecond.unique (orderedOverlays_isStableOrder u)]

theorem clips_perm (alike : IsComposedAlike t u) : t.clips.Perm u.clips := by
  have sorted : (orderedClips t).Perm t.clips := List.mergeSort_perm _ _
  have sortedToo : (orderedClips u).Perm u.clips := List.mergeSort_perm _ _
  rw [alike.orderedClips_eq] at sorted
  exact sorted.symm.trans sortedToo

theorem overlays_perm (alike : IsComposedAlike t u) : t.overlays.Perm u.overlays := by
  have sorted : (orderedOverlays t).Perm t.overlays := List.mergeSort_perm _ _
  have sortedToo : (orderedOverlays u).Perm u.overlays := List.mergeSort_perm _ _
  rw [alike.orderedOverlays_eq] at sorted
  exact sorted.symm.trans sortedToo

theorem isEmpty_eq (alike : IsComposedAlike t u) : t.isEmpty = u.isEmpty := by
  unfold Timeline.isEmpty
  rw [alike.clips_perm.isEmpty_eq, alike.overlays_perm.isEmpty_eq]

theorem mem_elements_iff (alike : IsComposedAlike t u) (e : Element α) :
    e ∈ t.elements ↔ e ∈ u.elements :=
  ((alike.clips_perm.map _).append (alike.overlays_perm.map _)).mem_iff

variable [Scalar α]

/-- Of the two timelines, one job is assembled from one plan and its graph. -/
theorem assemble_eq (alike : IsComposedAlike t u) (sameTotal : t.totalDuration = u.totalDuration)
    (options : Options) (plans : List (Input α × PlannedClip α)) (graph : FilterGraph) :
    assemble t options plans graph = assemble u options plans graph := by
  simp only [assemble, encodingOf, alike.frameRate, sameTotal]

/-- Of the two timelines, one graph is built from one plan. -/
theorem buildGraph_eq (alike : IsComposedAlike t u) (total : α) (planned : List (PlannedClip α)) :
    buildGraph t total planned = buildGraph u total planned := by
  simp only [buildGraph, baseChain, alike.canvas, alike.frameRate, alike.orderedOverlays_eq]

theorem isPaced_iff (alike : IsComposedAlike t u) (assets : Store) :
    IsPaced t assets ↔ IsPaced u assets :=
  forall_congr' fun _ => imp_congr_left alike.clips_perm.mem_iff

theorem checkOverlays_eq_ok_iff (alike : IsComposedAlike t u) :
    checkOverlays t.overlays = .ok () ↔ checkOverlays u.overlays = .ok () := by
  rw [Render.checkOverlays_eq_ok_iff, Render.checkOverlays_eq_ok_iff]
  exact forall_congr' fun o => imp_congr_left alike.overlays_perm.mem_iff

theorem accepts_iff (alike : IsComposedAlike t u) (assets : Store) (options : Options) :
    Accepts t assets options ↔ Accepts u assets options := by
  have one {t u : Timeline α} (alike : IsComposedAlike t u) (accepted : Accepts t assets options) :
      Accepts u assets options :=
    ⟨alike.isEmpty_eq ▸ accepted.permitted,
      fun c member => accepted.clips c (alike.clips_perm.mem_iff.mpr member),
      fun o member => accepted.overlays o (alike.overlays_perm.mem_iff.mpr member)⟩
  have back : IsComposedAlike u t :=
    { canvas := alike.canvas.symm
      frameRate := alike.frameRate.symm
      clips := alike.clips.imp fun _ => And.symm
      overlays := alike.overlays.imp fun _ => And.symm }
  exact ⟨one alike, one back⟩

variable [Scalar.Faithful α]

theorem totalDuration_eq (alike : IsComposedAlike t u) : t.totalDuration = u.totalDuration := by
  have first := totalDuration_isGreatest t
  have second := totalDuration_isGreatest u
  simp only [alike.mem_elements_iff] at first
  have lasting := (isRenderable_iff_lasts _).mp (isRenderable_totalDuration t)
  obtain ⟨q, isTotal, -⟩ := (isRenderable_iff_lasts _).mp (isRenderable_totalDuration u)
  exact Scalar.eq_of_isGreatest first second lasting ((Scalar.isFinite_iff_exact _).mpr ⟨q, isTotal⟩)

theorem compile_eq_ok_iff (alike : IsComposedAlike t u) (assets : Store) (options : Options)
    (job : Job α) :
    compile t assets options = some (.ok job) ↔ compile u assets options = some (.ok job) := by
  simp only [Render.compile_eq_ok_iff, alike.isEmpty_eq, alike.totalDuration_eq,
    alike.orderedClips_eq, alike.checkOverlays_eq_ok_iff, alike.buildGraph_eq,
    alike.assemble_eq alike.totalDuration_eq]

/-- One of the two compilations ends exactly if the other one does. -/
theorem compile_eq_none_iff (alike : IsComposedAlike t u) (assets : Store) (options : Options) :
    compile t assets options = none ↔ compile u assets options = none := by
  rw [Render.compile_eq_none_iff, Render.compile_eq_none_iff, alike.accepts_iff, alike.isPaced_iff]

end IsComposedAlike

/-- Of two timelines that differ only in how they are stored, apart from the order of elements of one
`zIndex`, both are compiled to one job, or both fail, or neither compilation ends. The latter is so exactly
if nothing is wrong with the first of them but that it is not paced. -/
theorem compile_ignores_storage
    [Scalar α]
    [Scalar.Faithful α]
    {t u : Timeline α}
    (alike : IsComposedAlike t u)
    (assets : Store)
    (options : Options) :
    (∃ job, compile t assets options = some (.ok job) ∧ compile u assets options = some (.ok job)) ∨
      (∃ first second, compile t assets options = some (.error first) ∧
        compile u assets options = some (.error second)) ∨
      (Accepts t assets options ∧ ¬ IsPaced t assets) ∧
        compile t assets options = none ∧ compile u assets options = none := by
  have jobs := alike.compile_eq_ok_iff assets options
  have ends := alike.compile_eq_none_iff assets options
  rcases compiled : compile t assets options with - | (first | job)
  · exact Or.inr (Or.inr ⟨compile_eq_none_iff.mp compiled, rfl, ends.mp compiled⟩)
  · rcases compiledToo : compile u assets options with - | (second | job)
    · rw [ends.mpr compiledToo] at compiled
      cases compiled
    · exact Or.inr (Or.inl ⟨first, second, rfl, rfl⟩)
    · rw [(jobs job).mpr compiledToo] at compiled
      cases compiled
  · exact Or.inl ⟨job, rfl, (jobs job).mp compiled⟩

/-- A title over a photo over two films that lie side by side. -/
def layered : Timeline Float :=
  { (Timeline.empty : Timeline Float) with
    clips :=
      [{ Clip.ofAsset ⟨1⟩ "photo" .image "photo.png" none 0 with zIndex := 1 },
       { Clip.ofAsset ⟨2⟩ "left" .video "left.mp4" (some 10) 0 with width := 960 },
       { Clip.ofAsset ⟨3⟩ "right" .video "right.mp4" (some 12) 0 with width := 960, x := 960 }]
    overlays := [Overlay.ofText ⟨4⟩ "title" 0, { Overlay.ofText ⟨5⟩ "shade" 0 with zIndex := -1 }] }

/-- The same elements with the photo stored between the films and the title stored last. -/
def reshuffled : Timeline Float :=
  { layered with
    clips :=
      [{ Clip.ofAsset ⟨2⟩ "left" .video "left.mp4" (some 10) 0 with width := 960 },
       { Clip.ofAsset ⟨1⟩ "photo" .image "photo.png" none 0 with zIndex := 1 },
       { Clip.ofAsset ⟨3⟩ "right" .video "right.mp4" (some 12) 0 with width := 960, x := 960 }]
    overlays := [{ Overlay.ofText ⟨5⟩ "shade" 0 with zIndex := -1 }, Overlay.ofText ⟨4⟩ "title" 0] }

theorem layered_isComposedAlike : IsComposedAlike layered reshuffled where
  canvas := rfl
  frameRate := rfl
  clips := by
    have same : orderedClips layered = orderedClips reshuffled := by
      simp [orderedClips, layered, reshuffled, List.mergeSort, List.MergeSort.Internal.splitInTwo,
        Clip.ofAsset]
    exact ⟨_, orderedClips_isStableOrder layered, same ▸ orderedClips_isStableOrder reshuffled⟩
  overlays := by
    have same : orderedOverlays layered = orderedOverlays reshuffled := by
      simp [orderedOverlays, layered, reshuffled, List.mergeSort,
        List.MergeSort.Internal.splitInTwo, Overlay.ofText]
    exact ⟨_, orderedOverlays_isStableOrder layered, same ▸ orderedOverlays_isStableOrder reshuffled⟩

/-- The films and the photo are compiled to one job in either order. -/
theorem compile_layered_eq_reshuffled :
    ∃ job,
      compile layered (fun _ => some ⟨.file "file", "video/mp4", true⟩) ⟨false, "medium", 23, 192⟩ =
          some (.ok job) ∧
        compile reshuffled (fun _ => some ⟨.file "file", "video/mp4", true⟩)
          ⟨false, "medium", 23, 192⟩ = some (.ok job) := by
  have accepted :
      Accepts layered (fun _ => some ⟨.file "file", "video/mp4", true⟩) ⟨false, "medium", 23, 192⟩ := by
    refine ⟨Or.inl rfl, fun c member => ?_, fun o member => ?_⟩
    · have spans : ∀ c ∈ layered.clips, isRenderable c.timelineSpan = true ∧
          isRenderable c.sourceSpan = true := by decide +kernel
      exact (clipFits_iff _ c).mpr ⟨⟨_, rfl, by decide +kernel⟩, spans c member⟩
    · have spans : ∀ o ∈ layered.overlays, isRenderable o.timelineSpan = true := by decide +kernel
      exact (isRenderable_iff_lasts _).mp (spans o member)
  have paced : IsPaced layered fun _ => some ⟨.file "file", "video/mp4", true⟩ := by
    have normal : ∀ c ∈ layered.clips, Scalar.exact c.speed = .fin 1 := by decide +kernel
    intro c member _ _ _
    have positive : (.fin 0 : Extended) ≤ Scalar.exact c.speed := by
      rw [normal c member]
      decide +kernel
    exact (Tempo.isSome_steps?_iff positive).mpr ⟨1, normal c member, one_pos⟩
  obtain ⟨job, compiled⟩ := compile_isOk_iff_accepts.mpr ⟨accepted, paced⟩
  rcases compile_ignores_storage layered_isComposedAlike
    (fun _ => some ⟨.file "file", "video/mp4", true⟩) ⟨false, "medium", 23, 192⟩ with
    both | ⟨first, -, failed, -⟩ | ⟨-, endless, -⟩
  · exact both
  · rw [compiled] at failed
    cases failed
  · rw [compiled] at endless
    cases endless

/-- A photo that lies below everything else. -/
def backdrop : Clip Float := { Clip.ofAsset ⟨2⟩ "photo" .image "photo.png" none 0 with zIndex := -1 }

/-- A flash of a film over a photo. -/
def dazzling : Timeline Float :=
  { (Timeline.empty : Timeline Float) with clips := [backdrop, flash] }

/-- The flash is stored before the photo. -/
def dazzlingReversed : Timeline Float := { dazzling with clips := dazzling.clips.reverse }

theorem dazzling_isComposedAlike : IsComposedAlike dazzling dazzlingReversed where
  canvas := rfl
  frameRate := rfl
  clips := by
    have same : orderedClips dazzling = orderedClips dazzlingReversed := by
      simp [orderedClips, dazzling, dazzlingReversed, backdrop, flash, excerpt, List.mergeSort,
        List.MergeSort.Internal.splitInTwo, Clip.ofAsset]
    exact ⟨_, orderedClips_isStableOrder dazzling, same ▸ orderedClips_isStableOrder dazzlingReversed⟩
  overlays := ⟨_, orderedOverlays_isStableOrder dazzling, orderedOverlays_isStableOrder dazzling⟩

/-- Of a photo under a flash, there is neither a job nor an error, whichever is stored first. -/
theorem dazzling_neither_compiled_nor_refused :
    IsComposedAlike dazzling dazzlingReversed ∧
      ¬ ((∃ job, compile dazzling shelf ⟨false, "medium", 23, 192⟩ = some (.ok job) ∧
            compile dazzlingReversed shelf ⟨false, "medium", 23, 192⟩ = some (.ok job)) ∨
          ∃ first second, compile dazzling shelf ⟨false, "medium", 23, 192⟩ = some (.error first) ∧
            compile dazzlingReversed shelf ⟨false, "medium", 23, 192⟩ = some (.error second)) := by
  have photo : ClipFits shelf backdrop :=
    (clipFits_iff shelf backdrop).mpr ⟨⟨_, rfl, by decide +kernel⟩, by decide +kernel⟩
  have accepted : Accepts dazzling shelf ⟨false, "medium", 23, 192⟩ :=
    ⟨Or.inl rfl, List.forall_mem_cons.mpr ⟨photo, List.forall_mem_singleton.mpr flash_fits⟩,
      List.forall_mem_nil _⟩
  have unpaced : ¬ IsPaced dazzling shelf :=
    not_isPaced_of_flash (List.mem_cons_of_mem _ (List.mem_singleton_self _)) rfl rfl
  refine ⟨dazzling_isComposedAlike, ?_⟩
  rw [compile_eq_none_iff.mpr ⟨accepted, unpaced⟩]
  rintro (⟨job, compiled, -⟩ | ⟨first, second, failed, -⟩)
  · cases compiled
  · cases failed

end Montage.Render

import Montage.Proofs.Render.Acceptance
import Montage.Proofs.Render.Numbering
import Montage.Proofs.Render.Order

/-!
Contract: a compiled job renders every element once, in order.

Owns:
- the clips that are seen and those that are heard (`PlannedClip.IsSeen`, `PlannedClip.IsHeard`);
- what a job that shows a picture and plays a sound is (`ShowsPicture`, `PlaysSound`);
- that every compiled job is one of its timeline's plan.

Does **not** own: the order of the elements (`Montage.Proofs.Render.Order`) and the chains of a graph
(`Montage.Proofs.Render.Numbering`).
-/

set_option autoImplicit false

namespace Montage.Render

open FilterGraph

variable {α : Type}

/-! ## Elements that are seen and heard -/

/-- Whether a planned clip is part of the picture. -/
def PlannedClip.IsSeen (p : PlannedClip α) : Prop :=
  p.clip.kind = .video ∨ p.clip.kind = .image

/-- Whether a planned clip is part of the sound: it is a clip of sound, or a video with sound. -/
def PlannedClip.IsHeard (p : PlannedClip α) : Prop :=
  p.clip.kind = .audio ∨ p.clip.kind = .video ∧ p.asset.hasAudio = true

instance (p : PlannedClip α) : Decidable p.IsSeen :=
  inferInstanceAs (Decidable (_ ∨ _))

instance (p : PlannedClip α) : Decidable p.IsHeard :=
  inferInstanceAs (Decidable (_ ∨ _ ∧ _))

theorem visualClips_eq (planned : List (PlannedClip α)) :
    visualClips planned = planned.filter fun p => p.IsSeen := by
  unfold visualClips
  congr 1
  funext p
  cases kind : p.clip.kind <;> simp [PlannedClip.IsSeen, kind, MediaKind.isVisual]

theorem carriesAudio_iff_isHeard (p : PlannedClip α) :
    carriesAudio p.clip p.asset = true ↔ p.IsHeard := by
  cases kind : p.clip.kind <;>
    simp [PlannedClip.IsHeard, kind, carriesAudio, MediaKind.canCarryAudio]

theorem soundingClips_eq (planned : List (PlannedClip α)) :
    soundingClips planned = planned.filter fun p => p.IsHeard := by
  unfold soundingClips
  congr 1
  funext p
  rw [Bool.eq_iff_iff, carriesAudio_iff_isHeard, decide_eq_true_iff]

variable [Scalar α]

/-! ## Graphs -/

/-- A graph shows the picture of clips and overlays over a ground, each of them once and in order: the way
back from the picture that is written leads over the overlays and then the clips, the last ones first. -/
structure ShowsPicture (g : FilterGraph) (ground : Chain) (seen : List (PlannedClip α))
    (overlays : List (Overlay α)) : Prop where
  clips :
    ∀ n p, seen[n]? = some p →
      g.writers (clipLabel n) = [videoChain p (clipLabel n)] ∧
        g.streamReaders p.input .video = [videoChain p (clipLabel n)] ∧
        g.writers (compositionLabel n) = [compositionChain n p] ∧
        g.readers (clipLabel n) = [compositionChain n p]
  texts :
    ∀ n o, overlays[n]? = some o → g.writers (textLabel n) = [drawingChain seen.length n o]
  output : g.writers videoLabel = [videoOutputChain (underText seen.length overlays.length)]
  trail :
    g.Trail videoLabel
      (videoOutputChain (underText seen.length overlays.length) ::
        ((drawingChains seen.length overlays).reverse ++
          ((compositionChains seen).reverse ++ [ground])))
  composed : g.stagesNamed "overlay" = seen.map fun p => compositionStage p.clip
  drawn : g.stagesNamed "drawtext" = overlays.map drawingStage

/-- A graph plays the sound of clips, each of them once, and mixes it if there is any. -/
structure PlaysSound (g : FilterGraph) (heard : List (PlannedClip α)) : Prop where
  clips :
    ∀ n p, heard[n]? = some p →
      ∃ chain, audioChain p (soundLabel n) = some chain ∧
        g.writers (soundLabel n) = [chain] ∧
        g.streamReaders p.input .audio = [chain] ∧
        g.readers (soundLabel n) = g.writers audioLabel
  mix :
    heard ≠ [] →
      ∃ chain, g.writers audioLabel = [chain] ∧
        chain.inputs = (List.range heard.length).map (fun n => .label (soundLabel n)) ∧
        chain.inputs.Nodup ∧
        chain.stages.map Stage.text =
          ["amix=inputs=" ++ toString chain.inputs.length ++ ":duration=longest:normalize=1"]

section Graph

variable {t : Timeline α} {total : α} {planned : List (PlannedClip α)} {g : FilterGraph}

theorem buildGraph_numbered_isWired (built : buildGraph t total planned = some g)
    (numbered : planned.map (·.input) = List.range planned.length) :
    g.IsWired planned.length (videoLabel :: soundTerminals (soundingClips planned)) := by
  apply buildGraph_isWired built
  intro p member
  have inRange : p.input ∈ List.range planned.length :=
    numbered ▸ List.mem_map.mpr ⟨p, member, rfl⟩
  exact List.mem_range.mp inRange

/-- No stream is read twice. -/
theorem buildGraph_streams_nodup (built : buildGraph t total planned = some g)
    (numbered : planned.map (·.input) = List.range planned.length) : g.streams.Nodup := by
  have numbers : (planned.map (·.input)).Nodup := numbered ▸ List.nodup_range
  have once (keep : PlannedClip α → Bool) (stream : StreamKind) :
      ((planned.filter keep).map fun p => (p.input, stream)).Nodup := by
    have kept : ((planned.filter keep).map (·.input)).Nodup :=
      numbers.sublist (List.filter_sublist.map _)
    have paired := kept.map (f := fun index => (index, stream)) fun _ _ same => (Prod.mk.inj same).1
    rwa [List.map_map] at paired
  rw [buildGraph_streams built, List.nodup_append]
  refine ⟨once _ _, once _ _, ?_⟩
  intro first isFirst second isSecond same
  obtain ⟨p, -, rfl⟩ := List.mem_map.mp isFirst
  obtain ⟨q, -, rfl⟩ := List.mem_map.mp isSecond
  cases (Prod.mk.inj same).2

/-- A chain of the graph is the only one that writes its label. -/
theorem ChainOf.writers_eq {chain : Chain} {l : PadLabel}
    (has : ChainOf t total planned chain)
    (outputs : chain.outputs = [l])
    (built : buildGraph t total planned = some g)
    (numbered : planned.map (·.input) = List.range planned.length) : g.writers l = [chain] := by
  refine (buildGraph_numbered_isWired built numbered).writers_eq (has.mem built) ?_
  rw [outputs]
  exact List.mem_singleton_self l

/-- The way back leads over the texts and the visual clips to the black base. -/
theorem buildGraph_trail (built : buildGraph t total planned = some g)
    (numbered : planned.map (·.input) = List.range planned.length) :
    g.Trail videoLabel
      (lastChain t planned ::
        ((drawingChains (visualClips planned).length (orderedOverlays t)).reverse ++
          ((compositionChains (visualClips planned)).reverse ++ [baseChain t total]))) := by
  have clips : g.Trail (underClip (visualClips planned).length)
      ((compositionChains (visualClips planned)).reverse ++ [baseChain t total]) := by
    rw [← compositionChains_length]
    refine Trail.climb (.source (ChainOf.base.writers_eq rfl built numbered) rfl) ?_
    intro n chain nth
    rw [compositionChains_getElem?] at nth
    obtain ⟨p, isClip, rfl⟩ := Option.map_eq_some_iff.mp nth
    exact ⟨(ChainOf.composition isClip).writers_eq rfl built numbered, _, rfl⟩
  have texts : g.Trail
      (underText (visualClips planned).length (orderedOverlays t).length)
      ((drawingChains (visualClips planned).length (orderedOverlays t)).reverse ++
        ((compositionChains (visualClips planned)).reverse ++ [baseChain t total])) := by
    rw [← drawingChains_length (visualClips planned).length (orderedOverlays t)]
    refine Trail.climb clips ?_
    intro n chain nth
    rw [drawingChains_getElem?] at nth
    obtain ⟨o, isText, rfl⟩ := Option.map_eq_some_iff.mp nth
    exact ⟨(ChainOf.drawing isText).writers_eq rfl built numbered, _, rfl⟩
  exact .step (ChainOf.last.writers_eq rfl built numbered) rfl texts

theorem buildGraph_showsPicture (built : buildGraph t total planned = some g)
    (numbered : planned.map (·.input) = List.range planned.length) :
    ShowsPicture g (baseChain t total) (visualClips planned) (orderedOverlays t) := by
  refine
    { clips := fun n p nth => ?_
      texts := fun n o nth => (ChainOf.drawing nth).writers_eq rfl built numbered
      output := ChainOf.last.writers_eq rfl built numbered
      trail := buildGraph_trail built numbered
      composed := stagesNamed_overlay built
      drawn := stagesNamed_drawtext built }
  have picture : ChainOf t total planned (videoChain p (clipLabel n)) := .picture nth
  have composition : ChainOf t total planned (compositionChain n p) := .composition nth
  have reads : clipLabel n ∈ (compositionChain n p).inputLabels :=
    List.mem_cons_of_mem _ (List.mem_singleton_self _)
  refine ⟨picture.writers_eq rfl built numbered, ?_, composition.writers_eq rfl built numbered, ?_⟩
  · exact streamReaders_eq (buildGraph_streams_nodup built numbered) (picture.mem built)
      (List.mem_singleton_self _)
  · exact (buildGraph_numbered_isWired built numbered).readers_eq (composition.mem built) reads

theorem buildGraph_playsSound (built : buildGraph t total planned = some g)
    (numbered : planned.map (·.input) = List.range planned.length) :
    PlaysSound g (soundingClips planned) := by
  have mixed (heard : soundingClips planned ≠ []) :
      ChainOf t total planned (mixChain (soundingClips planned).length) := .mix heard
  constructor
  · intro n p nth
    obtain ⟨chain, made⟩ := exists_audioChain built nth
    have sound : ChainOf t total planned chain := .sound nth made
    have heard : soundingClips planned ≠ [] := List.ne_nil_of_mem (List.mem_of_getElem? nth)
    have below : n < (soundingClips planned).length := (List.getElem?_eq_some_iff.mp nth).1
    have reads : soundLabel n ∈ (mixChain (soundingClips planned).length).inputLabels := by
      rw [mixChain_inputLabels]
      exact List.mem_map.mpr ⟨.sound n, List.mem_map.mpr ⟨n, by simpa using below, rfl⟩, rfl⟩
    refine ⟨chain, made, sound.writers_eq (audioChain_outputs made) built numbered, ?_, ?_⟩
    · refine streamReaders_eq (buildGraph_streams_nodup built numbered) (sound.mem built) ?_
      rw [audioChain_streams made]
      exact List.mem_singleton_self _
    · rw [(mixed heard).writers_eq rfl built numbered]
      exact (buildGraph_numbered_isWired built numbered).readers_eq ((mixed heard).mem built) reads
  · intro heard
    obtain ⟨distinct, text⟩ := mixChain_inputs (soundingClips planned).length
    exact ⟨_, (mixed heard).writers_eq rfl built numbered, rfl, distinct, text⟩

end Graph

/-! ## Jobs -/

/-- A job writes the picture, and sound exactly if there is any. Its codec, its bitrate and its rate of
samples are given then, and only then. -/
structure SetsUp (job : Job α) (heard : List (PlannedClip α)) : Prop where
  video : job.outputs.video = videoLabel
  audio : heard ≠ [] → job.outputs.audio = some audioLabel
  silent :
    (job.outputs.audio = none ↔ heard = []) ∧ (job.encoding.audioCodec = none ↔ heard = []) ∧
      (job.encoding.audioBitrate = none ↔ heard = []) ∧
      (job.encoding.audioSampleRate = none ↔ heard = [])

theorem assemble_setsUp (t : Timeline α) (options : Options)
    (plans : List (Input α × PlannedClip α)) (graph : FilterGraph) :
    SetsUp (assemble t options plans graph) (soundingClips (plans.map (·.2))) := by
  have quiet := soundingClips_isEmpty (plans.map (·.2))
  refine ⟨rfl, ?_, ?_⟩
  · intro heard
    rw [← List.isEmpty_eq_false_iff, quiet, Bool.not_eq_false'] at heard
    simp only [assemble, heard, if_true]
  · rw [← List.isEmpty_iff, quiet]
    simp only [assemble, encodingOf]
    cases (plans.map (·.2)).any fun p => carriesAudio p.clip p.asset <;> simp

/-- The planned clips of a compiled timeline have spans that can be rendered. -/
theorem IsPlan.isRenderable_spans {t : Timeline α} {assets : Store} {options : Options} {job : Job α}
    {planned : List (PlannedClip α)} (isPlan : IsPlan t assets planned)
    (compiled : compile t assets options = some (.ok job)) :
    ∀ p ∈ planned, isRenderable p.clip.timelineSpan = true ∧ isRenderable p.clip.sourceSpan = true := by
  intro p member
  obtain ⟨⟨-, -, lasting, -⟩, -⟩ := (compile_isOk_iff t assets options).mp ⟨job, compiled⟩
  have inOrder : p.clip ∈ orderedClips t := isPlan.clips ▸ List.mem_map_of_mem member
  exact (lasting p.clip (List.mem_mergeSort.mp inOrder)).2

/-- Every compiled job has the clips of its timeline as its inputs, in the stable order of their `zIndex`.
Its graph shows each visual clip and each overlay once, in that order, and plays each clip with sound
once. -/
theorem compile_composes
    {t : Timeline α}
    {assets : Store}
    {options : Options}
    {job : Job α}
    (compiled : compile t assets options = some (.ok job)) :
    IsStableOrder (·.zIndex) t.clips (orderedClips t) ∧
      IsStableOrder (·.zIndex) t.overlays (orderedOverlays t) ∧
      ∃ planned, IsPlan t assets planned ∧ List.Forall₂ Input.IsOf job.inputs planned ∧
        job.graph.streams =
          (planned.filter fun p => p.IsSeen).map (fun p => (p.input, .video)) ++
            (planned.filter fun p => p.IsHeard).map (fun p => (p.input, .audio)) ∧
        ShowsPicture job.graph (baseChain t t.totalDuration) (planned.filter fun p => p.IsSeen)
          (orderedOverlays t) ∧
        PlaysSound job.graph (planned.filter fun p => p.IsHeard) ∧
        SetsUp job (planned.filter fun p => p.IsHeard) := by
  obtain ⟨-, -, plans, graph, planned, -, built, rfl⟩ := compile_eq_ok_iff.mp compiled
  obtain ⟨isPlan, inputs⟩ := isPlan_of_planClips planned
  refine ⟨orderedClips_isStableOrder t, orderedOverlays_isStableOrder t, _, isPlan, inputs, ?_⟩
  rw [← visualClips_eq, ← soundingClips_eq]
  exact ⟨buildGraph_streams built, buildGraph_showsPicture built isPlan.inputs,
    buildGraph_playsSound built isPlan.inputs, assemble_setsUp t options plans graph⟩

/-! ## A mixed timeline -/

/-- Two videos, of which one has sound, a song and a photo, with two texts. -/
def reel : Timeline Extended :=
  { (Timeline.empty : Timeline Extended) with
    clips :=
      [{ Clip.ofAsset ⟨1⟩ "film" .video "film.mp4" (some 10) 0 with zIndex := 1 },
       Clip.ofAsset ⟨2⟩ "song" .audio "song.mp3" (some 10) 0,
       { Clip.ofAsset ⟨3⟩ "photo" .image "photo.png" none 0 with zIndex := 1 },
       { Clip.ofAsset ⟨4⟩ "mute" .video "mute.mp4" (some 10) 0 with zIndex := -1 }]
    overlays := [{ Overlay.ofText ⟨5⟩ "above" 0 with zIndex := 1 }, Overlay.ofText ⟨6⟩ "below" 0] }

/-- The assets of the mixed timeline. -/
def shelf : Store :=
  .ofList
    [("film", ⟨.file "film.mp4", "video/mp4", true⟩), ("song", ⟨.file "song.mp3", "audio/mpeg", true⟩),
     ("photo", ⟨.file "photo.png", "image/png", false⟩),
     ("mute", ⟨.file "mute.mp4", "video/mp4", false⟩)]

theorem reel_compiles : ∃ job, compile reel shelf ⟨false, "medium", 23, 192⟩ = some (.ok job) := by
  have spans : ∀ c ∈ reel.clips, isRenderable c.timelineSpan = true ∧
      isRenderable c.sourceSpan = true := by decide +kernel
  have stored : ∀ c ∈ reel.clips, IsStored shelf c := by decide +kernel
  exact compile_isOk_of_renderable (Or.inl rfl) (fun c member => ⟨stored c member, spans c member⟩)
    (by decide +kernel)

/-- The mixed timeline is composed from the mute video up to the photo, the song in between unseen. -/
theorem compile_composes_reel :
    ∃ job planned, compile reel shelf ⟨false, "medium", 23, 192⟩ = some (.ok job) ∧
      planned.map (·.clip.id) = [⟨4⟩, ⟨2⟩, ⟨1⟩, ⟨3⟩] ∧ List.Forall₂ Input.IsOf job.inputs planned ∧
      ShowsPicture job.graph (baseChain reel reel.totalDuration) (planned.filter fun p => p.IsSeen)
        (orderedOverlays reel) ∧
      PlaysSound job.graph (planned.filter fun p => p.IsHeard) ∧
      SetsUp job (planned.filter fun p => p.IsHeard) := by
  obtain ⟨job, compiled⟩ := reel_compiles
  obtain ⟨-, -, planned, isPlan, inputs, -, picture, sound⟩ := compile_composes compiled
  have ids : (orderedClips reel).map (·.id) = [⟨4⟩, ⟨2⟩, ⟨1⟩, ⟨3⟩] := by
    simp [orderedClips, reel, List.mergeSort, List.MergeSort.Internal.splitInTwo, Clip.ofAsset]
  rw [← isPlan.clips, List.map_map] at ids
  exact ⟨job, planned, compiled, ids, inputs, picture, sound⟩

end Montage.Render

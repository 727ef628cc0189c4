import Montage.Proofs.Number.Compact
import Montage.Proofs.Render.Composition
import Montage.Proofs.Text.Bytes

/-!
Contract: the engine's arguments say what a job asks for.

Owns:
- the reading of arguments as options and one last text (`Setting.read?`), and that options are read as they
  were written;
- what the options of a compiled job are: a group for each input, the graph, the pads, and the sound
  (`Instructs`).

Does **not** own: what the text of the graph says (`Montage.Proofs.Graph.Reading`).

The name of a file may look like an option. Which texts are options and which are values is known only to
who reads the arguments from the front, and knows of every option whether it takes a value.
-/

set_option autoImplicit false

namespace Montage.Render

open Rounding (rounded)

/-! ## Options -/

/-- An option of the engine, with its value if it takes one. -/
structure Setting where
  name : String
  value : Option String
  deriving DecidableEq, Repr

namespace Setting

/-- The options that take no value. -/
def flags : List String := ["-y", "-hide_banner", "-nostats", "-an"]

/-- Reads options up to the last text, which is the output. -/
def read? : List String → Option (List Setting × String)
  | [] => none
  | [output] => some ([], output)
  | name :: value :: rest =>
    if name ∈ flags then
      (read? (value :: rest)).map fun (settings, output) => (⟨name, none⟩ :: settings, output)
    else (read? rest).map fun (settings, output) => (⟨name, some value⟩ :: settings, output)

/-- An option as it is written. -/
def words (s : Setting) : List String := s.name :: s.value.toList

/-- An option has a value unless it is one of those that take none. -/
def IsProper (s : Setting) : Prop := s.value = none ↔ s.name ∈ flags

instance (s : Setting) : Decidable s.IsProper := inferInstanceAs (Decidable (_ ↔ _))

/-- Options are read as they were written, whatever their values and the output are. -/
theorem read?_words {settings : List Setting} (proper : ∀ s ∈ settings, s.IsProper) (output : String) :
    read? (settings.flatMap words ++ [output]) = some (settings, output) := by
  induction settings with
  | nil => rfl
  | cons s rest inductionHypothesis =>
      obtain ⟨isProper, others⟩ := List.forall_mem_cons.mp proper
      have readRest := inductionHypothesis others
      obtain ⟨name, value⟩ := s
      cases value with
      | none =>
          have isFlag : name ∈ flags := isProper.mp rfl
          obtain ⟨next, behind, split⟩ :=
            List.exists_cons_of_ne_nil (List.append_ne_nil_of_right_ne_nil (rest.flatMap words)
              (List.cons_ne_nil output []))
          rw [split] at readRest
          show read? (name :: (rest.flatMap words ++ [output])) = _
          rw [split, read?, if_pos isFlag, readRest]
          rfl
      | some text =>
          have noFlag : name ∉ flags := fun isFlag => nomatch isProper.mpr isFlag
          show read? (name :: text :: (rest.flatMap words ++ [output])) = _
          rw [read?, if_neg noFlag, readRest]
          rfl

/-- The values that an option is given, in order. -/
def valuesOf (name : String) (settings : List Setting) : List String :=
  settings.filterMap fun s => if s.name = name then s.value else none

@[simp] theorem valuesOf_append (name : String) (first second : List Setting) :
    valuesOf name (first ++ second) = valuesOf name first ++ valuesOf name second :=
  List.filterMap_append

theorem valuesOf_eq_nil {name : String} {settings : List Setting}
    (absent : ∀ s ∈ settings, s.name ≠ name) : valuesOf name settings = [] :=
  List.filterMap_eq_nil_iff.mpr fun s member => if_neg (absent s member)

end Setting

/-! ## The options of a job -/

/-- The argument that stands for a path: the path itself if its bytes are a text, and what is shown of them
otherwise. -/
structure Names (argument : String) (path : ByteArray) : Prop where
  verbatim : ∀ text : String, path = text.toUTF8 → argument = text
  shown : argument = Text.Utf8.shown path

theorem names_shown (path : ByteArray) : Names (Text.Utf8.shown path) path :=
  ⟨fun text isText => isText ▸ Text.Utf8.shown_toUTF8 text, rfl⟩

/-- The options of an input: a still image is repeated for as long as its clip lasts, to six places. -/
structure IsGroupOf {α : Type} [Scalar α] (p : PlannedClip α) (path : ByteArray)
    (group : List Setting) : Prop where
  plays : p.clip.kind ≠ .image → ∃ name, Names name path ∧ group = [⟨"-i", some name⟩]
  holds :
    p.clip.kind = .image →
      ∃ text span name, Names name path ∧
        group = [⟨"-loop", some "1"⟩, ⟨"-t", some text⟩, ⟨"-i", some name⟩] ∧
        Scalar.exact p.clip.timelineSpan = .fin span ∧
        Layout.read? text = some (Extended.fin (rounded 6 span))

variable {α : Type} [Scalar α]

/-- The options that come first. -/
def leadingSettings : List Setting :=
  [⟨"-y", none⟩, ⟨"-hide_banner", none⟩, ⟨"-loglevel", some "error"⟩, ⟨"-nostats", none⟩,
   ⟨"-progress", some "pipe:1"⟩]

/-- The options of one input. -/
def inputSettings (input : Input α) (path : ByteArray) : List Setting :=
  (if input.isStill then [⟨"-loop", some "1"⟩] else []) ++
    (match input.isStill, input.hold with
    | true, some seconds => [⟨"-t", some (Layout.fixed 6 seconds)⟩]
    | _, _ => []) ++ [⟨"-i", some (Text.Utf8.shown path)⟩]

/-- The options on encoding, those on sound apart. -/
def pictureSettings (e : Encoding α) : List Setting :=
  [⟨"-c:v", some e.videoCodec⟩, ⟨"-profile:v", some e.profile⟩, ⟨"-level", some e.level⟩,
   ⟨"-pix_fmt", some e.pixelFormat⟩, ⟨"-preset", some e.preset⟩,
   ⟨"-crf", some (toString e.rateFactor.toNat)⟩, ⟨"-r", some (toString e.frameRate.toNat)⟩,
   ⟨"-movflags", some "+faststart"⟩, ⟨"-t", some (Layout.fixed 6 e.totalDuration)⟩]

/-- The options on sound: without a pad or a codec the flag that there is none. -/
def soundSettings (job : Job α) : List Setting :=
  match job.outputs.audio, job.encoding.audioCodec with
  | some _, some codec =>
    ⟨"-c:a", some codec⟩ ::
      (job.encoding.audioBitrate.toList.map fun rate => ⟨"-b:a", some (toString rate.toNat ++ "k")⟩) ++
      (job.encoding.audioSampleRate.toList.map fun rate => ⟨"-ar", some (toString rate.toNat)⟩)
  | _, _ => [⟨"-an", none⟩]

/-- The options that choose the pads of the output. -/
def mapSettings (outputs : OutputMap) : List Setting :=
  ⟨"-map", some outputs.video.text⟩ ::
    outputs.audio.toList.map fun audio => ⟨"-map", some audio.text⟩

/-- The options of all inputs. -/
def inputsSettings (inputs : List (Input α)) (paths : List ByteArray) : List Setting :=
  (inputs.zip paths).flatMap fun (input, path) => inputSettings input path

theorem words_inputSettings (input : Input α) (path : ByteArray) :
    (inputSettings input path).flatMap Setting.words = Job.inputArguments input path := by
  unfold inputSettings Job.inputArguments
  cases input.isStill <;> cases input.hold <;> rfl

/-- The options of a job up to those on sound. -/
def frontSettings (job : Job α) (paths : List ByteArray) : List Setting :=
  leadingSettings ++ inputsSettings job.inputs paths ++
    (⟨"-filter_complex", some job.graph.text⟩ :: mapSettings job.outputs) ++
    pictureSettings job.encoding

/-- The options of a job. -/
def settingsOf (job : Job α) (paths : List ByteArray) : List Setting :=
  frontSettings job paths ++ soundSettings job

omit [Scalar α] in
theorem words_soundSettings (job : Job α) :
    (soundSettings job).flatMap Setting.words = job.audioArguments := by
  unfold soundSettings Job.audioArguments
  cases job.outputs.audio with
  | none => rfl
  | some pad =>
      cases job.encoding.audioCodec with
      | none => rfl
      | some codec =>
          cases job.encoding.audioBitrate <;> cases job.encoding.audioSampleRate <;> rfl

theorem words_settingsOf (job : Job α) (paths : List ByteArray) :
    (settingsOf job paths).flatMap Setting.words =
      Job.leadingArguments ++
        (job.inputs.zip paths).flatMap (fun (input, path) => Job.inputArguments input path) ++
        job.mapArguments ++ job.encodingArguments := by
  have inputs : (inputsSettings job.inputs paths).flatMap Setting.words =
      (job.inputs.zip paths).flatMap fun (input, path) => Job.inputArguments input path := by
    unfold inputsSettings
    rw [List.flatMap_assoc]
    simp only [words_inputSettings]
  have maps : (⟨"-filter_complex", some job.graph.text⟩ :: mapSettings job.outputs).flatMap
      Setting.words = job.mapArguments := by
    unfold mapSettings Job.mapArguments
    cases job.outputs.audio <;> rfl
  simp only [settingsOf, frontSettings, Job.encodingArguments, List.flatMap_append, inputs, maps,
    words_soundSettings, List.append_assoc]
  rfl

theorem inputSettings_names (input : Input α) (path : ByteArray) :
    ∀ s ∈ inputSettings input path, s.name ∈ ["-loop", "-t", "-i"] ∧ s.value.isSome = true := by
  unfold inputSettings
  cases input.isStill <;> cases input.hold <;> simp

theorem settingsOf_proper (job : Job α) (paths : List ByteArray) :
    ∀ s ∈ settingsOf job paths, s.IsProper := by
  have leading : ∀ s ∈ leadingSettings, s.IsProper := by decide
  have inputs : ∀ s ∈ inputsSettings job.inputs paths, s.IsProper := by
    intro s member
    obtain ⟨⟨input, path⟩, -, inGroup⟩ := List.mem_flatMap.mp member
    obtain ⟨known, valued⟩ := inputSettings_names input path s inGroup
    have noFlag : ∀ name ∈ ["-loop", "-t", "-i"], name ∉ Setting.flags := by decide
    refine ⟨fun isNone => ?_, fun isFlag => (noFlag _ known isFlag).elim⟩
    rw [isNone] at valued
    cases valued
  simp only [settingsOf, frontSettings, List.forall_mem_append, List.forall_mem_cons]
  refine ⟨⟨⟨⟨leading, inputs⟩, ?_, ?_⟩, ?_⟩, ?_⟩
  · simp [Setting.IsProper, Setting.flags]
  · unfold mapSettings
    cases job.outputs.audio <;> simp [Setting.IsProper, Setting.flags]
  · simp [pictureSettings, Setting.IsProper, Setting.flags]
  · unfold soundSettings
    split
    · cases job.encoding.audioBitrate <;> cases job.encoding.audioSampleRate <;>
        simp [Setting.IsProper, Setting.flags]
    · simp [Setting.IsProper, Setting.flags]

/-- No option is on sound but those of the sound. -/
theorem frontSettings_names (job : Job α) (paths : List ByteArray) :
    ∀ s ∈ frontSettings job paths, s.name ∉ ["-an", "-c:a", "-b:a", "-ar"] := by
  have inputs : ∀ s ∈ inputsSettings job.inputs paths, s.name ∉ ["-an", "-c:a", "-b:a", "-ar"] := by
    intro s member
    obtain ⟨⟨input, path⟩, -, inGroup⟩ := List.mem_flatMap.mp member
    have apart : ∀ name ∈ ["-loop", "-t", "-i"], name ∉ ["-an", "-c:a", "-b:a", "-ar"] := by decide
    exact apart _ (inputSettings_names input path s inGroup).1
  simp only [frontSettings, List.forall_mem_append, List.forall_mem_cons]
  refine ⟨⟨⟨by decide, inputs⟩, by simp, ?_⟩, by simp [pictureSettings]⟩
  unfold mapSettings
  cases job.outputs.audio <;> simp

theorem valuesOf_settingsOf (job : Job α) (paths : List ByteArray) {name : String}
    (onSound : name ∈ ["-an", "-c:a", "-b:a", "-ar"]) :
    Setting.valuesOf name (settingsOf job paths) =
      Setting.valuesOf name (soundSettings job) := by
  have absent : ∀ s ∈ frontSettings job paths, s.name ≠ name := by
    rintro s member rfl
    exact frontSettings_names job paths s member onSound
  rw [settingsOf, Setting.valuesOf_append, Setting.valuesOf_eq_nil absent, List.nil_append]

/-! ## What the options ask for -/

/-- The options of a job ask for what its plan has: one group of options for each clip in order, then the
graph, the pad of the picture and that of the sound if there is any. What stands before and behind them is
on neither. A job without sound has the flag that says so, and one with sound its encoding. -/
structure Instructs (job : Job α) (options : Options) (planned : List (PlannedClip α))
    (paths : List ByteArray) (settings : List Setting) : Prop where
  sections :
    ∃ before groups behind,
      settings = before ++ groups.flatten ++
          (⟨"-filter_complex", some job.graph.text⟩ :: ⟨"-map", some "[outv]"⟩ ::
              if ∃ p ∈ planned, p.IsHeard then [⟨"-map", some "[outa]"⟩] else []) ++ behind ∧
        List.Forall₂ (fun clip group => IsGroupOf clip.1 clip.2 group) (planned.zip paths) groups ∧
        ∀ s ∈ before ++ behind, s.name ∉ ["-loop", "-i", "-filter_complex", "-map"]
  silent : ⟨"-an", none⟩ ∈ settings ↔ ¬ ∃ p ∈ planned, p.IsHeard
  codec :
    Setting.valuesOf "-c:a" settings = if ∃ p ∈ planned, p.IsHeard then ["aac"] else []
  bitrate :
    Setting.valuesOf "-b:a" settings =
      if ∃ p ∈ planned, p.IsHeard then [toString options.audioBitrate.toNat ++ "k"] else []
  sampleRate :
    Setting.valuesOf "-ar" settings = if ∃ p ∈ planned, p.IsHeard then ["44100"] else []

theorem isGroupOf_inputSettings [Scalar.Signed α] {input : Input α} {p : PlannedClip α}
    (isOf : input.IsOf p) (lasting : isRenderable p.clip.timelineSpan = true) (path : ByteArray) :
    IsGroupOf p path (inputSettings input path) := by
  obtain ⟨still, hold⟩ := isOf.still
  unfold inputSettings
  constructor
  · intro moving
    rw [still, hold, if_neg moving, decide_eq_false moving]
    exact ⟨_, names_shown path, rfl⟩
  · intro isImage
    rw [isRenderable, Bool.and_eq_true] at lasting
    obtain ⟨span, isSpan⟩ := (Scalar.isFinite_iff_exact _).mp lasting.1
    rw [still, hold, if_pos isImage, decide_eq_true isImage]
    exact ⟨_, span, _, names_shown path, rfl, isSpan, Layout.read?_fixed isSpan⟩

theorem isGroupOf_inputs [Scalar.Signed α] {inputs : List (Input α)} {planned : List (PlannedClip α)}
    (isOf : List.Forall₂ Input.IsOf inputs planned)
    (lasting : ∀ p ∈ planned, isRenderable p.clip.timelineSpan = true) (paths : List ByteArray) :
    List.Forall₂ (fun clip group => IsGroupOf clip.1 clip.2 group) (planned.zip paths)
      ((inputs.zip paths).map fun (input, path) => inputSettings input path) := by
  induction isOf generalizing paths with
  | nil => exact .nil
  | cons first _ inductionHypothesis =>
      obtain ⟨lasts, others⟩ := List.forall_mem_cons.mp lasting
      cases paths with
      | nil => exact .nil
      | cons path paths =>
          exact .cons (isGroupOf_inputSettings first lasts path) (inductionHypothesis others paths)

/-- A job of a plan has a pad for sound, and all that its encoding asks for, exactly if a clip of the plan is
heard. -/
theorem assemble_sound (t : Timeline α) (options : Options) (plans : List (Input α × PlannedClip α))
    (graph : FilterGraph) :
    (assemble t options plans graph).outputs =
        ⟨videoLabel, if ∃ p ∈ plans.map (·.2), p.IsHeard then some audioLabel else none⟩ ∧
      soundSettings (assemble t options plans graph) =
        if ∃ p ∈ plans.map (·.2), p.IsHeard then
          [⟨"-c:a", some "aac"⟩, ⟨"-b:a", some (toString options.audioBitrate.toNat ++ "k")⟩,
           ⟨"-ar", some (toString (44100 : UInt32).toNat)⟩]
        else [⟨"-an", none⟩] := by
  have heard : ((plans.map (·.2)).any fun p => carriesAudio p.clip p.asset) = true ↔
      ∃ p ∈ plans.map (·.2), p.IsHeard := by
    simp only [List.any_eq_true, carriesAudio_iff_isHeard]
  unfold soundSettings
  simp only [assemble, encodingOf, heard, true_and]
  by_cases sounds : ∃ p ∈ plans.map (·.2), p.IsHeard
  · rw [if_pos sounds, if_pos sounds]
    rfl
  · rw [if_neg sounds, if_neg sounds]

theorem assemble_instructs [Scalar.Signed α] {t : Timeline α} {assets : Store} (options : Options)
    {plans : List (Input α × PlannedClip α)}
    (planned : planClips assets 0 (orderedClips t) = .ok plans)
    (lasting : ∀ p ∈ plans.map (·.2), isRenderable p.clip.timelineSpan = true) (graph : FilterGraph)
    (paths : List ByteArray) :
    Instructs (assemble t options plans graph) options (plans.map (·.2)) paths
      (settingsOf (assemble t options plans graph) paths) := by
  obtain ⟨outputs, sound⟩ := assemble_sound t options plans graph
  have groups := isGroupOf_inputs (isPlan_of_planClips planned).2 lasting paths
  refine ⟨⟨leadingSettings, _, pictureSettings (assemble t options plans graph).encoding ++
    soundSettings (assemble t options plans graph), ?_, groups, ?_⟩, ?_, ?_, ?_, ?_⟩
  · have maps : mapSettings (assemble t options plans graph).outputs =
        ⟨"-map", some "[outv]"⟩ ::
          if ∃ p ∈ plans.map (·.2), p.IsHeard then [⟨"-map", some "[outa]"⟩] else [] := by
      rw [outputs]
      split <;> rfl
    rw [settingsOf, frontSettings, maps, ← List.append_assoc]
    rfl
  · simp only [List.forall_mem_append]
    refine ⟨by decide, by simp [pictureSettings], ?_⟩
    rw [sound]
    split <;> simp
  · have front : (⟨"-an", none⟩ : Setting) ∉ frontSettings (assemble t options plans graph) paths :=
      fun member => frontSettings_names _ paths _ member List.mem_cons_self
    rw [settingsOf, List.mem_append, or_iff_right front, sound]
    split
    · rename_i heard
      exact iff_of_false (by simp) (not_not.mpr heard)
    · rename_i unheard
      exact iff_of_true (List.mem_singleton_self _) unheard
  case refine_6 =>
    have rate : toString (44100 : UInt32).toNat = "44100" := by decide
    rw [valuesOf_settingsOf _ paths (by decide), sound, ← rate]
    split <;> rfl
  all_goals
    rw [valuesOf_settingsOf _ paths (by decide), sound]
    split <;> rfl

theorem arguments_eq (job : Job α) (paths : List ByteArray) (output : ByteArray) :
    job.arguments paths output =
      if paths.length = job.inputs.length then
        .ok ((settingsOf job paths).flatMap Setting.words ++ [Text.Utf8.shown output])
      else
        .error (.render ("expected " ++ toString job.inputs.length ++ " input paths, got "
          ++ toString paths.length)) := by
  rw [words_settingsOf job paths]
  simp only [Job.arguments, List.append_assoc]

/-- The arguments of a compiled job fail exactly if there are not as many paths as inputs. Else the output
is their last, and the options before it ask for what the plan of the timeline has. -/
theorem compile_instructs [Scalar.Signed α] {t : Timeline α} {assets : Store} {options : Options}
    {job : Job α} (compiled : compile t assets options = some (.ok job)) (paths : List ByteArray)
    (output : ByteArray) :
    ∃ planned, IsPlan t assets planned ∧ List.Forall₂ Input.IsOf job.inputs planned ∧
      (∀ e, job.arguments paths output = .error e ↔
        paths.length ≠ job.inputs.length ∧
          e = .render ("expected " ++ toString job.inputs.length ++ " input paths, got "
            ++ toString paths.length)) ∧
      ∀ args, job.arguments paths output = .ok args →
        ∃ last settings, Names last output ∧ args.getLast? = some last ∧
          Setting.read? args = some (settings, last) ∧
            Instructs job options planned paths settings := by
  obtain ⟨-, -, plans, graph, planned, -, -, isJob⟩ := compile_eq_ok_iff.mp compiled
  obtain ⟨isPlan, inputs⟩ := isPlan_of_planClips planned
  have lasting : ∀ p ∈ plans.map (·.2), isRenderable p.clip.timelineSpan = true :=
    fun p member => (isPlan.isRenderable_spans compiled p member).1
  subst isJob
  refine ⟨_, isPlan, inputs, fun e => ?_, fun args isArgs => ?_⟩
  · rw [arguments_eq _ paths output]
    split <;> simp [*, eq_comm]
  · rw [arguments_eq _ paths output] at isArgs
    split at isArgs
    · obtain rfl := Except.ok.inj isArgs
      exact ⟨_, _, names_shown output, List.getLast?_concat,
        Setting.read?_words (settingsOf_proper _ paths) _,
        assemble_instructs options planned lasting graph paths⟩
    · cases isArgs

/-- A job with sound is not silent, even if a file and the output are called like the flag that says so. -/
theorem compile_instructs_reel :
    ∃ job args settings, compile reel shelf ⟨false, "medium", 23, 192⟩ = some (.ok job) ∧
      job.arguments (["mute.mp4", "-an", "film.mp4", "photo.png"].map String.toUTF8) "-an".toUTF8 =
          .ok args ∧
      Setting.read? args = some (settings, "-an") ∧ ⟨"-an", none⟩ ∉ settings ∧
      Setting.valuesOf "-b:a" settings = ["192k"] := by
  obtain ⟨job, compiled⟩ := reel_compiles
  obtain ⟨planned, isPlan, inputs, fails, reads⟩ :=
    compile_instructs compiled (["mute.mp4", "-an", "film.mp4", "photo.png"].map String.toUTF8)
      "-an".toUTF8
  have kinds : planned.map (·.clip.kind) = [.video, .audio, .video, .image] := by
    have ordered : (orderedClips reel).map (·.kind) = [.video, .audio, .video, .image] := by
      simp [orderedClips, reel, List.mergeSort, List.MergeSort.Internal.splitInTwo, Clip.ofAsset]
    rwa [← isPlan.clips, List.map_map] at ordered
  have heard : ∃ p ∈ planned, p.IsHeard := by
    have sound : MediaKind.audio ∈ planned.map (·.clip.kind) := by rw [kinds]; decide
    obtain ⟨p, member, isSound⟩ := List.mem_map.mp sound
    exact ⟨p, member, Or.inl isSound⟩
  have four : job.inputs.length = 4 := by
    rw [inputs.length_eq, ← List.length_map (·.clip.kind), kinds]
    rfl
  cases result : job.arguments (["mute.mp4", "-an", "film.mp4", "photo.png"].map String.toUTF8)
      "-an".toUTF8 with
  | error e => exact absurd four.symm ((fails e).mp result).1
  | ok args =>
      obtain ⟨last, settings, named, -, isRead, instructs⟩ := reads args result
      obtain rfl : last = "-an" := named.verbatim "-an" rfl
      refine ⟨job, args, settings, compiled, result, isRead, ?_, ?_⟩
      · exact fun silent => instructs.silent.mp silent heard
      · rw [instructs.bitrate, if_pos heard]
        decide

end Montage.Render

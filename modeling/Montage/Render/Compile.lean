import Montage.Graph.Wiring
import Montage.Render.Chains
import Montage.Render.Job
import Montage.Settings

/-!
Contract: compiling a timeline into a render job.

Owns: the checks on the elements, the order in which they are composed, and the graph.

The picture starts from a black base. Clips are laid over it from the lowest `zIndex` up, clips of one
`zIndex` in storage order; overlays are drawn over all clips in the same order. Every clip with sound is
mixed. Nothing is built unless every element passes its check, and a job is only compiled if the tempo of
every clip with sound can be changed in a number of steps.
-/

set_option autoImplicit false

namespace Montage.Render

variable {α : Type} [Scalar α]

/-- The settings of a compilation. -/
structure Options where
  /-- Whether an empty timeline is compiled to a black picture. -/
  allowEmpty : Bool
  preset : String
  rateFactor : UInt8
  /-- Kilobits per second. -/
  audioBitrate : UInt32
  deriving DecidableEq, Repr

def Options.ofSettings (s : ExportSettings) : Options :=
  { allowEmpty := false, preset := s.speed.preset, rateFactor := s.quality.rateFactor,
    audioBitrate := s.audioBitrate }

/-- What a duration belongs to. -/
inductive Subject where
  | timeline
  | clip (id : Identity)
  | text (id : Identity)
  deriving DecidableEq, Repr

def Subject.name : Subject → String
  | .timeline => "timeline"
  | .clip id => "clip " ++ id.text
  | .text id => "text " ++ id.text

/-- Why a timeline cannot be compiled. -/
inductive CompileError (α : Type) where
  | emptyTimeline
  | assetUnresolved (clip : Identity) (asset : AssetRef)
  | unsupportedMedia (clip : Identity) (mime : String)
  | invalidDuration (subject : Subject) (duration : α)
  | invalidGraph (fault : GraphFault)
  deriving DecidableEq

def CompileError.message : CompileError α → String
  | .emptyTimeline => "timeline has no clips or text overlays"
  | .assetUnresolved clip asset =>
    "asset " ++ asset ++ " for clip " ++ clip.text ++ " could not be resolved"
  | .unsupportedMedia clip mime => "clip " ++ clip.text ++ " uses unsupported media type " ++ mime
  | .invalidDuration subject duration =>
    "invalid duration " ++ Scalar.written duration ++ " for " ++ subject.name
  | .invalidGraph fault => "invalid filter graph: " ++ fault.message

def CompileError.failure (e : CompileError α) : Failure := .compile e.message

/-- Whether a length can be rendered: finite and positive. -/
def isRenderable (length : α) : Bool := Scalar.isFinite length && decide (0 < length)

/-! ## Checks -/

/-- Finds the asset of a clip and checks its spans, that on the timeline first. -/
def checkClip (assets : Store) (c : Clip α) : Except (CompileError α) Resolved :=
  match assets c.asset with
  | none => .error (.assetUnresolved c.id c.asset)
  | some asset =>
    if !isRenderable c.timelineSpan then .error (.invalidDuration (.clip c.id) c.timelineSpan)
    else if !isRenderable c.sourceSpan then .error (.invalidDuration (.clip c.id) c.sourceSpan)
    else .ok asset

/-- The input of a clip with its number, and the clip as planned. -/
def planClip (assets : Store) (index : Nat) (c : Clip α) :
    Except (CompileError α) (Input α × PlannedClip α) := do
  let asset ← checkClip assets c
  match Media.extensionFor asset.mime with
  | none => .error (.unsupportedMedia c.id asset.mime)
  | some extension =>
    let isStill := decide (c.kind = .image)
    .ok
      ({ index, clipId := c.id
         localName := "input" ++ toString index ++ "." ++ extension
         mime := asset.mime
         isStill
         hold := if isStill then some c.timelineSpan else none
         source := asset.source },
       { clip := c, asset, input := index })

/-- Plans clips in order, numbering them from `index`; the first clip at fault is reported. -/
def planClips (assets : Store) (index : Nat) :
    List (Clip α) → Except (CompileError α) (List (Input α × PlannedClip α))
  | [] => .ok []
  | c :: rest => do
    let planned ← planClip assets index c
    let others ← planClips assets (index + 1) rest
    .ok (planned :: others)

def checkOverlay (o : Overlay α) : Except (CompileError α) Unit :=
  if isRenderable o.timelineSpan then .ok ()
  else .error (.invalidDuration (.text o.id) o.timelineSpan)

/-- Checks overlays in order; the first one at fault is reported. -/
def checkOverlays : List (Overlay α) → Except (CompileError α) Unit
  | [] => .ok ()
  | o :: rest => do
    checkOverlay o
    checkOverlays rest

/-! ## Composition -/

def orderedClips (t : Timeline α) : List (Clip α) :=
  t.clips.mergeSort fun a b => decide (a.zIndex ≤ b.zIndex)

def orderedOverlays (t : Timeline α) : List (Overlay α) :=
  t.overlays.mergeSort fun a b => decide (a.zIndex ≤ b.zIndex)

def baseLabel : PadLabel := ⟨"base", by decide⟩

def videoLabel : PadLabel := ⟨"outv", by decide⟩

def audioLabel : PadLabel := ⟨"outa", by decide⟩

/-- The picture of the `n`-th visual clip. -/
def clipLabel (n : Nat) : PadLabel := .numbered "v" (by decide) n

/-- The composition up to the `n`-th visual clip. -/
def compositionLabel (n : Nat) : PadLabel := .numbered "ov" (by decide) n

/-- The composition with the texts up to the `n`-th. -/
def textLabel (n : Nat) : PadLabel := .numbered "txt" (by decide) n

/-- The sound of the `n`-th clip with sound. -/
def soundLabel (n : Nat) : PadLabel := .numbered "a" (by decide) n

/-- The black picture below everything. -/
def baseChain (t : Timeline α) (total : α) : Chain :=
  { inputs := []
    stages :=
      [((((Stage.ofName "color").arg "c" "black").arg "s"
        (toString t.canvas.width.toNat ++ "x" ++ toString t.canvas.height.toNat)).arg "r"
        (toString t.frameRate.toNat)).arg "d" (number total)]
    outputs := [baseLabel] }

/-- The chains of visual clips, numbered from `n`, over what `below` stands for; and what stands for the
whole. -/
def pictureChains (n : Nat) (below : PadLabel) : List (PlannedClip α) → List Chain × PadLabel
  | [] => ([], below)
  | p :: rest =>
    let composed : Chain :=
      { inputs := [.label below, .label (clipLabel n)], stages := [compositionStage p.clip],
        outputs := [compositionLabel n] }
    let (chains, top) := pictureChains (n + 1) (compositionLabel n) rest
    (videoChain p (clipLabel n) :: composed :: chains, top)

/-- The chains of overlays, numbered from `n`, over what `below` stands for; and what stands for the
whole. -/
def textChains (n : Nat) (below : PadLabel) : List (Overlay α) → List Chain × PadLabel
  | [] => ([], below)
  | o :: rest =>
    let drawn : Chain :=
      { inputs := [.label below], stages := [drawingStage o], outputs := [textLabel n] }
    let (chains, top) := textChains (n + 1) (textLabel n) rest
    (drawn :: chains, top)

def videoOutputChain (below : PadLabel) : Chain :=
  { inputs := [.label below]
    stages :=
      [(Stage.ofName "format").arg "pix_fmts" "yuv420p", (Stage.ofName "setsar").positional "1"]
    outputs := [videoLabel] }

/-- Whether a clip is heard. A clip of sound always is, whatever its asset says. -/
def carriesAudio (c : Clip α) (asset : Resolved) : Bool :=
  decide (c.kind = .audio) || (c.kind.canCarryAudio && asset.hasAudio)

/-- The chains of clips with sound, numbered from `n`. -/
def soundChains (n : Nat) : List (PlannedClip α) → Option (List Chain)
  | [] => some []
  | p :: rest => do
    let chain ← audioChain p (soundLabel n)
    let others ← soundChains (n + 1) rest
    some (chain :: others)

/-- The chain that mixes the sound of a number of clips. -/
def mixChain (count : Nat) : Chain :=
  { inputs := (List.range count).map fun n => .label (soundLabel n)
    stages :=
      [(((Stage.ofName "amix").arg "inputs" (toString count)).arg "duration" "longest").arg
        "normalize" "1"]
    outputs := [audioLabel] }

def audioChains (sounding : List (PlannedClip α)) : Option (List Chain) :=
  if sounding.isEmpty then some []
  else do
    let chains ← soundChains 0 sounding
    some (chains ++ [mixChain sounding.length])

def buildGraph (t : Timeline α) (total : α) (planned : List (PlannedClip α)) : Option FilterGraph := do
  let pictures := pictureChains 0 baseLabel (planned.filter fun p => p.clip.kind.isVisual)
  let texts := textChains 0 pictures.2 (orderedOverlays t)
  let sound ← audioChains (planned.filter fun p => carriesAudio p.clip p.asset)
  some ⟨baseChain t total :: pictures.1 ++ texts.1 ++ [videoOutputChain texts.2] ++ sound⟩

/-- The pads that the output file reads. -/
def OutputMap.terminals (m : OutputMap) : List PadLabel := m.video :: m.audio.toList

/-- The encoding of a job, given the pad of its sound if there is any. -/
def encodingOf (t : Timeline α) (options : Options) (total : α) (audio : Option PadLabel) :
    Encoding α :=
  { videoCodec := "libx264"
    profile := "main"
    level := "4.0"
    pixelFormat := "yuv420p"
    preset := options.preset
    rateFactor := options.rateFactor
    frameRate := t.frameRate
    audioCodec := audio.map fun _ => "aac"
    audioBitrate := audio.map fun _ => options.audioBitrate
    audioSampleRate := audio.map fun _ => 44100
    totalDuration := total
    container := "mp4" }

/-- Plans the clips of a timeline in the order of their composition, once the timeline has passed all its
checks. -/
def planTimeline (t : Timeline α) (assets : Store) (options : Options) :
    Except (CompileError α) (List (Input α × PlannedClip α)) :=
  if t.isEmpty && !options.allowEmpty then .error .emptyTimeline
  else if !isRenderable t.totalDuration then .error (.invalidDuration .timeline t.totalDuration)
  else do
    let plans ← planClips assets 0 (orderedClips t)
    checkOverlays t.overlays
    .ok plans

/-- Compiles a timeline. `none` stands for a compilation that does not end. -/
def compile (t : Timeline α) (assets : Store) (options : Options) :
    Option (Except (CompileError α) (Job α)) :=
  match planTimeline t assets options with
  | .error e => some (.error e)
  | .ok plans => do
    let total := t.totalDuration
    let planned := plans.map (·.2)
    let graph ← buildGraph t total planned
    let hasAudio := planned.any fun p => carriesAudio p.clip p.asset
    let audio := if hasAudio then some audioLabel else none
    let outputs : OutputMap := { video := videoLabel, audio }
    match graph.check plans.length outputs.terminals with
    | .error fault => some (.error (.invalidGraph fault))
    | .ok () =>
      some (.ok { inputs := plans.map (·.1), graph, outputs
                  encoding := encodingOf t options total audio })

end Montage.Render

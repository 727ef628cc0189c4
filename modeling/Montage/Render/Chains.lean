import Montage.Graph.Basic
import Montage.Number.Layout
import Montage.Render.Source
import Montage.Render.Tempo
import Montage.Timeline

/-!
Contract: the filters that a single element needs.

Owns: the chain of a clip's picture, the chain of its sound, the composition of a picture with what lies
below it, and the drawing of an overlay.

Does **not** own: how the chains are put together (`Montage.Render.Compile`).
-/

set_option autoImplicit false

namespace Montage.Render

variable {α : Type} [Scalar α]

/-- A clip with its asset and the number of its input. -/
structure PlannedClip (α : Type) where
  clip : Clip α
  asset : Resolved
  input : Nat

/-- The number text of the engine's options. -/
def number (x : α) : String := Layout.compact x

/-- The expression that holds while an element is shown. -/
def window (start stop : α) : String := "between(t," ++ number start ++ "," ++ number stop ++ ")"

/-- Whether a speed differs from normal speed. -/
def isRetimed (speed : α) : Bool := decide ((1e-9 : α) < Scalar.abs (speed - 1))

/-- The time stamps of a clip that starts at zero. -/
def retiming (c : Clip α) : String :=
  if c.kind ≠ .image ∧ isRetimed c.speed = true then "(PTS-STARTPTS)/" ++ number c.speed
  else "PTS-STARTPTS"

/-- A size in pixels: a whole number, two at least. -/
def pixelSize (x : α) : String :=
  toString (max (Scalar.roundWithin (-0x8000000000000000) 0x7FFFFFFFFFFFFFFF x) 2)

/-- The stage that cuts a clip out of its source. Images have nothing to cut. -/
def trimStages (c : Clip α) : List Stage :=
  if c.kind = .image then []
  else [((Stage.ofName "trim").arg "start" (number c.sourceIn)).arg "end" (number c.sourceOut)]

def cropStages (c : Clip α) : List Stage :=
  match c.crop with
  | none => []
  | some r =>
    [((((Stage.ofName "crop").arg "w" (number (Scalar.round r.width))).arg "h"
      (number (Scalar.round r.height))).arg "x" (number (Scalar.round r.x))).arg "y"
      (number (Scalar.round r.y))]

def frameStages (c : Clip α) : List Stage :=
  let width := pixelSize c.width
  let height := pixelSize c.height
  [(((Stage.ofName "scale").arg "w" width).arg "h" height).arg "force_original_aspect_ratio"
      "decrease",
   (((((Stage.ofName "pad").arg "w" width).arg "h" height).arg "x" "(ow-iw)/2").arg "y"
      "(oh-ih)/2").arg "color" "black",
   (Stage.ofName "format").arg "pix_fmts" "yuva420p"]

def rotationStages (c : Clip α) : List Stage :=
  if (1e-9 : α) < Scalar.abs c.rotation then
    [((Stage.ofName "rotate").arg "a" (number c.rotation ++ "*PI/180")).arg "c" "none"]
  else []

/-- The picture of a clip: cut, retimed, cropped, fitted, rotated, shifted and faded. -/
def videoChain (p : PlannedClip α) (output : PadLabel) : Chain :=
  let c := p.clip
  { inputs := [.input p.input .video]
    stages :=
      trimStages c ++ [(Stage.ofName "setpts").positional (retiming c)] ++ cropStages c
        ++ frameStages c ++ rotationStages c
        ++ [(Stage.ofName "setpts").positional ("PTS+" ++ number c.timelineStart ++ "/TB"),
            (Stage.ofName "colorchannelmixer").arg "aa" (number (c.opacity / 100))]
    outputs := [output] }

def delayMilliseconds (c : Clip α) : Nat :=
  (Scalar.roundWithin 0 0xFFFFFFFFFFFFFFFF (c.timelineStart * 1000)).toNat

def soundStages (c : Clip α) (factors : List α) : List Stage :=
  [((Stage.ofName "atrim").arg "start" (number c.sourceIn)).arg "end" (number c.sourceOut),
   (Stage.ofName "asetpts").positional "PTS-STARTPTS"]
    ++ factors.map (fun factor => (Stage.ofName "atempo").positional (number factor))
    ++ [((Stage.ofName "adelay").arg "delays" (toString (delayMilliseconds c))).arg "all" "1",
        (Stage.ofName "volume").arg "volume" (number (c.volume / 100))]

/-- The sound of a clip: cut, retimed, delayed and scaled. There is none if the factors of its tempo are
taken for ever. -/
def audioChain (p : PlannedClip α) (output : PadLabel) : Option Chain := do
  let factors ← Tempo.steps? p.clip.speed
  some
    { inputs := [.input p.input .audio]
      stages := soundStages p.clip factors
      outputs := [output] }

/-- A picture laid over what is below it while its clip is shown. -/
def compositionStage (c : Clip α) : Stage :=
  ((((Stage.ofName "overlay").arg "x" (number c.x)).arg "y" (number c.y)).arg "eof_action"
    "pass").expression "enable" (window c.timelineStart c.timelineEnd)

/-- The opacity of a text: that of its colour times that of the overlay. -/
def textAlpha (o : Overlay α) : α :=
  o.color.alphaFraction * Scalar.clamp (o.opacity / 100) 0 1

/-- The drawing of an overlay while it is shown. Font and text are escaped for the option parser. -/
def drawingStage (o : Overlay α) : Stage :=
  ((((((((Stage.ofName "drawtext").arg "font" (Graph.Escape.optionValue o.fontFamily)).arg "text"
    (Graph.Escape.optionValue o.text)).arg "expansion" "none").arg "fontsize"
    (number o.fontSize)).arg "fontcolor" (o.color.rgbText ++ "@" ++ number (textAlpha o))).arg "x"
    (number o.x)).arg "y" (number o.y)).expression "enable" (window o.timelineStart o.timelineEnd)

end Montage.Render

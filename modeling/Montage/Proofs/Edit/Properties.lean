import Montage.Proofs.Edit.Place
import Montage.Proofs.Number.Settling
import Montage.Repair

/-!
Contract: mended elements are given their own properties again.

Owns:
- the patches that give an element the values it has (`ClipPatch.ofClip`, `TextPatch.ofOverlay`);
- elements whose properties an edit does not fit again (`Clip.Fitted`, `Overlay.Fitted`), as repairs leave
  them;
- what becomes of a mended element when it is given its own properties.

Does **not** own: the numbers that fitting leaves alone (`Montage.Proofs.Number.Settling`), and the bounds
that the properties keep (`Montage.Proofs.Clip.Parts`).

A repair and an edit fit the same properties by the same rules, with one exception. A crop that begins
before the corner of the frame is kept by a repair and dropped by an edit.
-/

set_option autoImplicit false

namespace Montage

variable {α : Type}

/-- Gives every property of a clip the value it has. -/
def ClipPatch.ofClip (c : Clip α) : ClipPatch α where
  x := c.x
  y := c.y
  width := c.width
  height := c.height
  rotation := c.rotation
  opacity := c.opacity
  volume := c.volume
  zIndex := c.zIndex
  crop := some c.crop

def TextPatch.ofOverlay (o : Overlay α) : TextPatch α where
  text := o.text
  x := o.x
  y := o.y
  fontFamily := o.fontFamily
  fontSize := o.fontSize
  color := o.color
  opacity := o.opacity
  zIndex := o.zIndex

variable [Scalar α]

theorem changed_self {present : α} {fit : α → α} (fitted : fit present = present) :
    changed (some present) present fit = present := by
  simp only [changed, fitted, ite_self]

/-! ## Crops -/

namespace Crop

/-- Whether a crop begins at the corner of the frame or behind it. -/
def isInside (r : Crop α) : Bool := decide (0 ≤ r.x ∧ 0 ≤ r.y)

/-- An edit sets the crops that a repair keeps, as far as they begin inside the frame. -/
theorem isSettable_eq (r : Crop α) : r.isSettable = (r.isKept && r.isInside) := by
  rw [Bool.eq_iff_iff]
  simp only [isSettable, isKept, isInside, Bool.and_eq_true, decide_eq_true_eq]
  tauto

end Crop

/-! ## Fitted elements -/

namespace Clip

/-- A clip whose size, angle and percentages are what an edit would make of them. -/
structure Fitted (c : Clip α) : Prop where
  width : atLeastOne c.width = c.width
  height : atLeastOne c.height = c.height
  rotation : Scalar.remainder c.rotation 360 = c.rotation
  opacity : percentage 100 c.opacity = c.opacity
  volume : percentage maximumVolume c.volume = c.volume

variable {c : Clip α}

/-- A fitted clip that is given its own properties loses nothing but a crop that cannot be set. -/
theorem Fitted.apply_ofClip (fitted : c.Fitted) :
    (ClipPatch.ofClip c).apply c = { c with crop := c.crop.filter Crop.isSettable } := by
  have rotation : changed (some c.rotation) c.rotation (fun angle => Scalar.remainder angle 360) =
      c.rotation := changed_self fitted.rotation
  simp only [ClipPatch.apply, ClipPatch.ofClip, rotation, changed_self fitted.width,
    changed_self fitted.height, changed_self fitted.opacity, changed_self fitted.volume,
    changed_self (id_eq _), Option.getD_some]

theorem repair_fitted [Scalar.Settles α] (c : Clip α) : c.repair.Fitted where
  width := atLeastOne_atLeastOne _
  height := atLeastOne_atLeastOne _
  rotation := Scalar.Settles.remainder_remainder _
  opacity := percentage_percentage Scalar.Settles.hundred_nonneg _
  volume := percentage_percentage Scalar.Settles.maximumVolume_nonneg _

theorem repair_crop_isKept (c : Clip α) {r : Crop α} (member : r ∈ c.repair.crop) : r.isKept = true :=
  (Option.filter_eq_some_iff.mp member).2

/-- Of the crops that a repair leaves, an edit drops those that begin before the corner of the frame. -/
theorem repair_crop_filter (c : Clip α) :
    c.repair.crop.filter Crop.isSettable = c.repair.crop.filter Crop.isInside := by
  cases isCrop : c.repair.crop with
  | none => rfl
  | some r => simp only [Option.filter_some, r.isSettable_eq, c.repair_crop_isKept isCrop, Bool.true_and]

end Clip

namespace Overlay

/-- An overlay whose font size and opacity are what an edit would make of them. -/
structure Fitted (o : Overlay α) : Prop where
  fontSize : atLeastOne o.fontSize = o.fontSize
  opacity : percentage 100 o.opacity = o.opacity

/-- A fitted overlay that is given its own properties is left alone, even if its font name is blank. -/
theorem Fitted.apply_ofOverlay {o : Overlay α} (fitted : o.Fitted) :
    (TextPatch.ofOverlay o).apply o = o := by
  -- A blank name is not taken from the patch, and then the overlay keeps the same blank name.
  have font : ((some o.fontFamily).filter fun font => !Text.isBlankText font).getD o.fontFamily =
      o.fontFamily := by
    rw [Option.filter_some]
    split <;> rfl
  simp only [TextPatch.apply, TextPatch.ofOverlay, changed_self fitted.fontSize,
    changed_self fitted.opacity, changed_self (id_eq _), font, Option.getD_some]

theorem repair_fitted [Scalar.Settles α] (o : Overlay α) : o.repair.Fitted where
  fontSize := atLeastOne_atLeastOne _
  opacity := percentage_percentage Scalar.Settles.hundred_nonneg _

end Overlay

/-! ## Edits -/

namespace Timeline

variable [Scalar.Settles α] {t : Timeline α} {id : Identity} (supply : IdSupply)

/-- A mended clip that is given its own properties keeps them all, but for a crop that begins before the
corner of the frame. -/
theorem HasClip.restate {c : Clip α} {before after : List (Clip α)}
    (place : t.HasClip id before c.repair after) :
    t.apply supply (.updateClip id (.ofClip c.repair)) =
      .ok ({ t with
        clips := before ++ [{ c.repair with crop := c.repair.crop.filter Crop.isInside }] ++ after },
        supply) := by
  rw [apply, place.changeClip_eq, c.repair_fitted.apply_ofClip, c.repair_crop_filter]
  rfl

theorem HasClip.restate_eq_self_iff {c : Clip α} {before after : List (Clip α)}
    (place : t.HasClip id before c.repair after) :
    t.apply supply (.updateClip id (.ofClip c.repair)) = .ok (t, supply) ↔
      ∀ r ∈ c.repair.crop, r.isInside = true := by
  have same : { t with
      clips := before ++ [{ c.repair with crop := c.repair.crop.filter Crop.isInside }] ++ after } = t ↔
      c.repair.crop.filter Crop.isInside = c.repair.crop := by
    rw [Timeline.mk.injEq, place.replaced_eq_iff, Clip.mk.injEq]
    simp only [true_and, and_true]
  rw [place.restate supply, Except.ok.injEq, Prod.mk.injEq, and_iff_left rfl, same]
  cases c.repair.crop with
  | none => exact iff_of_true rfl nofun
  | some r => simp [Option.filter_some]

theorem restate_overlay {o : Overlay α} {before after : List (Overlay α)}
    (place : Edit.IsFirst (fun o => o.id == id) t.overlays before o.repair after) :
    t.apply supply (.updateText id (.ofOverlay o.repair)) = .ok (t, supply) := by
  rw [apply, changeOverlay_eq_of_isFirst place, o.repair_fitted.apply_ofOverlay,
    place.replaced_eq_iff.mpr rfl]
  rfl

/-- A mended element of machine numbers that is given its own properties is left alone, unless it is a clip
whose crop begins before the corner of the frame. Such a crop is lost, and nothing else is. -/
theorem restate_repaired (t : Timeline Float) (supply : IdSupply) (id : Identity) :
    (∀ (c : Clip Float) before after, t.HasClip id before c.repair after →
      t.apply supply (.updateClip id (.ofClip c.repair)) =
          .ok ({ t with
            clips := before ++ [{ c.repair with crop := c.repair.crop.filter Crop.isInside }] ++ after },
            supply) ∧
        (t.apply supply (.updateClip id (.ofClip c.repair)) = .ok (t, supply) ↔
          ∀ r ∈ c.repair.crop, r.isInside = true)) ∧
      ∀ (o : Overlay Float) before after,
        Edit.IsFirst (fun o => o.id == id) t.overlays before o.repair after →
          t.apply supply (.updateText id (.ofOverlay o.repair)) = .ok (t, supply) :=
  ⟨fun _ _ _ place => ⟨place.restate supply, place.restate_eq_self_iff supply⟩,
    fun _ _ _ place => restate_overlay supply place⟩

/-- A clip of which hardly a number is usable, with a crop inside the frame. -/
def derelict : Clip Float :=
  { Clip.ofAsset ⟨1⟩ "film" .video "film.mp4" (some 10) 0 with
    x := 0 / 0, y := 1 / 0, width := 0, height := 0 / 0, rotation := 725.5, opacity := 250,
    volume := 0 - 1, timelineEnd := 0 / 0, crop := some ⟨16, 9, 640, 360⟩ }

/-- An overlay without a usable size, and with a blank font name. -/
def illegible : Overlay Float :=
  { Overlay.ofText ⟨2⟩ "text" 0 with fontSize := 0 / 0, opacity := 0 - 1, fontFamily := " " }

def salvage : Timeline Float :=
  { (Timeline.empty : Timeline Float) with
    clips := [derelict.repair], overlays := [illegible.repair] }

theorem salvage_restated :
    salvage.apply (.ofSeed 1) (.updateClip ⟨1⟩ (.ofClip derelict.repair)) = .ok (salvage, .ofSeed 1) ∧
      salvage.apply (.ofSeed 1) (.updateText ⟨2⟩ (.ofOverlay illegible.repair)) =
        .ok (salvage, .ofSeed 1) := by
  have inside : ∀ r ∈ derelict.repair.crop, r.isInside = true := by decide +kernel
  constructor
  · exact ((restate_repaired salvage (.ofSeed 1) ⟨1⟩).1 derelict [] [] ⟨rfl, rfl, nofun⟩).2.mpr inside
  · exact (restate_repaired salvage (.ofSeed 1) ⟨2⟩).2 illegible [] [] ⟨rfl, rfl, nofun⟩

def overhanging : Clip Float :=
  { Clip.ofAsset ⟨1⟩ "film" .video "film.mp4" (some 10) 0 with crop := some ⟨0 - 8, 0, 640, 360⟩ }

def overhang : Timeline Float :=
  { (Timeline.empty : Timeline Float) with clips := [overhanging.repair] }

/-- A repair keeps the overhanging crop, and an edit that asks for no change drops it. -/
theorem overhang_loses_crop :
    overhang.clip? ⟨1⟩ = some overhanging.repair ∧ overhanging.repair.crop = some ⟨0 - 8, 0, 640, 360⟩ ∧
      overhang.apply (.ofSeed 1) (.updateClip ⟨1⟩ (.ofClip overhanging.repair)) =
        .ok ({ overhang with clips := [{ overhanging.repair with crop := none }] }, .ofSeed 1) ∧
      overhang.apply (.ofSeed 1) (.updateClip ⟨1⟩ (.ofClip overhanging.repair)) ≠
        .ok (overhang, .ofSeed 1) := by
  have place : overhang.HasClip ⟨1⟩ [] overhanging.repair [] := ⟨rfl, rfl, nofun⟩
  have kept : (⟨0 - 8, 0, 640, 360⟩ : Crop Float).isKept = true := by decide +kernel
  have outside : (⟨0 - 8, 0, 640, 360⟩ : Crop Float).isInside = false := by decide +kernel
  have isCrop : overhanging.repair.crop = some ⟨0 - 8, 0, 640, 360⟩ :=
    Option.filter_some_eq_some.mpr kept
  refine ⟨place.find?_eq, isCrop, ?_, ?_⟩
  · rw [place.restate, isCrop, Option.filter_some, outside]
    rfl
  · rw [ne_eq, place.restate_eq_self_iff]
    intro inside
    rw [inside _ isCrop] at outside
    cases outside

end Timeline

end Montage

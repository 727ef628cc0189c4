import Montage.Proofs.Edit.Place
import Montage.Proofs.Json.Text
import Montage.Proofs.Stored.Command

/-!
Contract: editing commands as texts.

Owns:
- that the value of a command has a text to be read back from;
- what the text of a command is read as, and where that has another effect than the command.

Does **not** own: whether a number is read back (`Json.ReadsBack`); it is asked of each number of the
command.

What a patch leaves alone and a crop that it takes away are both written as `null`. So the one thing that
gets lost is the order to take a crop away.
-/

set_option autoImplicit false

namespace Montage

open Json (Legible ReadsBack legible_ofScalar legible_ofOption)

/-! ## Legible commands -/

section Legibility

variable {room : Nat}

theorem zIndexToJson_legible (z : Int32) : Legible room (zIndexToJson z) := by
  have low := z.le_toInt
  have high := z.toInt_lt
  refine .whole ⟨?_, ?_⟩ <;> omega

theorem Crop.toJson_legible {r : Crop Float} (readsBack : ∀ x ∈ r.numbers, ReadsBack x) :
    Legible (room + 1) r.toJson := by
  simp only [numbers, List.mem_cons, List.not_mem_nil, or_false, forall_eq_or_imp,
    forall_eq] at readsBack
  obtain ⟨x, y, width, height⟩ := readsBack
  simp [toJson, legible_ofScalar, x, y, width, height]

theorem Clip.toJson_legible {c : Clip Float} (readsBack : ∀ x ∈ c.numbers, ReadsBack x) :
    Legible (room + 2) c.toJson := by
  simp only [numbers, List.mem_append, List.mem_cons, List.not_mem_nil, or_false, or_imp,
    forall_and, forall_eq] at readsBack
  obtain ⟨⟨sourceIn, sourceOut, sourceDuration, timelineStart, timelineEnd, x, y, width, height,
    rotation, opacity, volume⟩, cropped⟩ := readsBack
  have crop : Legible (room + 1) (Json.ofOption Crop.toJson c.crop) := by
    apply legible_ofOption
    intro r isCrop
    apply Crop.toJson_legible
    intro number member
    apply cropped
    rw [isCrop]
    simpa using member
  simp [toJson, Identity.toJson, MediaKind.toJson, legible_ofScalar, zIndexToJson_legible, crop,
    sourceIn, sourceOut, sourceDuration, timelineStart, timelineEnd, x, y, width, height, rotation,
    opacity, volume]

theorem Overlay.toJson_legible {o : Overlay Float} (readsBack : ∀ x ∈ o.numbers, ReadsBack x) :
    Legible (room + 1) o.toJson := by
  simp only [numbers, List.mem_cons, List.not_mem_nil, or_false, forall_eq_or_imp,
    forall_eq] at readsBack
  obtain ⟨timelineStart, timelineEnd, x, y, fontSize, opacity⟩ := readsBack
  simp [toJson, Identity.toJson, Color.toJson, legible_ofScalar, zIndexToJson_legible,
    timelineStart, timelineEnd, x, y, fontSize, opacity]

theorem ClipPatch.toJson_legible {p : ClipPatch Float} (readsBack : ∀ x ∈ p.numbers, ReadsBack x) :
    Legible (room + 2) p.toJson := by
  have number (o : Option Float)
      (member : o ∈ [p.x, p.y, p.width, p.height, p.rotation, p.opacity, p.volume]) :
      Legible (room + 1) (Json.ofOption Json.ofScalar o) := by
    apply legible_ofOption
    intro x isNumber
    apply legible_ofScalar
    apply readsBack
    exact List.mem_append_left _ (List.mem_flatMap.mpr ⟨o, member, Option.mem_toList.mpr isNumber⟩)
  have crop : Legible (room + 1) (Json.ofOption (Json.ofOption Crop.toJson) p.crop) := by
    apply legible_ofOption
    intro crop isCrop
    apply legible_ofOption
    intro r isRectangle
    apply Crop.toJson_legible
    intro x isNumber
    apply readsBack
    refine List.mem_append_right _ (List.mem_flatMap.mpr ⟨crop, Option.mem_toList.mpr isCrop, ?_⟩)
    exact List.mem_flatMap.mpr ⟨r, Option.mem_toList.mpr isRectangle, isNumber⟩
  have zIndex : Legible (room + 1) (Json.ofOption zIndexToJson p.zIndex) :=
    legible_ofOption fun z _ => zIndexToJson_legible z
  simp [toJson, number, zIndex, crop]

theorem TextPatch.toJson_legible {p : TextPatch Float} (readsBack : ∀ x ∈ p.numbers, ReadsBack x) :
    Legible (room + 1) p.toJson := by
  have number (o : Option Float) (member : o ∈ [p.x, p.y, p.fontSize, p.opacity]) :
      Legible room (Json.ofOption Json.ofScalar o) := by
    apply legible_ofOption
    intro x isNumber
    apply legible_ofScalar
    exact readsBack x (List.mem_flatMap.mpr ⟨o, member, Option.mem_toList.mpr isNumber⟩)
  have text (o : Option String) : Legible room (Json.ofOption .string o) :=
    legible_ofOption fun s _ => .string s
  have color : Legible room (Json.ofOption Color.toJson p.color) :=
    legible_ofOption fun c _ => .string c.text
  have zIndex : Legible room (Json.ofOption zIndexToJson p.zIndex) :=
    legible_ofOption fun z _ => zIndexToJson_legible z
  simp [toJson, number, text, color, zIndex]

/-- Commands nest three levels deep, the crop of a clip being the innermost. -/
theorem Command.toJson_legible {command : Command Float}
    (readsBack : ∀ x ∈ command.numbers, ReadsBack x) : Legible (room + 3) command.toJson := by
  have identity (id : Identity) : Legible (room + 2) id.toJson := .string id.text
  have idOnly (op : String) (id : Identity) : Legible (room + 3) (tagged op id []) := by
    simp [tagged, identity]
  have withNumber (op name : String) (id : Identity) {x : Float} (member : x ∈ command.numbers) :
      Legible (room + 3) (tagged op id [(name, Json.ofScalar x)]) := by
    simp [tagged, identity, legible_ofScalar (readsBack x member)]
  cases command with
  | addClip c => simp [toJson, Clip.toJson_legible readsBack]
  | addText o => simp [toJson, Overlay.toJson_legible readsBack]
  | split id position => exact withNumber _ _ id (by simp [numbers])
  | duplicate id => exact idOnly _ id
  | delete id => exact idOnly _ id
  | trimStart id request => exact withNumber _ _ id (by simp [numbers])
  | trimEnd id request => exact withNumber _ _ id (by simp [numbers])
  | clearTrim id => exact idOnly _ id
  | reposition id start => exact withNumber _ _ id (by simp [numbers])
  | resizeRight id request => exact withNumber _ _ id (by simp [numbers])
  | updateClip id patch => simp [toJson, tagged, identity, ClipPatch.toJson_legible readsBack]
  | updateText id patch => simp [toJson, tagged, identity, TextPatch.toJson_legible readsBack]

end Legibility

/-! ## The effect of what is read -/

section Effect

variable {α : Type} [Scalar α]

/-- Whether a command takes the crop of a clip away that has one on this timeline. -/
def Command.Uncrops (command : Command α) (t : Timeline α) : Prop :=
  ∃ id patch c, command = .updateClip id patch ∧ patch.crop = some none ∧ t.clip? id = some c ∧
    c.crop ≠ none

/-- To leave the crop alone instead of taking it away makes a difference where there is one. -/
theorem ClipPatch.apply_sparingCrop_iff (p : ClipPatch α) (c : Clip α) :
    p.sparingCrop.apply c = p.apply c ↔ ¬ (p.crop = some none ∧ c.crop ≠ none) := by
  constructor
  · rintro same ⟨removes, cropped⟩
    have crop := congrArg Clip.crop same
    simp only [apply, sparingCrop, removes, Option.filter_some, Option.isSome_none,
      Bool.false_eq_true, if_false, Option.filter_none] at crop
    exact cropped crop
  · intro spares
    rcases isCrop : p.crop with - | - | r
    · simp [apply, sparingCrop, isCrop]
    · have uncropped : c.crop = none := by
        by_contra cropped
        exact spares ⟨isCrop, cropped⟩
      simp [apply, sparingCrop, isCrop, uncropped, Option.filter]
    · simp [apply, sparingCrop, isCrop, Option.filter]

theorem Timeline.apply_sparingCrop_iff (t : Timeline α) (supply : IdSupply) (command : Command α) :
    t.apply supply command.sparingCrop = t.apply supply command ↔ ¬ command.Uncrops t := by
  cases command with
  | updateClip id patch =>
      have uncrops : (Command.updateClip id patch).Uncrops t ↔
          ∃ c, t.clip? id = some c ∧ patch.crop = some none ∧ c.crop ≠ none := by
        constructor
        · rintro ⟨_, _, c, isUpdate, removes, found, cropped⟩
          cases isUpdate
          exact ⟨c, found, removes, cropped⟩
        · rintro ⟨c, found, removes, cropped⟩
          exact ⟨id, patch, c, rfl, removes, found, cropped⟩
      show (t.changeClip id patch.sparingCrop.apply).map _ = (t.changeClip id patch.apply).map _ ↔ _
      rw [uncrops]
      cases found : t.clip? id with
      | none =>
          refine iff_of_true ?_ (by simp)
          unfold changeClip
          rw [spliceClip_eq_none found, spliceClip_eq_none found]
      | some c =>
          obtain ⟨before, after, place⟩ := exists_hasClip found
          have same : (t.changeClip id patch.sparingCrop.apply).map (fun next => (next, supply)) =
              (t.changeClip id patch.apply).map (fun next => (next, supply)) ↔
                patch.sparingCrop.apply c = patch.apply c := by
            rw [place.changeClip_eq, place.changeClip_eq]
            simp [Except.map]
          rw [same, ClipPatch.apply_sparingCrop_iff]
          simp
  | _ =>
      refine iff_of_true rfl ?_
      rintro ⟨_, _, _, isUpdate, -⟩
      cases isUpdate

end Effect

/-! ## Reading a written command -/

namespace Command

/-- A command is read from its text as it was, except for the order to take a crop away. -/
theorem read?_text {command : Command Float} (readsBack : ∀ x ∈ command.numbers, ReadsBack x) :
    (Json.read? (Json.compact command.toJson)).bind Command.ofJson? = some command.sparingCrop := by
  have legible : Legible (124 + 3) command.toJson := toJson_legible readsBack
  rw [legible.read?_compact (by decide), Option.bind_some]
  exact ofJson?_toJson fun x member => (readsBack x member).isFinite

/-- What the text of a command is read as is the command, and has the effect of the command, unless the
command takes a crop away. -/
theorem read_written {command : Command Float} (readsBack : ∀ x ∈ command.numbers, ReadsBack x) :
    (Json.read? (Json.compact command.toJson)).bind Command.ofJson? = some command.sparingCrop ∧
      (command.sparingCrop = command ↔ ¬ command.RemovesCrop) ∧
      ∀ (t : Timeline Float) (supply : IdSupply),
        t.apply supply command.sparingCrop = t.apply supply command ↔ ¬ command.Uncrops t :=
  ⟨read?_text readsBack, command.sparingCrop_eq_self_iff,
    fun t supply => t.apply_sparingCrop_iff supply command⟩

/-- Moves and crops a clip, and makes it translucent. -/
def framing : Command Float :=
  .updateClip ⟨7⟩ { x := some 12.5, opacity := some 80, crop := some (some ⟨0.5, 0, 640, 360⟩) }

theorem framing_read_written :
    (∀ x ∈ framing.numbers, ReadsBack x) ∧
      (Json.read? (Json.compact framing.toJson)).bind Command.ofJson? = some framing ∧
      ∀ (t : Timeline Float) (supply : IdSupply),
        t.apply supply framing.sparingCrop = t.apply supply framing := by
  have numbers : ∀ x ∈ framing.numbers, ReadsBack x := by decide +kernel
  obtain ⟨isRead, same, effect⟩ := read_written numbers
  have spares : ¬ framing.RemovesCrop := by
    rintro ⟨id, patch, isUpdate, removes⟩
    cases isUpdate
    cases removes
  have unchanged := same.mpr spares
  rw [unchanged] at isRead
  refine ⟨numbers, isRead, fun t supply => (effect t supply).mpr ?_⟩
  rintro ⟨id, patch, c, isUpdate, removes, -⟩
  exact spares ⟨id, patch, isUpdate, removes⟩

/-- Takes the crop of a clip away and changes nothing else. -/
def uncropping : Command Float :=
  .updateClip ⟨7⟩ { crop := some none }

/-- A timeline whose one clip has a crop. -/
def croppedReel : Timeline Float :=
  { (Timeline.empty : Timeline Float) with
    clips :=
      [{ Clip.ofAsset ⟨7⟩ "reel" .video "reel.mp4" (some 10) 0 with
         crop := some ⟨0, 0, 640, 360⟩ }] }

/-- The order to take a crop away is read as a patch without changes, and the crop stays. -/
theorem uncropping_lost :
    (∀ x ∈ uncropping.numbers, ReadsBack x) ∧
      (Json.read? (Json.compact uncropping.toJson)).bind Command.ofJson? =
        some (.updateClip ⟨7⟩ {}) ∧
      Command.updateClip ⟨7⟩ {} ≠ uncropping ∧
      croppedReel.apply (.ofSeed 1) (.updateClip ⟨7⟩ {}) ≠
        croppedReel.apply (.ofSeed 1) uncropping := by
  have noNumbers : ∀ x ∈ uncropping.numbers, ReadsBack x := by
    intro x member
    cases member
  have removes : uncropping.RemovesCrop := ⟨_, _, rfl, rfl⟩
  have uncrops : uncropping.Uncrops croppedReel := by
    refine ⟨_, _, _, rfl, rfl, rfl, ?_⟩
    exact Option.some_ne_none _
  refine ⟨noNumbers, read?_text noNumbers, ?_, ?_⟩
  · intro same
    exact uncropping.sparingCrop_eq_self_iff.mp same removes
  · intro same
    exact (croppedReel.apply_sparingCrop_iff _ uncropping).mp same uncrops

end Command

end Montage

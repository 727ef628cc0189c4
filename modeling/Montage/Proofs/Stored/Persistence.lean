import Montage.Proofs.Json.Document
import Montage.Proofs.Json.Pretty
import Montage.Proofs.Stored.Project

/-!
Contract: what is stored stays the same from one reading to the next.

Owns:
- that the strict reading of any document gives records that can be written: their numbers are finite
  and their moments proper;
- that these and all other such records are read back from their values and from their texts.

Does **not** own: which numbers are read back from their texts (`Json.ReadsBack`).

A record is written with all its fields. So what a reader supplies where a document leaves a field out is
found there at the next reading.
-/

set_option autoImplicit false

namespace Montage

open Json (Ensures ReadsBack Legible)

/-- Numbers that a document can hold. -/
def AllFinite (numbers : List Float) : Prop :=
  ∀ x ∈ numbers, Scalar.isFinite x = true

/-! ## What documents hold -/

namespace Crop

theorem ensures_finite : Ensures Crop.ofJson? fun r => AllFinite r.numbers := by
  intro j isDocument r decoded
  unfold Crop.ofJson? at decoded
  obtain ⟨m, isRecord, decoded⟩ := Option.bind_eq_some_iff.mp decoded
  obtain ⟨x, isX, decoded⟩ := Option.bind_eq_some_iff.mp decoded
  obtain ⟨y, isY, decoded⟩ := Option.bind_eq_some_iff.mp decoded
  obtain ⟨width, isWidth, decoded⟩ := Option.bind_eq_some_iff.mp decoded
  obtain ⟨height, isHeight, decoded⟩ := Option.bind_eq_some_iff.mp decoded
  cases decoded
  have documents := isDocument.of_members? isRecord
  have number := Json.ensures_scalar?
  simp only [AllFinite, numbers, List.forall_mem_cons]
  exact ⟨number.required documents isX, number.required documents isY,
    number.required documents isWidth, number.required documents isHeight, List.forall_mem_nil _⟩

end Crop

namespace Clip

theorem ensures_finite (inCommand : Bool) :
    Ensures (Clip.ofJson? inCommand) fun c => AllFinite c.numbers := by
  intro j isDocument c decoded
  obtain ⟨m, isRecord, held⟩ := heldBy_of_ofJson? decoded
  have documents := isDocument.of_members? isRecord
  have number := Json.ensures_scalar?
  have usual : Scalar.isFinite (0 : Float) = true := by decide
  have rotation := number.defaulted documents usual held.rotation
  have crop := Crop.ensures_finite.optional documents held.crop
  have cropped : AllFinite (c.crop.toList.flatMap Crop.numbers) := by
    intro x isNumber
    obtain ⟨r, isCrop, isNumber⟩ := List.mem_flatMap.mp isNumber
    exact crop r (Option.mem_toList.mp isCrop) x isNumber
  simp only [AllFinite, numbers, List.forall_mem_append, List.forall_mem_cons]
  exact ⟨⟨number.required documents held.sourceIn, number.required documents held.sourceOut,
    number.required documents held.sourceDuration, number.required documents held.timelineStart,
    number.required documents held.timelineEnd, number.required documents held.x,
    number.required documents held.y, number.required documents held.width,
    number.required documents held.height, rotation, number.required documents held.opacity,
    number.required documents held.volume, List.forall_mem_nil _⟩, cropped⟩

end Clip

namespace Overlay

theorem ensures_finite : Ensures Overlay.ofJson? fun o => AllFinite o.numbers := by
  intro j isDocument o decoded
  obtain ⟨m, isRecord, held⟩ := heldBy_of_ofJson? decoded
  have documents := isDocument.of_members? isRecord
  have number := Json.ensures_scalar?
  simp only [AllFinite, numbers, List.forall_mem_cons]
  exact ⟨number.required documents held.timelineStart, number.required documents held.timelineEnd,
    number.required documents held.x, number.required documents held.y,
    number.required documents held.fontSize, number.required documents held.opacity,
    List.forall_mem_nil _⟩

end Overlay

theorem Timeline.ensures_finite : Ensures Timeline.ofJson? fun t => AllFinite t.numbers := by
  intro j isDocument t decoded
  unfold Timeline.ofJson? at decoded
  obtain ⟨m, isRecord, decoded⟩ := Option.bind_eq_some_iff.mp decoded
  obtain ⟨version, -, decoded⟩ := Option.bind_eq_some_iff.mp decoded
  obtain ⟨frameRate, -, decoded⟩ := Option.bind_eq_some_iff.mp decoded
  obtain ⟨canvas, -, decoded⟩ := Option.bind_eq_some_iff.mp decoded
  obtain ⟨clips, areClips, decoded⟩ := Option.bind_eq_some_iff.mp decoded
  obtain ⟨overlays, areOverlays, decoded⟩ := Option.bind_eq_some_iff.mp decoded
  cases decoded
  have documents := isDocument.of_members? isRecord
  have noClips : ∀ c ∈ ([] : List (Clip Float)), AllFinite c.numbers := List.forall_mem_nil _
  have noOverlays : ∀ o ∈ ([] : List (Overlay Float)), AllFinite o.numbers := List.forall_mem_nil _
  have fromClips := (Clip.ensures_finite false).array.defaulted documents noClips areClips
  have fromOverlays := Overlay.ensures_finite.array.defaulted documents noOverlays areOverlays
  exact Timeline.forall_numbers fromClips fromOverlays

theorem Asset.ensures_finite : Ensures Asset.ofJson? fun a => AllFinite a.numbers := by
  intro j isDocument a decoded
  unfold Asset.ofJson? at decoded
  obtain ⟨m, isRecord, decoded⟩ := Option.bind_eq_some_iff.mp decoded
  obtain ⟨ref, -, decoded⟩ := Option.bind_eq_some_iff.mp decoded
  obtain ⟨fileName, -, decoded⟩ := Option.bind_eq_some_iff.mp decoded
  obtain ⟨path, -, decoded⟩ := Option.bind_eq_some_iff.mp decoded
  obtain ⟨mime, -, decoded⟩ := Option.bind_eq_some_iff.mp decoded
  obtain ⟨duration, isDuration, decoded⟩ := Option.bind_eq_some_iff.mp decoded
  obtain ⟨hasAudio, -, decoded⟩ := Option.bind_eq_some_iff.mp decoded
  cases decoded
  have documents := isDocument.of_members? isRecord
  have finite := Json.ensures_scalar?.optional documents isDuration
  exact fun x isNumber => finite x (Option.mem_toList.mp isNumber)

theorem Timestamp.ensures_proper : Ensures Timestamp.ofJson? Timestamp.Proper := by
  intro j _ t decoded
  obtain ⟨s, -, isRead⟩ := Option.bind_eq_some_iff.mp decoded
  exact Timestamp.proper_of_read? isRead

theorem Project.ensures_finite :
    Ensures Project.ofJson? fun p => p.HasProperMoments ∧ AllFinite p.numbers := by
  intro j isDocument p decoded
  unfold Project.ofJson? at decoded
  obtain ⟨m, isRecord, decoded⟩ := Option.bind_eq_some_iff.mp decoded
  obtain ⟨version, -, decoded⟩ := Option.bind_eq_some_iff.mp decoded
  obtain ⟨name, -, decoded⟩ := Option.bind_eq_some_iff.mp decoded
  obtain ⟨id, -, decoded⟩ := Option.bind_eq_some_iff.mp decoded
  obtain ⟨createdAt, isCreation, decoded⟩ := Option.bind_eq_some_iff.mp decoded
  obtain ⟨modifiedAt, isModification, decoded⟩ := Option.bind_eq_some_iff.mp decoded
  obtain ⟨assets, areAssets, decoded⟩ := Option.bind_eq_some_iff.mp decoded
  obtain ⟨settings, -, decoded⟩ := Option.bind_eq_some_iff.mp decoded
  cases decoded
  have documents := isDocument.of_members? isRecord
  have noAssets : ∀ a ∈ ([] : List (Asset Float)), AllFinite a.numbers := List.forall_mem_nil _
  have fromAssets := Asset.ensures_finite.array.defaulted documents noAssets areAssets
  refine ⟨⟨Timestamp.ensures_proper.required documents isCreation,
    Timestamp.ensures_proper.required documents isModification⟩, ?_⟩
  intro x isNumber
  obtain ⟨a, member, isNumber⟩ := List.mem_flatMap.mp isNumber
  exact fromAssets a member x isNumber

/-! ## Stored records -/

section Storage

variable {β : Type} (write : β → Json Float) (read : Json Float → Option β) (numbers : β → List Float)

/-- A record is read back from its value, and from both texts of it if its numbers are. -/
structure Returns (record : β) : Prop where
  value : read (write record) = some record
  compact : (∀ x ∈ numbers record, ReadsBack x) →
    (Json.read? (Json.compact (write record))).bind read = some record
  pretty : (∀ x ∈ numbers record, ReadsBack x) →
    (Json.read? (Json.pretty (write record))).bind read = some record

/-- Records with finite numbers are read back, and so is whatever a document is read as. -/
structure Persists (Sound : β → Prop) : Prop where
  written : ∀ record, Sound record → AllFinite (numbers record) → Returns write read numbers record
  decoded : ∀ text record, (Json.read? text).bind read = some record →
    Returns write read numbers record
  loaded : ∀ bytes record, (Json.readBytes? bytes).bind read = some record →
    Returns write read numbers record

variable {write read numbers} {Sound : β → Prop}

theorem Persists.of_ensures
    (isValue : ∀ record, Sound record → AllFinite (numbers record) → read (write record) = some record)
    (legible : ∀ record, (∀ x ∈ numbers record, ReadsBack x) →
      Legible Json.Reader.depthLimit (write record))
    (ensures : Ensures read fun record => Sound record ∧ AllFinite (numbers record)) :
    Persists write read numbers Sound := by
  have returns (record : β) (sound : Sound record) (finite : AllFinite (numbers record)) :
      Returns write read numbers record := by
    have value := isValue record sound finite
    refine ⟨value, fun readsBack => ?_, fun readsBack => ?_⟩
    · rw [(legible record readsBack).read?_compact le_rfl]
      exact value
    · rw [(legible record readsBack).read?_pretty le_rfl]
      exact value
  refine ⟨returns, ?_, ?_⟩
  · intro text record decoded
    obtain ⟨j, isRead, isRecord⟩ := Option.bind_eq_some_iff.mp decoded
    obtain ⟨sound, finite⟩ := ensures (Json.isDocument_of_read? isRead) isRecord
    exact returns record sound finite
  · intro bytes record loaded
    obtain ⟨j, isRead, isRecord⟩ := Option.bind_eq_some_iff.mp loaded
    obtain ⟨sound, finite⟩ := ensures (Json.isDocument_of_readBytes? isRead) isRecord
    exact returns record sound finite

/-- Most records hold nothing but numbers that could keep them from being read back. -/
theorem Persists.of_finite
    (isValue : ∀ record, AllFinite (numbers record) → read (write record) = some record)
    (legible : ∀ record, (∀ x ∈ numbers record, ReadsBack x) →
      Legible Json.Reader.depthLimit (write record))
    (ensures : Ensures read fun record => AllFinite (numbers record)) :
    Persists write read numbers fun _ => True := by
  refine .of_ensures (fun record _ => isValue record) legible ?_
  intro j isDocument record decoded
  exact ⟨trivial, ensures isDocument decoded⟩

end Storage

/-! ## The records of a project -/

theorem Timeline.persists :
    Persists Timeline.toJson Timeline.ofJson? Timeline.numbers fun _ => True := by
  refine .of_finite (fun _ => ofJson?_toJson) ?_ ensures_finite
  intro t readsBack
  have legible : Legible (123 + 4) t.toJson := toJson_legible readsBack
  exact legible

theorem Clip.persists (inCommand : Bool) :
    Persists Clip.toJson (Clip.ofJson? inCommand) Clip.numbers fun _ => True := by
  refine .of_finite (fun _ => ofJson?_toJson inCommand) ?_ (ensures_finite inCommand)
  intro c readsBack
  have legible : Legible (125 + 2) c.toJson := toJson_legible readsBack
  exact legible

theorem Overlay.persists :
    Persists Overlay.toJson Overlay.ofJson? Overlay.numbers fun _ => True := by
  refine .of_finite (fun _ => ofJson?_toJson) ?_ ensures_finite
  intro o readsBack
  have legible : Legible (126 + 1) o.toJson := toJson_legible readsBack
  exact legible

theorem Asset.persists : Persists Asset.toJson Asset.ofJson? Asset.numbers fun _ => True := by
  refine .of_finite (fun _ => ofJson?_toJson) ?_ ensures_finite
  intro a readsBack
  have legible : Legible (126 + 1) a.toJson := toJson_legible readsBack
  exact legible

theorem Project.persists :
    Persists Project.toJson Project.ofJson? Project.numbers Project.HasProperMoments := by
  refine .of_ensures (fun _ => ofJson?_toJson) ?_ ensures_finite
  intro p readsBack
  have legible : Legible (124 + 3) p.toJson := toJson_legible readsBack
  exact legible

theorem ExportSettings.persists :
    Persists ExportSettings.toJson ExportSettings.ofJson? (fun _ => []) fun _ => True := by
  refine .of_finite (fun s _ => s.ofJson?_toJson) ?_ fun _ _ _ _ => List.forall_mem_nil _
  intro s _
  have legible : Legible (126 + 1) s.toJson := s.toJson_legible
  exact legible

/-- A zoom level is finite by itself. -/
theorem Zoom.persists :
    Persists Zoom.toJson Zoom.ofJson? (fun z => [z.pixelsPerSecond]) fun _ => True := by
  refine .of_finite (fun z _ => z.ofJson?_toJson) ?_ ?_
  · intro z readsBack
    exact Json.legible_ofScalar (readsBack z.pixelsPerSecond List.mem_cons_self)
  · intro j _ z _ x isNumber
    rw [List.mem_singleton.mp isNumber]
    exact z.valid.1

/-- Every record survives being stored. Only a project asks for more than finite numbers: its moments must
be those of the calendar. -/
theorem records_persist :
    Persists Timeline.toJson Timeline.ofJson? Timeline.numbers (fun _ => True) ∧
      (∀ inCommand, Persists Clip.toJson (Clip.ofJson? inCommand) Clip.numbers fun _ => True) ∧
      Persists Overlay.toJson Overlay.ofJson? Overlay.numbers (fun _ => True) ∧
      Persists Asset.toJson Asset.ofJson? Asset.numbers (fun _ => True) ∧
      Persists Project.toJson Project.ofJson? Project.numbers Project.HasProperMoments ∧
      Persists ExportSettings.toJson ExportSettings.ofJson? (fun _ => []) (fun _ => True) ∧
      Persists Zoom.toJson Zoom.ofJson? (fun z => [z.pixelsPerSecond]) (fun _ => True) :=
  ⟨Timeline.persists, Clip.persists, Overlay.persists, Asset.persists, Project.persists,
    ExportSettings.persists, Zoom.persists⟩

end Montage

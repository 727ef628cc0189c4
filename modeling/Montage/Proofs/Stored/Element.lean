import Montage.Proofs.Color
import Montage.Proofs.Json.Record
import Montage.Stored.Timeline

/-!
Contract: what is written to a file is read back from it, element by element.

Owns:
- the numbers of crops, clips, overlays and timelines;
- that the strict reading of a written element gives the element if these are finite;
- that a colour is kept by its text (`Color.kept_by_text`);
- the fields that the strict reading of an element found (`Clip.HeldBy`, `Overlay.HeldBy`).

Does **not** own: commands (`Montage.Proofs.Stored.Command`) and the forgiving reading
(`Montage.Proofs.Stored.Forgiving`).
-/

set_option autoImplicit false

namespace Montage

variable {α : Type}

/-! ## Numbers -/

def Crop.numbers (r : Crop α) : List α := [r.x, r.y, r.width, r.height]

def Clip.numbers (c : Clip α) : List α :=
  [c.sourceIn, c.sourceOut, c.sourceDuration, c.timelineStart, c.timelineEnd, c.x, c.y, c.width,
    c.height, c.rotation, c.opacity, c.volume] ++ c.crop.toList.flatMap Crop.numbers

def Overlay.numbers (o : Overlay α) : List α :=
  [o.timelineStart, o.timelineEnd, o.x, o.y, o.fontSize, o.opacity]

def Timeline.numbers (t : Timeline α) : List α :=
  t.clips.flatMap Clip.numbers ++ t.overlays.flatMap Overlay.numbers

/-- What holds of the numbers of all elements holds of the numbers of a timeline. -/
theorem Timeline.forall_numbers {P : α → Prop} {t : Timeline α}
    (clips : ∀ c ∈ t.clips, ∀ x ∈ c.numbers, P x)
    (overlays : ∀ o ∈ t.overlays, ∀ x ∈ o.numbers, P x) : ∀ x ∈ t.numbers, P x := by
  intro x member
  rcases List.mem_append.mp member with ofClip | ofOverlay
  · obtain ⟨c, isClip, isNumber⟩ := List.mem_flatMap.mp ofClip
    exact clips c isClip x isNumber
  · obtain ⟨o, isOverlay, isNumber⟩ := List.mem_flatMap.mp ofOverlay
    exact overlays o isOverlay x isNumber

open Json (members? required defaulted optional)

/-- Reading what was written, without the value in between. -/
theorem Json.members?_bind {β : Type} {fields : List Json.Field} {members : Json.Members α}
    (names : members.map (·.1) = fields.map (·.name)) (distinct : (fields.map (·.name)).Nodup)
    (next : Json.Members α → Option β) :
    (members? fields (.object members)).bind next = next members := by
  rw [Json.members?_object names distinct]
  rfl

theorem Identity.ofJson?_toJson (id : Identity) :
    Identity.ofJson? (id.toJson : Json α) = some id := by
  unfold Identity.ofJson? Identity.toJson
  rw [Json.string?, Option.bind_some]
  exact id.read?_text

theorem Color.ofJson?_toJson (c : Color) : Color.ofJson? (c.toJson : Json α) = some c := by
  unfold Color.ofJson? Color.toJson
  rw [Json.string?, Option.bind_some, Color.read_text_eq]
  rfl

/-- A colour is kept by its text and by the value that a file has for it, no two colours have one text, and
whatever text a colour was read from, it is read from its own text again. -/
theorem Color.kept_by_text :
    (∀ c : Color, (∃ digits, IsWrittenWith c digits) ∧ read c.text = .ok c ∧
      ofJson? (c.toJson : Json α) = some c) ∧
    Function.Injective text ∧
    ∀ s c, read s = .ok c → read c.text = read s := by
  refine ⟨fun c => ⟨⟨_, c.isWrittenWith_spelling⟩, c.read_text_eq, c.ofJson?_toJson⟩, ?_, ?_⟩
  · intro c d same
    have read := c.read_text_eq
    rw [same, d.read_text_eq] at read
    exact (Except.ok.inj read).symm
  · intro s c isRead
    rw [c.read_text_eq, isRead]

theorem MediaKind.ofJson?_toJson (inCommand : Bool) (kind : MediaKind) :
    MediaKind.ofJson? inCommand (kind.toJson : Json α) = some kind := by
  cases kind <;> rfl

theorem Canvas.ofJson?_toJson (c : Canvas) : Canvas.ofJson? (c.toJson : Json α) = some c := by
  unfold Canvas.ofJson? Canvas.toJson
  rw [Option.bind_eq_bind, Json.members?_bind rfl (by decide)]
  simp only [required, List.lookup_cons, String.reduceBEq, Json.uint32?_toNat, Option.bind_eq_bind,
    Option.bind_some]

variable [Scalar α]

namespace Crop

theorem ofJson?_toJson {r : Crop α} (finite : ∀ x ∈ r.numbers, Scalar.isFinite x = true) :
    Crop.ofJson? r.toJson = some r := by
  simp only [numbers, List.mem_cons, List.not_mem_nil, or_false, forall_eq_or_imp,
    forall_eq] at finite
  obtain ⟨x, y, width, height⟩ := finite
  unfold Crop.ofJson? Crop.toJson
  rw [Option.bind_eq_bind, Json.members?_bind rfl (by decide)]
  simp only [required, List.lookup_cons, String.reduceBEq, Json.scalar?_ofScalar x,
    Json.scalar?_ofScalar y, Json.scalar?_ofScalar width, Json.scalar?_ofScalar height,
    Option.bind_eq_bind, Option.bind_some]

theorem toJson_holdsFinite (r : Crop α) : r.toJson.HoldsFinite := by
  simp [toJson]

end Crop

namespace Clip

theorem ofJson?_toJson (inCommand : Bool) {c : Clip α}
    (finite : ∀ x ∈ c.numbers, Scalar.isFinite x = true) :
    Clip.ofJson? inCommand c.toJson = some c := by
  simp only [numbers, List.mem_append, List.mem_cons, List.not_mem_nil, or_false, or_imp,
    forall_and, forall_eq] at finite
  obtain ⟨⟨sourceIn, sourceOut, sourceDuration, timelineStart, timelineEnd, x, y, width, height,
    rotation, opacity, volume⟩, cropped⟩ := finite
  have crop : Json.nullable Crop.ofJson? (Json.ofOption Crop.toJson c.crop) = some c.crop := by
    apply Json.nullable_ofOption rfl
    intro r isCrop
    apply Crop.ofJson?_toJson
    intro number member
    apply cropped
    rw [isCrop]
    simpa using member
  unfold Clip.ofJson? Clip.toJson
  rw [Option.bind_eq_bind, Json.members?_bind rfl (by decide)]
  simp only [required, Json.optional, defaulted, List.lookup_cons, String.reduceBEq,
    Json.scalar?_ofScalar sourceIn,
    Json.scalar?_ofScalar sourceOut, Json.scalar?_ofScalar sourceDuration,
    Json.scalar?_ofScalar timelineStart, Json.scalar?_ofScalar timelineEnd,
    Json.scalar?_ofScalar x, Json.scalar?_ofScalar y, Json.scalar?_ofScalar width,
    Json.scalar?_ofScalar height, Json.scalar?_ofScalar rotation, Json.scalar?_ofScalar opacity,
    Json.scalar?_ofScalar volume, Identity.ofJson?_toJson, MediaKind.ofJson?_toJson, Json.string?,
    crop, zIndexToJson, Json.int32?_toInt,
    Option.bind_eq_bind, Option.bind_some]

theorem toJson_holdsFinite (c : Clip α) : c.toJson.HoldsFinite := by
  have crop : (Json.ofOption Crop.toJson c.crop).HoldsFinite :=
    Json.holdsFinite_ofOption fun r _ => r.toJson_holdsFinite
  simp [toJson, Identity.toJson, MediaKind.toJson, zIndexToJson, crop]

/-- The members of a record hold the fields of a clip. -/
structure HeldBy (inCommand : Bool) (m : Json.Members α) (c : Clip α) : Prop where
  id : required m "id" Identity.ofJson? = some c.id
  asset : required m "asset_ref" Json.string? = some c.asset
  kind : required m "media_kind" (MediaKind.ofJson? inCommand) = some c.kind
  fileName : required m "file_name" Json.string? = some c.fileName
  sourceIn : required m "source_in" Json.scalar? = some c.sourceIn
  sourceOut : required m "source_out" Json.scalar? = some c.sourceOut
  sourceDuration : required m "source_duration" Json.scalar? = some c.sourceDuration
  timelineStart : required m "timeline_start" Json.scalar? = some c.timelineStart
  timelineEnd : required m "timeline_end" Json.scalar? = some c.timelineEnd
  x : required m "x" Json.scalar? = some c.x
  y : required m "y" Json.scalar? = some c.y
  width : required m "width" Json.scalar? = some c.width
  height : required m "height" Json.scalar? = some c.height
  rotation : defaulted m "rotation_deg" 0 Json.scalar? = some c.rotation
  opacity : required m "opacity_percent" Json.scalar? = some c.opacity
  zIndex : defaulted m "z_index" 0 Json.int32? = some c.zIndex
  crop : optional m "crop_rect" Crop.ofJson? = some c.crop
  volume : required m "volume_percent" Json.scalar? = some c.volume

theorem heldBy_of_ofJson? {inCommand : Bool} {j : Json α} {c : Clip α}
    (decoded : Clip.ofJson? inCommand j = some c) :
    ∃ m, members? fields j = some m ∧ c.HeldBy inCommand m := by
  unfold Clip.ofJson? at decoded
  obtain ⟨m, isRecord, decoded⟩ := Option.bind_eq_some_iff.mp decoded
  obtain ⟨id, isId, decoded⟩ := Option.bind_eq_some_iff.mp decoded
  obtain ⟨asset, isAsset, decoded⟩ := Option.bind_eq_some_iff.mp decoded
  obtain ⟨kind, isKind, decoded⟩ := Option.bind_eq_some_iff.mp decoded
  obtain ⟨fileName, isFileName, decoded⟩ := Option.bind_eq_some_iff.mp decoded
  obtain ⟨sourceIn, isSourceIn, decoded⟩ := Option.bind_eq_some_iff.mp decoded
  obtain ⟨sourceOut, isSourceOut, decoded⟩ := Option.bind_eq_some_iff.mp decoded
  obtain ⟨sourceDuration, isSourceDuration, decoded⟩ := Option.bind_eq_some_iff.mp decoded
  obtain ⟨timelineStart, isTimelineStart, decoded⟩ := Option.bind_eq_some_iff.mp decoded
  obtain ⟨timelineEnd, isTimelineEnd, decoded⟩ := Option.bind_eq_some_iff.mp decoded
  obtain ⟨x, isX, decoded⟩ := Option.bind_eq_some_iff.mp decoded
  obtain ⟨y, isY, decoded⟩ := Option.bind_eq_some_iff.mp decoded
  obtain ⟨width, isWidth, decoded⟩ := Option.bind_eq_some_iff.mp decoded
  obtain ⟨height, isHeight, decoded⟩ := Option.bind_eq_some_iff.mp decoded
  obtain ⟨rotation, isRotation, decoded⟩ := Option.bind_eq_some_iff.mp decoded
  obtain ⟨opacity, isOpacity, decoded⟩ := Option.bind_eq_some_iff.mp decoded
  obtain ⟨zIndex, isZIndex, decoded⟩ := Option.bind_eq_some_iff.mp decoded
  obtain ⟨crop, isCrop, decoded⟩ := Option.bind_eq_some_iff.mp decoded
  obtain ⟨volume, isVolume, decoded⟩ := Option.bind_eq_some_iff.mp decoded
  cases decoded
  exact ⟨m, isRecord, isId, isAsset, isKind, isFileName, isSourceIn, isSourceOut, isSourceDuration,
    isTimelineStart, isTimelineEnd, isX, isY, isWidth, isHeight, isRotation, isOpacity, isZIndex,
    isCrop, isVolume⟩

end Clip

namespace Overlay

theorem ofJson?_toJson {o : Overlay α} (finite : ∀ x ∈ o.numbers, Scalar.isFinite x = true) :
    Overlay.ofJson? o.toJson = some o := by
  simp only [numbers, List.mem_cons, List.not_mem_nil, or_false, forall_eq_or_imp,
    forall_eq] at finite
  obtain ⟨timelineStart, timelineEnd, x, y, fontSize, opacity⟩ := finite
  unfold Overlay.ofJson? Overlay.toJson
  rw [Option.bind_eq_bind, Json.members?_bind rfl (by decide)]
  simp only [required, defaulted, List.lookup_cons, String.reduceBEq,
    Json.scalar?_ofScalar timelineStart, Json.scalar?_ofScalar timelineEnd,
    Json.scalar?_ofScalar x, Json.scalar?_ofScalar y, Json.scalar?_ofScalar fontSize,
    Json.scalar?_ofScalar opacity, Identity.ofJson?_toJson, Color.ofJson?_toJson, Json.string?,
    zIndexToJson, Json.int32?_toInt, Option.bind_eq_bind, Option.bind_some]

theorem toJson_holdsFinite (o : Overlay α) : o.toJson.HoldsFinite := by
  simp [toJson, Identity.toJson, Color.toJson, zIndexToJson]

/-- The members of a record hold the fields of an overlay. -/
structure HeldBy (m : Json.Members α) (o : Overlay α) : Prop where
  id : required m "id" Identity.ofJson? = some o.id
  text : required m "text" Json.string? = some o.text
  timelineStart : required m "timeline_start" Json.scalar? = some o.timelineStart
  timelineEnd : required m "timeline_end" Json.scalar? = some o.timelineEnd
  x : required m "x" Json.scalar? = some o.x
  y : required m "y" Json.scalar? = some o.y
  fontFamily : required m "font_family" Json.string? = some o.fontFamily
  fontSize : required m "font_size_px" Json.scalar? = some o.fontSize
  color : required m "color" Color.ofJson? = some o.color
  opacity : required m "opacity_percent" Json.scalar? = some o.opacity
  zIndex : defaulted m "z_index" 0 Json.int32? = some o.zIndex

theorem heldBy_of_ofJson? {j : Json α} {o : Overlay α} (decoded : Overlay.ofJson? j = some o) :
    ∃ m, members? fields j = some m ∧ o.HeldBy m := by
  unfold Overlay.ofJson? at decoded
  obtain ⟨m, isRecord, decoded⟩ := Option.bind_eq_some_iff.mp decoded
  obtain ⟨id, isId, decoded⟩ := Option.bind_eq_some_iff.mp decoded
  obtain ⟨text, isText, decoded⟩ := Option.bind_eq_some_iff.mp decoded
  obtain ⟨timelineStart, isTimelineStart, decoded⟩ := Option.bind_eq_some_iff.mp decoded
  obtain ⟨timelineEnd, isTimelineEnd, decoded⟩ := Option.bind_eq_some_iff.mp decoded
  obtain ⟨x, isX, decoded⟩ := Option.bind_eq_some_iff.mp decoded
  obtain ⟨y, isY, decoded⟩ := Option.bind_eq_some_iff.mp decoded
  obtain ⟨fontFamily, isFontFamily, decoded⟩ := Option.bind_eq_some_iff.mp decoded
  obtain ⟨fontSize, isFontSize, decoded⟩ := Option.bind_eq_some_iff.mp decoded
  obtain ⟨color, isColor, decoded⟩ := Option.bind_eq_some_iff.mp decoded
  obtain ⟨opacity, isOpacity, decoded⟩ := Option.bind_eq_some_iff.mp decoded
  obtain ⟨zIndex, isZIndex, decoded⟩ := Option.bind_eq_some_iff.mp decoded
  cases decoded
  exact ⟨m, isRecord, isId, isText, isTimelineStart, isTimelineEnd, isX, isY, isFontFamily, isFontSize,
    isColor, isOpacity, isZIndex⟩

end Overlay

/-- A timeline is read back as it was written if its numbers are finite. -/
theorem Timeline.ofJson?_toJson {t : Timeline α}
    (finite : ∀ x ∈ t.numbers, Scalar.isFinite x = true) :
    Timeline.ofJson? t.toJson = some t := by
  have clips : Json.array? (Clip.ofJson? false) (.array (t.clips.map Clip.toJson)) = some t.clips := by
    apply Json.array?_map
    intro c member
    apply Clip.ofJson?_toJson
    intro x isNumber
    apply finite
    exact List.mem_append_left _ (List.mem_flatMap.mpr ⟨c, member, isNumber⟩)
  have overlays :
      Json.array? Overlay.ofJson? (.array (t.overlays.map Overlay.toJson)) = some t.overlays := by
    apply Json.array?_map
    intro o member
    apply Overlay.ofJson?_toJson
    intro x isNumber
    apply finite
    exact List.mem_append_right _ (List.mem_flatMap.mpr ⟨o, member, isNumber⟩)
  unfold Timeline.ofJson? Timeline.toJson
  rw [Option.bind_eq_bind, Json.members?_bind rfl (by decide)]
  simp only [required, defaulted, List.lookup_cons, String.reduceBEq, Json.string?, Json.uint32?_toNat,
    Canvas.ofJson?_toJson, clips, overlays, Option.bind_eq_bind, Option.bind_some]

theorem Timeline.toJson_holdsFinite (t : Timeline α) : t.toJson.HoldsFinite := by
  simp [toJson, Canvas.toJson, Clip.toJson_holdsFinite, Overlay.toJson_holdsFinite]

end Montage

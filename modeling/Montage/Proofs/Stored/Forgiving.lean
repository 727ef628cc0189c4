import Montage.Proofs.Repair
import Montage.Proofs.Stored.Element
import Montage.Stored.Forgiving

/-!
Contract: the forgiving reading of what the strict reading accepts.

Owns:
- that both readings see the same field, one type of field at a time;
- that the forgiving reading of a crop, a clip, an overlay or a timeline is the repair of the strict one.

Does **not** own: what the forgiving reading makes of other values.

The forgiving reader replaces what the strict reader refuses, and it mends every element once by itself
and once more with the whole timeline. Where there is nothing to replace, only the repair is left.
-/

set_option autoImplicit false

namespace Montage

open Extended
open Json (members? required defaulted optional)

namespace Forgiving

/-! ## Fields -/

section Fields

variable {members : Json.Members Extended} {name : String}

/-- The members hold finite numbers only. -/
def AreFinite (members : Json.Members Extended) : Prop :=
  ∀ member ∈ members, member.2.HoldsFinite

theorem AreFinite.lookup (finite : AreFinite members) {j : Json Extended}
    (present : members.lookup name = some j) : j.HoldsFinite := by
  obtain ⟨before, after, same, -⟩ := List.lookup_eq_some_iff.mp present
  apply finite (name, j)
  rw [same]
  exact List.mem_append_right before List.mem_cons_self

theorem number?_of_scalar? {j : Json Extended} {x : Extended}
    (finite : j.HoldsFinite) (isNumber : j.scalar? = some x) :
    number? j = some (some x) := by
  cases j with
  | whole n =>
      cases isNumber
      rfl
  | real y =>
      cases isNumber
      have finite : Scalar.isFinite x = true := finite x (List.mem_singleton_self x)
      show some ((some x).filter Scalar.isFinite) = _
      rw [Option.filter_some_pos finite]
  | _ => cases isNumber

theorem numberField_of_required {x : Extended} (finite : AreFinite members)
    (isRead : required members name Json.scalar? = some x) :
    numberField members name = some (some x) := by
  obtain ⟨j, present, isNumber⟩ := Json.required_eq_some.mp isRead
  unfold numberField
  rw [Json.defaulted_of_lookup present]
  exact number?_of_scalar? (finite.lookup present) isNumber

theorem numberField_of_defaulted {default x : Extended} (finite : AreFinite members)
    (isRead : defaulted members name default Json.scalar? = some x) :
    ∃ number, numberField members name = some number ∧ number.getD default = x := by
  unfold numberField
  rcases Json.defaulted_eq_some.mp isRead with ⟨absent, same⟩ | ⟨j, present, isNumber⟩
  · rw [Json.defaulted_of_absent absent]
    exact ⟨none, rfl, same⟩
  · rw [Json.defaulted_of_lookup present]
    exact ⟨some x, number?_of_scalar? (finite.lookup present) isNumber, rfl⟩

theorem number?_of_integer? {low high n : Int} {j : Json Extended}
    (isNumber : j.integer? low high = some n) :
    number? j = some (some (fin (n : ℚ))) ∧ low ≤ n ∧ n ≤ high := by
  cases j with
  | whole m =>
      simp only [Json.integer?] at isNumber
      split at isNumber
      · rename_i within
        cases isNumber
        exact ⟨rfl, within⟩
      · cases isNumber
  | _ => cases isNumber

/-- A stored position between the elements of the picture is read back from its number. -/
theorem zIndex_of_defaulted {z : Int32}
    (isRead : defaulted members name 0 Json.int32? = some z) :
    ∃ number, numberField members name = some number ∧ zIndex number = z := by
  unfold numberField
  rcases Json.defaulted_eq_some.mp isRead with ⟨absent, same⟩ | ⟨j, present, isWhole⟩
  · rw [Json.defaulted_of_absent absent]
    exact ⟨none, rfl, same⟩
  · obtain ⟨n, isNumber, rfl⟩ := Option.map_eq_some_iff.mp isWhole
    obtain ⟨number, above, below⟩ := number?_of_integer? isNumber
    rw [Json.defaulted_of_lookup present]
    refine ⟨_, number, ?_⟩
    exact congrArg Int32.ofInt (roundWithin_intCast above below)

/-- A stored frame rate up to 240 is read back from its number, and none at all as the standard one. -/
theorem frameRate_of_defaulted {rate : UInt32} (small : rate ≤ 240)
    (isRead : defaulted members name standardFrameRate Json.uint32? = some rate) :
    ∃ number, numberField members name = some number ∧
      frameRate number = if rate = 0 then standardFrameRate else rate := by
  unfold numberField
  rcases Json.defaulted_eq_some.mp isRead with ⟨absent, rfl⟩ | ⟨j, present, isWhole⟩
  · rw [Json.defaulted_of_absent absent]
    exact ⟨none, rfl, rfl⟩
  · obtain ⟨n, isNumber, rfl⟩ := Option.map_eq_some_iff.mp isWhole
    obtain ⟨number, above, below⟩ := number?_of_integer? isNumber
    rw [Json.defaulted_of_lookup present]
    refine ⟨_, number, ?_⟩
    obtain ⟨m, rfl⟩ := Int.eq_ofNat_of_zero_le above
    have value : (UInt32.ofNat m).toNat = m := UInt32.toNat_ofNat_of_lt' (show m < 2 ^ 32 by omega)
    have limited : m ≤ 240 := by
      have compared := UInt32.le_iff_toNat_le.mp small
      rwa [Int.toNat_natCast, value] at compared
    have isZero : UInt32.ofNat (m : Int).toNat = 0 ↔ m = 0 := by
      rw [Int.toNat_natCast, ← UInt32.toNat_inj, value]
      rfl
    have bounds : (1 : Extended) ≤ fin ((m : Int) : ℚ) ∧ fin ((m : Int) : ℚ) ≤ 240 ↔ m ≠ 0 := by
      rw [one_eq, ofNat_eq 240, fin_le_fin, fin_le_fin]
      constructor
      · rintro ⟨least, -⟩ rfl
        norm_num at least
      · intro positive
        exact ⟨by exact_mod_cast Nat.one_le_iff_ne_zero.mpr positive, by exact_mod_cast limited⟩
    unfold frameRate
    simp only [bounds, isZero]
    by_cases zero : m = 0
    · rw [if_neg (not_not.mpr zero), if_pos zero]
    · rw [if_pos zero, if_neg zero, roundWithin_intCast above (by omega)]

end Fields

/-! ## Elements -/

section Elements

variable {j : Json Extended}

theorem crop?_of_ofJson? {width height : Extended} {r : Crop Extended}
    (finite : j.HoldsFinite) (decoded : Crop.ofJson? j = some r) :
    crop? width height j = some r := by
  simp only [Crop.ofJson?, Option.bind_eq_bind, Option.bind_eq_some_iff, Option.some.injEq] at decoded
  obtain ⟨m, isRecord, x, isX, y, isY, w, isWidth, h, isHeight, rfl⟩ := decoded
  have members : AreFinite m := finite.of_members? isRecord
  have names : (Json.defaultedFields ["x", "y", "width", "height"]).map (·.name) =
      Crop.fields.map (·.name) := rfl
  have known := Json.members?_of_names names (by decide) isRecord
  unfold crop?
  simp only [known, numberField_of_required members isX, numberField_of_required members isY,
    numberField_of_required members isWidth, numberField_of_required members isHeight,
    Option.bind_eq_bind, Option.bind_some, Option.getD_some]

theorem optional_crop? {m : Json.Members Extended} {name : String} {width height : Extended}
    {crop : Option (Crop Extended)} (finite : AreFinite m)
    (isCrop : optional m name Crop.ofJson? = some crop) :
    optional m name (crop? width height) = some crop := by
  unfold Json.optional at isCrop ⊢
  rcases Json.defaulted_eq_some.mp isCrop with ⟨absent, same⟩ | ⟨j, present, isValue⟩
  · rw [Json.defaulted_of_absent absent, same]
  · rw [Json.defaulted_of_lookup present]
    exact Json.nullable_of_refines (fun r => crop?_of_ofJson? (finite.lookup present)) isValue

/-- The text of a value that is read through its text. -/
theorem optional_string? {β : Type} {m : Json.Members Extended} {name : String}
    {read : String → Option β} {b : β}
    (isRead : required m name (fun j => j.string?.bind read) = some b) :
    ∃ s, optional m name Json.string? = some (some s) ∧ read s = some b := by
  obtain ⟨j, present, isValue⟩ := Json.required_eq_some.mp isRead
  obtain ⟨s, isText, isValue⟩ := Option.bind_eq_some_iff.mp isValue
  have text : required m name Json.string? = some s := Json.required_eq_some.mpr ⟨j, present, isText⟩
  exact ⟨s, Json.optional_of_required rfl text, isValue⟩

/-- What the forgiving reader makes of a stored clip before it knows who has an identity. -/
def clipDraft (c : Clip Extended) : Draft (Clip Extended) :=
  ⟨some c.id, fun id => Clip.repair { c with id }⟩

theorem clip?_of_ofJson? {c : Clip Extended} (finite : j.HoldsFinite)
    (decoded : Clip.ofJson? false j = some c) (long : 0 < c.sourceDuration) :
    clip? j = some (clipDraft c) := by
  obtain ⟨m, isRecord, held⟩ := Clip.heldBy_of_ofJson? decoded
  have members : AreFinite m := finite.of_members? isRecord
  have names :
      (Clip.fields.map fun field => { field with mayEnd := true }).map (·.name) =
        Clip.fields.map (·.name) := rfl
  have known := Json.members?_of_names names (by decide) isRecord
  obtain ⟨text, isText, isId⟩ := optional_string? held.id
  obtain ⟨rotation, isRotation, rotationValue⟩ := numberField_of_defaulted members held.rotation
  obtain ⟨z, isZ, zValue⟩ := zIndex_of_defaulted held.zIndex
  have usable : (some c.sourceDuration).filter (fun d => decide (0 < d)) = some c.sourceDuration :=
    Option.filter_some_pos (decide_eq_true long)
  -- One step for each field, in the order in which they are read.
  unfold clip?
  refine Option.bind_eq_some_iff.mpr ⟨_, known, ?_⟩
  refine Option.bind_eq_some_iff.mpr ⟨_, isText, ?_⟩
  refine Option.bind_eq_some_iff.mpr ⟨_, Json.optional_of_required rfl held.asset, ?_⟩
  refine Option.bind_eq_some_iff.mpr ⟨_, Json.optional_of_required rfl held.kind, ?_⟩
  refine Option.bind_eq_some_iff.mpr ⟨_, Json.optional_of_required rfl held.fileName, ?_⟩
  refine Option.bind_eq_some_iff.mpr ⟨_, numberField_of_required members held.sourceDuration, ?_⟩
  refine Option.bind_eq_some_iff.mpr ⟨_, numberField_of_required members held.sourceIn, ?_⟩
  refine Option.bind_eq_some_iff.mpr ⟨_, numberField_of_required members held.sourceOut, ?_⟩
  refine Option.bind_eq_some_iff.mpr ⟨_, numberField_of_required members held.timelineStart, ?_⟩
  refine Option.bind_eq_some_iff.mpr ⟨_, numberField_of_required members held.timelineEnd, ?_⟩
  refine Option.bind_eq_some_iff.mpr ⟨_, numberField_of_required members held.x, ?_⟩
  refine Option.bind_eq_some_iff.mpr ⟨_, numberField_of_required members held.y, ?_⟩
  refine Option.bind_eq_some_iff.mpr ⟨_, numberField_of_required members held.width, ?_⟩
  refine Option.bind_eq_some_iff.mpr ⟨_, numberField_of_required members held.height, ?_⟩
  refine Option.bind_eq_some_iff.mpr ⟨_, isRotation, ?_⟩
  refine Option.bind_eq_some_iff.mpr ⟨_, numberField_of_required members held.opacity, ?_⟩
  refine Option.bind_eq_some_iff.mpr ⟨_, isZ, ?_⟩
  refine Option.bind_eq_some_iff.mpr ⟨_, optional_crop? members held.crop, ?_⟩
  refine Option.bind_eq_some_iff.mpr ⟨_, numberField_of_required members held.volume, ?_⟩
  simp only [usable, rotationValue, zValue, Option.getD_some, id?, Option.bind_some, isId, clipDraft]

/-- What the forgiving reader makes of a stored overlay before it knows who has an identity. -/
def overlayDraft (o : Overlay Extended) : Draft (Overlay Extended) :=
  ⟨some o.id, fun id => Overlay.repair { o with id }⟩

theorem overlay?_of_ofJson? {o : Overlay Extended} (finite : j.HoldsFinite)
    (decoded : Overlay.ofJson? j = some o) (named : Text.isBlankText o.fontFamily = false) :
    overlay? j = some (overlayDraft o) := by
  obtain ⟨m, isRecord, held⟩ := Overlay.heldBy_of_ofJson? decoded
  have members : AreFinite m := finite.of_members? isRecord
  have names :
      (Overlay.fields.map fun field => { field with mayEnd := true }).map (·.name) =
        Overlay.fields.map (·.name) := rfl
  have known := Json.members?_of_names names (by decide) isRecord
  obtain ⟨text, isText, isId⟩ := optional_string? held.id
  obtain ⟨color, isColor, colorValue⟩ := optional_string? held.color
  obtain ⟨z, isZ, zValue⟩ := zIndex_of_defaulted held.zIndex
  have font :
      (some o.fontFamily).filter (fun font => !Text.isBlankText font) = some o.fontFamily :=
    Option.filter_some_pos (by rw [named, Bool.not_false])
  unfold overlay?
  refine Option.bind_eq_some_iff.mpr ⟨_, known, ?_⟩
  refine Option.bind_eq_some_iff.mpr ⟨_, isText, ?_⟩
  refine Option.bind_eq_some_iff.mpr ⟨_, Json.optional_of_required rfl held.text, ?_⟩
  refine Option.bind_eq_some_iff.mpr ⟨_, numberField_of_required members held.timelineStart, ?_⟩
  refine Option.bind_eq_some_iff.mpr ⟨_, numberField_of_required members held.timelineEnd, ?_⟩
  refine Option.bind_eq_some_iff.mpr ⟨_, numberField_of_required members held.x, ?_⟩
  refine Option.bind_eq_some_iff.mpr ⟨_, numberField_of_required members held.y, ?_⟩
  refine Option.bind_eq_some_iff.mpr ⟨_, Json.optional_of_required rfl held.fontFamily, ?_⟩
  refine Option.bind_eq_some_iff.mpr ⟨_, numberField_of_required members held.fontSize, ?_⟩
  refine Option.bind_eq_some_iff.mpr ⟨_, isColor, ?_⟩
  refine Option.bind_eq_some_iff.mpr ⟨_, numberField_of_required members held.opacity, ?_⟩
  refine Option.bind_eq_some_iff.mpr ⟨_, isZ, ?_⟩
  simp only [font, colorValue, zValue, Option.getD_some, id?, Option.bind_some, isId, overlayDraft]

end Elements

/-- Elements that were stored with their identities keep them, and take none from the supply. -/
theorem complete_map {β : Type} (list : List β) (draft : β → Draft β) (mend : β → β)
    (identified : ∀ b ∈ list, ∃ id, (draft b).id = some id ∧ (draft b).withId id = mend b)
    (supply : IdSupply) : complete supply (list.map draft) = (list.map mend, supply) := by
  induction list with
  | nil => rfl
  | cons b rest inductionHypothesis =>
      obtain ⟨id, hasId, mended⟩ := identified b List.mem_cons_self
      have others := inductionHypothesis fun c member => identified c (List.mem_cons_of_mem b member)
      rw [List.map_cons, complete]
      simp only [hasId, others, mended, List.map_cons]

end Forgiving

/-! ## Timelines -/

namespace Timeline

open Forgiving

variable {t : Timeline Extended} {j : Json Extended} {supply : IdSupply}

/-- The members of a record hold the fields of a timeline. -/
structure HeldBy (m : Json.Members Extended) (t : Timeline Extended) : Prop where
  version : required m "version" Json.string? = some t.version
  frameRate : defaulted m "frame_rate" standardFrameRate Json.uint32? = some t.frameRate
  canvas : defaulted m "canvas" Canvas.standard Canvas.ofJson? = some t.canvas
  clips : defaulted m "clips" [] (Json.array? (Clip.ofJson? false)) = some t.clips
  overlays : defaulted m "overlays" [] (Json.array? Overlay.ofJson?) = some t.overlays

theorem heldBy_of_ofJson? (decoded : Timeline.ofJson? j = some t) :
    ∃ m, members? fields j = some m ∧ t.HeldBy m := by
  unfold Timeline.ofJson? at decoded
  obtain ⟨m, isRecord, decoded⟩ := Option.bind_eq_some_iff.mp decoded
  obtain ⟨version, isVersion, decoded⟩ := Option.bind_eq_some_iff.mp decoded
  obtain ⟨frameRate, isRate, decoded⟩ := Option.bind_eq_some_iff.mp decoded
  obtain ⟨canvas, isCanvas, decoded⟩ := Option.bind_eq_some_iff.mp decoded
  obtain ⟨clips, areClips, decoded⟩ := Option.bind_eq_some_iff.mp decoded
  obtain ⟨overlays, areOverlays, decoded⟩ := Option.bind_eq_some_iff.mp decoded
  cases decoded
  exact ⟨m, isRecord, isVersion, isRate, isCanvas, areClips, areOverlays⟩

/-- A list of elements is read with the image of each element, as far as these can be read. -/
theorem defaulted_array?_of_refines {β γ : Type} {m : Json.Members Extended} {name : String}
    {read : Json Extended → Option β} {other : Json Extended → Option γ} {image : β → γ}
    {P : β → Prop} {list : List β} (finite : AreFinite m)
    (refines : ∀ item : Json Extended, item.HoldsFinite → ∀ b, read item = some b → P b →
      other item = some (image b))
    (isRead : defaulted m name [] (Json.array? read) = some list) (all : ∀ b ∈ list, P b) :
    defaulted m name [] (Json.array? other) = some (list.map image) := by
  rcases Json.defaulted_eq_some.mp isRead with ⟨absent, rfl⟩ | ⟨value, present, isList⟩
  · rw [Json.defaulted_of_absent absent]
    rfl
  · rw [Json.defaulted_of_lookup present]
    have reals := finite.lookup present
    cases value with
    | array items =>
        rw [Json.holdsFinite_array] at reals
        exact Json.mapM_of_refines (fun item member => refines item (reals item member)) isList all
    | _ => cases isList

/-- A timeline as the forgiving reader has it before it mends the whole: with mended elements, and
with the standard frame rate in the place of none. -/
def elementsRepaired (t : Timeline Extended) : Timeline Extended :=
  { t with
    frameRate := if t.frameRate = 0 then standardFrameRate else t.frameRate
    clips := t.clips.map Clip.repair
    overlays := t.overlays.map Overlay.repair }

theorem repair_elementsRepaired (t : Timeline Extended) : t.elementsRepaired.repair = t.repair := by
  have clips : (t.clips.map Clip.repair).map Clip.repair = t.clips.map Clip.repair := by
    rw [List.map_map]
    exact List.map_congr_left fun c _ => c.repair_repair
  have overlays : (t.overlays.map Overlay.repair).map Overlay.repair =
      t.overlays.map Overlay.repair := by
    rw [List.map_map]
    exact List.map_congr_left fun o _ => o.repair_repair
  have rate : (if t.elementsRepaired.frameRate = 0 then standardFrameRate
      else t.elementsRepaired.frameRate) = t.elementsRepaired.frameRate := by
    rw [ite_eq_right_iff]
    exact fun zero => (repair_mended t).running zero |>.elim
  unfold repair
  rw [rate]
  simp only [elementsRepaired, clips, overlays]
  rfl

/-- What the strict reader accepts, the forgiving reader takes in without a replacement. -/
theorem load?_of_heldBy {m : Json.Members Extended} (finite : AreFinite m)
    (isRecord : members? fields j = some m) (held : t.HeldBy m) (rate : t.frameRate ≤ 240)
    (durations : ∀ c ∈ t.clips, 0 < c.sourceDuration)
    (fonts : ∀ o ∈ t.overlays, Text.isBlankText o.fontFamily = false) (supply : IdSupply) :
    load? supply j = some (t.elementsRepaired.repair, supply) := by
  have names :
      (fields.map fun field => { field with mayEnd := true }).map (·.name) = fields.map (·.name) := rfl
  have known := Json.members?_of_names names (by decide) isRecord
  obtain ⟨number, isRate, rateValue⟩ := frameRate_of_defaulted rate held.frameRate
  obtain ⟨canvas, isCanvas, canvasValue⟩ := Json.optional_of_defaulted rfl held.canvas
  have clips := defaulted_array?_of_refines finite
    (fun _ reals c decoded long => clip?_of_ofJson? reals decoded long) held.clips durations
  have overlays := defaulted_array?_of_refines finite
    (fun _ reals c decoded named => overlay?_of_ofJson? reals decoded named) held.overlays fonts
  have mendedClips : complete supply (t.clips.map clipDraft) = (t.clips.map Clip.repair, supply) :=
    complete_map t.clips clipDraft Clip.repair (fun c _ => ⟨c.id, rfl, rfl⟩) supply
  have mendedOverlays :
      complete supply (t.overlays.map overlayDraft) = (t.overlays.map Overlay.repair, supply) :=
    complete_map t.overlays overlayDraft Overlay.repair (fun o _ => ⟨o.id, rfl, rfl⟩) supply
  unfold load?
  refine Option.bind_eq_some_iff.mpr ⟨_, known, ?_⟩
  refine Option.bind_eq_some_iff.mpr ⟨_, Json.optional_of_required rfl held.version, ?_⟩
  refine Option.bind_eq_some_iff.mpr ⟨_, isRate, ?_⟩
  refine Option.bind_eq_some_iff.mpr ⟨_, isCanvas, ?_⟩
  refine Option.bind_eq_some_iff.mpr ⟨_, clips, ?_⟩
  refine Option.bind_eq_some_iff.mpr ⟨_, overlays, ?_⟩
  simp only [mendedClips, mendedOverlays, Option.getD_some, canvasValue, rateValue, elementsRepaired]

/-- Whatever the strict reader accepts, the forgiving reader accepts, and gives the repair of what the
strict reader gives, if the frame rate is at most 240, no source is empty and no font is blank. -/
theorem load?_eq_repair (finite : j.HoldsFinite)
    (decoded : Timeline.ofJson? j = some t) (rate : t.frameRate ≤ 240)
    (durations : ∀ c ∈ t.clips, 0 < c.sourceDuration)
    (fonts : ∀ o ∈ t.overlays, Text.isBlankText o.fontFamily = false) (supply : IdSupply) :
    load? supply j = some (t.repair, supply) := by
  obtain ⟨m, isRecord, held⟩ := heldBy_of_ofJson? decoded
  have members : AreFinite m := finite.of_members? isRecord
  rw [load?_of_heldBy members isRecord held rate durations fonts supply, repair_elementsRepaired]

/-- A timeline without a canvas and with the frame rate zero; its one clip is too loud, starts before the
source and has no member for the rotation. -/
def loudClip : Json Extended :=
  .object
    [("version", .string "1.0"), ("author", .unreadable), ("frame_rate", .whole 0),
     ("clips", .array [.object
      [("id", .string "00000000-0000-4000-8000-000000000007"), ("asset_ref", .string "song"),
       ("media_kind", .string "audio"), ("file_name", .string "song.mp3"),
       ("source_in", .real (fin (-1))), ("source_out", .whole 4), ("source_duration", .whole 3),
       ("timeline_start", .whole 0), ("timeline_end", .whole 10), ("x", .whole 0), ("y", .whole 0),
       ("width", .whole 0), ("height", .whole 1080), ("opacity_percent", .whole 100),
       ("z_index", .whole (-2)), ("volume_percent", .real (fin 300))]])]

/-- The strict reading of `loudClip`. -/
def loudTimeline : Timeline Extended :=
  { version := "1.0", frameRate := 0, canvas := .standard, overlays := []
    clips :=
      [{ id := ⟨0x40008000000000000007⟩, asset := "song", kind := .audio, fileName := "song.mp3"
         sourceIn := fin (-1), sourceOut := fin 4, sourceDuration := fin 3, timelineStart := fin 0
         timelineEnd := fin 10, x := fin 0, y := fin 0, width := fin 0, height := fin 1080
         rotation := 0, opacity := fin 100, zIndex := -2, crop := none, volume := fin 300 }] }

theorem loudClip_decodes : Timeline.ofJson? loudClip = some loudTimeline := by
  decide +kernel

theorem loudClip_load? :
    load? (.ofSeed 1) loudClip = some (loudTimeline.repair, .ofSeed 1) := by
  refine load?_eq_repair ?_ loudClip_decodes (by decide) ?_ ?_ (.ofSeed 1)
  · unfold Json.HoldsFinite
    decide
  · decide +kernel
  · decide

end Timeline

end Montage

import Montage.Proofs.Edit.Survival
import Montage.Proofs.Json.Pretty
import Montage.Proofs.Stored.Project

/-!
Contract: the timelines that a file can hold.

Owns:
- that a repair leaves finite numbers only, within all bounds, and nothing to repair;
- what the forgiving reader gives, whatever it reads (`Timeline.Loadable`);
- that exactly the loadable timelines come back unchanged, from their values and from their texts.

Does **not** own: the repair of single elements (`Montage.Proofs.Repair`), and which numbers are read back
from their texts (`Json.ReadsBack`).

The arithmetic of the reader is exact here. So a text is read into the numbers of the machine first, and the
values of these are then taken as they are (`Json.exactly`).
-/

set_option autoImplicit false

namespace Montage

open Extended
open Json (ReadsBack Legible)

/-! ## Repaired timelines -/

theorem Clip.Mended.storable {c : Clip Extended} (mended : c.Mended) : c.Storable :=
  ⟨mended.toSettled, mended.valid.timed.mono fun _ _ bounded => bounded.sound⟩

namespace Timeline

theorem Mended.isFinite {t : Timeline Extended} (mended : t.Mended) :
    ∀ x ∈ t.numbers, Scalar.isFinite x = true :=
  forall_numbers (fun c member => (mended.clips c member).storable.isFinite)
    fun o member => (mended.overlays o member).presentable.isFinite (mended.overlays o member).valid

/-- A repair makes every number of a timeline finite and fits it into its bounds, whatever they were, and
leaves nothing to another repair. -/
theorem repair_restores (t : Timeline Extended) :
    (∀ x ∈ t.repair.numbers, Scalar.isFinite x = true) ∧ t.repair.Mended ∧
      t.repair.repair = t.repair :=
  ⟨t.repair_mended.isFinite, t.repair_mended, t.repair_repair⟩

/-- A timeline that comes back unchanged from a file: it is mended, its frame rate is at most 240 and no
font is blank. -/
structure Loadable (t : Timeline Extended) : Prop extends t.Mended where
  rate : t.frameRate ≤ 240
  fonts : ∀ o ∈ t.overlays, Text.isBlankText o.fontFamily = false

end Timeline

/-! ## What the reader gives -/

namespace Forgiving

theorem frameRate_le (rate : Option Extended) : frameRate rate ≤ 240 := by
  unfold frameRate
  cases rate with
  | none => decide
  | some x =>
      simp only
      split
      · rename_i bounds
        obtain ⟨least, most⟩ := bounds
        rw [ofNat_eq 240] at most
        rw [one_eq] at least
        rcases (fin_le_iff _ _).mp least with rfl | ⟨q, rfl, -⟩
        · exact (Bool.false_ne_true most).elim
        · rw [fin_le_fin] at most
          have rounded := Rounding.halfAway_mono most
          rw [← Int.cast_natCast, Rounding.halfAway_intCast] at rounded
          rw [roundWithin_fin, UInt32.le_iff_toNat_le, UInt32.toNat_ofNat']
          show _ ≤ 240
          omega
      · decide

/-- What every draft becomes has the property of all that it may become. -/
theorem forall_of_complete {β : Type} {P : β → Prop} {drafts : List (Draft β)}
    (each : ∀ draft ∈ drafts, ∀ id, P (draft.withId id)) (supply : IdSupply) :
    ∀ b ∈ (complete supply drafts).1, P b := by
  induction drafts generalizing supply with
  | nil => exact List.forall_mem_nil P
  | cons draft rest inductionHypothesis =>
      have others := inductionHypothesis fun later member => each later (List.mem_cons_of_mem _ member)
      unfold complete
      split
      · exact List.forall_mem_cons.mpr ⟨each draft List.mem_cons_self _, others supply⟩
      · exact List.forall_mem_cons.mpr ⟨each draft List.mem_cons_self _, others _⟩

/-- An overlay that is read gets a font that is not blank. -/
theorem isBlankText_of_overlay? {j : Json Extended} {draft : Draft (Overlay Extended)}
    (isRead : overlay? j = some draft) (id : Identity) :
    Text.isBlankText (draft.withId id).fontFamily = false := by
  unfold overlay? at isRead
  obtain ⟨m, -, isRead⟩ := Option.bind_eq_some_iff.mp isRead
  obtain ⟨stored, -, isRead⟩ := Option.bind_eq_some_iff.mp isRead
  obtain ⟨text, -, isRead⟩ := Option.bind_eq_some_iff.mp isRead
  obtain ⟨timelineStart, -, isRead⟩ := Option.bind_eq_some_iff.mp isRead
  obtain ⟨timelineEnd, -, isRead⟩ := Option.bind_eq_some_iff.mp isRead
  obtain ⟨x, -, isRead⟩ := Option.bind_eq_some_iff.mp isRead
  obtain ⟨y, -, isRead⟩ := Option.bind_eq_some_iff.mp isRead
  obtain ⟨font, -, isRead⟩ := Option.bind_eq_some_iff.mp isRead
  obtain ⟨fontSize, -, isRead⟩ := Option.bind_eq_some_iff.mp isRead
  obtain ⟨color, -, isRead⟩ := Option.bind_eq_some_iff.mp isRead
  obtain ⟨opacity, -, isRead⟩ := Option.bind_eq_some_iff.mp isRead
  obtain ⟨z, -, isRead⟩ := Option.bind_eq_some_iff.mp isRead
  cases isRead
  show Text.isBlankText ((font.filter fun font => !Text.isBlankText font).getD _) = false
  cases usable : font.filter fun font => !Text.isBlankText font with
  | none => decide
  | some font =>
      have named := (Option.filter_eq_some_iff.mp usable).2
      rwa [Bool.not_eq_true'] at named

end Forgiving

namespace Timeline

/-- Whatever is loaded is loadable. -/
theorem loadable_of_load? {j : Json Extended} {t : Timeline Extended} {supply left : IdSupply}
    (loaded : load? supply j = some (t, left)) : t.Loadable := by
  unfold load? at loaded
  obtain ⟨m, -, loaded⟩ := Option.bind_eq_some_iff.mp loaded
  obtain ⟨version, -, loaded⟩ := Option.bind_eq_some_iff.mp loaded
  obtain ⟨rate, -, loaded⟩ := Option.bind_eq_some_iff.mp loaded
  obtain ⟨canvas, -, loaded⟩ := Option.bind_eq_some_iff.mp loaded
  obtain ⟨clips, -, loaded⟩ := Option.bind_eq_some_iff.mp loaded
  obtain ⟨overlays, areOverlays, loaded⟩ := Option.bind_eq_some_iff.mp loaded
  cases loaded
  have named : ∀ draft ∈ overlays, ∀ id, Text.isBlankText (draft.withId id).fontFamily = false := by
    rcases Json.defaulted_eq_some.mp areOverlays with ⟨-, rfl⟩ | ⟨value, -, isList⟩
    · exact List.forall_mem_nil _
    · cases value with
      | array items =>
          exact Json.forall_of_mapM isList fun _ _ _ => Forgiving.isBlankText_of_overlay?
      | _ => cases isList
  refine ⟨repair_mended _, ?_, ?_⟩
  · show (if Forgiving.frameRate rate = 0 then standardFrameRate else Forgiving.frameRate rate) ≤ 240
    split
    · decide
    · exact Forgiving.frameRate_le rate
  · intro o member
    obtain ⟨p, isRead, rfl⟩ := List.mem_map.mp member
    exact Forgiving.forall_of_complete
      (P := fun p : Overlay Extended => Text.isBlankText p.fontFamily = false) named _ p isRead

theorem load?_toJson_eq_self_iff {t : Timeline Extended} (fresh : IdSupply) :
    load? fresh t.toJson = some (t, fresh) ↔ t.Loadable := by
  constructor
  · exact loadable_of_load?
  · intro loadable
    have storable : t.All Clip.Storable Overlay.Storable := by
      constructor
      · exact fun c member => (loadable.clips c member).storable
      · intro o member
        have mended := loadable.overlays o member
        exact ⟨mended.valid, mended.presentable, loadable.fonts o member⟩
    rw [load?_toJson_of_storable storable loadable.rate fresh,
      repair_eq_self_iff.mpr loadable.toMended]

end Timeline

/-! ## Exact values of machine numbers -/

section Exactly

variable {α : Type} [Scalar α]

namespace Json

mutual

/-- A value with its numbers taken exactly. -/
def exactly : Json α → Json Extended
  | .null => .null
  | .bool b => .bool b
  | .whole n => .whole n
  | .real x => .real (Scalar.exact x)
  | .string s => .string s
  | .array items => .array (exactItems items)
  | .object members => .object (exactMembers members)
  | .unreadable => .unreadable

def exactItems : List (Json α) → List (Json Extended)
  | [] => []
  | item :: rest => exactly item :: exactItems rest

def exactMembers : List (String × Json α) → List (String × Json Extended)
  | [] => []
  | (name, value) :: rest => (name, exactly value) :: exactMembers rest

end

theorem exactItems_eq_map (items : List (Json α)) : exactItems items = items.map exactly := by
  induction items with
  | nil => rfl
  | cons item rest inductionHypothesis => rw [exactItems, inductionHypothesis, List.map_cons]

theorem ofScalar_exactly (x : α) : (ofScalar x).exactly = ofScalar (Scalar.exact x) := by
  have same : Scalar.isFinite (Scalar.exact x) = Scalar.isFinite x := rfl
  unfold ofScalar
  rw [same]
  cases Scalar.isFinite x <;> rfl

end Json

def Crop.exactly (r : Crop α) : Crop Extended :=
  { x := Scalar.exact r.x
    y := Scalar.exact r.y
    width := Scalar.exact r.width
    height := Scalar.exact r.height }

def Clip.exactly (c : Clip α) : Clip Extended :=
  { id := c.id
    asset := c.asset
    kind := c.kind
    fileName := c.fileName
    sourceIn := Scalar.exact c.sourceIn
    sourceOut := Scalar.exact c.sourceOut
    sourceDuration := Scalar.exact c.sourceDuration
    timelineStart := Scalar.exact c.timelineStart
    timelineEnd := Scalar.exact c.timelineEnd
    x := Scalar.exact c.x
    y := Scalar.exact c.y
    width := Scalar.exact c.width
    height := Scalar.exact c.height
    rotation := Scalar.exact c.rotation
    opacity := Scalar.exact c.opacity
    zIndex := c.zIndex
    crop := c.crop.map Crop.exactly
    volume := Scalar.exact c.volume }

def Overlay.exactly (o : Overlay α) : Overlay Extended :=
  { id := o.id
    text := o.text
    timelineStart := Scalar.exact o.timelineStart
    timelineEnd := Scalar.exact o.timelineEnd
    x := Scalar.exact o.x
    y := Scalar.exact o.y
    fontFamily := o.fontFamily
    fontSize := Scalar.exact o.fontSize
    color := o.color
    opacity := Scalar.exact o.opacity
    zIndex := o.zIndex }

def Timeline.exactly (t : Timeline α) : Timeline Extended :=
  { version := t.version
    frameRate := t.frameRate
    canvas := t.canvas
    clips := t.clips.map Clip.exactly
    overlays := t.overlays.map Overlay.exactly }

theorem Crop.toJson_exactly (r : Crop α) : r.toJson.exactly = r.exactly.toJson := by
  simp only [Crop.toJson, Crop.exactly, Json.exactly, Json.exactMembers, Json.ofScalar_exactly]

theorem Clip.toJson_exactly (c : Clip α) : c.toJson.exactly = c.exactly.toJson := by
  have crop : (Json.ofOption Crop.toJson c.crop).exactly =
      Json.ofOption Crop.toJson (c.crop.map Crop.exactly) := by
    cases c.crop with
    | none => rfl
    | some r => exact r.toJson_exactly
  simp only [Clip.toJson, Clip.exactly, Json.exactly, Json.exactMembers, Json.ofScalar_exactly, crop,
    Identity.toJson, MediaKind.toJson, zIndexToJson]

theorem Overlay.toJson_exactly (o : Overlay α) : o.toJson.exactly = o.exactly.toJson := by
  simp only [Overlay.toJson, Overlay.exactly, Json.exactly, Json.exactMembers, Json.ofScalar_exactly,
    Identity.toJson, Color.toJson, zIndexToJson]

theorem Timeline.toJson_exactly (t : Timeline α) : t.toJson.exactly = t.exactly.toJson := by
  have clips : (t.clips.map Clip.toJson).map Json.exactly =
      (t.clips.map Clip.exactly).map Clip.toJson := by
    rw [List.map_map, List.map_map]
    exact List.map_congr_left fun c _ => c.toJson_exactly
  have overlays : (t.overlays.map Overlay.toJson).map Json.exactly =
      (t.overlays.map Overlay.exactly).map Overlay.toJson := by
    rw [List.map_map, List.map_map]
    exact List.map_congr_left fun o _ => o.toJson_exactly
  simp only [Timeline.toJson, Timeline.exactly, Canvas.toJson, Json.exactly, Json.exactMembers,
    Json.exactItems_eq_map, clips, overlays]

end Exactly

namespace Timeline

theorem read?_text {t : Timeline Float} (readsBack : ∀ x ∈ t.numbers, ReadsBack x) :
    ∀ text ∈ [Json.compact t.toJson, Json.pretty t.toJson], Json.read? text = some t.toJson := by
  have legible : Legible (123 + 4) t.toJson := toJson_legible readsBack
  intro text written
  rcases List.mem_pair.mp written with rfl | rfl
  · exact legible.read?_compact le_rfl
  · exact legible.read?_pretty le_rfl

/-- Exactly the loadable timelines come back unchanged, from their values and, where their numbers are read
back, from their texts. -/
theorem loads_unchanged_iff (fresh : IdSupply) :
    (∀ t : Timeline Extended, load? fresh t.toJson = some (t, fresh) ↔ t.Loadable) ∧
      ∀ t : Timeline Float, (∀ x ∈ t.numbers, ReadsBack x) →
        ∀ text ∈ [Json.compact t.toJson, Json.pretty t.toJson],
          ((Json.read? text).bind fun j => load? fresh j.exactly) = some (t.exactly, fresh) ↔
            t.exactly.Loadable := by
  refine ⟨fun t => load?_toJson_eq_self_iff fresh, ?_⟩
  intro t readsBack text written
  rw [read?_text readsBack text written, Option.bind_some, t.toJson_exactly]
  exact load?_toJson_eq_self_iff fresh

/-- A trimmed, turned and cropped clip behind everything, and a translucent title in front. -/
def trimmedReel : Timeline Float :=
  { (empty : Timeline Float) with
    frameRate := 25
    clips :=
      [{ Clip.ofAsset ⟨1⟩ "reel" .video "reel.mp4" (some 10) 2 with
         sourceIn := 1, sourceOut := 5, timelineEnd := 4.5, rotation := -90
         zIndex := -2147483648, crop := some ⟨0.5, 0, 640, 360⟩ }]
    overlays :=
      [{ Overlay.ofText ⟨2⟩ "title" 3 with color := ⟨18, 52, 86, 120⟩, zIndex := 2147483647 }] }

theorem trimmedReel_loadable : trimmedReel.exactly.Loadable :=
  ⟨repair_eq_self_iff.mp (by decide +kernel), by decide, by decide⟩

/-- It comes back from both of its texts. -/
theorem trimmedReel_loads_unchanged :
    (∀ x ∈ trimmedReel.numbers, ReadsBack x) ∧
      ∀ text ∈ [Json.compact trimmedReel.toJson, Json.pretty trimmedReel.toJson],
        ((Json.read? text).bind fun j => load? (.ofSeed 1) j.exactly) =
          some (trimmedReel.exactly, .ofSeed 1) := by
  have numbers : ∀ x ∈ trimmedReel.numbers, ReadsBack x := by decide +kernel
  refine ⟨numbers, fun text written => ?_⟩
  exact ((loads_unchanged_iff (.ofSeed 1)).2 trimmedReel numbers text written).mpr
    trimmedReel_loadable

end Timeline

end Montage

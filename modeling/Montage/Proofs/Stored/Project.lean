import Montage.Proofs.Stored.CommandText
import Montage.Proofs.Timestamp.Text
import Montage.Stored.Project

/-!
Contract: what is written to a project file is read back from it.

Owns:
- the numbers of assets and projects;
- that the strict reading of written assets, settings, projects and zoom levels gives them again;
- that their values and those of timelines have texts to be read back from.

Does **not** own: clips, overlays and timelines as values (`Montage.Proofs.Stored.Element`).
-/

set_option autoImplicit false

namespace Montage

variable {α : Type}

def Asset.numbers (a : Asset α) : List α := a.duration.toList

def Project.numbers (p : Project α) : List α := p.assets.flatMap Asset.numbers

open Json (required defaulted Legible ReadsBack legible_ofScalar legible_ofOption)

/-! ## Values -/

theorem Quality.ofJson?_toJson (quality : Quality) :
    Quality.ofJson? (quality.toJson : Json α) = some quality := by
  cases quality <;> rfl

theorem Speed.ofJson?_toJson (speed : Speed) : Speed.ofJson? (speed.toJson : Json α) = some speed := by
  cases speed <;> rfl

theorem ExportSettings.ofJson?_toJson (s : ExportSettings) :
    ExportSettings.ofJson? (s.toJson : Json α) = some s := by
  unfold ExportSettings.ofJson? ExportSettings.toJson
  rw [Option.bind_eq_bind, Json.members?_bind rfl (by decide)]
  simp only [defaulted, List.lookup_cons, String.reduceBEq, Quality.ofJson?_toJson,
    Speed.ofJson?_toJson, Json.uint32?_toNat, Option.bind_eq_bind, Option.bind_some]

theorem Timestamp.ofJson?_toJson {t : Timestamp} (proper : t.Proper) :
    Timestamp.ofJson? (t.toJson : Json α) = some t := by
  unfold Timestamp.ofJson? Timestamp.toJson
  rw [Json.string?, Option.bind_some, Timestamp.read?_text proper]

/-- A project whose moments a clock or a reader could have given. -/
structure Project.HasProperMoments (p : Project α) : Prop where
  created : p.createdAt.Proper
  modified : p.modifiedAt.Proper

section Scalars

variable [Scalar α]

theorem Asset.ofJson?_toJson {a : Asset α} (finite : ∀ x ∈ a.numbers, Scalar.isFinite x = true) :
    Asset.ofJson? a.toJson = some a := by
  have duration : Json.nullable Json.scalar? (Json.ofOption Json.ofScalar a.duration) =
      some a.duration := by
    apply Json.nullable_ofOption rfl
    intro x isDuration
    exact Json.scalar?_ofScalar (finite x (Option.mem_toList.mpr isDuration))
  unfold Asset.ofJson? Asset.toJson
  rw [Option.bind_eq_bind, Json.members?_bind rfl (by decide)]
  simp only [required, Json.optional, defaulted, List.lookup_cons, String.reduceBEq, Json.string?,
    Json.bool?, duration, Option.bind_eq_bind, Option.bind_some]

theorem Project.ofJson?_toJson {p : Project α} (moments : p.HasProperMoments)
    (finite : ∀ x ∈ p.numbers, Scalar.isFinite x = true) : Project.ofJson? p.toJson = some p := by
  have assets : Json.array? Asset.ofJson? (.array (p.assets.map Asset.toJson)) = some p.assets := by
    apply Json.array?_map
    intro a member
    apply Asset.ofJson?_toJson
    intro x isNumber
    exact finite x (List.mem_flatMap.mpr ⟨a, member, isNumber⟩)
  unfold Project.ofJson? Project.toJson
  rw [Option.bind_eq_bind, Json.members?_bind rfl (by decide)]
  simp only [required, defaulted, List.lookup_cons, String.reduceBEq, Json.string?,
    Identity.ofJson?_toJson, Timestamp.ofJson?_toJson moments.created,
    Timestamp.ofJson?_toJson moments.modified, ExportSettings.ofJson?_toJson, assets,
    Option.bind_eq_bind, Option.bind_some]

theorem Zoom.ofJson?_toJson (z : Zoom α) : Zoom.ofJson? z.toJson = some z := by
  unfold Zoom.ofJson? Zoom.toJson
  rw [Json.scalar?_ofScalar z.valid.1, Option.bind_some]
  exact dif_pos z.valid

end Scalars

/-! ## Texts -/

section Legibility

variable {room : Nat}

theorem uint32_legible (n : UInt32) : Legible room (.whole n.toNat) := by
  have small : n.toNat < 2 ^ 32 := n.toNat_lt
  refine .whole ⟨?_, ?_⟩ <;> omega

theorem Timeline.toJson_legible {t : Timeline Float} (readsBack : ∀ x ∈ t.numbers, ReadsBack x) :
    Legible (room + 4) t.toJson := by
  have clips : Legible (room + 3) (.array (t.clips.map Clip.toJson)) := by
    refine .array fun item isItem => ?_
    obtain ⟨c, member, rfl⟩ := List.mem_map.mp isItem
    refine Clip.toJson_legible fun x isNumber => readsBack x ?_
    exact List.mem_append_left _ (List.mem_flatMap.mpr ⟨c, member, isNumber⟩)
  have overlays : Legible (room + 3) (.array (t.overlays.map Overlay.toJson)) := by
    refine .array fun item isItem => ?_
    obtain ⟨o, member, rfl⟩ := List.mem_map.mp isItem
    refine Overlay.toJson_legible fun x isNumber => readsBack x ?_
    exact List.mem_append_right _ (List.mem_flatMap.mpr ⟨o, member, isNumber⟩)
  have canvas : Legible (room + 3) t.canvas.toJson := by
    simp [Canvas.toJson, uint32_legible]
  simp [toJson, uint32_legible, canvas, clips, overlays]

theorem Asset.toJson_legible {a : Asset Float} (readsBack : ∀ x ∈ a.numbers, ReadsBack x) :
    Legible (room + 1) a.toJson := by
  have duration : Legible room (Json.ofOption Json.ofScalar a.duration) := by
    refine legible_ofOption fun x isDuration => ?_
    exact legible_ofScalar (readsBack x (Option.mem_toList.mpr isDuration))
  have sound : Legible room (.bool a.hasAudio) := .bool a.hasAudio
  simp [toJson, duration, sound]

theorem ExportSettings.toJson_legible (s : ExportSettings) : Legible (room + 1) s.toJson := by
  simp [toJson, Quality.toJson, Speed.toJson, uint32_legible]

theorem Project.toJson_legible {p : Project Float} (readsBack : ∀ x ∈ p.numbers, ReadsBack x) :
    Legible (room + 3) p.toJson := by
  have assets : Legible (room + 2) (.array (p.assets.map Asset.toJson)) := by
    refine .array fun item isItem => ?_
    obtain ⟨a, member, rfl⟩ := List.mem_map.mp isItem
    refine Asset.toJson_legible fun x isNumber => readsBack x ?_
    exact List.mem_flatMap.mpr ⟨a, member, isNumber⟩
  simp [toJson, Identity.toJson, Timestamp.toJson, ExportSettings.toJson_legible, assets]

end Legibility

end Montage

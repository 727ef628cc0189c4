import Montage.Proofs.Stored.Element
import Montage.Stored.Command

/-!
Contract: editing commands in files.

Owns:
- the numbers of patches and commands;
- what a written command is read as.

Does **not** own: the text of the value between writing and reading (`Montage.Proofs.Json.Text`).

A patch writes `null` for what it leaves alone, and also for a crop that it takes away. It is read as a
patch that leaves the crop alone; everything else of a command is read as it was written.
-/

set_option autoImplicit false

namespace Montage

open Json (members? required defaulted)

variable {α : Type}

/-! ## Numbers -/

def ClipPatch.numbers (p : ClipPatch α) : List α :=
  [p.x, p.y, p.width, p.height, p.rotation, p.opacity, p.volume].flatMap Option.toList
    ++ p.crop.toList.flatMap fun crop => crop.toList.flatMap Crop.numbers

def TextPatch.numbers (p : TextPatch α) : List α :=
  [p.x, p.y, p.fontSize, p.opacity].flatMap Option.toList

def Command.numbers : Command α → List α
  | .addClip c => c.numbers
  | .addText o => o.numbers
  | .split _ position => [position]
  | .trimStart _ request | .trimEnd _ request | .resizeRight _ request => [request]
  | .reposition _ start => [start]
  | .updateClip _ patch => patch.numbers
  | .updateText _ patch => patch.numbers
  | .duplicate _ | .delete _ | .clearTrim _ => []

/-! ## Crops that are taken away -/

/-- The patch that leaves the crop alone where the given one takes it away. -/
def ClipPatch.sparingCrop (p : ClipPatch α) : ClipPatch α :=
  { p with crop := p.crop.filter Option.isSome }

namespace Command

/-- The command that leaves the crop alone where the given one takes it away. -/
def sparingCrop : Command α → Command α
  | .updateClip id patch => .updateClip id patch.sparingCrop
  | command => command

/-- Whether a command takes the crop of a clip away. -/
def RemovesCrop (command : Command α) : Prop :=
  ∃ id patch, command = .updateClip id patch ∧ patch.crop = some none

theorem sparingCrop_eq_self_iff (command : Command α) :
    command.sparingCrop = command ↔ ¬ command.RemovesCrop := by
  cases command with
  | updateClip id patch =>
      have kept : patch.crop.filter Option.isSome = patch.crop ↔ patch.crop ≠ some none := by
        rcases patch.crop with - | - | r <;> simp
      constructor
      · rintro same ⟨id', patch', isUpdate, removes⟩
        cases isUpdate
        have crop := congrArg ClipPatch.crop (Command.updateClip.inj same).2
        exact kept.mp crop removes
      · intro spares
        have crop := kept.mpr fun removes => spares ⟨id, patch, rfl, removes⟩
        show Command.updateClip id { patch with crop := patch.crop.filter Option.isSome } = _
        rw [crop]
  | _ =>
      refine iff_of_true rfl ?_
      rintro ⟨id, patch, isUpdate, -⟩
      cases isUpdate

end Command

/-! ## The fields of a command -/

namespace Command

/-- The kind of a command is found, and the fields are left. -/
theorem tag?_object (op : String) {members : Json.Members α}
    (others : ∀ member ∈ members, member.1 ≠ "op") :
    tag? (.object (("op", .string op) :: members)) = some (op, .object members) := by
  have single : (members.filter fun member => member.1 == "op") = [] := by
    rw [List.filter_eq_nil_iff]
    intro member isMember isOp
    exact others member isMember (beq_iff_eq.mp isOp)
  have all : (members.filter fun member => member.1 != "op") = members := by
    rw [List.filter_eq_self]
    intro member isMember
    exact bne_iff_ne.mpr (others member isMember)
  simp only [tag?, List.filter_cons, beq_self_eq_true, bne_self_eq_false, if_true,
    Bool.false_eq_true, if_false, single, all]

variable {β : Type} {name : String} {read : Json α → Option β} {value : Json α} {b : β}

theorem only_object (make : β → Command α) (isRead : read value = some b) :
    only make name read (.object [(name, value)]) = some (make b) := by
  unfold only
  rw [Option.bind_eq_bind, Json.members?_bind rfl (by simp [Json.requiredFields])]
  simp only [required, List.lookup_cons_self, isRead, Option.bind_eq_bind, Option.bind_some]

theorem idOnly_object (make : Identity → Command α) (id : Identity) :
    idOnly make (.object [("id", id.toJson)]) = some (make id) := by
  unfold idOnly
  rw [Option.bind_eq_bind, Json.members?_bind rfl (by decide)]
  simp only [required, List.lookup_cons_self, Identity.ofJson?_toJson, Option.bind_eq_bind,
    Option.bind_some]

theorem idAnd_object (make : Identity → β → Command α) (id : Identity) (apart : name ≠ "id")
    (isRead : read value = some b) :
    idAnd make name read (.object [("id", id.toJson), (name, value)]) = some (make id b) := by
  have distinct : ((Json.requiredFields ["id", name]).map (·.name)).Nodup := by
    simp [Json.requiredFields, apart.symm]
  have second : (name == "id") = false := beq_eq_false_iff_ne.mpr apart
  unfold idAnd
  rw [Option.bind_eq_bind, Json.members?_bind rfl distinct]
  simp only [required, List.lookup_cons, beq_self_eq_true, second, Identity.ofJson?_toJson, isRead,
    Option.bind_eq_bind, Option.bind_some]

end Command

namespace Json

/-! ## Values that stand for something -/

@[simp] theorem isReadable_object (members : List (String × Json α)) :
    (object members).isReadable = members.all fun member => member.2.isReadable := by
  rw [isReadable]
  induction members with
  | nil => rfl
  | cons member rest inductionHypothesis =>
      obtain ⟨name, value⟩ := member
      rw [haveReadableValues, inductionHypothesis, List.all_cons]

theorem isReadable_ofOption {β : Type} {write : β → Json α} (o : Option β)
    (readable : ∀ b, (write b).isReadable = true) : (ofOption write o).isReadable = true := by
  cases o with
  | none => rfl
  | some b => exact readable b

/-! ## Optional values -/

theorem nullable_string? (o : Option String) :
    nullable string? (ofOption (.string : String → Json α) o) = some o :=
  nullable_ofOption rfl fun _ _ => rfl

theorem nullable_color? (o : Option Color) :
    nullable Color.ofJson? (ofOption (Color.toJson : Color → Json α) o) = some o :=
  nullable_ofOption rfl fun c _ => c.ofJson?_toJson

theorem nullable_zIndex? (o : Option Int32) :
    nullable int32? (ofOption (zIndexToJson : Int32 → Json α) o) = some o :=
  nullable_ofOption rfl fun z _ => int32?_toInt z

variable [Scalar α]

@[simp] theorem isReadable_ofScalar (x : α) : (ofScalar x).isReadable = true := by
  unfold ofScalar
  split <;> rfl

theorem nullable_scalar? {o : Option α} (finite : ∀ x ∈ o, Scalar.isFinite x = true) :
    nullable scalar? (ofOption ofScalar o) = some o :=
  nullable_ofOption rfl fun x isNumber => scalar?_ofScalar (finite x isNumber)

end Json

variable [Scalar α]

/-! ## Patches -/

namespace ClipPatch

/-- A crop that is taken away and one that is left alone have one value. -/
theorem nullable_crop? {o : Option (Option (Crop α))}
    (finite : ∀ crop ∈ o, ∀ r ∈ crop, ∀ x ∈ r.numbers, Scalar.isFinite x = true) :
    Json.nullable (Json.nullable Crop.ofJson?) (Json.ofOption (Json.ofOption Crop.toJson) o) =
      some (o.filter Option.isSome) := by
  cases o with
  | none => rfl
  | some crop =>
      cases crop with
      | none => rfl
      | some r =>
          have isRead : Json.nullable Crop.ofJson? r.toJson = some (some r) :=
            Json.nullable_eq_some rfl (Crop.ofJson?_toJson (finite _ rfl r rfl))
          show (Json.nullable Crop.ofJson? r.toJson).map some = _
          rw [isRead]
          rfl

theorem ofJson?_toJson {p : ClipPatch α} (finite : ∀ x ∈ p.numbers, Scalar.isFinite x = true) :
    ClipPatch.ofJson? p.toJson = some p.sparingCrop := by
  have number (o : Option α)
      (member : o ∈ [p.x, p.y, p.width, p.height, p.rotation, p.opacity, p.volume]) :
      Json.nullable Json.scalar? (Json.ofOption Json.ofScalar o) = some o := by
    apply Json.nullable_scalar?
    intro x isNumber
    apply finite
    exact List.mem_append_left _ (List.mem_flatMap.mpr ⟨o, member, Option.mem_toList.mpr isNumber⟩)
  have crop : Json.nullable (Json.nullable Crop.ofJson?)
      (Json.ofOption (Json.ofOption Crop.toJson) p.crop) = some (p.crop.filter Option.isSome) := by
    apply nullable_crop?
    intro crop isCrop r isRectangle x isNumber
    apply finite
    refine List.mem_append_right _ (List.mem_flatMap.mpr ⟨crop, Option.mem_toList.mpr isCrop, ?_⟩)
    exact List.mem_flatMap.mpr ⟨r, Option.mem_toList.mpr isRectangle, isNumber⟩
  unfold ClipPatch.ofJson? ClipPatch.toJson
  rw [Option.bind_eq_bind, Json.members?_bind rfl (by decide)]
  simp only [Json.optional, defaulted, List.lookup_cons, String.reduceBEq, number p.x (by simp),
    number p.y (by simp), number p.width (by simp), number p.height (by simp),
    number p.rotation (by simp), number p.opacity (by simp), number p.volume (by simp),
    Json.nullable_zIndex?, crop, sparingCrop, Option.bind_eq_bind, Option.bind_some]

theorem isReadable_toJson (p : ClipPatch α) : p.toJson.isReadable = true := by
  have crop (r : Crop α) : r.toJson.isReadable = true := by simp [Crop.toJson]
  have crops (o : Option (Crop α)) : (Json.ofOption Crop.toJson o).isReadable = true :=
    Json.isReadable_ofOption o crop
  have whole (z : Int32) : (zIndexToJson z : Json α).isReadable = true := rfl
  simp [toJson, Json.isReadable_ofOption, whole, crops]

end ClipPatch

namespace TextPatch

theorem ofJson?_toJson {p : TextPatch α} (finite : ∀ x ∈ p.numbers, Scalar.isFinite x = true) :
    TextPatch.ofJson? p.toJson = some p := by
  have number (o : Option α) (member : o ∈ [p.x, p.y, p.fontSize, p.opacity]) :
      Json.nullable Json.scalar? (Json.ofOption Json.ofScalar o) = some o := by
    apply Json.nullable_scalar?
    intro x isNumber
    exact finite x (List.mem_flatMap.mpr ⟨o, member, Option.mem_toList.mpr isNumber⟩)
  unfold TextPatch.ofJson? TextPatch.toJson
  rw [Option.bind_eq_bind, Json.members?_bind rfl (by decide)]
  simp only [Json.optional, defaulted, List.lookup_cons, String.reduceBEq, number p.x (by simp),
    number p.y (by simp), number p.fontSize (by simp), number p.opacity (by simp),
    Json.nullable_string?, Json.nullable_color?, Json.nullable_zIndex?,
    Option.bind_eq_bind, Option.bind_some]

theorem isReadable_toJson (p : TextPatch α) : p.toJson.isReadable = true := by
  have text (s : String) : (.string s : Json α).isReadable = true := rfl
  have color (c : Color) : (c.toJson : Json α).isReadable = true := rfl
  have whole (z : Int32) : (zIndexToJson z : Json α).isReadable = true := rfl
  simp [toJson, Json.isReadable_ofOption, text, color, whole]

end TextPatch

/-! ## Elements -/

theorem Crop.isReadable_toJson (r : Crop α) : r.toJson.isReadable = true := by
  simp [toJson]

theorem Clip.isReadable_toJson (c : Clip α) : c.toJson.isReadable = true := by
  have identity : (c.id.toJson : Json α).isReadable = true := rfl
  have kind : (c.kind.toJson : Json α).isReadable = true := rfl
  have text (s : String) : (.string s : Json α).isReadable = true := rfl
  have whole (z : Int32) : (zIndexToJson z : Json α).isReadable = true := rfl
  simp [toJson, identity, kind, text, whole, Json.isReadable_ofOption, Crop.isReadable_toJson]

theorem Overlay.isReadable_toJson (o : Overlay α) : o.toJson.isReadable = true := by
  have identity : (o.id.toJson : Json α).isReadable = true := rfl
  have color : (o.color.toJson : Json α).isReadable = true := rfl
  have text (s : String) : (.string s : Json α).isReadable = true := rfl
  have whole (z : Int32) : (zIndexToJson z : Json α).isReadable = true := rfl
  simp [toJson, identity, color, text, whole]

/-! ## Commands -/

namespace Command

theorem isReadable_toJson (command : Command α) : command.toJson.isReadable = true := by
  have text (s : String) : (.string s : Json α).isReadable = true := rfl
  have identity (id : Identity) : (id.toJson : Json α).isReadable = true := rfl
  cases command <;>
    simp [toJson, tagged, text, identity, Clip.isReadable_toJson, Overlay.isReadable_toJson,
      ClipPatch.isReadable_toJson, TextPatch.isReadable_toJson]

theorem ofJson?_of_object {op : String} {members : Json.Members α}
    (readable : (Json.object (("op", .string op) :: members)).isReadable = true)
    (others : ∀ member ∈ members, member.1 ≠ "op") :
    Command.ofJson? (.object (("op", .string op) :: members)) = ofFields? op (.object members) := by
  unfold Command.ofJson?
  rw [if_pos readable, tag?_object op others, Option.bind_some]

/-- A written command is read as it was, except that it leaves a crop alone that it took away. -/
theorem ofJson?_toJson {command : Command α}
    (finite : ∀ x ∈ command.numbers, Scalar.isFinite x = true) :
    Command.ofJson? command.toJson = some command.sparingCrop := by
  have readable := command.isReadable_toJson
  cases command with
  | addClip c =>
      rw [toJson, ofJson?_of_object readable (by simp)]
      exact only_object .addClip (Clip.ofJson?_toJson true finite)
  | addText o =>
      rw [toJson, ofJson?_of_object readable (by simp)]
      exact only_object .addText (Overlay.ofJson?_toJson finite)
  | split id position =>
      rw [toJson, tagged, ofJson?_of_object readable (by simp)]
      exact idAnd_object .split id (by decide) (Json.scalar?_ofScalar (finite _ (by simp [numbers])))
  | duplicate id =>
      rw [toJson, tagged, ofJson?_of_object readable (by simp)]
      exact idOnly_object .duplicate id
  | delete id =>
      rw [toJson, tagged, ofJson?_of_object readable (by simp)]
      exact idOnly_object .delete id
  | trimStart id request =>
      rw [toJson, tagged, ofJson?_of_object readable (by simp)]
      exact idAnd_object .trimStart id (by decide) (Json.scalar?_ofScalar (finite _ (by simp [numbers])))
  | trimEnd id request =>
      rw [toJson, tagged, ofJson?_of_object readable (by simp)]
      exact idAnd_object .trimEnd id (by decide) (Json.scalar?_ofScalar (finite _ (by simp [numbers])))
  | clearTrim id =>
      rw [toJson, tagged, ofJson?_of_object readable (by simp)]
      exact idOnly_object .clearTrim id
  | reposition id start =>
      rw [toJson, tagged, ofJson?_of_object readable (by simp)]
      exact idAnd_object .reposition id (by decide)
        (Json.scalar?_ofScalar (finite _ (by simp [numbers])))
  | resizeRight id request =>
      rw [toJson, tagged, ofJson?_of_object readable (by simp)]
      exact idAnd_object .resizeRight id (by decide)
        (Json.scalar?_ofScalar (finite _ (by simp [numbers])))
  | updateClip id patch =>
      rw [toJson, tagged, ofJson?_of_object readable (by simp)]
      exact idAnd_object .updateClip id (by decide) (ClipPatch.ofJson?_toJson finite)
  | updateText id patch =>
      rw [toJson, tagged, ofJson?_of_object readable (by simp)]
      exact idAnd_object .updateText id (by decide) (TextPatch.ofJson?_toJson finite)

end Command

end Montage

import Montage.Proofs.Json.Change
import Montage.Stored.Forgiving

/-!
Contract: the numbers of a stored timeline, when one of them is replaced or missing.

Owns:
- the fields that hold numbers, and the changes of one of them (`NumberChange`);
- what the forgiving reader asks of each field of a record (`ReadsFieldwise`);
- which changes of a number leave a timeline that can be loaded.

Does **not** own: what is read in place of an unusable number (`Montage.Stored.Forgiving`).

The forgiving reader takes any value for a number. The canvas alone goes through the strict reader, which
wants both of its numbers, and wants them whole.
-/

set_option autoImplicit false

namespace Montage

variable {α : Type}

open Json (members? nullable accepts FieldChange)

/-! ## The canvas -/

theorem Json.accepts_uint32?_iff {value : Json α} :
    accepts Json.uint32? value = true ↔ ∃ n : Int, value = .whole n ∧ 0 ≤ n ∧ n ≤ 0xFFFFFFFF := by
  cases value with
  | whole n =>
      show ((Json.integer? 0 0xFFFFFFFF (.whole n : Json α)).map _).isSome = true ↔ _
      rw [Option.isSome_map, Json.integer?]
      constructor
      · intro within
        split at within
        · exact ⟨n, rfl, by assumption⟩
        · cases within
      · rintro ⟨m, same, within⟩
        cases same
        rw [if_pos within]
        rfl
  | _ => exact iff_of_false Bool.false_ne_true nofun

namespace Canvas

theorem isSome_ofJson? (j : Json α) :
    (ofJson? j).isSome = (members? fields j).any fun m =>
      ["width", "height"].all fun name => (m.lookup name).any (accepts Json.uint32?) := by
  unfold ofJson?
  simp only [↓Json.isSome_bind, Json.isSome_required, Json.any_const, Option.isSome_some, Bool.and_true,
    List.all_cons, List.all_nil]

/-- A canvas stays one exactly if the changed number is replaced by another one of its kind. -/
theorem isSome_changed_iff {name : String} {old : Json α} {new : Option (Json α)} {c c' : Json α}
    (isNumber : name ∈ ["width", "height"])
    (change : FieldChange (fields.map (·.name)) name old new c c')
    (accepted : (ofJson? c).isSome = true) :
    (ofJson? c').isSome = true ↔ new.any (accepts Json.uint32?) = true := by
  rw [isSome_ofJson?, Option.any_eq_true] at accepted ⊢
  obtain ⟨m, isRecord, present⟩ := accepted
  rw [List.all_eq_true] at present
  constructor
  · rintro ⟨m', isRecord', present'⟩
    -- Without a value the record is still one for a reader that could do without it.
    have ends : ∀ field ∈ Json.defaultedFields ["width", "height"], field.mayEnd = true := by decide
    have names : (Json.defaultedFields ["width", "height"]).map (·.name) = fields.map (·.name) := rfl
    have loose := Json.members?_of_names names ends isRecord
    have loose' := Json.members?_of_names names ends isRecord'
    rw [← names] at change
    obtain ⟨m'', isChanged, members⟩ :=
      change.exists_memberChange (by decide) isNumber (fun _ => ends) loose
    obtain rfl : m' = m'' := Option.some.inj (loose'.symm.trans isChanged)
    rw [← members.lookup_new]
    exact List.all_eq_true.mp present' name isNumber
  · intro isSize
    obtain ⟨value, rfl, isSize⟩ := (Option.any_eq_true _ _).mp isSize
    obtain ⟨m', isChanged, members⟩ :=
      change.exists_memberChange (by decide) isNumber nofun isRecord
    refine ⟨m', isChanged, List.all_eq_true.mpr fun other isOther => ?_⟩
    by_cases same : other = name
    · rw [same, members.lookup_new]
      exact isSize
    · rw [members.lookup_other same]
      exact present other isOther

end Canvas

variable [Scalar α]

namespace Forgiving

/-! ## What the reader asks of each field -/

theorem accepts_number? (value : Json α) : accepts number? value = value.isReadable := by
  unfold accepts number?
  cases value.isReadable <;> rfl

def numberChecks (names : List String) : Json.Checks α := names.map fun name => (name, accepts number?)

theorem mem_numberChecks {names : List String} {name : String} (isNumber : name ∈ names) :
    (name, accepts (α := α) number?) ∈ numberChecks names :=
  List.mem_map_of_mem isNumber

def cropNumbers : List String := ["x", "y", "width", "height"]

theorem crop?_readsFieldwise (width height : α) :
    Json.ReadsFieldwise (Json.defaultedFields cropNumbers) (numberChecks cropNumbers)
      (crop? width height) where
  distinct := by decide
  ends := by decide
  covers := List.Perm.refl cropNumbers
  isSome_eq j := by
    unfold crop?
    simp only [numberField, ↓Json.isSome_bind, Json.isSome_defaulted, Json.any_const, ↓Option.isSome_some,
      Bool.and_true]
    congr 1
    funext m
    simp only [Json.passes, numberChecks, cropNumbers, List.map_cons, List.map_nil, List.all_cons,
      List.all_nil, Bool.and_true]

/-- A crop whose numbers can be read, or none. -/
def isCrop : Json α → Bool := accepts (nullable (crop? (0 : α) 0))

/-- Whether a crop is taken does not depend on the size that it has in default of another one. -/
theorem accepts_crop? (width height : α) : accepts (nullable (crop? width height)) = isCrop := by
  funext value
  have same := (crop?_readsFieldwise width height).isSome_eq value
  rw [← (crop?_readsFieldwise (0 : α) 0).isSome_eq value] at same
  cases value <;> simp only [isCrop, accepts, nullable, Option.isSome_map, Option.isSome_some, same]

def clipNumbers : List String :=
  ["source_in", "source_out", "source_duration", "timeline_start", "timeline_end", "x", "y", "width",
    "height", "rotation_deg", "opacity_percent", "z_index", "volume_percent"]

def clipChecks : Json.Checks α :=
  [("id", accepts (nullable Json.string?)), ("asset_ref", accepts (nullable Json.string?)),
    ("media_kind", accepts (nullable (MediaKind.ofJson? false))),
    ("file_name", accepts (nullable Json.string?)), ("crop_rect", isCrop)] ++ numberChecks clipNumbers

theorem mem_clipChecks {name : String} (isNumber : name ∈ clipNumbers) :
    (name, accepts (α := α) number?) ∈ clipChecks :=
  List.mem_append_right _ (mem_numberChecks isNumber)

theorem clip?_readsFieldwise :
    Json.ReadsFieldwise (Clip.fields.map fun field => { field with mayEnd := true }) clipChecks
      (clip? (α := α)) where
  distinct := by decide
  ends := by decide
  covers := by
    show (["id", "asset_ref", "media_kind", "file_name", "crop_rect"] ++ clipNumbers).Perm _
    decide +kernel
  isSome_eq j := by
    unfold clip?
    simp only [numberField, Json.optional, ↓Json.isSome_bind, Json.isSome_defaulted, accepts_crop?,
      Json.any_const, ↓Option.isSome_some, Bool.and_true]
    congr 1
    funext m
    simp only [Json.passes, clipChecks, numberChecks, clipNumbers, List.map_cons, List.map_nil,
      List.all_cons, List.all_nil, List.all_append, Bool.and_true]
    -- The checks are sorted by what they ask, and not in the order in which the fields are read.
    ac_rfl

def overlayNumbers : List String :=
  ["timeline_start", "timeline_end", "x", "y", "font_size_px", "opacity_percent", "z_index"]

def overlayChecks : Json.Checks α :=
  (["id", "text", "font_family", "color"].map fun name => (name, accepts (nullable Json.string?))) ++
    numberChecks overlayNumbers

theorem mem_overlayChecks {name : String} (isNumber : name ∈ overlayNumbers) :
    (name, accepts (α := α) number?) ∈ overlayChecks :=
  List.mem_append_right _ (mem_numberChecks isNumber)

theorem overlay?_readsFieldwise :
    Json.ReadsFieldwise (Overlay.fields.map fun field => { field with mayEnd := true }) overlayChecks
      (overlay? (α := α)) where
  distinct := by decide
  ends := by decide
  covers := by
    show (["id", "text", "font_family", "color"] ++ overlayNumbers).Perm _
    decide +kernel
  isSome_eq j := by
    unfold overlay?
    simp only [numberField, Json.optional, ↓Json.isSome_bind, Json.isSome_defaulted, Json.any_const,
      ↓Option.isSome_some, Bool.and_true]
    congr 1
    funext m
    simp only [Json.passes, overlayChecks, numberChecks, overlayNumbers, List.map_cons, List.map_nil,
      List.all_cons, List.all_nil, List.all_append, Bool.and_true]
    ac_rfl

end Forgiving

open Forgiving

namespace Timeline

def checks : Json.Checks α :=
  [("version", accepts (nullable Json.string?)), ("frame_rate", accepts number?),
    ("canvas", accepts (nullable Canvas.ofJson?)), ("clips", accepts (Json.array? Forgiving.clip?)),
    ("overlays", accepts (Json.array? Forgiving.overlay?))]

theorem load?_readsFieldwise (supply : IdSupply) :
    Json.ReadsFieldwise (fields.map fun field => { field with mayEnd := true }) checks
      (load? (α := α) supply) where
  distinct := by decide
  ends := by decide
  covers := List.Perm.refl ["version", "frame_rate", "canvas", "clips", "overlays"]
  isSome_eq j := by
    unfold load?
    simp only [numberField, Json.optional, ↓Json.isSome_bind, Json.isSome_defaulted, Json.any_const,
      ↓Option.isSome_some, Bool.and_true]
    congr 1
    funext m
    simp only [Json.passes, checks, List.all_cons, List.all_nil, Bool.and_true]

end Timeline

/-! ## Changed numbers -/

/-- Where a timeline holds numbers. -/
inductive NumberPlace where
  | frameRate
  | canvas
  | clip
  | crop
  | overlay
  deriving DecidableEq

/-- One number somewhere in a timeline is replaced by another value, or taken away. All else is as it was,
on every level. -/
inductive NumberChange (new : Option (Json α)) : NumberPlace → Json α → Json α → Prop
  | frameRate {old j j' : Json α}
      (inTimeline : FieldChange (Timeline.fields.map (·.name)) "frame_rate" old new j j') :
      NumberChange new .frameRate j j'
  | canvas {name : String} {old canvas canvas' j j' : Json α} (isNumber : name ∈ ["width", "height"])
      (inCanvas : FieldChange (Canvas.fields.map (·.name)) name old new canvas canvas')
      (inTimeline : FieldChange (Timeline.fields.map (·.name)) "canvas" canvas (some canvas') j j') :
      NumberChange new .canvas j j'
  | clip {name : String} {old clip clip' j j' : Json α} {before after : List (Json α)}
      (isNumber : name ∈ clipNumbers)
      (inClip : FieldChange (Clip.fields.map (·.name)) name old new clip clip')
      (inTimeline : FieldChange (Timeline.fields.map (·.name)) "clips" (.array (before ++ clip :: after))
        (some (.array (before ++ clip' :: after))) j j') :
      NumberChange new .clip j j'
  | crop {name : String} {old crop crop' clip clip' j j' : Json α} {before after : List (Json α)}
      (isNumber : name ∈ cropNumbers)
      (inCrop : FieldChange (Crop.fields.map (·.name)) name old new crop crop')
      (inClip : FieldChange (Clip.fields.map (·.name)) "crop_rect" crop (some crop') clip clip')
      (inTimeline : FieldChange (Timeline.fields.map (·.name)) "clips" (.array (before ++ clip :: after))
        (some (.array (before ++ clip' :: after))) j j') :
      NumberChange new .crop j j'
  | overlay {name : String} {old overlay overlay' j j' : Json α} {before after : List (Json α)}
      (isNumber : name ∈ overlayNumbers)
      (inOverlay : FieldChange (Overlay.fields.map (·.name)) name old new overlay overlay')
      (inTimeline : FieldChange (Timeline.fields.map (·.name)) "overlays"
        (.array (before ++ overlay :: after)) (some (.array (before ++ overlay' :: after))) j j') :
      NumberChange new .overlay j j'

/-- A number of an accepted record may be replaced by any value, and it may be missing. -/
theorem isSome_of_number_changed {β : Type} {fields : List Json.Field} {checks : Json.Checks α}
    {read : Json α → Option β} (reads : Json.ReadsFieldwise fields checks read)
    {name : String} {old : Json α} {new : Option (Json α)} {j j' : Json α}
    (isNumber : (name, accepts number?) ∈ checks)
    (change : FieldChange (fields.map (·.name)) name old new j j')
    (readable : ∀ value ∈ new, value.isReadable = true) (accepted : (read j).isSome = true) :
    (read j').isSome = true := by
  rw [reads.isSome_changed_iff isNumber change accepted]
  intro value isNew
  rw [accepts_number?]
  exact readable value isNew

theorem isSome_clip?_of_crop_changed {name : String} {old crop crop' clip clip' : Json α}
    {new : Option (Json α)} (isNumber : name ∈ cropNumbers)
    (inCrop : FieldChange (Crop.fields.map (·.name)) name old new crop crop')
    (inClip : FieldChange (Clip.fields.map (·.name)) "crop_rect" crop (some crop') clip clip')
    (readable : ∀ value ∈ new, value.isReadable = true) (accepted : (clip? clip).isSome = true) :
    (clip? clip').isSome = true := by
  have isCheck : ("crop_rect", isCrop) ∈ clipChecks (α := α) := by
    simp only [clipChecks, List.cons_append, List.mem_cons, true_or, or_true]
  have notNull := inCrop.accepts_nullable (crop? (0 : α) 0)
  have cropped : isCrop crop = true := clip?_readsFieldwise.old_passes isCheck inClip accepted
  rw [isCrop, notNull.1] at cropped
  have recropped : isCrop crop' = true := by
    rw [isCrop, notNull.2]
    exact isSome_of_number_changed (crop?_readsFieldwise 0 0) (mem_numberChecks isNumber) inCrop
      readable cropped
  rw [clip?_readsFieldwise.isSome_changed_iff isCheck inClip accepted]
  simp only [Option.mem_some_iff, forall_eq', recropped]

namespace Timeline

variable {new : Option (Json α)} {place : NumberPlace} {j j' : Json α}

/-- A change of an element changes the verdict on its timeline to the verdict on the element. -/
theorem isSome_load?_of_element {β : Type} {read : Json α → Option β} {name : String}
    {before after : List (Json α)} {element element' : Json α} (supply : IdSupply)
    (isCheck : (name, accepts (Json.array? read)) ∈ checks (α := α))
    (change : FieldChange (fields.map (·.name)) name (.array (before ++ element :: after))
      (some (.array (before ++ element' :: after))) j j')
    (accepted : (load? supply j).isSome = true) :
    (read element).isSome = true ∧
      ((load? supply j').isSome = true ↔ (read element').isSome = true) := by
  have reads := load?_readsFieldwise (α := α) supply
  obtain ⟨isElement, replaced⟩ :=
    Json.accepts_array_replaced element' (reads.old_passes isCheck change accepted)
  refine ⟨isElement, (reads.isSome_changed_iff isCheck change accepted).trans ?_⟩
  simp only [Option.mem_some_iff, forall_eq', replaced]
  exact Iff.rfl

theorem clips_mem_checks : ("clips", accepts (Json.array? Forgiving.clip?)) ∈ checks (α := α) := by
  simp only [checks, List.mem_cons, true_or, or_true]

theorem overlays_mem_checks :
    ("overlays", accepts (Json.array? Forgiving.overlay?)) ∈ checks (α := α) := by
  simp only [checks, List.mem_cons, true_or, or_true]

/-- A timeline that can be loaded can still be loaded when one of its numbers is replaced by any value or is
missing, unless it is a number of the canvas: that one has to be a whole number of 32 bits. -/
theorem load?_changed_iff
    {supply : IdSupply}
    (accepted : (load? supply j).isSome = true)
    (changed : NumberChange new place j j')
    (readable : ∀ value ∈ new, value.isReadable = true) :
    (load? supply j').isSome = true ↔
      (place = .canvas → ∃ n : Int, new = some (.whole n) ∧ 0 ≤ n ∧ n ≤ 0xFFFFFFFF) := by
  have reads := load?_readsFieldwise (α := α) supply
  cases changed with
  | frameRate inTimeline =>
      have isNumber : ("frame_rate", accepts number?) ∈ checks (α := α) := by
        simp only [checks, List.mem_cons, true_or, or_true]
      exact iff_of_true (isSome_of_number_changed reads isNumber inTimeline readable accepted) nofun
  | canvas isNumber inCanvas inTimeline =>
      have isCheck : ("canvas", accepts (nullable Canvas.ofJson?)) ∈ checks (α := α) := by
        simp only [checks, List.mem_cons, true_or, or_true]
      -- Both canvases are records, so neither of them is read as an absent one.
      have notNull := inCanvas.accepts_nullable Canvas.ofJson?
      have isCanvas := reads.old_passes isCheck inTimeline accepted
      rw [notNull.1] at isCanvas
      rw [reads.isSome_changed_iff isCheck inTimeline accepted]
      simp only [Option.mem_some_iff, forall_eq', notNull.2, forall_const]
      refine (Canvas.isSome_changed_iff isNumber inCanvas isCanvas).trans ?_
      cases new with
      | none => exact iff_of_false Bool.false_ne_true nofun
      | some value => simp only [Option.any_some, Json.accepts_uint32?_iff, Option.some.injEq]
  | clip isNumber inClip inTimeline =>
      obtain ⟨isClip, verdict⟩ := isSome_load?_of_element supply clips_mem_checks inTimeline accepted
      refine iff_of_true (verdict.mpr ?_) nofun
      exact isSome_of_number_changed clip?_readsFieldwise (mem_clipChecks isNumber) inClip readable isClip
  | crop isNumber inCrop inClip inTimeline =>
      obtain ⟨isClip, verdict⟩ := isSome_load?_of_element supply clips_mem_checks inTimeline accepted
      refine iff_of_true (verdict.mpr ?_) nofun
      exact isSome_clip?_of_crop_changed isNumber inCrop inClip readable isClip
  | overlay isNumber inOverlay inTimeline =>
      obtain ⟨isOverlay, verdict⟩ :=
        isSome_load?_of_element supply overlays_mem_checks inTimeline accepted
      refine iff_of_true (verdict.mpr ?_) nofun
      exact isSome_of_number_changed overlay?_readsFieldwise (mem_overlayChecks isNumber) inOverlay
        readable isOverlay

/-- A stored timeline with a canvas of some height, and with a clip that is cropped to some width. -/
def framedReel (canvasHeight cropWidth : Json Float) : Json Float :=
  .object
    [("canvas", .object [("width", .whole 1280), ("height", canvasHeight)]),
     ("clips", .array [.object
      [("asset_ref", .string "reel"), ("volume_percent", .string "loud"),
       ("crop_rect", .array [.whole 8, .whole 8, cropWidth, .whole 360])]])]

theorem framedReel_accepted : (load? (.ofSeed 1) (framedReel (.whole 720) (.whole 640))).isSome = true := by
  decide +kernel

theorem framedReel_canvas (height : Json Float) :
    NumberChange (some height) .canvas (framedReel (.whole 720) (.whole 640))
      (framedReel height (.whole 640)) :=
  .canvas (List.mem_cons_of_mem _ List.mem_cons_self) (.member [("width", .whole 1280)] [] (some height))
    (.member [] _ (some _))

theorem framedReel_crop (width : Json Float) :
    NumberChange (some width) .crop (framedReel (.whole 720) (.whole 640))
      (framedReel (.whole 720) width) :=
  .crop (by decide) (.item [.whole 8, .whole 8] [.whole 360] width rfl)
    (.member [("asset_ref", .string "reel"), ("volume_percent", .string "loud")] [] (some _))
    (.member [("canvas", _)] [] (some (.array ([] ++ _ :: []))))

/-- Any list will do for the width of the crop, and another whole number for the height of the canvas. -/
theorem framedReel_changed :
    (load? (.ofSeed 1) (framedReel (.whole 720) (.array [.null, .string "wide"]))).isSome = true ∧
      (load? (.ofSeed 1) (framedReel (.whole 480) (.whole 640))).isSome = true := by
  constructor
  · exact (load?_changed_iff framedReel_accepted (framedReel_crop _) (by rintro _ ⟨⟩; rfl)).mpr nofun
  · exact (load?_changed_iff framedReel_accepted (framedReel_canvas _) (by rintro _ ⟨⟩; rfl)).mpr
      fun _ => ⟨480, rfl, by decide, by decide⟩

/-- Without a number for the height of the canvas, nothing of the timeline is loaded. -/
theorem framedReel_lost :
    (load? (.ofSeed 1) (framedReel (.whole 720) (.whole 640))).isSome = true ∧
      NumberChange (some .null) .canvas (framedReel (.whole 720) (.whole 640))
        (framedReel .null (.whole 640)) ∧
      (Json.null : Json Float).isReadable = true ∧
      load? (.ofSeed 1) (framedReel .null (.whole 640)) = none :=
  ⟨framedReel_accepted, framedReel_canvas .null, rfl, rfl⟩

end Timeline

end Montage

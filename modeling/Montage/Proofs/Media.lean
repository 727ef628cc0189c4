import Montage.Proofs.Cli.Edit
import Montage.Proofs.Color
import Montage.Proofs.Render.Verdict

/-!
Contract: which media can be imported, and that they can be compiled.

Owns:
- spellings of one media type (`Varies`), which name the same format;
- what the table of formats promises, and that the three look-ups in it agree on what it holds;
- the media types that the compiler takes (`Render.Takes`);
- what a successful import leaves on the disk (`Cli.IsImported`).

Does **not** own: the checks of a compilation other than that of the media type
(`Montage.Proofs.Render.Verdict`).

All that is said of any text follows from a few facts about the table, which are checked entry by entry.
-/

set_option autoImplicit false

namespace Montage

/-! ## Letter case -/

namespace Text

theorem toLower_toLower (c : Char) : c.toLower.toLower = c.toLower :=
  Hex.forall_chars (P := fun c => c.toLower.toLower = c.toLower) (by decide)
    (fun c beyond => by rw [Hex.toLower_of_beyond beyond, Hex.toLower_of_beyond beyond]) c

theorem isBlank_toLower (c : Char) : isBlank c.toLower = isBlank c :=
  Hex.forall_chars (P := fun c => isBlank c.toLower = isBlank c) (by decide)
    (fun c beyond => by rw [Hex.toLower_of_beyond beyond]) c

theorem trimChars_map_toLower (s : List Char) :
    trimChars (s.map Char.toLower) = (trimChars s).map Char.toLower := by
  have same : isBlank ∘ Char.toLower = isBlank := funext isBlank_toLower
  unfold trimChars
  rw [List.dropWhile_map, same, ← List.map_reverse, List.dropWhile_map, same, ← List.map_reverse]

end Text

namespace Media

theorem ne_semicolon_toLower (c : Char) : (c.toLower != ';') = (c != ';') :=
  Text.Hex.forall_chars (P := fun c => (c.toLower != ';') = (c != ';')) (by decide)
    (fun c beyond => by rw [Text.Hex.toLower_of_beyond beyond]) c

theorem ne_semicolon_of_isBlank {c : Char} (blank : Text.isBlank c = true) : (c != ';') = true := by
  rw [bne_iff_ne]
  rintro rfl
  revert blank
  decide

/-! ## Spellings of a media type -/

/-- A media type is spelled in another way: in other letter case, with white space around it, with parameters
behind it, or by several such changes. -/
inductive Varies : String → String → Prop
  | recased {mime other : String} (same : Text.lowercase other = Text.lowercase mime) : Varies mime other
  | surrounded (mime : String) {front back : String} (isFront : Text.isBlankText front = true)
      (isBack : Text.isBlankText back = true) : Varies mime (front ++ mime ++ back)
  | parametrized (mime parameters : String) : Varies mime (mime ++ ";" ++ parameters)
  | trans {mime middle other : String} (first : Varies mime middle) (second : Varies middle other) :
      Varies mime other

theorem essence_lowercase (mime : String) : essence (Text.lowercase mime) = essence mime := by
  have same : (fun c => c != ';') ∘ Char.toLower = fun c => c != ';' := funext ne_semicolon_toLower
  have twice : Char.toLower ∘ Char.toLower = Char.toLower := funext Text.toLower_toLower
  unfold essence Text.lowercase
  dsimp only
  rw [String.toList_ofList, List.takeWhile_map, same, Text.trimChars_map_toLower, List.map_map, twice]

theorem essence_surrounded {front back : String} (isFront : Text.isBlankText front = true)
    (isBack : Text.isBlankText back = true) (mime : String) :
    essence (front ++ mime ++ back) = essence mime := by
  have blankFront : ∀ c ∈ front.toList, Text.isBlank c = true := List.all_eq_true.mp isFront
  have blankBack : ∀ c ∈ back.toList, Text.isBlank c = true := List.all_eq_true.mp isBack
  have allFront : ∀ c ∈ front.toList, (c != ';') = true := fun c member =>
    ne_semicolon_of_isBlank (blankFront c member)
  have allBack : back.toList.takeWhile (· != ';') = back.toList :=
    List.takeWhile_eq_self_iff.mpr fun c member => ne_semicolon_of_isBlank (blankBack c member)
  have trimmed : Text.trimChars ((front.toList ++ mime.toList ++ back.toList).takeWhile (· != ';')) =
      Text.trimChars (mime.toList.takeWhile (· != ';')) := by
    rw [List.append_assoc, List.takeWhile_append_of_pos allFront, List.takeWhile_append, allBack]
    split
    next whole =>
      rw [(List.takeWhile_prefix _).eq_of_length whole, ← List.append_assoc,
        Text.trimChars_surrounded blankFront blankBack]
    next =>
      -- The white space behind is among the parameters.
      rw [← List.append_nil (front.toList ++ _),
        Text.trimChars_surrounded blankFront (List.forall_mem_nil _)]
  unfold essence
  dsimp only
  rw [String.toList_append, String.toList_append, trimmed]

theorem essence_parametrized (mime parameters : String) :
    essence (mime ++ ";" ++ parameters) = essence mime := by
  have parts : (mime ++ ";" ++ parameters).toList = mime.toList ++ ';' :: parameters.toList := by simp
  have cut : (mime.toList ++ ';' :: parameters.toList).takeWhile (· != ';') =
      mime.toList.takeWhile (· != ';') := by
    rw [List.takeWhile_append, List.takeWhile_cons_of_neg (by decide), List.append_nil]
    split
    next whole => exact ((List.takeWhile_prefix _).eq_of_length whole).symm
    next => rfl
  unfold essence
  rw [parts, cut]

theorem essence_of_varies {mime other : String} (varies : Varies mime other) :
    essence other = essence mime := by
  induction varies with
  | recased same => rw [← essence_lowercase, same, essence_lowercase]
  | surrounded mime isFront isBack => exact essence_surrounded isFront isBack mime
  | parametrized mime parameters => exact essence_parametrized mime parameters
  | trans _ _ first second => exact second.trans first

/-! ## The table -/

/-- What the table promises of a format: both its names are spelled plainly, its media type is found and is of
some kind, and each other media type with files of the same extension is of this kind too. -/
structure IsSound (mime extension : String) : Prop where
  isEssence : essence mime = mime
  isPlain : plainExtension extension = extension
  found : extensionFor mime = some extension
  hasKind : (kindOfEssence mime).isSome = true
  sameKind : ∀ other, (other, extension) ∈ formats → kindOfEssence other = kindOfEssence mime

theorem isSound_of_mem {mime extension : String} (member : (mime, extension) ∈ formats) :
    IsSound mime extension := by
  have spelled : ∀ entry ∈ formats, essence entry.1 = entry.1 ∧ plainExtension entry.2 = entry.2 := by
    decide +kernel
  have found : ∀ entry ∈ formats, extensionFor entry.1 = some entry.2 := by decide +kernel
  have hasKind : ∀ entry ∈ formats, (kindOfEssence entry.1).isSome = true := by decide +kernel
  have sameKind : ∀ entry ∈ formats, ∀ other ∈ formats, other.2 = entry.2 →
      kindOfEssence other.1 = kindOfEssence entry.1 := by
    decide +kernel
  exact ⟨(spelled (mime, extension) member).1, (spelled (mime, extension) member).2,
    found (mime, extension) member, hasKind (mime, extension) member,
    fun other isOther => sameKind (mime, extension) member (other, extension) isOther rfl⟩

/-! ## Look-ups -/

/-- What is looked up under a key belongs to an entry with this key. -/
theorem exists_entry {key value : String × String → String} {wanted found : String}
    (isFound : (formats.find? fun entry => key entry == wanted).map value = some found) :
    ∃ entry ∈ formats, key entry = wanted ∧ value entry = found := by
  obtain ⟨entry, isEntry, isValue⟩ := Option.map_eq_some_iff.mp isFound
  have isKey : key entry = wanted := by simpa using List.find?_some isEntry
  exact ⟨entry, List.mem_of_find?_eq_some isEntry, isKey, isValue⟩

theorem extensionFor_eq_of_essence {mime other : String} (same : essence other = essence mime) :
    extensionFor other = extensionFor mime := by
  rw [extensionFor, same, extensionFor]

theorem kindFor_eq_of_essence {mime other : String} (same : essence other = essence mime) :
    kindFor other = kindFor mime := by
  rw [kindFor, extensionFor_eq_of_essence same, same, kindFor]

theorem extensionFor_eq_some_iff {mime extension : String} :
    extensionFor mime = some extension ↔ (essence mime, extension) ∈ formats := by
  constructor
  · intro isFound
    obtain ⟨entry, member, isEssence, rfl⟩ := exists_entry isFound
    rw [← isEssence]
    exact member
  · intro member
    have sound := isSound_of_mem member
    rw [← extensionFor_eq_of_essence sound.isEssence, sound.found]

theorem mem_of_mimeFor {extension mime : String} (isFound : mimeFor extension = some mime) :
    (mime, plainExtension extension) ∈ formats := by
  obtain ⟨entry, member, isPlain, rfl⟩ := exists_entry isFound
  rw [← isPlain]
  exact member

/-- The extension of a format leads to a format with the same one. -/
theorem exists_mimeFor {mime extension : String} (member : (mime, extension) ∈ formats) :
    ∃ main, mimeFor extension = some main ∧ (main, extension) ∈ formats := by
  have plain : plainExtension extension = extension := (isSound_of_mem member).isPlain
  have isThere : (formats.find? fun entry => entry.2 == plainExtension extension).isSome = true :=
    List.find?_isSome.mpr ⟨(mime, extension), member, beq_of_eq plain.symm⟩
  obtain ⟨main, isMain⟩ := Option.isSome_iff_exists.mp isThere
  have isFound : mimeFor extension = some main.1 := by rw [mimeFor, isMain, Option.map_some]
  exact ⟨main.1, isFound, plain ▸ mem_of_mimeFor isFound⟩

theorem kindFor_eq_of_some {mime extension : String} (isFound : extensionFor mime = some extension) :
    kindFor mime = kindOfEssence (essence mime) := by
  rw [kindFor, isFound, Option.isSome_some, if_pos rfl]

theorem isSome_kindFor (mime : String) : (kindFor mime).isSome = (extensionFor mime).isSome := by
  cases isFound : extensionFor mime with
  | none => rw [kindFor, isFound]; rfl
  | some extension =>
      rw [kindFor_eq_of_some isFound]
      exact (isSound_of_mem (extensionFor_eq_some_iff.mp isFound)).hasKind

/-- The look-ups agree on what the table holds, however a media type is spelled. -/
structure LookupsAgree : Prop where
  /-- The media types of some kind are those with an extension. -/
  kinds : ∀ mime, (kindFor mime).isSome = true ↔ (extensionFor mime).isSome = true
  spellings : ∀ mime other, Varies mime other →
    extensionFor other = extensionFor mime ∧ kindFor other = kindFor mime
  /-- The extension of a media type leads to one with the same extension and of the same kind. -/
  extensions : ∀ mime extension, extensionFor mime = some extension →
    ∃ main, mimeFor extension = some main ∧ extensionFor main = some extension ∧
      kindFor main = kindFor mime
  /-- What the files of an extension hold has a kind and an extension. -/
  files : ∀ extension mime, mimeFor extension = some mime →
    (kindFor mime).isSome = true ∧ (extensionFor mime).isSome = true

theorem isSome_extensionFor_of_mimeFor {extension mime : String}
    (isFound : mimeFor extension = some mime) : (extensionFor mime).isSome = true := by
  rw [(isSound_of_mem (mem_of_mimeFor isFound)).found]
  rfl

theorem lookupsAgree : LookupsAgree := by
  refine ⟨fun mime => by rw [isSome_kindFor], ?_, ?_, ?_⟩
  · intro mime other varies
    have same := essence_of_varies varies
    exact ⟨extensionFor_eq_of_essence same, kindFor_eq_of_essence same⟩
  · intro mime extension isFound
    have member := extensionFor_eq_some_iff.mp isFound
    obtain ⟨main, isMain, inTable⟩ := exists_mimeFor member
    have sound := isSound_of_mem inTable
    refine ⟨main, isMain, sound.found, ?_⟩
    calc kindFor main = kindOfEssence (essence main) := kindFor_eq_of_some sound.found
      _ = kindOfEssence main := by rw [sound.isEssence]
      _ = kindOfEssence (essence mime) := (sound.sameKind _ member).symm
      _ = kindFor mime := (kindFor_eq_of_some isFound).symm
  · intro extension mime isFound
    have supported := isSome_extensionFor_of_mimeFor isFound
    exact ⟨(isSome_kindFor mime).trans supported, supported⟩

example : extensionFor " Video/MP4 ; codecs=avc1" = some "mp4" := by decide +kernel

end Media

/-! ## Compiling -/

namespace Render

/-- The compiler takes media of a type: a clip of it is planned as soon as its asset is found and its spans last,
and no timeline is refused for the type. -/
structure Takes (mime : String) : Prop where
  plans : ∀ (assets : Store) (index : Nat) (c : Clip Float) (asset : Resolved),
    checkClip assets c = .ok asset → asset.mime = mime → ∃ plan, planClip assets index c = .ok plan
  compiles : ∀ (t : Timeline Float) (assets : Store) (options : Options) (id : Identity),
    compile t assets options ≠ some (.error (.unsupportedMedia id mime))

theorem Reason.extensionFor_eq_none {t : Timeline Float} {assets : Store} {options : Options}
    {id : Identity} {mime : String} (reason : Reason t assets options (.unsupportedMedia id mime)) :
    Media.extensionFor mime = none := by
  cases reason with
  | clip isOrder isFirst fault =>
      cases fault with
      | unsupported found placed plays unknown => exact unknown

theorem takes_of_extensionFor {mime : String} (supported : (Media.extensionFor mime).isSome = true) :
    Takes mime := by
  obtain ⟨extension, isFound⟩ := Option.isSome_iff_exists.mp supported
  constructor
  · rintro assets index c asset checked rfl
    unfold planClip
    rw [checked]
    simp only [bind, Except.bind, isFound]
    exact ⟨_, rfl⟩
  · intro t assets options id refused
    have unknown := ((compile_eq_error_iff t assets options _).mp refused).extensionFor_eq_none
    rw [isFound] at unknown
    cases unknown

end Render

/-! ## Importing -/

namespace Cli

open Machine

/-- A project with one more asset and one more clip. -/
def extended (folder : Folder) (asset : Asset Float) (c : Clip Float) : Folder :=
  { folder with
    project := { folder.project with assets := folder.project.assets ++ [asset] }
    timeline := folder.timeline.addClip c }

/-- A file was imported into a project: on the disk the project has one more asset, whose file is there and whose
type the compiler takes, and a clip that plays it. -/
structure IsImported (folder : Folder) (file : Path) (asset : Asset Float) (c : Clip Float)
    (disk : Disk) : Prop where
  stored : ∃ now, Folder.IsStoredOn
    { extended folder asset c with
      project := { (extended folder asset c).project with modifiedAt := now } } disk
  copied : disk.kind? (Folder.assetFile folder.root asset) = some .file
  media : Media.mimeFor (file.extension?.getD "") = some asset.mime
  taken : Render.Takes asset.mime
  plays : c.asset = asset.ref
  kind : Media.kindFor asset.mime = some c.kind

variable {machine after : Machine} {root file : Path} {prober : String}

theorem mediaType_eq_ok {mime : String} {kind : MediaKind} (chosen : mediaType file = .ok (mime, kind)) :
    Media.mimeFor (file.extension?.getD "") = some mime ∧ Media.kindFor mime = some kind := by
  unfold mediaType at chosen
  dsimp only at chosen
  split at chosen
  next => cases chosen
  next found isFound =>
    split at chosen
    next hasKind => cases chosen; exact ⟨isFound, hasKind⟩
    next => cases chosen

theorem eq_ok_of_on_orFail {β : Type} {chosen : Except String β} {value : β}
    (done : machine.on (orFail chosen : Task (StateM Machine) β).run = (.ok value, after)) :
    chosen = .ok value := by
  cases chosen with
  | error message => cases done
  | ok found => cases done; rfl

/-- A copy that succeeds is there. -/
theorem kind?_of_copyFile {target : Path}
    (done : machine.on (copyFile file target) = (.ok (), after)) :
    after.disk.kind? target = some .file := by
  have reading : machine.on (Host.readFile file) = (machine.disk.read file, machine) := rfl
  rw [copyFile, on_bind reading] at done
  cases isRead : machine.disk.read file with
  | error e => rw [isRead] at done; cases done
  | ok content =>
      rw [isRead] at done
      change machine.change (machine.disk.write target content) = _ at done
      cases written : machine.disk.write target content with
      | error e => rw [written] at done; cases done
      | ok disk =>
          rw [written] at done
          cases done
          exact Disk.kind?_of_read (Disk.read_of_write written)

/-- An import that succeeds has loaded the project, chosen a media type, made the copy and saved the project with
the asset and the clip. -/
theorem on_runImport_eq_ok (done : machine.on (runImport prober root file).run = (.ok (), after)) :
    ∃ (folder : Folder) (loaded ready : Machine) (mime : String) (kind : MediaKind) (probed : Probed)
        (ref id : Identity),
      let asset := importedAsset ref.text mime kind file probed
      let c := Clip.ofAsset id asset.ref kind asset.fileName asset.duration 0
      machine.on (loadFolder root).run = (.ok folder, loaded) ∧ mediaType file = .ok (mime, kind) ∧
        ready.disk.kind? (root.join asset.path) = some .file ∧
        ready.on (saveAndList (extended folder asset c)).run = (.ok (), after) := by
  obtain ⟨folder, loaded, loading, done⟩ := on_bind_eq_ok.mp done
  obtain ⟨isFile, looked, -, done⟩ := on_bind_eq_ok.mp done
  cases isFile with
  | false => cases done
  | true =>
      obtain ⟨⟨mime, kind⟩, _, choosing, done⟩ := on_bind_eq_ok.mp done
      obtain ⟨probed, _, -, done⟩ := on_bind_eq_ok.mp done
      obtain ⟨ref, _, -, done⟩ := on_bind_eq_ok.mp done
      obtain ⟨_, copied, copying, done⟩ := on_bind_eq_ok.mp done
      obtain ⟨id, named, naming, done⟩ := on_bind_eq_ok.mp done
      obtain ⟨_, said, saying, done⟩ := on_bind_eq_ok.mp done
      -- Neither the choice of an identity nor the output changes the disk.
      have sameDisk : copied.disk = said.disk :=
        (congrArg (·.2.disk) naming).trans (congrArg (·.2.disk) saying)
      have isThere := kind?_of_copyFile (on_explain_eq_ok copying)
      rw [sameDisk] at isThere
      obtain ⟨_, _, made, saved⟩ := on_changeTimeline_eq_ok done
      cases made
      exact ⟨folder, loaded, _, mime, kind, probed, ref, id, loading, eq_ok_of_on_orFail choosing,
        isThere, saved⟩

/-- The look-ups agree on what can be imported, so an import that succeeds leaves an asset that the compiler
takes. -/
theorem perform_importMedia_isImported :
    Media.LookupsAgree ∧
      ∀ (config : Config Float) (root file : Path) (machine after : Machine),
        machine.on (perform config (.importMedia root file)).run = (.ok (), after) →
        ∃ folder loaded asset c, machine.on (loadFolder root).run = (.ok folder, loaded) ∧
          IsImported folder file asset c after.disk := by
  refine ⟨Media.lookupsAgree, ?_⟩
  intro config root file machine after done
  obtain ⟨folder, loaded, ready, mime, kind, probed, ref, id, loading, chosen, isThere, saved⟩ :=
    on_runImport_eq_ok done
  obtain ⟨isFound, hasKind⟩ := mediaType_eq_ok chosen
  have outlasts : Outlasts ready after := (builds_saveAndList _).of_on saved
  have taken : Render.Takes mime :=
    Render.takes_of_extensionFor (Media.isSome_extensionFor_of_mimeFor isFound)
  refine ⟨folder, loaded, _, _, loading, ⟨_, isStoredOn_of_saveAndList saved⟩, ?_, isFound, taken, rfl,
    hasKind⟩
  rw [Folder.assetFile, root_of_loadFolder loading]
  exact outlasts.kind? isThere

/-- The project file of an empty project. -/
def outset : String :=
  "\x7b\"version\":\"1\",\"name\":\"Sky\",\"id\":\"00000000000000000000000000000000\","
    ++ "\"created_at\":\"2024-01-01T00:00:00Z\",\"modified_at\":\"2024-01-01T00:00:00Z\"\x7d"

/-- An empty project and a picture. -/
def pictured : Disk :=
  ((((Disk.empty.put ["sky.png"] (.file ByteArray.empty)).put ["sky"] .directory).put
    ["sky", "sources"] .directory).put ["sky", "meta"] .directory).put
      ["sky", "meta", "project.json"] (.file outset.toUTF8)

theorem perform_importMedia_pictured :
    ∃ folder asset c after, (ofDisk pictured).on
        (perform (.usual "/films") (.importMedia ⟨"/sky"⟩ ⟨"/sky.png"⟩)).run = (.ok (), after) ∧
      IsImported folder ⟨"/sky.png"⟩ asset c after.disk := by
  have succeeds : ((ofDisk pictured).on
      (perform (.usual "/films") (.importMedia ⟨"/sky"⟩ ⟨"/sky.png"⟩)).run).1.isOk = true := by
    decide +kernel
  obtain ⟨_, after, done⟩ := exists_on_eq_ok succeeds
  obtain ⟨folder, _, asset, c, -, imported⟩ := perform_importMedia_isImported.2 _ _ _ _ _ done
  exact ⟨folder, asset, c, after, done, imported⟩

end Cli

end Montage

import Montage.Config.Store
import Montage.Proofs.Disk
import Montage.Proofs.Json.Pretty
import Montage.Proofs.Json.Real
import Montage.Proofs.Machine
import Montage.Proofs.Stored.Project

/-!
Contract: the configuration that is saved and loaded.

Owns:
- that the strict reading of a written configuration gives it again;
- what loading gives on any machine, and that it changes nothing;
- what is loaded after a configuration was saved: the same but for the zoom, which is what its text is read
  as.

Does **not** own: which numbers are read back from their texts, and how close they are otherwise
(`Montage.Proofs.Json.Real`).
-/

set_option autoImplicit false

namespace Montage

open Json (IsReadAs Legible ReadsBack required defaulted)

/-! ## Values -/

section Values

variable {α : Type}

theorem EngineConfig.ofJson?_toJson (c : EngineConfig) :
    EngineConfig.ofJson? (c.toJson : Json α) = some c := by
  unfold EngineConfig.ofJson? EngineConfig.toJson
  rw [Option.bind_eq_bind, Json.members?_bind rfl (by decide)]
  simp only [defaulted, List.lookup_cons, String.reduceBEq, Json.string?, Json.bool?,
    Json.uint64?_toNat, Option.bind_eq_bind, Option.bind_some]

theorem LogConfig.ofJson?_toJson (c : LogConfig) : LogConfig.ofJson? (c.toJson : Json α) = some c := by
  have file : Json.nullable Json.string? (Json.ofOption .string c.file : Json α) = some c.file :=
    Json.nullable_ofOption rfl fun _ _ => rfl
  unfold LogConfig.ofJson? LogConfig.toJson
  rw [Option.bind_eq_bind, Json.members?_bind rfl (by decide)]
  simp only [required, defaulted, Json.optional, List.lookup_cons, String.reduceBEq, Json.string?,
    Json.bool?, file, Option.bind_eq_bind, Option.bind_some]

variable [Scalar α]

theorem EditorConfig.ofJson?_toJson {c : EditorConfig α} (finite : Scalar.isFinite c.zoom = true) :
    EditorConfig.ofJson? c.toJson = some c := by
  unfold EditorConfig.ofJson? EditorConfig.toJson
  rw [Option.bind_eq_bind, Json.members?_bind rfl (by decide)]
  simp only [defaulted, List.lookup_cons, String.reduceBEq, Json.scalar?_ofScalar finite,
    Json.uint32?_toNat, Option.bind_eq_bind, Option.bind_some]

theorem Config.ofJson?_toJson {c : Config α} (finite : Scalar.isFinite c.editor.zoom = true) :
    Config.ofJson? c.toJson = some c := by
  unfold Config.ofJson? Config.toJson
  rw [Option.bind_eq_bind, Json.members?_bind rfl (by decide)]
  simp only [required, defaulted, List.lookup_cons, String.reduceBEq, Json.string?,
    EditorConfig.ofJson?_toJson finite, EngineConfig.ofJson?_toJson, LogConfig.ofJson?_toJson,
    Option.bind_eq_bind, Option.bind_some]

end Values

/-! ## Texts -/

section Texts

variable {room : Nat}

theorem uint64_legible (n : UInt64) : Legible room (.whole n.toNat) := by
  have small : n.toNat < 2 ^ 64 := n.toNat_lt
  refine .whole ⟨?_, ?_⟩ <;> omega

theorem EngineConfig.toJson_legible (c : EngineConfig) : Legible (room + 1) c.toJson := by
  have report : Legible room (.bool c.writesReport) := .bool c.writesReport
  simp [toJson, report, uint64_legible]

theorem LogConfig.toJson_legible (c : LogConfig) : Legible (room + 1) c.toJson := by
  have json : Legible room (.bool c.json) := .bool c.json
  have file : Legible room (Json.ofOption .string c.file) := Json.legible_ofOption fun s _ => .string s
  simp [toJson, json, file]

variable {zoom : Float}

theorem EditorConfig.isReadAs {c : EditorConfig Float} (finite : Scalar.isFinite c.zoom = true)
    (isRead : Json.read? (Layout.json c.zoom) = some (.real zoom)) (alsoFinite : Scalar.isFinite zoom = true) :
    IsReadAs (room + 1) c.toJson { c with zoom }.toJson := by
  have parts : ∀ member ∈ [("timeline_zoom_px_per_sec", Json.real c.zoom, Json.real zoom),
      ("drag_updates_hz", .whole c.dragRate.toNat, .whole c.dragRate.toNat)],
      IsReadAs room member.2.1 member.2.2 := by
    simp only [List.forall_mem_cons]
    exact ⟨.real isRead, (uint32_legible c.dragRate).isReadAs, List.forall_mem_nil _⟩
  have written := IsReadAs.object parts
  simpa [toJson, Json.ofScalar, finite, alsoFinite] using written

def Config.withZoom (c : Config Float) (zoom : Float) : Config Float :=
  { c with editor := { c.editor with zoom } }

theorem Config.withZoom_self (c : Config Float) : c.withZoom c.editor.zoom = c := rfl

/-- A configuration is read as one with the zoom that its zoom is read as. -/
theorem Config.isReadAs {c : Config Float} (finite : Scalar.isFinite c.editor.zoom = true)
    (isRead : Json.read? (Layout.json c.editor.zoom) = some (.real zoom))
    (alsoFinite : Scalar.isFinite zoom = true) :
    IsReadAs (room + 2) c.toJson (c.withZoom zoom).toJson := by
  have parts : ∀ member ∈ [("projects_dir", Json.string c.projectsDirectory, .string c.projectsDirectory),
      ("editor", c.editor.toJson, { c.editor with zoom }.toJson),
      ("export", c.engine.toJson, c.engine.toJson), ("logging", c.logging.toJson, c.logging.toJson)],
      IsReadAs (room + 1) member.2.1 member.2.2 := by
    simp only [List.forall_mem_cons]
    exact ⟨.string _, EditorConfig.isReadAs finite isRead alsoFinite, c.engine.toJson_legible.isReadAs,
      c.logging.toJson_legible.isReadAs, List.forall_mem_nil _⟩
  exact IsReadAs.object parts

end Texts

namespace Config

open Machine

/-! ## Places -/

/-- The environment variables, as far as they are set. -/
abbrev Settings := String → Option String

/-- A base directory in an environment. -/
def baseIn (settings : Settings) (name : String) (inHome : List String) : Path :=
  match settings name with
  | some directory => ⟨directory⟩
  | none => inHome.foldl Path.join ⟨(settings "HOME").getD "/tmp"⟩

/-- The configuration file in an environment. -/
def fileIn (settings : Settings) : Path :=
  ((baseIn settings "XDG_CONFIG_HOME" [".config"]).join "clipforge").join "config.json"

/-- The directory for projects in an environment. -/
def projectsIn (settings : Settings) : Path :=
  ((baseIn settings "XDG_DATA_HOME" [".local", "share"]).join "clipforge").join "projects"

def usualIn (settings : Settings) : Config Float := .usual (projectsIn settings).text

section Loading

variable {machine : Machine}

theorem finds_environment (name : String) :
    Finds (Host.environment? name) machine (machine.setting? name) := rfl

theorem finds_baseDirectory (name : String) (inHome : List String) :
    Finds (baseDirectory name inHome) machine (baseIn machine.setting? name inHome) := by
  refine (finds_environment name).bind ?_
  unfold baseIn
  cases machine.setting? name with
  | some directory => exact finds_pure
  | none => exact (finds_environment "HOME").bind finds_pure

theorem finds_file : Finds file machine (fileIn machine.setting?) :=
  (finds_baseDirectory _ _).bind finds_pure

theorem finds_usualProjects : Finds usualProjects machine (projectsIn machine.setting?) :=
  (finds_baseDirectory _ _).bind finds_pure

/-! ## Loading -/

/-- The configuration that a machine holds: its file can be read, is a text, and is understood. -/
def held? (machine : Machine) : Option (Config Float) :=
  match machine.disk.read (fileIn machine.setting?) with
  | .ok content => (textOf? content).bind parse
  | .error _ => none

theorem finds_stored? : Finds stored? machine (held? machine) := by
  have read (p : Path) : Finds (Host.readFile p) machine (machine.disk.read p) := rfl
  refine finds_file.bind ?_
  unfold Host.readText held?
  rw [bind_assoc]
  refine (read _).bind ?_
  cases machine.disk.read (fileIn machine.setting?) with
  | error e => exact finds_pure
  | ok content =>
      dsimp only
      cases textOf? content <;> exact finds_pure

theorem finds_load (machine : Machine) :
    Finds load machine ((held? machine).getD (usualIn machine.setting?)) := by
  refine finds_stored?.bind ?_
  cases held? machine with
  | some config => exact finds_pure
  | none => exact finds_usualProjects.bind finds_pure

/-! ## Saving -/

variable {after later : Machine} {config : Config Float}

theorem on_save :
    machine.on (save config) =
      machine.on (Host.establish (fileIn machine.setting?) (Json.pretty config.toJson)) :=
  on_bind finds_file

/-- What was saved is in the file. -/
theorem read_of_save (saved : machine.on (save config) = (.ok (), after)) :
    after.disk.read (fileIn machine.setting?) = .ok (Json.pretty config.toJson).toUTF8 := by
  rw [on_save, Host.establish] at saved
  rcases outcome : machine.on (Host.makeDirectories ((fileIn machine.setting?).parent?.getD ⟨""⟩)) with
    ⟨e | _, between⟩
  · rw [on_bind outcome] at saved
    cases saved
  · rw [on_bind outcome] at saved
    dsimp only at saved
    cases written : between.disk.write (fileIn machine.setting?) (Json.pretty config.toJson).toUTF8 with
    | error e =>
        rw [on_writeText_of_error written] at saved
        cases saved
    | ok disk =>
        rw [on_writeText_of_ok written] at saved
        cases saved
        exact Disk.read_of_write written

/-- Saving leaves the environment as it is, so that the file stays the same one. -/
theorem setting?_of_save (saved : machine.on (save config) = (.ok (), after)) :
    after.setting? = machine.setting? := by
  have spared := sparesSettings_establish (fileIn machine.setting?) (Json.pretty config.toJson) machine
  rwa [← on_save, saved] at spared

theorem textOf?_toUTF8 (s : String) : textOf? s.toUTF8 = some s :=
  dif_pos s.isValidUTF8

/-- A written configuration is parsed as one with the zoom that its zoom is read as. -/
theorem parse_pretty {zoom : Float} (finite : Scalar.isFinite config.editor.zoom = true)
    (isRead : Json.read? (Layout.json config.editor.zoom) = some (.real zoom))
    (alsoFinite : Scalar.isFinite zoom = true) :
    parse (Json.pretty config.toJson) = some (config.withZoom zoom) := by
  have shallow : (0 + 2) ≤ Json.Reader.depthLimit := by decide
  unfold parse
  rw [(isReadAs finite isRead alsoFinite).read?_pretty shallow]
  exact ofJson?_toJson alsoFinite

end Loading

/-! ## Saving and loading -/

/-- Whatever the state of the file, a configuration is loaded, and nothing changes: the one that is held, or
the usual one of the environment. -/
structure LoadsSafely : Prop where
  held : ∀ machine config, held? machine = some config → Finds load machine config
  usual : ∀ machine, held? machine = none → Finds load machine (usualIn machine.setting?)

theorem loadsSafely : LoadsSafely where
  held machine config isHeld := by
    have loaded := finds_load machine
    rw [isHeld] at loaded
    exact loaded
  usual machine nothing := by
    have loaded := finds_load machine
    rw [nothing] at loaded
    exact loaded

/-- On a machine a configuration is loaded with the zoom that its zoom is read as: a close one, and the same
one exactly if the zoom is read back from its text. -/
structure IsLoadedAgain (config : Config Float) (machine : Machine) : Prop where
  close : ∃ zoom, Finds load machine (config.withZoom zoom) ∧ Json.IsCloseTo zoom config.editor.zoom
  exactly_iff : Finds load machine config ↔ ReadsBack config.editor.zoom

theorem isLoadedAgain {machine after later : Machine} {config : Config Float}
    (finite : Scalar.isFinite config.editor.zoom = true)
    (saved : machine.on (save config) = (.ok (), after)) (sameDisk : later.disk = after.disk)
    (sameSettings : later.setting? = machine.setting?) : IsLoadedAgain config later := by
  obtain ⟨q, isExact⟩ := (Scalar.isFinite_iff_exact _).mp finite
  obtain ⟨zoom, isRead, close⟩ := Json.exists_read isExact
  have alsoFinite : Scalar.isFinite zoom = true := by
    obtain ⟨_, r, -, isResult, -⟩ := close
    exact (Scalar.isFinite_iff_exact zoom).mpr ⟨r, isResult⟩
  have isHeld : held? later = some (config.withZoom zoom) := by
    unfold held?
    rw [sameDisk, sameSettings, read_of_save saved]
    dsimp only
    rw [textOf?_toUTF8, Option.bind_some, parse_pretty finite isRead alsoFinite]
  have loaded := loadsSafely.held later _ isHeld
  refine ⟨⟨zoom, loaded, close⟩, fun exactly => ?_, fun readsBack => ?_⟩
  · have same : config.withZoom zoom = config :=
      (Prod.mk.inj (loaded.symm.trans exactly)).1
    have sameZoom : zoom = config.editor.zoom := congrArg (·.editor.zoom) same
    rw [sameZoom] at isRead
    exact isRead
  · have sameZoom : zoom = config.editor.zoom := by
      unfold ReadsBack at readsBack
      rw [readsBack] at isRead
      exact (Json.real.inj (Option.some.inj isRead)).symm
    rw [sameZoom, withZoom_self] at loaded
    exact loaded

/-- No configuration is lost, and none is fatal. Whatever is in its file, one is loaded. What was saved is
loaded again in the same environment with nothing changed but the zoom, and that is close to the zoom that
was saved. -/
theorem kept_on_disk :
    LoadsSafely ∧
      ∀ (machine after later : Machine) (config : Config Float),
        Scalar.isFinite config.editor.zoom = true → machine.on (save config) = (.ok (), after) →
        later.disk = after.disk → later.setting? = machine.setting? → IsLoadedAgain config later :=
  ⟨loadsSafely, fun _ _ _ _ finite saved => isLoadedAgain finite saved⟩

/-- On a machine with an empty disk a configuration can be saved, and nothing else has to be done for it to
be loaded. -/
theorem exists_saved (config : Config Float)
    (isSaved : ((Machine.ofDisk .empty).on (save config)).1.isOk = true) :
    ∃ after, (Machine.ofDisk .empty).on (save config) = (.ok (), after) ∧
      after.setting? = (Machine.ofDisk .empty).setting? := by
  obtain ⟨_, after, saved⟩ := exists_on_eq_ok isSaved
  exact ⟨after, saved, setting?_of_save saved⟩

/-- The usual zoom is read back, so the usual configuration is. -/
theorem kept_on_disk_usual :
    ∃ after, (Machine.ofDisk .empty).on (save (.usual "/films")) = (.ok (), after) ∧
      Finds load after (.usual "/films") := by
  obtain ⟨after, saved, sameSettings⟩ := exists_saved (.usual "/films") (by decide +kernel)
  have finite : Scalar.isFinite (usual "/films" : Config Float).editor.zoom = true := by decide +kernel
  have readsBack : ReadsBack (usual "/films" : Config Float).editor.zoom := by decide +kernel
  have again := kept_on_disk.2 _ after after (.usual "/films") finite saved rfl sameSettings
  exact ⟨after, saved, again.exactly_iff.mpr readsBack⟩

/-- There is a zoom of sixteen digits that is read as its neighbour of fourteen. -/
theorem not_always_loaded_exactly :
    ¬ (LoadsSafely ∧
      ∀ (machine after : Machine) (config : Config Float),
        Scalar.isFinite config.editor.zoom = true → machine.on (save config) = (.ok (), after) →
        Finds load after config) := by
  rintro ⟨-, always⟩
  have finite : Scalar.isFinite (900.8203153524599 : Float) = true := by decide +kernel
  have changed : ¬ ReadsBack 900.8203153524599 := by decide +kernel
  obtain ⟨after, saved, sameSettings⟩ :=
    exists_saved (Config.withZoom (.usual "/films") 900.8203153524599) (by decide +kernel)
  have exactly := always _ after _ finite saved
  exact changed ((isLoadedAgain finite saved rfl sameSettings).exactly_iff.mp exactly)

end Config

end Montage

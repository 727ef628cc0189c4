import Montage.Proofs.Machine
import Montage.Proofs.Render.Verdict
import Montage.Project.Folder
import Montage.Render.Compile

/-!
Contract: what the check of the sources of a project says about compiling it.

Owns:
- the answers of the check and of the project's store on a machine, as functions of its disk;
- what a project without source faults still lacks;
- when its compilation is blamed on an asset that was not found.

Does **not** own: the other reasons of a failed compilation (`Montage.Proofs.Render.Verdict`).

The check asks whether the path of an asset leads anywhere, the store whether it leads to a file. They differ
on directories.
-/

set_option autoImplicit false

namespace Montage.Folder

open Machine (Finds finds_pure finds_mapM finds_filterM finds_isFile finds_pathExists)

/-! ## The answers on a disk -/

section Answers

variable (folder : Folder) (disk : Disk)

/-- What a store on a disk makes of an asset. -/
def resolvedOn (root : Path) (asset : Asset Float) : Option Render.Resolved :=
  if disk.kind? (assetFile root asset) = some .file then
    some { source := .file (assetFile root asset).text, mime := asset.mime, hasAudio := asset.hasAudio }
  else none

def storeOn : Render.Store := fun ref =>
  (folder.project.asset? ref).bind (resolvedOn disk folder.root)

def faultsOn : List String :=
  let missing := folder.project.assets.filter fun asset =>
    !(disk.kind? (assetFile folder.root asset)).isSome
  let unknown := folder.timeline.clips.filter fun c => (folder.project.asset? c.asset).isNone
  missing.map missingSource ++ unknown.map unknownAsset

/-- The asset that a reference means lies where a directory is. -/
def IsDirectory (ref : AssetRef) : Prop :=
  ∃ asset, folder.project.asset? ref = some asset ∧
    disk.kind? (assetFile folder.root asset) = some .directory

end Answers

section Runs

variable (folder : Folder) (machine : Machine)

theorem finds_sourceFaults : Finds folder.sourceFaults machine (folder.faultsOn machine.disk) := by
  refine Finds.bind (finds_filterM fun asset _ => ?_) finds_pure
  exact (finds_pathExists _).bind finds_pure

theorem finds_resolveAsset (root : Path) (asset : Asset Float) :
    Finds (resolveAsset root asset) machine (asset.ref, resolvedOn machine.disk root asset) := by
  refine (finds_isFile _).bind ?_
  rw [resolvedOn]
  cases machine.disk.kind? (assetFile root asset) with
  | none => exact finds_pure
  | some kind => cases kind <;> exact finds_pure

/-- Entries are looked up by the references of their assets. -/
theorem lookup_map_ref {β : Type} (entry : Asset Float → β) (list : List (Asset Float)) (ref : AssetRef) :
    (list.map fun asset => (asset.ref, entry asset)).lookup ref =
      (list.find? fun asset => asset.ref == ref).map entry := by
  induction list with
  | nil => rfl
  | cons asset rest inductionHypothesis =>
      rw [List.map_cons, List.lookup_cons, List.find?_cons, inductionHypothesis, BEq.comm]
      cases asset.ref == ref <;> rfl

theorem finds_assets : Finds folder.assets machine (folder.storeOn machine.disk) := by
  refine Finds.bind (finds_mapM fun asset _ => finds_resolveAsset machine folder.root asset) ?_
  have same : folder.storeOn machine.disk = fun ref =>
      ((folder.project.assets.map fun asset =>
        (asset.ref, resolvedOn machine.disk folder.root asset)).lookup ref).join := by
    funext ref
    rw [lookup_map_ref, storeOn, Project.asset?]
    cases folder.project.assets.find? fun asset => asset.ref == ref <;> rfl
  rw [same]
  exact finds_pure

end Runs

/-! ## Projects without source faults -/

section Faultless

variable {folder : Folder} {disk : Disk}

theorem faultsOn_eq_nil_iff :
    folder.faultsOn disk = [] ↔
      (∀ asset ∈ folder.project.assets, (disk.kind? (assetFile folder.root asset)).isSome) ∧
        ∀ c ∈ folder.timeline.clips, (folder.project.asset? c.asset).isSome := by
  simp only [faultsOn, List.append_eq_nil_iff, List.map_eq_nil_iff, List.filter_eq_nil_iff,
    Bool.not_eq_true', Bool.not_eq_false, Option.isNone_iff_eq_none, Option.isSome_iff_ne_none]

theorem resolvedOn_eq_none_iff (root : Path) (asset : Asset Float) :
    resolvedOn disk root asset = none ↔ disk.kind? (assetFile root asset) ≠ some .file := by
  simp [resolvedOn]

/-- Where the check finds no fault, the asset of a clip is not found exactly if a directory lies in its
place. -/
theorem storeOn_eq_none_iff (faultless : folder.faultsOn disk = [])
    {c : Clip Float} (inTimeline : c ∈ folder.timeline.clips) :
    folder.storeOn disk c.asset = none ↔ folder.IsDirectory disk c.asset := by
  obtain ⟨present, known⟩ := faultsOn_eq_nil_iff.mp faultless
  obtain ⟨asset, found⟩ := Option.isSome_iff_exists.mp (known c inTimeline)
  have leads := present asset (List.mem_of_find?_eq_some found)
  have sole : folder.IsDirectory disk c.asset ↔
      disk.kind? (assetFile folder.root asset) = some .directory := by
    simp [IsDirectory, found]
  rw [sole, storeOn, found, Option.bind_some, resolvedOn_eq_none_iff]
  cases place : disk.kind? (assetFile folder.root asset) with
  | none => simp [place] at leads
  | some kind => cases kind <;> simp

end Faultless

/-! ## Verdicts on assets -/

/-- A compilation is blamed on the asset of the first clip at fault, if it was not found. -/
theorem compile_eq_assetUnresolved_iff (t : Timeline Float) (assets : Render.Store)
    (options : Render.Options) (id : Identity) (ref : AssetRef) :
    Render.compile t assets options = some (.error (.assetUnresolved id ref)) ↔
      ∃ c, Render.IsFirstFault (Render.ClipFits assets) (Render.orderedClips t) c ∧
        c.id = id ∧ c.asset = ref ∧ assets c.asset = none := by
  rw [Render.compile_eq_error_iff]
  constructor
  · intro reason
    cases reason with
    | clip isOrder isFirst fault =>
        obtain rfl := isOrder.unique (Render.orderedClips_isStableOrder t)
        cases fault with
        | unresolved missing => exact ⟨_, isFirst, rfl, rfl, missing⟩
  · rintro ⟨c, isFirst, rfl, rfl, missing⟩
    exact .clip (Render.orderedClips_isStableOrder t) isFirst (.unresolved missing)

/-- A project in which the check finds no fault is compiled without blame on an asset, unless a directory
lies in the place of one: then the first clip at fault is blamed if its asset is such a one. -/
theorem compile_of_sourceFaults_eq_nil
    (folder : Folder)
    (machine : Machine)
    (options : Render.Options)
    (faultless : (machine.on folder.sourceFaults).1 = []) :
    let store := ((machine.on folder.sourceFaults).2.on folder.assets).1
    (∀ id ref, Render.compile folder.timeline store options = some (.error (.assetUnresolved id ref)) ↔
        ∃ c, Render.IsFirstFault (Render.ClipFits store) (Render.orderedClips folder.timeline) c ∧
          c.id = id ∧ c.asset = ref ∧ folder.IsDirectory machine.disk c.asset) ∧
      ((∀ c ∈ folder.timeline.clips, ¬ folder.IsDirectory machine.disk c.asset) →
        ∀ id ref, Render.compile folder.timeline store options ≠ some (.error (.assetUnresolved id ref))) := by
  have checked := folder.finds_sourceFaults machine
  unfold Finds at checked
  rw [checked] at faultless ⊢
  have stored := folder.finds_assets machine
  unfold Finds at stored
  dsimp only
  rw [stored]
  have blamed (id : Identity) (ref : AssetRef) :
      Render.compile folder.timeline (folder.storeOn machine.disk) options =
          some (.error (.assetUnresolved id ref)) ↔
        ∃ c, Render.IsFirstFault (Render.ClipFits (folder.storeOn machine.disk))
            (Render.orderedClips folder.timeline) c ∧
          c.id = id ∧ c.asset = ref ∧ folder.IsDirectory machine.disk c.asset := by
    rw [compile_eq_assetUnresolved_iff]
    refine exists_congr fun c => and_congr_right fun isFirst => ?_
    rw [storeOn_eq_none_iff faultless (List.mem_mergeSort.mp isFirst.mem)]
  refine ⟨blamed, ?_⟩
  intro noDirectory id ref failed
  obtain ⟨c, isFirst, -, -, isDirectory⟩ := (blamed id ref).mp failed
  exact noDirectory c (List.mem_mergeSort.mp isFirst.mem) isDirectory

/-- A project with one asset and one clip of it. -/
def oneShot : Folder :=
  { root := ⟨"/shoot"⟩
    project := { (Project.ofName ⟨1⟩ ⟨0, 0⟩ "Shoot" : Project Float) with
      assets := [⟨"film", "film.mp4", "film.mp4", "video/mp4", some 10, true⟩] }
    timeline := { (Timeline.empty : Timeline Float) with
      clips := [.ofAsset ⟨2⟩ "film" .video "film.mp4" (some 10) 0] } }

/-- A disk on which the asset of that project is a file. -/
def filmed : Disk := (Disk.empty.put ["shoot"] .directory).put ["shoot", "film.mp4"] (.file ByteArray.empty)

/-- A disk on which a directory lies in its place. -/
def unfilmed : Disk := (Disk.empty.put ["shoot"] .directory).put ["shoot", "film.mp4"] .directory

theorem compile_oneShot_filmed :
    ((Machine.ofDisk filmed).on oneShot.sourceFaults).1 = [] ∧
      ∀ id ref, Render.compile oneShot.timeline ((Machine.ofDisk filmed).on oneShot.assets).1
        ⟨false, "medium", 23, 192⟩ ≠ some (.error (.assetUnresolved id ref)) := by
  have checked := oneShot.finds_sourceFaults (.ofDisk filmed)
  have faultless : ((Machine.ofDisk filmed).on oneShot.sourceFaults).1 = [] := by
    rw [checked]
    decide
  have unblamed := (compile_of_sourceFaults_eq_nil oneShot (.ofDisk filmed)
    ⟨false, "medium", 23, 192⟩ faultless).2
  rw [checked] at unblamed
  refine ⟨faultless, unblamed ?_⟩
  rintro c member ⟨asset, found, isDirectory⟩
  obtain rfl : c = .ofAsset ⟨2⟩ "film" .video "film.mp4" (some 10) 0 := List.mem_singleton.mp member
  obtain rfl : _ = asset := Option.some.inj found
  revert isDirectory
  decide

/-- The check finds no fault in a directory that stands for a film, which the compilation does not find. -/
theorem compile_oneShot_unfilmed :
    ((Machine.ofDisk unfilmed).on oneShot.sourceFaults).1 = [] ∧
      Render.compile oneShot.timeline ((Machine.ofDisk unfilmed).on oneShot.assets).1
        ⟨false, "medium", 23, 192⟩ = some (.error (.assetUnresolved ⟨2⟩ "film")) := by
  have checked := oneShot.finds_sourceFaults (.ofDisk unfilmed)
  have stored := oneShot.finds_assets (.ofDisk unfilmed)
  refine ⟨by rw [checked]; decide, ?_⟩
  rw [stored, compile_eq_assetUnresolved_iff]
  have missing : oneShot.storeOn unfilmed "film" = none := by decide
  refine ⟨.ofAsset ⟨2⟩ "film" .video "film.mp4" (some 10) 0, ⟨[], [], ?_, ?_, ?_⟩, rfl, rfl, missing⟩
  · exact List.mergeSort_singleton _
  · exact List.forall_mem_nil _
  · rintro ⟨⟨asset, found, -⟩, -, -⟩
    cases missing.symm.trans found

end Montage.Folder

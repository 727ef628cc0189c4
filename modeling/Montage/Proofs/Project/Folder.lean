import Montage.Proofs.Disk.Names
import Montage.Proofs.Machine
import Montage.Project.Folder

/-!
Contract: what loading and saving a project do to a disk.

Owns: that loading leaves the disk alone, that saving takes nothing away from it, and what both files hold once
a project is saved.

Does **not** own: what the text of a file means (`Montage.Proofs.Stored.Forgiving`).
-/

set_option autoImplicit false

namespace Montage.Folder

open Machine

variable {machine after : Machine} {folder : Folder}

/-! ## Loading -/

theorem sparesDisk_readFile (p : Path) : SparesDisk (readFile p).run := by
  refine (sparesDisk_readText p).bind fun outcome => ?_
  cases outcome <;> exact sparesDisk_pure _

theorem sparesDisk_loadProject (root : Path) : SparesDisk (loadProject root).run := by
  refine (sparesDisk_readFile _).bind_run fun text => ?_
  cases parseProject text <;> exact sparesDisk_pure _

theorem sparesDisk_loadTimeline (root : Path) : SparesDisk (loadTimeline root).run := by
  refine (sparesDisk_pathExists _).liftM_run.bind_run fun isThere => ?_
  cases isThere with
  | false => exact sparesDisk_pure _
  | true =>
      refine (sparesDisk_readFile _).bind_run fun text => ?_
      refine (sparesDisk_withIds _).liftM_run.bind_run fun timeline => ?_
      cases timeline <;> exact sparesDisk_pure _

theorem sparesDisk_load (root : Path) : SparesDisk (load root).run := by
  refine (sparesDisk_loadProject root).bind_run fun project => ?_
  exact (sparesDisk_loadTimeline root).bind_run fun timeline => sparesDisk_pure _

theorem root_of_load {root : Path} (loaded : machine.on (load root).run = (.ok folder, after)) :
    folder.root = root := by
  obtain ⟨project, _, -, loaded⟩ := on_bind_eq_ok.mp loaded
  obtain ⟨timeline, _, -, loaded⟩ := on_bind_eq_ok.mp loaded
  cases loaded
  rfl

/-! ## Saving -/

theorem write_of_writeFile {p : Path} {value : Json Float}
    (written : machine.on (writeFile p value).run = (.ok (), after)) :
    machine.disk.write p (Json.pretty value).toUTF8 = .ok after.disk := by
  rw [writeFile, ExceptT.run_mk] at written
  cases changed : machine.disk.write p (Json.pretty value).toUTF8 with
  | error e =>
      rw [on_bind (on_writeText_of_error changed)] at written
      cases written
  | ok disk =>
      rw [on_bind (on_writeText_of_ok changed)] at written
      cases written
      rfl

theorem builds_writeFile (p : Path) (value : Json Float) : Builds (writeFile p value).run := by
  refine (builds_writeText p _).bind fun outcome => ?_
  cases outcome <;> exact leads_pure _

theorem builds_write (folder : Folder) : Builds folder.write.run := by
  have made : Builds (makeDirectory (metaDirectory folder.root)).run := by
    refine (builds_makeDirectories _).bind fun outcome => ?_
    cases outcome <;> exact leads_pure _
  exact made.bind_run fun _ => (builds_writeFile _ _).bind_run fun _ => builds_writeFile _ _

theorem builds_save (folder : Folder) : Builds folder.save := by
  have touched : Builds (touch folder) := fun machine => refl_of Outlasts machine
  exact touched.bind fun now => (builds_write now).bind fun _ => leads_pure _

/-- On a disk both files of a project are as it stands. -/
structure IsStoredOn (folder : Folder) (disk : Disk) : Prop where
  project : disk.read (projectFile folder.root) = .ok (Json.pretty folder.project.toJson).toUTF8
  timeline : disk.read (timelineFile folder.root) = .ok (Json.pretty folder.timeline.toJson).toUTF8

/-- The timeline is written last, and leaves the project file as it is. -/
theorem isStoredOn_of_write (written : machine.on folder.write.run = (.ok (), after)) :
    folder.IsStoredOn after.disk := by
  obtain ⟨_, made, -, written⟩ := on_bind_eq_ok.mp written
  obtain ⟨_, between, first, second⟩ := on_bind_eq_ok.mp written
  have projectName : IsName "project.json" := ⟨by decide, by decide, by decide⟩
  have timelineName : IsName "timeline.json" := ⟨by decide, by decide, by decide⟩
  have project := Disk.read_of_write (write_of_writeFile first)
  have last := write_of_writeFile second
  exact ⟨Disk.read_write_of_ne projectName timelineName (by decide) project last,
    Disk.read_of_write last⟩

/-- What is stored is the project with the time at which it was saved. -/
theorem isStoredOn_of_save {touched : Folder}
    (saved : machine.on folder.save = ((.ok (), touched), after)) :
    touched.IsStoredOn after.disk ∧
      touched = { folder with project := { folder.project with modifiedAt := machine.clock } } := by
  have marked : machine.on (touch folder) =
      ({ folder with project := { folder.project with modifiedAt := machine.clock } }, machine) := rfl
  rw [save, on_bind marked] at saved
  rcases outcome : machine.on (write
    { folder with project := { folder.project with modifiedAt := machine.clock } }).run with
    ⟨result, between⟩
  rw [on_bind outcome, on_pure, Prod.mk.injEq, Prod.mk.injEq] at saved
  obtain ⟨⟨rfl, rfl⟩, rfl⟩ := saved
  exact ⟨isStoredOn_of_write outcome, rfl⟩

end Montage.Folder

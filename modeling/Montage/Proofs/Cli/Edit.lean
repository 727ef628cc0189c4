import Montage.Cli.Run
import Montage.Proofs.Project.Folder

/-!
Contract: what an edit or a drag leaves behind on the disk.

Owns:
- the commands that an edit or a drag releases for a loaded timeline;
- the timeline that comes of them, or why there is none (`attempt`, `attemptDrag`);
- that the disk is left alone unless there is one, and that the timeline file holds it once it is saved.

Does **not** own: what a single command does (`Montage.Proofs.Edit.Outcome`), the throttle of a drag
(`Montage.Proofs.Edit.Drag`), and the configuration, which is loaded before anything else.
-/

set_option autoImplicit false

namespace Montage.Cli

open Machine

/-- The commands of an edit or a drag of a timeline, given the machine after the project was loaded. -/
abbrev Release := Timeline Float → Machine → Except String (List (Command Float) × IdSupply)

def EditRequest.release (request : EditRequest) : Release := fun t loaded => do
  let (command, supply) ← request.command t loaded.supply
  pure ([command], supply)

/-- A drag releases what its throttle lets pass, at the moments at which the movements are made. -/
def dragRelease (editor : EditorConfig Float) (id : String) (handle : Handle) (offsets : List Float) :
    Release := fun t loaded => do
  let (movements, ready) := loaded.on (timed offsets)
  let target ← identify t id
  let zoom := (Zoom.ofScale? editor.zoom).getD .usual
  let drag ←
    (Drag.start t target handle zoom editor.dragRate.toNat).mapError fun e =>
      "Cannot start drag: " ++ e.message
  pure (drag.released movements, ready.supply)

/-- The timeline after all commands released for it, or why there is none. -/
def released (release : Release) (t : Timeline Float) (loaded : Machine) :
    Except String (Timeline Float × IdSupply) := do
  let (commands, supply) ← release t loaded
  (t.applyAll supply commands).mapError rejected

/-- The timeline that is about to be saved in a directory, or why there is none. -/
def attempt (root : Path) (release : Release) (machine : Machine) : Except Stop (Timeline Float) :=
  match machine.on (loadFolder root).run with
  | (.error stop, _) => .error stop
  | (.ok folder, loaded) => ((released release folder.timeline loaded).map Prod.fst).mapError .failed

def attemptDrag (editor : EditorConfig Float) (root : Path) (id name : String) (offsets : List Float)
    (machine : Machine) : Except Stop (Timeline Float) :=
  match handle? name with
  | none => .error (.failed ("Unknown handle: " ++ name ++ ". Use: body, left, right"))
  | some handle => attempt root (dragRelease editor id handle offsets) machine

/-- What an activity leaves behind that was about to save a timeline. -/
structure SavesOrSpares (root : Path) (machine : Machine) (attempted : Except Stop (Timeline Float))
    (outcome : Except Stop Unit × Machine) : Prop where
  /-- Without a timeline to save the activity fails, and the disk is as it was. -/
  spares : ∀ stop, attempted = .error stop →
    outcome.1 = .error stop ∧ outcome.2.disk = machine.disk
  /-- If the activity succeeds, the timeline file holds the timeline. -/
  saves : ∀ t, attempted = .ok t → outcome.1 = .ok () →
    outcome.2.disk.read (Folder.timelineFile root) = .ok (Json.pretty t.toJson).toUTF8
  /-- With a timeline to save nothing but the saving fails. -/
  failsToSave : ∀ t stop, attempted = .ok t → outcome.1 = .error stop →
    ∃ e : FolderError, stop = .failed ("Failed to save project: " ++ e.message)

/-! ## Loading and saving -/

section Parts

variable {machine after : Machine} {folder : Folder} {root : Path} {message : String} {stop : Stop}

theorem on_explain {β ε : Type} {text : ε → String} {activity : StateM Machine (Except ε β)}
    {result : Except ε β} (outcome : machine.on activity = (result, after)) :
    machine.on (explain text activity).run = (result.mapError fun e => .failed (text e), after) := by
  rw [explain, ExceptT.run_mk, on_bind outcome, on_pure]

theorem on_explain_eq_ok {β ε : Type} {text : ε → String} {activity : StateM Machine (Except ε β)}
    {value : β} (done : machine.on (explain text activity).run = (.ok value, after)) :
    machine.on activity = (.ok value, after) := by
  rcases outcome : machine.on activity with ⟨e | found, between⟩
  · rw [on_explain outcome] at done
    cases done
  · rw [on_explain outcome] at done
    cases done
    rfl

theorem on_explain_eq_error {β ε : Type} {text : ε → String} {activity : StateM Machine (Except ε β)}
    (failed : machine.on (explain text activity).run = (.error stop, after)) :
    ∃ e, stop = .failed (text e) := by
  rcases outcome : machine.on activity with ⟨e | found, between⟩
  · rw [on_explain outcome] at failed
    cases failed
    exact ⟨e, rfl⟩
  · rw [on_explain outcome] at failed
    cases failed

theorem sparesDisk_loadFolder (root : Path) : SparesDisk (loadFolder root).run :=
  (Folder.sparesDisk_load root).bind fun _ => sparesDisk_pure _

theorem builds_saveAndList (folder : Folder) : Builds (saveAndList folder).run := by
  have saved : Builds (saveFolder folder).run :=
    ((Folder.builds_save folder).bind fun _ => leads_pure _).bind fun _ => leads_pure _
  have listed : SparesDisk (say (listing folder.timeline) : Task (StateM Machine) Unit).run := fun _ => rfl
  exact saved.bind_run fun _ => listed.builds

theorem root_of_loadFolder (loaded : machine.on (loadFolder root).run = (.ok folder, after)) :
    folder.root = root :=
  Folder.root_of_load (on_explain_eq_ok loaded)

/-- A saved project is on the disk, with the time at which it was saved. -/
theorem isStoredOn_of_saveAndList (saved : machine.on (saveAndList folder).run = (.ok (), after)) :
    Folder.IsStoredOn { folder with project := { folder.project with modifiedAt := machine.clock } }
      after.disk := by
  obtain ⟨_, between, stored, said⟩ := on_bind_eq_ok.mp saved
  -- The listing goes to the output, so that it does not touch the disk.
  obtain rfl : { between with output := between.output ++ listing folder.timeline } = after :=
    (Prod.mk.inj said).2
  have written := on_explain_eq_ok stored
  rcases outcome : machine.on folder.save with ⟨⟨result, touched⟩, final⟩
  rw [on_bind outcome, on_pure, Prod.mk.injEq] at written
  obtain ⟨rfl, rfl⟩ := written
  obtain ⟨held, rfl⟩ := Folder.isStoredOn_of_save outcome
  exact held

theorem error_of_saveAndList (failed : machine.on (saveAndList folder).run = (.error stop, after)) :
    ∃ e : FolderError, stop = .failed ("Failed to save project: " ++ e.message) := by
  rcases on_bind_eq_error.mp failed with unsaved | ⟨_, between, -, unsaid⟩
  · exact on_explain_eq_error unsaved
  · cases unsaid

theorem on_changeTimeline_of_error
    {change : Timeline Float → IdSupply → Except String (Timeline Float × IdSupply)}
    (refused : change folder.timeline machine.supply = .error message) :
    machine.on (changeTimeline folder change).run = (.error (.failed message), machine) := by
  have lent : machine.on (Host.withIds (lending (change folder.timeline))) = (.error message, machine) := by
    change machine.withIds (lending (change folder.timeline)) = _
    rw [withIds, lending, refused]
  exact on_bind_of_error (on_explain lent)

theorem on_changeTimeline_of_ok
    {change : Timeline Float → IdSupply → Except String (Timeline Float × IdSupply)}
    {t : Timeline Float} {supply : IdSupply}
    (made : change folder.timeline machine.supply = .ok (t, supply)) :
    machine.on (changeTimeline folder change).run =
      { machine with supply }.on (saveAndList { folder with timeline := t }).run := by
  have lent : machine.on (Host.withIds (lending (change folder.timeline))) =
      (.ok t, { machine with supply }) := by
    change machine.withIds (lending (change folder.timeline)) = _
    rw [withIds, lending, made]
  exact on_bind_of_ok (on_explain lent)

/-- A change that succeeds was made and saved. -/
theorem on_changeTimeline_eq_ok
    {change : Timeline Float → IdSupply → Except String (Timeline Float × IdSupply)}
    (done : machine.on (changeTimeline folder change).run = (.ok (), after)) :
    ∃ t supply, change folder.timeline machine.supply = .ok (t, supply) ∧
      { machine with supply }.on (saveAndList { folder with timeline := t }).run = (.ok (), after) := by
  cases made : change folder.timeline machine.supply with
  | error message =>
      rw [on_changeTimeline_of_error made] at done
      cases done
  | ok changed =>
      obtain ⟨t, supply⟩ := changed
      rw [on_changeTimeline_of_ok made] at done
      exact ⟨t, supply, rfl, done⟩

end Parts

/-! ## Changing a loaded project -/

section Changes

variable {root : Path} {machine : Machine} {release : Release}
  {next : Folder → Task (StateM Machine) Unit}

/-- What comes after the loading changes the timeline as the released commands do, perhaps after something
that leaves the disk alone. -/
def Changes (next : Folder → Task (StateM Machine) Unit) (release : Release) : Prop :=
  ∀ (folder : Folder) (loaded : Machine), ∃ (ready : Machine)
    (change : Timeline Float → IdSupply → Except String (Timeline Float × IdSupply)),
    ready.disk = loaded.disk ∧
      loaded.on (next folder).run = ready.on (changeTimeline folder change).run ∧
      change folder.timeline ready.supply = released release folder.timeline loaded

theorem Changes.savesOrSpares (changes : Changes next release) (root : Path) (machine : Machine) :
    SavesOrSpares root machine (attempt root release machine)
      (machine.on (loadFolder root >>= next).run) := by
  have untouched := sparesDisk_loadFolder root machine
  rcases loading : machine.on (loadFolder root).run with ⟨stop | folder, loaded⟩
  · rw [loading] at untouched
    have unloaded : attempt root release machine = .error stop := by
      unfold attempt
      rw [loading]
    rw [on_bind_of_error loading, unloaded]
    constructor
    · rintro _ ⟨⟩
      exact ⟨rfl, untouched⟩
    · rintro t ⟨⟩
    · rintro t _ ⟨⟩
  · rw [loading] at untouched
    obtain ⟨ready, change, sameDisk, activity, sameChange⟩ := changes folder loaded
    have made : attempt root release machine =
        ((released release folder.timeline loaded).map Prod.fst).mapError .failed := by
      unfold attempt
      rw [loading]
    rw [on_bind_of_ok loading, activity, made]
    cases result : released release folder.timeline loaded with
    | error message =>
        rw [on_changeTimeline_of_error (sameChange.trans result)]
        constructor
        · rintro _ ⟨⟩
          exact ⟨rfl, sameDisk.trans untouched⟩
        · rintro t ⟨⟩
        · rintro t _ ⟨⟩
    | ok changed =>
        obtain ⟨timeline, supply⟩ := changed
        rw [on_changeTimeline_of_ok (sameChange.trans result), ← root_of_loadFolder loading]
        rcases saving : ({ ready with supply } : Machine).on
          (saveAndList { folder with timeline }).run with ⟨outcome, after⟩
        constructor
        · rintro stop ⟨⟩
        · rintro t ⟨⟩ succeeded
          obtain rfl : outcome = .ok () := succeeded
          have kept := (isStoredOn_of_saveAndList saving).timeline
          exact kept
        · rintro t stop ⟨⟩ failed
          obtain rfl : outcome = .error stop := failed
          exact error_of_saveAndList saving

end Changes

/-! ## Edits and drags -/

theorem EditRequest.apply_eq (request : EditRequest) (t : Timeline Float) (loaded : Machine) :
    request.apply t loaded.supply = released request.release t loaded := by
  unfold EditRequest.apply released EditRequest.release
  cases request.command t loaded.supply with
  | error message => rfl
  | ok made =>
      obtain ⟨command, supply⟩ := made
      change (t.apply supply command).mapError rejected = (t.applyAll supply [command]).mapError rejected
      rw [Timeline.applyAll]
      cases t.apply supply command <;> rfl

theorem dragTimeline_eq (editor : EditorConfig Float) (id : String) (handle : Handle)
    (offsets : List Float) (t : Timeline Float) (loaded : Machine) :
    dragTimeline editor id handle (loaded.on (timed offsets)).1 t (loaded.on (timed offsets)).2.supply =
      released (dragRelease editor id handle offsets) t loaded := by
  unfold dragTimeline released dragRelease
  cases identify t id with
  | error message => rfl
  | ok target =>
      simp only [bind, Except.bind]
      cases Drag.start t target handle ((Zoom.ofScale? editor.zoom).getD .usual)
        editor.dragRate.toNat <;> rfl

theorem sparesDisk_timed (offsets : List Float) : SparesDisk (timed offsets) :=
  sparesDisk_mapM (fun _ => sparesDisk_ticks.bind fun _ => sparesDisk_pure _) offsets

/-- An edit or a drag leaves the disk as it was unless the project is loaded, its element found, the drag
begun and every command accepted. If it succeeds, the timeline file holds what the released commands make
of the loaded timeline one after the other; nothing but the saving can fail then. -/
theorem perform_savesOrSpares (config : Config Float) (root : Path) (machine : Machine) :
    (∀ request, SavesOrSpares root machine (attempt root request.release machine)
        (machine.on (perform config (.edit root request)).run)) ∧
      ∀ id name offsets, SavesOrSpares root machine
        (attemptDrag config.editor root id name offsets machine)
        (machine.on (perform config (.drag root id name offsets)).run) := by
  constructor
  · intro request
    have changes : Changes (changeTimeline · request.apply) request.release := by
      intro folder loaded
      exact ⟨loaded, request.apply, rfl, rfl, request.apply_eq folder.timeline loaded⟩
    exact changes.savesOrSpares root machine
  · intro id name offsets
    change SavesOrSpares root machine _ (machine.on (runDrag config.editor root id name offsets).run)
    unfold runDrag attemptDrag
    cases handle? name with
    | none =>
        constructor
        · rintro _ ⟨⟩
          exact ⟨rfl, rfl⟩
        · rintro t ⟨⟩
        · rintro t _ ⟨⟩
    | some handle =>
        have changes : Changes (fun folder => do
            let movements ← simply (timed offsets)
            changeTimeline folder (dragTimeline config.editor id handle movements))
            (dragRelease config.editor id handle offsets) := by
          intro folder loaded
          have moved : loaded.on (simply (timed offsets) : Task (StateM Machine) _).run =
              (.ok (loaded.on (timed offsets)).1, (loaded.on (timed offsets)).2) := rfl
          exact ⟨(loaded.on (timed offsets)).2, _, sparesDisk_timed offsets loaded,
            on_bind_of_ok moved, dragTimeline_eq config.editor id handle offsets folder.timeline loaded⟩
        exact changes.savesOrSpares root machine

end Montage.Cli

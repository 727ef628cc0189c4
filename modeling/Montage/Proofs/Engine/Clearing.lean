import Montage.Engine.Run
import Montage.Proofs.Engine.Staging
import Montage.Proofs.Render.Acceptance

/-!
Contract: what is left of a staging when a run is over.

Owns:
- the directory that a staging on a machine uses, and when there is one (`stageInputs_directory`);
- that no such directory is left, however the staging and the run end;
- with what is known of staged inputs, the main statement on staging (`staging_keeps_and_clears`).

Does **not** own: what the run reports (`Montage.Proofs.Engine.Run`).

Taking the directory away is the last thing that a run does, so it does not matter what happened before. A
directory that could not be made is no part of that. That there is none then rests on its name, which
nothing on the disk has: the directories above it are named by other parts of its path.
-/

set_option autoImplicit false

namespace Montage

/-! ## Directories that cannot be made -/

namespace Machine

variable {machine after : Machine} {p : Path} {name : String} {e : DiskError}

theorem on_settle_of_error :
    machine.on (Host.settle p (.error e)) =
      (if machine.disk.kind? p = some .directory then .ok () else .error e, machine) := by
  have looked : machine.on (Host.isDirectory p) =
      (machine.disk.kind? p == some .directory, machine) := rfl
  rw [Host.settle, on_bind looked]
  by_cases isDirectory : machine.disk.kind? p = some .directory <;> simp [isDirectory, on_pure]

theorem lacks_of_makeDirectory (lacks : machine.disk.Lacks name) (lacking : name ∉ p.rawParts) :
    (machine.on (Host.makeDirectory p)).2.disk.Lacks name := by
  show (machine.change (machine.disk.makeDirectory p)).2.disk.Lacks name
  cases made : machine.disk.makeDirectory p with
  | error e => exact lacks
  | ok disk => exact lacks.makeDirectory lacking made

theorem eq_of_makeDirectory_error (refused : machine.on (Host.makeDirectory p) = (.error e, after)) :
    after = machine := by
  have changed : machine.change (machine.disk.makeDirectory p) = (.error e, after) := refused
  cases made : machine.disk.makeDirectory p with
  | error f =>
      rw [made] at changed
      exact (congrArg Prod.snd changed).symm
  | ok disk =>
      rw [made] at changed
      cases changed

theorem disk_on_settle (made : Except DiskError Unit) :
    (machine.on (Host.settle p made)).2 = machine := by
  cases made with
  | ok _ => rfl
  | error e => rw [on_settle_of_error]

/-- Making the directories of some paths brings no name onto the disk that the paths do not hold. -/
theorem lacks_of_makeLineage {paths : List Path} (lacking : ∀ q ∈ paths, name ∉ q.rawParts)
    (lacks : machine.disk.Lacks name) :
    (machine.on (Host.makeLineage paths)).2.disk.Lacks name := by
  induction paths generalizing machine with
  | nil => exact lacks
  | cons p above inductionHypothesis =>
      obtain ⟨lackingFirst, lackingAbove⟩ := List.forall_mem_cons.mp lacking
      have first := lacks_of_makeDirectory lacks lackingFirst
      rcases made : machine.on (Host.makeDirectory p) with ⟨made, between⟩
      rw [made] at first
      rw [Host.makeLineage, on_bind made]
      split
      · have climbed := inductionHypothesis lackingAbove first
        rcases outcome : between.on (Host.makeLineage above) with ⟨_ | _, further⟩
        · rw [outcome] at climbed
          rw [on_bind outcome]
          exact climbed
        · rw [outcome] at climbed
          have again := lacks_of_makeDirectory climbed lackingFirst
          rcases remade : further.on (Host.makeDirectory p) with ⟨remade, last⟩
          rw [remade] at again
          rw [on_bind outcome, on_bind remade, disk_on_settle]
          exact again
      · rw [disk_on_settle]
        exact first

/-- What is refused to be made is no directory. -/
theorem kind?_of_settle_error {made : Except DiskError Unit}
    (failed : machine.on (Host.settle p made) = (.error e, after)) :
    after.disk.kind? p ≠ some .directory := by
  cases made with
  | ok _ => cases failed
  | error refusal =>
      rw [on_settle_of_error] at failed
      intro isDirectory
      obtain rfl : machine = after := congrArg Prod.snd failed
      rw [if_pos isDirectory] at failed
      cases failed

/-- Where a directory of a new name cannot be made there is none. -/
theorem kind?_of_makeDirectories_error (isName : IsName name) (lacks : machine.disk.Lacks name)
    (lacking : name ∉ p.rawParts)
    (failed : machine.on (Host.makeDirectories (p.join name)) = (.error e, after)) :
    after.disk.kind? (p.join name) ≠ some .directory := by
  unfold Host.makeDirectories at failed
  rcases Path.not_mem_lineage_join isName lacking with isEmpty | ⟨above, isLineage, lackingAbove⟩
  · rw [isEmpty] at failed
    cases failed
  rw [isLineage, Host.makeLineage] at failed
  rcases made : machine.on (Host.makeDirectory (p.join name)) with ⟨made, between⟩
  rw [on_bind made] at failed
  split at failed
  · -- The directories above were made; none of them has the name.
    obtain rfl : between = machine := eq_of_makeDirectory_error made
    have climbed := lacks_of_makeLineage lackingAbove lacks
    rcases outcome : between.on (Host.makeLineage above) with ⟨refusal | _, further⟩
    · rw [on_bind outcome] at failed
      rw [outcome] at climbed
      obtain rfl : further = after := congrArg Prod.snd failed
      simp [climbed.kind?_join isName]
    · rcases remade : further.on (Host.makeDirectory (p.join name)) with ⟨remade, last⟩
      rw [on_bind outcome, on_bind remade] at failed
      exact kind?_of_settle_error failed
  · exact kind?_of_settle_error failed

end Machine

/-! ## The directory of a staging -/

namespace Engine

open Render (AreApart Input)

variable {α : Type} {input : Input α} {staged next : Staged} {machine between after : Machine}
  {directory : Path}

/-- The directory that a staging on a machine makes, if it makes one. -/
def stagingPath (machine : Machine) : Path :=
  machine.temporary.join (stagingName machine.supply.next)

/-- The name of the next staging directory stands nowhere on the disk, nor in the path of the directory
for temporary files. -/
structure IsUnused (machine : Machine) : Prop where
  disk : machine.disk.Lacks (stagingName machine.supply.next)
  temporary : stagingName machine.supply.next ∉ machine.temporary.rawParts

theorem on_stagingDirectory_of_none (isNew : staged.directory = none) :
    machine.on (stagingDirectory staged) =
      match ({ machine with supply := machine.supply.advance 1 } : Machine).on
          (Host.makeDirectories (stagingPath machine)) with
      | (.ok (), between) => (.ok (stagingPath machine), between)
      | (.error e, between) => (.error e, between) := by
  unfold stagingDirectory
  rw [isNew]
  have named : machine.on Host.temporary = (machine.temporary, machine) := rfl
  have drawn : machine.on Host.freshId =
      (machine.supply.next, { machine with supply := machine.supply.advance 1 }) := rfl
  refine (Machine.on_bind named).trans ((Machine.on_bind drawn).trans ?_)
  rcases made : ({ machine with supply := machine.supply.advance 1 } : Machine).on
      (Host.makeDirectories (stagingPath machine)) with ⟨e | _, between⟩
  · exact Machine.on_bind made
  · exact Machine.on_bind made

/-- An input in memory leaves the directory that it is given, whether it can be written there or not. -/
theorem directory_of_stageInput {refused : Option DiskError} {content : ByteArray}
    (isBytes : input.source = .bytes content)
    (given : machine.on (stagingDirectory staged) = (.ok directory, between))
    (isStaged : machine.on (stageInput staged input) = ((refused, next), after)) :
    next.directory = some directory := by
  rw [on_stageInput_of_ok isBytes given] at isStaged
  split at isStaged <;> (cases isStaged; rfl)

/-- A step keeps a directory that is there. -/
theorem directory_of_stageInput_of_some {refused : Option DiskError}
    (isKnown : staged.directory = some directory)
    (isStaged : machine.on (stageInput staged input) = ((refused, next), after)) :
    next.directory = some directory := by
  cases source : input.source with
  | file own =>
      rw [on_stageInput_file source] at isStaged
      cases isStaged
      exact isKnown
  | bytes content =>
      exact directory_of_stageInput source (on_stagingDirectory_of_some isKnown) isStaged

theorem directory_of_stageInputs_of_some {refused : Option DiskError} {inputs : List (Input α)}
    (isKnown : staged.directory = some directory)
    (isStaged : machine.on (stageInputs staged inputs) = ((refused, next), after)) :
    next.directory = some directory := by
  induction inputs generalizing staged machine with
  | nil =>
      cases isStaged
      exact isKnown
  | cons input rest inductionHypothesis =>
      rw [on_stageInputs_cons] at isStaged
      rcases step : machine.on (stageInput staged input) with ⟨⟨_ | e, further⟩, between⟩
      · rw [step] at isStaged
        exact inductionHypothesis (directory_of_stageInput_of_some isKnown step) isStaged
      · rw [step] at isStaged
        cases isStaged
        exact directory_of_stageInput_of_some isKnown step

/-- The first input in memory gets the directory, or is refused it and there is none. -/
theorem directory_of_stageInput_of_none {refused : Option DiskError} {content : ByteArray}
    (unused : IsUnused machine) (isNew : staged.directory = none) (isBytes : input.source = .bytes content)
    (isStaged : machine.on (stageInput staged input) = ((refused, next), after)) :
    next.directory = some (stagingPath machine) ∨
      next.directory = none ∧ refused ≠ none ∧
        after.disk.kind? (stagingPath machine) ≠ some .directory := by
  have given : machine.on (stagingDirectory staged) = _ := on_stagingDirectory_of_none isNew
  rcases made : ({ machine with supply := machine.supply.advance 1 } : Machine).on
      (Host.makeDirectories (stagingPath machine)) with ⟨e | _, between⟩
  · rw [made] at given
    rw [on_stageInput_of_error isBytes given] at isStaged
    have lacks : ({ machine with supply := machine.supply.advance 1 } : Machine).disk.Lacks
        (stagingName machine.supply.next) := unused.disk
    have absent := Machine.kind?_of_makeDirectories_error
      (isName_stagingName machine.supply.next) lacks unused.temporary made
    cases isStaged
    exact Or.inr ⟨isNew, nofun, absent⟩
  · rw [made] at given
    exact Or.inl (directory_of_stageInput isBytes given isStaged)

/-- A staging with bytes among its inputs has the directory, or was refused it and there is none. -/
theorem directory_of_stageInputs {refused : Option DiskError} {inputs : List (Input α)}
    (unused : IsUnused machine) (isNew : staged.directory = none)
    (inMemory : ∃ input ∈ inputs, IsInMemory input)
    (isStaged : machine.on (stageInputs staged inputs) = ((refused, next), after)) :
    next.directory = some (stagingPath machine) ∨
      next.directory = none ∧ refused ≠ none ∧
        after.disk.kind? (stagingPath machine) ≠ some .directory := by
  induction inputs generalizing staged with
  | nil => simp at inMemory
  | cons input rest inductionHypothesis =>
      rw [on_stageInputs_cons] at isStaged
      cases source : input.source with
      | file own =>
          rw [on_stageInput_file source] at isStaged
          have stillNew : ({ staged with paths := staged.paths ++ [⟨own⟩] } : Staged).directory = none :=
            isNew
          refine inductionHypothesis stillNew ?_ isStaged
          obtain ⟨other, member, isBytes⟩ := inMemory
          rcases List.mem_cons.mp member with rfl | inRest
          · obtain ⟨content, isContent⟩ := isBytes
            simp [source] at isContent
          · exact ⟨other, inRest, isBytes⟩
      | bytes content =>
          rcases step : machine.on (stageInput staged input) with ⟨⟨_ | e, further⟩, between⟩
          · rw [step] at isStaged
            rcases directory_of_stageInput_of_none unused isNew source step with isKnown | ⟨-, refused, -⟩
            · exact Or.inl (directory_of_stageInputs_of_some isKnown isStaged)
            · exact (refused rfl).elim
          · rw [step] at isStaged
            cases isStaged
            exact directory_of_stageInput_of_none unused isNew source step

/-- Inputs that are all files are staged without touching anything. -/
theorem on_stageInputs_of_files {inputs : List (Input α)}
    (files : ∀ input ∈ inputs, ¬ IsInMemory input) :
    ∃ paths, machine.on (stageInputs staged inputs) =
      ((none, { staged with paths := staged.paths ++ paths }), machine) := by
  induction inputs generalizing staged with
  | nil => exact ⟨[], by rw [List.append_nil]; rfl⟩
  | cons input rest inductionHypothesis =>
      obtain ⟨first, others⟩ := List.forall_mem_cons.mp files
      cases source : input.source with
      | bytes content => exact (first ⟨content, source⟩).elim
      | file own =>
          obtain ⟨paths, later⟩ :=
            @inductionHypothesis { staged with paths := staged.paths ++ [⟨own⟩] } others
          refine ⟨⟨own⟩ :: paths, ?_⟩
          rw [on_stageInputs_cons, on_stageInput_file source]
          simpa using later

/-! ## The end of a run -/

/-- Taking the directory of a staging away leaves none, whatever happened to it before. -/
theorem kind?_of_discard {p : Path} {name : String} (isName : IsName name)
    (isKnown : staged.directory = some (p.join name)) :
    (machine.on staged.discard).2.disk.kind? (p.join name) ≠ some .directory := by
  have discarded : (machine.on staged.discard).2 =
      (machine.change (machine.disk.removeDirectory (p.join name))).2 := by
    unfold Staged.discard
    rw [isKnown]
    rfl
  rw [discarded]
  cases removed : machine.disk.removeDirectory (p.join name) with
  | error e => exact Disk.kind?_ne_directory_of_removeDirectory removed
  | ok disk =>
      show disk.kind? (p.join name) ≠ some .directory
      simp [Disk.kind?_of_removeDirectory isName removed]

section Execute

variable [Scalar α] {job : Render.Job α} {program : String} {output : Path}
  {send : Progress α → StateM Machine Unit} {cancelled : Bool}

/-- A run whose staging is refused ends with that. -/
theorem on_execute_of_refused {e : DiskError}
    (refused : machine.on (stageInputs .nothing job.inputs) = ((some e, staged), between)) :
    machine.on (execute program job output send cancelled) =
      (.error (.disk e.message), (between.on staged.discard).2) := by
  unfold execute
  exact Machine.on_bind refused

/-- A run whose inputs are staged takes the directory away after the engine has ended. -/
theorem on_execute_of_staged {result : Except Failure Path}
    (isStaged : machine.on (stageInputs .nothing job.inputs) = ((none, staged), between))
    (ran : between.on (runStaged program job output send cancelled staged.paths) = (result, after)) :
    machine.on (execute program job output send cancelled) =
      (result, (after.on staged.discard).2) := by
  unfold execute
  refine (Machine.on_bind isStaged).trans ?_
  exact Machine.on_bind ran

/-- However a run with bytes among its inputs ends, there is no staging directory afterwards. -/
theorem kind?_of_execute (unused : IsUnused machine)
    (inMemory : ∃ input ∈ job.inputs, IsInMemory input) :
    (machine.on (execute program job output send cancelled)).2.disk.kind? (stagingPath machine) ≠
      some .directory := by
  rcases isStaged : machine.on (stageInputs .nothing job.inputs) with ⟨⟨refused, staged⟩, between⟩
  have cleared (last : Machine) (isKnown : staged.directory = some (stagingPath machine)) :
      (last.on staged.discard).2.disk.kind? (stagingPath machine) ≠ some .directory :=
    kind?_of_discard (isName_stagingName _) isKnown
  rcases directory_of_stageInputs unused rfl inMemory isStaged with isKnown | ⟨isNone, isRefused, absent⟩
  · cases refused with
    | some e =>
        rw [on_execute_of_refused isStaged]
        exact cleared _ isKnown
    | none =>
        rcases ran : between.on (runStaged program job output send cancelled staged.paths) with
          ⟨result, last⟩
        rw [on_execute_of_staged isStaged ran]
        exact cleared _ isKnown
  · obtain ⟨e, rfl⟩ := Option.ne_none_iff_exists'.mp isRefused
    have untouched : (between.on staged.discard).2 = between := by
      unfold Staged.discard
      rw [isNone]
      rfl
    rw [on_execute_of_refused isStaged, untouched]
    exact absent

/-- The inputs of a compiled job, whatever their sources, do not collide when they are staged, and the
directory that they are staged in does not outlast the run, however the staging and the run end. A job
that reads only files uses no directory. -/
theorem staging_keeps_and_clears {t : Timeline α} {assets : Render.Store} {options : Render.Options}
    (compiled : Render.compile t assets options = some (.ok job)) (unused : IsUnused machine) :
    (∀ staged after, machine.on (stageInputs .nothing job.inputs) = ((none, staged), after) →
      IsStaged after.disk job.inputs staged.paths) ∧
    ((∃ input ∈ job.inputs, IsInMemory input) →
      (∀ refused staged after,
        machine.on (stageInputs .nothing job.inputs) = ((refused, staged), after) →
        staged.directory = some (stagingPath machine) ∨ staged.directory = none ∧ refused ≠ none) ∧
      ∀ program output send cancelled,
        (machine.on (execute program job output send cancelled)).2.disk.kind? (stagingPath machine) ≠
          some .directory) ∧
    ((∀ input ∈ job.inputs, ¬ IsInMemory input) →
      ∃ paths, machine.on (stageInputs .nothing job.inputs) = ((none, ⟨none, paths⟩), machine)) := by
  refine ⟨?_, fun inMemory => ⟨?_, ?_⟩, ?_⟩
  · intro staged after isStaged
    exact isStaged_of_stageInputs (Render.areApart_of_compile compiled) isStaged
  · intro refused staged after isStaged
    rcases directory_of_stageInputs unused rfl inMemory isStaged with isKnown | ⟨isNone, isRefused, -⟩
    · exact Or.inl isKnown
    · exact Or.inr ⟨isNone, isRefused⟩
  · intro program output send cancelled
    exact kind?_of_execute unused inMemory
  · intro files
    obtain ⟨paths, isStaged⟩ := @on_stageInputs_of_files α .nothing machine job.inputs files
    exact ⟨paths, isStaged⟩

end Execute

/-! ## A film and a song in memory -/

/-- A film and a song in memory, and between them a photo on the disk. -/
def recording : Timeline Extended :=
  { (Timeline.empty : Timeline Extended) with
    clips :=
      [Clip.ofAsset ⟨1⟩ "film" .video "film.mp4" (some 10) 0,
       Clip.ofAsset ⟨2⟩ "photo" .image "photo.png" none 0,
       Clip.ofAsset ⟨3⟩ "song" .audio "song.mp3" (some 10) 0] }

/-- The assets of the recording. -/
def drawer : Render.Store :=
  .ofList
    [("film", ⟨.bytes ⟨#[1, 2]⟩, "video/mp4", true⟩), ("photo", ⟨.file "photo.png", "image/png", false⟩),
     ("song", ⟨.bytes ⟨#[3]⟩, "audio/mpeg", true⟩)]

/-- A machine with nothing but a directory for temporary files. -/
def tidy : Machine := .ofDisk ⟨[(["tmp"], .directory)], []⟩

theorem recording_compiles :
    ∃ job, Render.compile recording drawer ⟨false, "medium", 23, 192⟩ = some (.ok job) := by
  have lasting : ∀ c ∈ recording.clips, Render.isRenderable c.timelineSpan = true ∧
      Render.isRenderable c.sourceSpan = true := by decide +kernel
  have stored : ∀ c ∈ recording.clips, Render.IsStored drawer c := by decide +kernel
  exact Render.compile_isOk_of_renderable (Or.inl rfl)
    (fun c member => ⟨stored c member, lasting c member⟩) (List.forall_mem_nil _)

theorem recording_stages :
    ∃ plans, Render.planClips drawer 0 (Render.orderedClips recording) = .ok plans ∧
      (∃ input ∈ plans.map (·.1), IsInMemory input) ∧
      (tidy.on (stageInputs .nothing (plans.map (·.1)))).1.1 = none ∧
      (tidy.on (stageInputs .nothing (plans.map (·.1)))).2.disk.kind? (stagingPath tidy) =
        some .directory := by
  have sorted : Render.orderedClips recording = recording.clips := by
    simp [Render.orderedClips, recording, List.mergeSort, List.MergeSort.Internal.splitInTwo,
      Clip.ofAsset]
  rw [sorted]
  obtain ⟨plan?, isPlan⟩ : ∃ plan?, plan? = Render.planClips drawer 0 recording.clips := ⟨_, rfl⟩
  have computed : plan?.isOk = true ∧
      ((plan?.toOption.getD []).map (·.1)).any
        (fun input => input.source == .bytes ⟨#[1, 2]⟩) = true ∧
      (tidy.on (stageInputs .nothing ((plan?.toOption.getD []).map (·.1)))).1.1 = none ∧
      (tidy.on (stageInputs .nothing ((plan?.toOption.getD []).map (·.1)))).2.disk.kind?
        (stagingPath tidy) = some .directory := by
    rw [isPlan]
    decide +kernel
  rw [← isPlan]
  cases plan? with
  | error e => exact (Bool.false_ne_true computed.1).elim
  | ok plans =>
      obtain ⟨input, member, source⟩ := List.any_eq_true.mp computed.2.1
      exact ⟨plans, rfl, ⟨input, member, _, beq_iff_eq.mp source⟩, computed.2.2⟩

/-- The recording is staged in a directory that is there while it is staged, and not any more after any
run. -/
theorem recording_kept_and_cleared :
    ∃ job staged after, Render.compile recording drawer ⟨false, "medium", 23, 192⟩ = some (.ok job) ∧
      tidy.on (stageInputs .nothing job.inputs) = ((none, staged), after) ∧
      after.disk.kind? (stagingPath tidy) = some .directory ∧
      IsStaged after.disk job.inputs staged.paths ∧
      ∀ program output send cancelled,
        (tidy.on (execute program job output send cancelled)).2.disk.kind? (stagingPath tidy) ≠
          some .directory := by
  obtain ⟨plans, planned, inMemory, isDone, isDirectory⟩ := recording_stages
  obtain ⟨job, compiled⟩ := recording_compiles
  obtain ⟨-, -, found, graph, alsoPlanned, -, -, isJob⟩ := Render.compile_eq_ok_iff.mp compiled
  obtain rfl : plans = found := Except.ok.inj (planned.symm.trans alsoPlanned)
  obtain rfl := isJob
  have unused : IsUnused tidy := ⟨⟨by decide, by decide +kernel⟩, by decide +kernel⟩
  obtain ⟨keeps, clears, -⟩ := staging_keeps_and_clears compiled unused
  rcases isStaged : tidy.on (stageInputs .nothing (plans.map (·.1))) with ⟨⟨refused, staged⟩, after⟩
  rw [isStaged] at isDone isDirectory
  obtain rfl : refused = none := isDone
  exact ⟨_, staged, after, compiled, isStaged, isDirectory, keeps staged after isStaged,
    (clears inMemory).2⟩

end Engine

end Montage

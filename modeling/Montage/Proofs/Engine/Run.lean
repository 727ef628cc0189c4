import Montage.Engine.Run
import Montage.Number.Exact
import Montage.Proofs.Engine.Progress
import Montage.Proofs.Engine.Staging
import Montage.Proofs.Machine
import Montage.Render.Compile

/-!
Contract: a run tells what the engine did.

Owns:
- the run of a job on a machine with the reports that it sends (`recorded`);
- how a run ends and what it reports, by what the engine wrote and how it ended (`Faithful`).

Does **not** own: how a job is staged (`Montage.Proofs.Engine.Staging`), and what is left of it
(`Montage.Proofs.Engine.Clearing`).

Four conditions decide, each before the next one: that the run was cancelled, that a line of the output is
no text, that the engine failed, and that it did not. Reports are collected by a receiver that only notes
them, so what is said of them holds of the reports as they are sent.
-/

set_option autoImplicit false

namespace Montage.Engine

open Render (Input Job)

/-! ## Staging beside a record -/

section Beside

variable {α σ : Type} {m : Type → Type} [Monad m] [LawfulMonad m] [Host m]

theorem stagingDirectory_liftM (staged : Staged) :
    (stagingDirectory staged : StateT σ m _) = liftM (stagingDirectory staged : m _) := by
  unfold stagingDirectory
  cases staged.directory with
  | some directory => exact (liftM_pure _).symm
  | none =>
      dsimp only
      rw [liftM_bind]
      refine bind_congr fun temporary => ?_
      rw [liftM_bind]
      refine bind_congr fun id => ?_
      rw [liftM_bind, Host.makeDirectories_liftM]
      refine bind_congr fun made => ?_
      cases made <;> exact (liftM_pure _).symm

theorem stageInput_liftM (staged : Staged) (input : Input α) :
    (stageInput staged input : StateT σ m _) = liftM (stageInput staged input : m _) := by
  unfold stageInput
  cases input.source with
  | file own => exact (liftM_pure _).symm
  | bytes content =>
      dsimp only
      rw [liftM_bind, stagingDirectory_liftM]
      refine bind_congr fun given => ?_
      cases given with
      | error e => exact (liftM_pure _).symm
      | ok directory =>
          dsimp only
          rw [liftM_bind]
          refine bind_congr fun written => ?_
          cases written <;> exact (liftM_pure _).symm

theorem stageInputs_liftM (staged : Staged) (inputs : List (Input α)) :
    (stageInputs staged inputs : StateT σ m _) = liftM (stageInputs staged inputs : m _) := by
  induction inputs generalizing staged with
  | nil => exact (liftM_pure _).symm
  | cons input rest inductionHypothesis =>
      simp only [stageInputs]
      rw [liftM_bind, stageInput_liftM]
      refine bind_congr fun outcome => ?_
      obtain ⟨_ | e, next⟩ := outcome
      · exact inductionHypothesis next
      · exact (liftM_pure _).symm

theorem discard_liftM (staged : Staged) :
    (staged.discard : StateT σ m Unit) = liftM (staged.discard : m Unit) := by
  unfold Staged.discard
  cases staged.directory with
  | none => exact (liftM_pure _).symm
  | some directory =>
      dsimp only
      rw [liftM_bind]
      exact bind_congr fun removed => (liftM_pure _).symm

end Beside

/-! ## Recording -/

variable {α : Type}

/-- An activity on a machine that keeps a record of reports. -/
abbrev Recording (α : Type) := StateT (List (Progress α)) (StateM Machine)

def note (report : Progress α) : Recording α Unit := modify (· ++ [report])

theorem run_sendAll (reports record : List (Progress α)) :
    (sendAll note reports).run record = pure ((), record ++ reports) := by
  induction reports generalizing record with
  | nil =>
      rw [List.append_nil]
      rfl
  | cons report rest inductionHypothesis =>
      rw [sendAll, StateT.run_bind, List.append_cons]
      exact inductionHypothesis (record ++ [report])

section Steps

variable {β γ : Type} {machine between : Machine} {value : β} {record : List (Progress α)}

theorem on_run_bind {activity : Recording α β} {next : β → Recording α γ}
    {further : List (Progress α)}
    (first : machine.on (activity.run record) = ((value, further), between)) :
    machine.on ((activity >>= next).run record) = between.on ((next value).run further) := by
  rw [StateT.run_bind, Machine.on_bind first]

theorem on_run_liftM {activity : StateM Machine β} {next : β → Recording α γ}
    (first : machine.on activity = (value, between)) :
    machine.on ((liftM activity >>= next).run record) = between.on ((next value).run record) := by
  rw [Host.run_liftM_bind, Machine.on_bind first]

end Steps

variable [Scalar α]

/-- The run of a job on a machine, with the reports that it sends in order. -/
def recorded (machine : Machine) (program : String) (job : Job α) (output : Path) (cancelled : Bool) :
    (Except Failure Path × List (Progress α)) × Machine :=
  machine.on ((execute program job output note cancelled).run [])

/-- How the engine's work ends and what is reported of it. -/
def ending (expected : α) (cancelled : Bool) (finished : Finished) :
    Except Failure Unit × List (Progress α) :=
  if cancelled then (.error .cancelled, [])
  else
    match outcome expected finished with
    | (reports, some failure) => (.error failure, reports)
    | (reports, none) => (.ok (), reports)

variable {machine between after : Machine} {program : String} {job : Job α} {output : Path}
  {cancelled : Bool} {staged : Staged} {arguments : List String} {finished : Finished}

theorem on_runJob (expected : α)
    (ran : machine.runProgram program arguments = (.ok finished, after)) :
    machine.on ((runJob program expected arguments note cancelled).run []) =
      (ending expected cancelled finished, after) := by
  have answered : machine.on (Host.run program arguments) = (.ok finished, after) := ran
  unfold runJob ending
  refine (on_run_liftM answered).trans ?_
  cases cancelled with
  | true => rfl
  | false =>
      rcases told : outcome expected finished with ⟨reports, failure⟩
      have sent : after.on ((sendAll note reports).run []) = (((), reports), after) := by
        rw [run_sendAll]
        rfl
      simp only [Bool.false_eq_true, if_false, told]
      refine (on_run_bind sent).trans ?_
      cases failure <;> rfl

theorem on_runJob_of_error {e : DiskError} (expected : α)
    (ran : machine.runProgram program arguments = (.error e, after)) :
    machine.on ((runJob program expected arguments note cancelled).run []) =
      ((.error (.render ("Failed to start ffmpeg: " ++ e.message)), []), after) := by
  have answered : machine.on (Host.run program arguments) = (.error e, after) := ran
  unfold runJob
  exact (on_run_liftM answered).trans rfl

theorem recorded_of_runJob {result : Except Failure Unit} {reports : List (Progress α)}
    (isStaged : machine.on (stageInputs .nothing job.inputs) = ((none, staged), between))
    (isArguments : job.arguments (staged.paths.map Path.bytes) output.bytes = .ok arguments)
    (worked : between.on ((runJob program job.encoding.totalDuration arguments note cancelled).run []) =
      ((result, reports), after)) :
    recorded machine program job output cancelled =
      ((result.map fun _ => output, reports), (after.on staged.discard).2) := by
  have answered : between.on ((runStaged program job output note cancelled staged.paths).run []) =
      ((result.map fun _ => output, reports), after) := by
    unfold runStaged
    rw [isArguments]
    refine (on_run_bind worked).trans ?_
    cases result <;> rfl
  have discarded : after.on staged.discard = ((), (after.on staged.discard).2) := rfl
  unfold recorded execute
  rw [stageInputs_liftM, on_run_liftM isStaged]
  refine (on_run_bind answered).trans ?_
  rw [discard_liftM]
  exact on_run_liftM discarded

theorem recorded_eq
    (isStaged : machine.on (stageInputs .nothing job.inputs) = ((none, staged), between))
    (isArguments : job.arguments (staged.paths.map Path.bytes) output.bytes = .ok arguments)
    (ran : between.runProgram program arguments = (.ok finished, after)) :
    recorded machine program job output cancelled =
      (((ending job.encoding.totalDuration cancelled finished).1.map fun _ => output,
        (ending job.encoding.totalDuration cancelled finished).2), (after.on staged.discard).2) :=
  recorded_of_runJob isStaged isArguments (on_runJob _ ran)

/-- A job whose inputs cannot be staged reports nothing. -/
theorem recorded_of_refused {e : DiskError}
    (isRefused : machine.on (stageInputs .nothing job.inputs) = ((some e, staged), between)) :
    (recorded machine program job output cancelled).1 = (.error (.disk e.message), []) := by
  have discarded : between.on staged.discard = ((), (between.on staged.discard).2) := rfl
  unfold recorded execute
  rw [stageInputs_liftM, on_run_liftM isRefused]
  dsimp only
  rw [pure_bind, discard_liftM]
  exact congrArg Prod.fst (on_run_liftM discarded)

/-! ## What is reported -/

/-- The reports that the lines of an output make, up to the first line that is no text. -/
def reportsOf (expected : α) (finished : Finished) : List (Progress α) :=
  reportsOn expected (readable (lines finished.output.toList))

/-- The last speed that is told before the first line that is no text. -/
def rateOf (finished : Finished) : α := rateTold (readable (lines finished.output.toList))

/-- Whether all lines of the output are text. -/
def IsReadable (finished : Finished) : Prop :=
  ∀ line ∈ lines finished.output.toList, (lineText? line).isSome = true

/-- A result and reports that tell what the engine did. -/
structure Faithful (expected : α) (output : Path) (cancelled : Bool) (finished : Finished)
    (result : Except Failure Path) (reports : List (Progress α)) : Prop where
  /-- A run that is cancelled from the start reports nothing. -/
  whenCancelled : cancelled = true → result = .error .cancelled ∧ reports = []
  /-- An output that is no text is a failure whatever the status is. -/
  whenUnreadable :
    cancelled = false → ¬ IsReadable finished →
      result = .error
        (.render "Failed reading ffmpeg progress: stream did not contain valid UTF-8") ∧
      reports = reportsOf expected finished
  /-- A failed engine gives its own words as the reason, or its status if it has none. -/
  whenFailed :
    cancelled = false → IsReadable finished → finished.status ≠ .exited 0 →
      ∀ words, textOf? finished.errors = some words →
        result = .error
          (.engine (if Text.trim words = "" then "ffmpeg exited with " ++ finished.status.text
            else Text.trim words)) ∧
        reports = reportsOf expected finished
  /-- A success adds a last report. -/
  whenSucceeded :
    cancelled = false → IsReadable finished → finished.status = .exited 0 →
      result = .ok output ∧
      reports = reportsOf expected finished ++
        [{ percent := 100, framesPerSecond := rateOf finished, timemark := Timemark.text expected }]

/-- What is reported beside the lines is that all is done. -/
theorem reports_ending (expected : α) (finished : Finished) :
    ∃ last : List (Progress α), (ending expected false finished).2 = reportsOf expected finished ++ last ∧
      ∀ report ∈ last, report.percent = 100 := by
  unfold ending outcome reportsOf
  rw [listen_nothing]
  cases (lines finished.output.toList).all fun line => (lineText? line).isSome with
  | false => exact ⟨[], (List.append_nil _).symm, nofun⟩
  | true =>
      cases succeeding : finished.status.isSuccess with
      | false => exact ⟨[], by simp, nofun⟩
      | true =>
          refine ⟨[(toldBy (readable (lines finished.output.toList))).lastReport expected], by simp, ?_⟩
          exact List.forall_mem_singleton.mpr rfl

/-! ## Runs -/

theorem arguments_of_stageInputs
    (isStaged : machine.on (stageInputs .nothing job.inputs) = ((none, staged), between))
    (output : Path) :
    ∃ arguments, job.arguments (staged.paths.map Path.bytes) output.bytes = .ok arguments := by
  have length : (staged.paths.map Path.bytes).length = job.inputs.length := by
    rw [List.length_map, length_of_stageInputs isStaged]
    exact Nat.zero_add _
  unfold Job.arguments
  rw [if_pos length]
  exact ⟨_, rfl⟩

/-- How the program ends that a run starts; none if the run does not get as far. -/
def ended? (machine : Machine) (program : String) (job : Job α) (output : Path) : Option Finished :=
  match machine.on (stageInputs .nothing job.inputs) with
  | ((some _, _), _) => none
  | ((none, staged), between) =>
    match job.arguments (staged.paths.map Path.bytes) output.bytes with
    | .error _ => none
    | .ok arguments =>
      match between.runProgram program arguments with
      | (.error _, _) => none
      | (.ok finished, _) => some finished

theorem ended?_eq_some_iff :
    ended? machine program job output = some finished ↔
      ∃ staged between arguments after,
        machine.on (stageInputs .nothing job.inputs) = ((none, staged), between) ∧
        job.arguments (staged.paths.map Path.bytes) output.bytes = .ok arguments ∧
        between.runProgram program arguments = (.ok finished, after) := by
  unfold ended?
  rcases machine.on (stageInputs .nothing job.inputs) with ⟨⟨_ | e, staged⟩, between⟩
  · rcases isArguments : job.arguments (staged.paths.map Path.bytes) output.bytes with e | arguments
    · simp [isArguments]
    · rcases ran : between.runProgram program arguments with ⟨e | other, after⟩ <;>
        simp [isArguments, ran]
  · simp

theorem reports_of_ended? (ended : ended? machine program job output = some finished)
    (cancelled : Bool) :
    (recorded machine program job output cancelled).1.2 =
      (ending job.encoding.totalDuration cancelled finished).2 := by
  obtain ⟨staged, between, arguments, after, isStaged, isArguments, ran⟩ := ended?_eq_some_iff.mp ended
  rw [recorded_eq isStaged isArguments ran]

/-- A run that does not get as far reports nothing. -/
theorem reports_of_ended?_eq_none (stopped : ended? machine program job output = none)
    (cancelled : Bool) : (recorded machine program job output cancelled).1.2 = [] := by
  rcases isStaged : machine.on (stageInputs .nothing job.inputs) with ⟨⟨_ | e, staged⟩, between⟩
  · obtain ⟨arguments, isArguments⟩ := arguments_of_stageInputs isStaged output
    rcases answered : between.runProgram program arguments with ⟨e | finished, after⟩
    · rw [recorded_of_runJob isStaged isArguments (on_runJob_of_error _ answered)]
    · have ended : ended? machine program job output = some finished :=
        ended?_eq_some_iff.mpr ⟨staged, between, arguments, after, isStaged, isArguments, answered⟩
      rw [stopped] at ended
      cases ended
  · rw [recorded_of_refused isStaged]

/-- A machine with a directory for temporary files and an engine that always ends in one way. -/
def studio (finished : Finished) : Machine :=
  { Machine.ofDisk ⟨[(["tmp"], .directory), (["bin"], .directory), (["bin", "ffmpeg"], .file .empty)], []⟩
      with
    programs := fun place => if place = ["bin", "ffmpeg"] then some (.answering finished) else none
    searchPath := [⟨"/bin"⟩] }

/-- A job of ten seconds with one input in memory. -/
def shortFilm : Job α :=
  { inputs := [⟨0, ⟨1⟩, "input0.mp4", "video/mp4", false, none, .bytes ⟨#[1, 2]⟩⟩]
    graph := ⟨[]⟩
    outputs := ⟨Render.videoLabel, none⟩
    encoding := Render.encodingOf Timeline.empty ⟨true, "medium", 23, 192⟩ 10 none }

end Montage.Engine

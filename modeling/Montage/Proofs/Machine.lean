import Mathlib.Order.Defs.Unbundled
import Montage.Machine
import Montage.Proofs.Disk

/-!
Contract: how activities run on a machine, and beside a state of their own.

Owns:
- that the composite requests are answered beside such a state as they are without it, and how an activity
  goes on after a request that leaves the state alone (`run_liftM_bind`);
- activities that only look (`Machine.Finds`), with what the requests of that kind find;
- activities that lead from each machine to a related one (`Machine.Leads`), and how they are put together;
- among them those that leave the disk alone (`Machine.SparesDisk`), those that leave the environment alone
  (`Machine.SparesSettings`), and those that take nothing away from the disk (`Machine.Builds`).

Does **not** own: what a change does to a disk (`Montage.Proofs.Disk`).
-/

set_option autoImplicit false

/-! ## A state beside the requests -/

namespace Montage.Host

variable {σ β γ : Type} {m : Type → Type} [Monad m] [LawfulMonad m]

/-- What is done without the state is done beside it, and the state is passed on. -/
theorem run_liftM_bind (activity : m β) (next : β → StateT σ m γ) (state : σ) :
    ((liftM activity : StateT σ m β) >>= next).run state =
      activity >>= fun value => (next value).run state := by
  simp [liftM, MonadLiftT.monadLift, monadLift, MonadLift.monadLift, StateT.run_bind]

variable [Host m]

theorem isDirectory_liftM (p : Path) :
    (isDirectory p : StateT σ m Bool) = liftM (isDirectory p : m Bool) := by
  unfold isDirectory
  rw [liftM_bind]
  exact bind_congr fun found => (liftM_pure _).symm

theorem settle_liftM (p : Path) (made : Except DiskError Unit) :
    (settle p made : StateT σ m _) = liftM (settle p made : m _) := by
  cases made with
  | ok done => exact (liftM_pure _).symm
  | error e =>
      simp only [settle]
      rw [liftM_bind, isDirectory_liftM]
      refine bind_congr fun found => ?_
      cases found <;> exact (liftM_pure _).symm

theorem makeLineage_liftM (paths : List Path) :
    (makeLineage paths : StateT σ m _) = liftM (makeLineage paths : m _) := by
  induction paths with
  | nil => exact (liftM_pure _).symm
  | cons p above inductionHypothesis =>
      simp only [makeLineage]
      rw [liftM_bind]
      refine bind_congr fun made => ?_
      -- Only a missing directory above leads further up.
      rcases made with (_ | _ | _ | _ | _ | _ | _ | _ | _ | _) | done
      case error.notFound =>
        dsimp only
        rw [liftM_bind, inductionHypothesis]
        refine bind_congr fun outcome => ?_
        cases outcome with
        | error e => exact (liftM_pure _).symm
        | ok _ =>
            dsimp only
            rw [liftM_bind]
            exact bind_congr fun again => settle_liftM p again
      all_goals exact settle_liftM p _

theorem makeDirectories_liftM (p : Path) :
    (makeDirectories p : StateT σ m _) = liftM (makeDirectories p : m _) :=
  makeLineage_liftM p.lineage

end Montage.Host

/-! ## Running -/

namespace Montage.Machine

variable {β γ ε : Type}

def ofDisk (disk : Disk) : Machine :=
  { disk, programs := fun _ => none
    interpreter := fun _ disk => (⟨.empty, .empty, .exited 127⟩, disk)
    searchPath := [], environment := fun _ => none, temporary := ⟨"/tmp"⟩, supply := .ofSeed 0
    clock := ⟨0, 0⟩, output := "", complaints := "" }

/-- The value that an activity gives on a machine, and the machine afterwards. -/
def on (machine : Machine) (activity : StateM Machine β) : β × Machine := activity.run machine

theorem on_pure (machine : Machine) (value : β) : machine.on (pure value) = (value, machine) := rfl

theorem on_bind {machine between : Machine} {activity : StateM Machine β} {next : β → StateM Machine γ}
    {value : β} (first : machine.on activity = (value, between)) :
    machine.on (activity >>= next) = between.on (next value) := by
  unfold on at first ⊢
  rw [StateT.run_bind, first]
  rfl

theorem on_writeText_of_error {machine : Machine} {p : Path} {text : String} {e : DiskError}
    (refused : machine.disk.write p text.toUTF8 = .error e) :
    machine.on (Host.writeText p text) = (.error e, machine) := by
  change machine.change (machine.disk.write p text.toUTF8) = _
  rw [refused]
  rfl

theorem on_writeText_of_ok {machine : Machine} {p : Path} {text : String} {disk : Disk}
    (written : machine.disk.write p text.toUTF8 = .ok disk) :
    machine.on (Host.writeText p text) = (.ok (), { machine with disk }) := by
  change machine.change (machine.disk.write p text.toUTF8) = _
  rw [written]
  rfl

/-! ## Looking -/

/-- On a machine an activity gives a value, and leaves everything as it was. -/
def Finds (activity : StateM Machine β) (machine : Machine) (value : β) : Prop :=
  machine.on activity = (value, machine)

section Finds

variable {machine : Machine} {value : β}

theorem finds_pure : Finds (pure value) machine value := rfl

theorem Finds.bind {activity : StateM Machine β} {next : β → StateM Machine γ} {result : γ}
    (first : Finds activity machine value)
    (second : Finds (next value) machine result) :
    Finds (activity >>= next) machine result :=
  (on_bind first).trans second

theorem finds_mapM {look : γ → StateM Machine β} {found : γ → β} {list : List γ}
    (each : ∀ x ∈ list, Finds (look x) machine (found x)) :
    Finds (list.mapM look) machine (list.map found) := by
  induction list with
  | nil => exact finds_pure
  | cons x rest inductionHypothesis =>
      obtain ⟨first, others⟩ := List.forall_mem_cons.mp each
      rw [List.mapM_cons, List.map_cons]
      exact first.bind ((inductionHypothesis others).bind finds_pure)

-- The library's `filterM` gathers what it keeps back to front, so the induction is over any `kept`.
theorem finds_filterAuxM {look : γ → StateM Machine Bool} {found : γ → Bool} {list : List γ}
    (each : ∀ x ∈ list, Finds (look x) machine (found x)) (kept : List γ) :
    Finds (list.filterAuxM look kept) machine ((list.filter found).reverse ++ kept) := by
  induction list generalizing kept with
  | nil => exact finds_pure
  | cons x rest inductionHypothesis =>
      obtain ⟨first, others⟩ := List.forall_mem_cons.mp each
      refine first.bind ?_
      cases passes : found x with
      | false =>
          rw [List.filter_cons_of_neg (by simp [passes])]
          exact inductionHypothesis others kept
      | true =>
          rw [List.filter_cons_of_pos passes, List.reverse_cons, List.append_assoc]
          exact inductionHypothesis others (x :: kept)

theorem finds_filterM {look : γ → StateM Machine Bool} {found : γ → Bool} {list : List γ}
    (each : ∀ x ∈ list, Finds (look x) machine (found x)) :
    Finds (list.filterM look) machine (list.filter found) := by
  have gathered := finds_filterAuxM each []
  rw [List.append_nil] at gathered
  have turned : Finds (list.filterM look) machine (list.filter found).reverse.reverse :=
    gathered.bind finds_pure
  rwa [List.reverse_reverse] at turned

theorem finds_pathExists (p : Path) :
    Finds (Host.pathExists p) machine (machine.disk.kind? p).isSome := rfl

theorem finds_isFile (p : Path) :
    Finds (Host.isFile p) machine (machine.disk.kind? p == some .file) := rfl

end Finds

/-! ## Attempts -/

section Attempts

variable {machine between after : Machine} {value : β} {e : ε}
  {attempt : ExceptT ε (StateM Machine) β} {next : β → ExceptT ε (StateM Machine) γ}

theorem exists_on_eq_ok (done : (machine.on attempt.run).1.isOk = true) :
    ∃ value after, machine.on attempt.run = (.ok value, after) := by
  rcases outcome : machine.on attempt.run with ⟨e | value, after⟩
  · rw [outcome] at done
    cases done
  · exact ⟨value, after, rfl⟩

theorem on_bind_of_ok (done : machine.on attempt.run = (.ok value, between)) :
    machine.on (attempt >>= next).run = between.on (next value).run := by
  rw [ExceptT.run_bind, on_bind done]

theorem on_bind_of_error (failed : machine.on attempt.run = (.error e, between)) :
    machine.on (attempt >>= next).run = (.error e, between) := by
  rw [ExceptT.run_bind, on_bind failed]
  rfl

/-- An attempt succeeds if its parts succeed one after the other. -/
theorem on_bind_eq_ok {result : γ} :
    machine.on (attempt >>= next).run = (.ok result, after) ↔
      ∃ value between, machine.on attempt.run = (.ok value, between) ∧
        between.on (next value).run = (.ok result, after) := by
  constructor
  · intro done
    rcases first : machine.on attempt.run with ⟨value | value, between⟩
    · rw [on_bind_of_error first] at done
      cases done
    · rw [on_bind_of_ok first] at done
      exact ⟨value, between, rfl, done⟩
  · rintro ⟨value, between, first, second⟩
    rwa [on_bind_of_ok first]

/-- An attempt fails if its first part does, or its second part does after it. -/
theorem on_bind_eq_error :
    machine.on (attempt >>= next).run = (.error e, after) ↔
      machine.on attempt.run = (.error e, after) ∨
        ∃ value between, machine.on attempt.run = (.ok value, between) ∧
          between.on (next value).run = (.error e, after) := by
  rcases first : machine.on attempt.run with ⟨f | value, between⟩
  · rw [on_bind_of_error first]
    simp
  · rw [on_bind_of_ok first]
    constructor
    · exact fun failed => Or.inr ⟨value, between, rfl, failed⟩
    · rintro (impossible | ⟨_, _, done, failed⟩)
      · cases impossible
      · cases done
        exact failed

end Attempts

/-! ## What activities keep -/

/-- An activity leads every machine to one that is related to it. -/
def Leads (related : Machine → Machine → Prop) (activity : StateM Machine β) : Prop :=
  ∀ machine : Machine, related machine (machine.on activity).2

section Leads

variable {related : Machine → Machine → Prop}

theorem Leads.of_on {machine after : Machine} {activity : StateM Machine β} {value : β}
    (leads : Leads related activity) (done : machine.on activity = (value, after)) :
    related machine after := by
  have reached := leads machine
  rwa [done] at reached

variable [IsPreorder Machine related]

theorem leads_pure (value : β) : Leads related (pure value) := fun machine => refl_of related machine

theorem Leads.bind {activity : StateM Machine β} {next : β → StateM Machine γ}
    (first : Leads related activity) (second : ∀ value, Leads related (next value)) :
    Leads related (activity >>= next) :=
  fun machine => trans_of related (first machine) (second _ (machine.on activity).2)

theorem Leads.bind_run {attempt : ExceptT ε (StateM Machine) β}
    {next : β → ExceptT ε (StateM Machine) γ}
    (first : Leads related attempt.run) (second : ∀ value, Leads related (next value).run) :
    Leads related (attempt >>= next).run := by
  rw [ExceptT.run_bind]
  refine first.bind fun outcome => ?_
  cases outcome with
  | error e => exact leads_pure _
  | ok value => exact second value

theorem leads_mapM {activity : γ → StateM Machine β} (each : ∀ x, Leads related (activity x))
    (list : List γ) : Leads related (list.mapM activity) := by
  induction list with
  | nil => exact leads_pure []
  | cons x rest inductionHypothesis =>
      rw [List.mapM_cons]
      exact (each x).bind fun _ => inductionHypothesis.bind fun _ => leads_pure _

theorem leads_settle (p : Path) (made : Except DiskError Unit) : Leads related (Host.settle p made) := by
  cases made with
  | ok done => exact leads_pure _
  | error e =>
      have looked : Leads related (Host.isDirectory p) := fun machine => refl_of related machine
      refine looked.bind fun isDirectory => ?_
      cases isDirectory <;> exact leads_pure _

/-- Directories are made one by one. -/
theorem leads_makeLineage (single : ∀ p, Leads related (Host.makeDirectory p)) (paths : List Path) :
    Leads related (Host.makeLineage paths) := by
  induction paths with
  | nil => exact leads_pure _
  | cons p above inductionHypothesis =>
      refine (single p).bind fun made => ?_
      split
      · refine inductionHypothesis.bind fun outcome => ?_
        cases outcome with
        | error e => exact leads_pure _
        | ok done => exact (single p).bind fun again => leads_settle p again
      · exact leads_settle p _

end Leads

/-! ## Sparing the disk -/

def SameDisk (before after : Machine) : Prop := after.disk = before.disk

instance : IsPreorder Machine SameDisk where
  refl _ := rfl
  trans _ _ _ first second := Eq.trans second first

/-- An activity leaves the disk of every machine as it is. -/
def SparesDisk (activity : StateM Machine β) : Prop :=
  ∀ machine : Machine, (machine.on activity).2.disk = machine.disk

section SparesDisk

theorem SparesDisk.leads {activity : StateM Machine β} (spares : SparesDisk activity) :
    Leads SameDisk activity :=
  spares

theorem sparesDisk_pure (value : β) : SparesDisk (pure value) := fun _ => rfl

theorem SparesDisk.bind {activity : StateM Machine β} {next : β → StateM Machine γ}
    (first : SparesDisk activity) (second : ∀ value, SparesDisk (next value)) :
    SparesDisk (activity >>= next) :=
  first.leads.bind fun value => (second value).leads

theorem SparesDisk.bind_run {attempt : ExceptT ε (StateM Machine) β}
    {next : β → ExceptT ε (StateM Machine) γ}
    (first : SparesDisk attempt.run) (second : ∀ value, SparesDisk (next value).run) :
    SparesDisk (attempt >>= next).run :=
  first.leads.bind_run fun value => (second value).leads

theorem SparesDisk.liftM_run {activity : StateM Machine β} (spares : SparesDisk activity) :
    SparesDisk (liftM activity : ExceptT ε (StateM Machine) β).run :=
  spares.bind fun _ => sparesDisk_pure _

theorem sparesDisk_mapM {activity : γ → StateM Machine β} (each : ∀ x, SparesDisk (activity x))
    (list : List γ) : SparesDisk (list.mapM activity) :=
  leads_mapM (fun x => (each x).leads) list

theorem sparesDisk_pathExists (p : Path) : SparesDisk (Host.pathExists p) := fun _ => rfl

theorem sparesDisk_readFile (p : Path) : SparesDisk (Host.readFile p) := fun _ => rfl

theorem sparesDisk_withIds (use : IdSupply → β × IdSupply) : SparesDisk (Host.withIds use) :=
  fun _ => rfl

theorem sparesDisk_ticks : SparesDisk (Host.ticks) := by
  rintro ⟨disk, programs, interpreter, searchPath, environment, temporary, supply, clock, moments⟩
  cases moments <;> rfl

theorem sparesDisk_readText (p : Path) : SparesDisk (Host.readText p) := by
  refine (sparesDisk_readFile p).bind fun content => ?_
  cases content with
  | error e => exact sparesDisk_pure _
  | ok content =>
      dsimp only
      cases textOf? content <;> exact sparesDisk_pure _

end SparesDisk

/-! ## Sparing the environment -/

/-- Two machines have the same environment. -/
def SameSettings (before after : Machine) : Prop := after.setting? = before.setting?

instance : IsPreorder Machine SameSettings where
  refl _ := rfl
  trans _ _ _ first second := Eq.trans second first

/-- An activity leaves the environment of every machine as it is. -/
def SparesSettings (activity : StateM Machine β) : Prop :=
  ∀ machine : Machine, (machine.on activity).2.setting? = machine.setting?

section SparesSettings

variable {machine : Machine}

theorem SparesSettings.leads {activity : StateM Machine β} (spares : SparesSettings activity) :
    Leads SameSettings activity :=
  spares

/-- A change of the disk spares the environment unless it moves the working directory. -/
theorem setting?_change {made : Except DiskError Disk}
    (stays : ∀ disk, made = .ok disk → disk.working = machine.disk.working) :
    (machine.change made).2.setting? = machine.setting? := by
  cases made with
  | error e => rfl
  | ok disk =>
      funext name
      show setting? { machine with disk } name = _
      unfold setting?
      rw [stays disk rfl]

theorem sparesSettings_makeDirectory (p : Path) : SparesSettings (Host.makeDirectory p) := by
  intro machine
  refine setting?_change fun disk made => ?_
  unfold Disk.makeDirectory at made
  split at made
  · cases made
  · split at made <;> cases made
    rfl

theorem sparesSettings_writeText (p : Path) (text : String) : SparesSettings (Host.writeText p text) := by
  intro machine
  refine setting?_change fun disk written => ?_
  unfold Disk.write at written
  cases free : machine.disk.writable p <;> rw [free] at written <;> cases written
  rfl

theorem sparesSettings_establish (p : Path) (text : String) : SparesSettings (Host.establish p text) := by
  have lineage : Leads SameSettings (Host.makeDirectories (p.parent?.getD ⟨""⟩)) :=
    leads_makeLineage (fun p => (sparesSettings_makeDirectory p).leads) _
  refine lineage.bind fun outcome => ?_
  cases outcome with
  | error e => exact leads_pure _
  | ok done => exact sparesSettings_writeText p text

end SparesSettings

/-! ## Building -/

/-- On the disk of a machine there is what there was on that of another one. -/
def Outlasts (before after : Machine) : Prop := before.disk.Outlasts after.disk

instance : IsPreorder Machine Outlasts where
  refl machine := Disk.Outlasts.refl machine.disk
  trans _ _ _ := Disk.Outlasts.trans

/-- An activity takes nothing away from the disk of any machine. -/
abbrev Builds (activity : StateM Machine β) : Prop := Leads Outlasts activity

section Builds

variable {machine : Machine}

theorem SparesDisk.builds {activity : StateM Machine β} (spares : SparesDisk activity) :
    Builds activity := by
  intro machine
  unfold Outlasts
  rw [spares machine]
  exact Disk.Outlasts.refl machine.disk

theorem outlasts_change {made : Except DiskError Disk}
    (builds : ∀ disk, made = .ok disk → machine.disk.Outlasts disk) :
    Outlasts machine (machine.change made).2 := by
  cases made with
  | error e => exact refl_of Outlasts machine
  | ok disk => exact builds disk rfl

theorem builds_writeText (p : Path) (text : String) : Builds (Host.writeText p text) := fun _ =>
  outlasts_change fun _ written => Disk.outlasts_of_write written

theorem builds_makeDirectories (p : Path) : Builds (Host.makeDirectories p) :=
  leads_makeLineage (fun _ _ => outlasts_change fun _ made => Disk.outlasts_of_makeDirectory made) _

end Builds

end Montage.Machine

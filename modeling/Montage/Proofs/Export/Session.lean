import Montage.Export.Session
import Montage.Proofs.Render.Acceptance

/-!
Contract: any number of calls on one session.

Owns:
- the interleavings of calls (`Scene`, `Event`), in a world that changes as it likes;
- where the guard of a call is while it goes on (`Course.Sound`);
- who has claimed the session, through every step and through every run;
- what a call meets that arrives at a busy session.

Does **not** own: the stages of one call (`Montage.Export.Session`).

The session knows only whether it is busy, and an engine does not look at guards. Two invariants connect
them: of each call, that its guard is where its stages need it; and of all calls, that there is one owner of
the session, whom no variable holds, or none.
-/

set_option autoImplicit false

namespace Montage.Export

open Engine (Progress)

variable {World α : Type}

/-! ## Interleavings -/

/-- A call: what it asks for, whom it reports to, and how far it is. -/
structure Call (World α : Type) where
  request : Request α
  send : Progress α → StateM World Unit
  course : Course α

/-- A session with all calls that were ever made on it, in the world they act on. -/
structure Scene (World α : Type) where
  session : Session
  calls : List (Call World α)
  world : World

/-- What can happen next. -/
inductive Event (World α : Type) where
  | arrives (request : Request α) (send : Progress α → StateM World Unit)
  /-- The task of a call takes its next step. -/
  | advances (index : Nat)
  /-- The worker of a call takes its next step. -/
  | works (index : Nat)
  /-- The engine ends its work for a call. -/
  | concludes (index : Nat) (ending : Ending)
  /-- The worker of a call is lost before it has begun. -/
  | discards (index : Nat) (reason : String)
  /-- A call loses its caller, or its task breaks. -/
  | abandons (index : Nat)
  /-- Somebody else, an engine among them, changes the world. -/
  | alters (world : World)

namespace Scene

def initial (world : World) : Scene World α := ⟨.free, [], world⟩

def moved (scene : Scene World α) (index : Nat) (call : Call World α) (next : Session × Course α) :
    Scene World α :=
  { scene with session := next.1, calls := scene.calls.set index { call with course := next.2 } }

/-- A scene in which something may have happened to one call. -/
def change (scene : Scene World α) (index : Nat)
    (next : Call World α → (Session × Course α) × World) : Scene World α :=
  match scene.calls[index]? with
  | none => scene
  | some call => { scene.moved index call (next call).1 with world := (next call).2 }

variable [Scalar α] [Host (StateM World)]

def stepOf (scene : Scene World α) (call : Call World α) : (Session × Course α) × World :=
  (call.course.step call.request call.send scene.session : StateM World _).run scene.world

/-- The scene after an event; one that concerns no call changes nothing. -/
def after (scene : Scene World α) : Event World α → Scene World α
  | .arrives request send => { scene with calls := scene.calls ++ [⟨request, send, .arriving⟩] }
  | .advances index => scene.change index scene.stepOf
  | .works index =>
    scene.change index fun call => (call.course.work scene.session, scene.world)
  | .concludes index ending =>
    scene.change index fun call => ((scene.session, call.course.conclude ending), scene.world)
  | .discards index reason =>
    scene.change index fun call => ((scene.session, call.course.discard reason), scene.world)
  | .abandons index =>
    scene.change index fun call => (call.course.abandon scene.session, scene.world)
  | .alters world => { scene with world }

def run (scene : Scene World α) (events : List (Event World α)) : Scene World α :=
  events.foldl after scene

end Scene

/-! ## One call -/

/-- A task that has claimed the session and not yet handed its job on. -/
def Stage.isEarly : Stage α → Bool
  | .compiling | .preparing _ | .documenting _ | .announcing _ | .starting _ => true
  | _ => false

/-- A task that has no job at hand any more. -/
def Stage.isLate : Stage α → Bool
  | .waiting | .leaving _ | .ended _ | .dropped => true
  | _ => false

theorem Stage.isEarly_of_isLate {stage : Stage α} (late : stage.isLate = true) :
    stage.isEarly = false := by
  cases stage <;> first | rfl | cases late

/-- A worker whose engine has not ended. -/
def Worker.isOpen : Worker α → Bool
  | .queued _ | .working _ => true
  | _ => false

namespace Course

/-- Whether a call has the guard of the session. -/
def holds (c : Course α) : Bool := c.guard.isSome

/-- The guard of a call is where it has to be. -/
structure Sound (c : Course α) : Prop where
  /-- The task keeps it up to the hand-over. -/
  early : c.stage.isEarly = true → c.guard = some .task
  /-- The worker keeps it until the engine has ended. -/
  engine : c.worker.isOpen = true → c.guard = some .worker
  /-- A task that keeps it goes on to hand it over or to drop it. -/
  task : c.guard = some .task → c.stage.isEarly = true ∨ ∃ result, c.stage = .leaving result
  /-- A worker that keeps it is the one that the task waits for, unless the task was dropped. -/
  worker : c.guard = some .worker → (c.stage = .waiting ∨ c.stage = .dropped) ∧
    (c.worker.isOpen = true ∨ ∃ ending, c.worker = .leaving ending)
  /-- There is no worker before the task has claimed the session. -/
  fresh : c.stage = .arriving → c.worker = .absent

/-- A call that was refused, on its way to its end or there. -/
structure IsRefused (c : Course α) : Prop where
  worker : c.worker = .absent
  guard : c.guard = none
  stage : c.stage = .leaving (.error .busy) ∨ c.stage = .ended (.error .busy) ∨ c.stage = .dropped

/-- What a call that goes on from one point to another does to the session. -/
inductive Moves (session : Session) (c : Course α) : Session × Course α → Prop
  | kept {next : Course α} (same : next.holds = c.holds) : Moves session c (session, next)
  | claimed {next : Course α} (free : session.busy = false) (idle : c.holds = false)
      (holds : next.holds = true) : Moves session c (⟨true⟩, next)
  | released {next : Course α} (held : c.holds = true) (done : next.holds = false) :
      Moves session c (.free, next)

/-- What holds of a call that goes on, whoever of its task and its worker takes the step. -/
structure Goes (session : Session) (c : Course α) (next : Session × Course α) : Prop where
  sound : c.Sound → next.2.Sound
  moves : c.Sound → c.Moves session next
  refused : c.IsRefused → next = (session, next.2) ∧ next.2.IsRefused

section Goes

variable {session : Session} {c : Course α} {stage : Stage α} {worker : Worker α}

theorem goes_self : c.Goes session (session, c) :=
  ⟨id, fun _ => .kept rfl, fun isRefused => ⟨rfl, isRefused⟩⟩

theorem arriving_sound : (arriving : Course α).Sound :=
  ⟨nofun, nofun, nofun, nofun, fun _ => rfl⟩

/-- Without a guard there is nothing for a guard to do. -/
theorem sound_of_none (late : stage.isLate = true) (closed : worker.isOpen = false) :
    Sound ⟨stage, worker, none⟩ where
  early isEarly := (Bool.eq_false_iff.mp (Stage.isEarly_of_isLate late) isEarly).elim
  engine isOpen := (Bool.eq_false_iff.mp closed isOpen).elim
  task := nofun
  worker := nofun
  fresh := by
    rintro rfl
    cases late

theorem Sound.closed (sound : c.Sound) (apart : c.guard ≠ some .worker) : c.worker.isOpen = false := by
  cases isOpen : c.worker.isOpen with
  | false => rfl
  | true => exact (apart (sound.engine isOpen)).elim

/-- The guard is not with the worker while the task is somewhere else than waiting for it. -/
theorem Sound.apart (sound : c.Sound) (notWaiting : c.stage ≠ .waiting)
    (notDropped : c.stage ≠ .dropped) : c.guard ≠ some .worker := by
  intro guarded
  rcases (sound.worker guarded).1 with waits | dropped
  · exact notWaiting waits
  · exact notDropped dropped

/-- The guard is not with a task that neither works for its job nor leaves. -/
theorem Sound.handed (sound : c.Sound) (late : c.stage.isEarly = false)
    (stays : ∀ result, c.stage ≠ .leaving result) : c.guard ≠ some .task := by
  intro guarded
  rcases sound.task guarded with early | ⟨result, leaving⟩
  · rw [late] at early
    cases early
  · exact stays result leaving

theorem guard_eq_none_of_ne {guard : Option Keeper} (notTask : guard ≠ some .task)
    (notWorker : guard ≠ some .worker) : guard = none := by
  rcases guard with _ | _ | _
  · rfl
  · exact (notTask rfl).elim
  · exact (notWorker rfl).elim

/-- A call has no guard before it has claimed the session and after it has ended. -/
theorem Sound.guard_eq_none (sound : c.Sound)
    (outside : c.stage = .arriving ∨ ∃ result, c.stage = .ended result) : c.guard = none := by
  apply guard_eq_none_of_ne
  · apply sound.handed <;> rcases outside with isStage | ⟨result, isStage⟩ <;>
      simp [isStage, Stage.isEarly]
  · apply sound.apart <;> rcases outside with isStage | ⟨result, isStage⟩ <;> simp [isStage]

theorem IsRefused.late (isRefused : c.IsRefused) : c.stage.isLate = true := by
  rcases isRefused.stage with leaving | ended | dropped
  · rw [leaving]; rfl
  · rw [ended]; rfl
  · rw [dropped]; rfl

/-- A task that works for its job goes on with that, or leaves, with its guard. -/
theorem goes_of_early (early : c.stage.isEarly = true)
    (on : stage.isEarly = true ∨ ∃ result, stage = .leaving result) :
    c.Goes session (session, { c with stage }) where
  sound sound := by
    have guarded := sound.early early
    refine ⟨fun _ => guarded, sound.engine, fun _ => on, fun other => ?_, ?_⟩
    · rw [guarded] at other
      cases other
    · rintro rfl
      rcases on with early | ⟨result, leaving⟩
      · cases early
      · cases leaving
  moves _ := .kept rfl
  refused isRefused := by
    rw [Stage.isEarly_of_isLate isRefused.late] at early
    cases early

/-- A worker whose engine has not ended goes on, or drops what it keeps, with its guard. -/
theorem goes_of_open (isOpen : c.worker.isOpen = true)
    (on : worker.isOpen = true ∨ ∃ ending, worker = .leaving ending) :
    c.Goes session (session, { c with worker }) where
  sound sound := by
    refine ⟨sound.early, fun _ => sound.engine isOpen, sound.task,
      fun guarded => ⟨(sound.worker guarded).1, on⟩, fun arriving => ?_⟩
    rw [sound.fresh arriving] at isOpen
    cases isOpen
  moves _ := .kept rfl
  refused isRefused := by
    rw [isRefused.worker] at isOpen
    cases isOpen

/-- A guard that is dropped frees the session. -/
theorem goes_of_drop {keeper : Keeper} (guarded : c.guard = some keeper)
    (late : c.Sound → stage.isLate = true) (closed : c.Sound → worker.isOpen = false) :
    c.Goes session (.free, ⟨stage, worker, none⟩) where
  sound sound := sound_of_none (late sound) (closed sound)
  moves _ := .released (by rw [holds, guarded]; rfl) rfl
  refused isRefused := by
    rw [isRefused.guard] at guarded
    cases guarded

/-! ### Steps -/

theorem conclude_goes (ending : Ending) : c.Goes session (session, c.conclude ending) := by
  unfold conclude
  split
  case h_1 job working => exact goes_of_open (by rw [working]; rfl) (Or.inr ⟨ending, rfl⟩)
  case h_2 => exact goes_self

theorem discard_goes (reason : String) : c.Goes session (session, c.discard reason) := by
  unfold discard
  split
  case h_1 job queued => exact goes_of_open (by rw [queued]; rfl) (Or.inr ⟨.broken reason, rfl⟩)
  case h_2 => exact goes_self

theorem work_goes : c.Goes session (c.work session) := by
  unfold work
  split
  case h_1 job queued => exact goes_of_open (by rw [queued]; rfl) (Or.inl rfl)
  case h_2 ending leaving =>
    by_cases guarded : c.guard = some .worker
    · rw [if_pos guarded, dropGuard, if_pos guarded]
      refine goes_of_drop guarded (fun sound => ?_) fun _ => by rw [leaving]; rfl
      rcases (sound.worker guarded).1 with waits | dropped
      · rw [waits]; rfl
      · rw [dropped]; rfl
    · rw [if_neg guarded]
      refine ⟨fun sound => ⟨sound.early, nofun, sound.task, fun kept => (guarded kept).elim, ?_⟩,
        fun _ => .kept rfl, fun isRefused => ?_⟩
      · intro arriving
        rw [sound.fresh arriving] at leaving
        cases leaving
      · rw [isRefused.worker] at leaving
        cases leaving
  case h_3 => exact goes_self

theorem abandon_goes : c.Goes session (c.abandon session) := by
  unfold abandon
  split
  case h_1 => exact goes_self
  case h_2 => exact goes_self
  case h_3 =>
    unfold dropGuard
    split
    case isTrue guarded =>
      refine goes_of_drop guarded (fun _ => rfl) fun sound => sound.closed ?_
      rw [show c.guard = some .task from guarded]
      nofun
    case isFalse apart =>
      exact ⟨fun sound => ⟨nofun, sound.engine, fun kept => (apart kept).elim,
          fun kept => ⟨Or.inr rfl, (sound.worker kept).2⟩, nofun⟩,
        fun _ => .kept rfl,
        fun isRefused => ⟨rfl, isRefused.worker, isRefused.guard, Or.inr (Or.inr rfl)⟩⟩

theorem leave_goes {result : Except Failure Path} (leaving : c.stage = .leaving result) :
    c.Goes session (c.leave result session) := by
  unfold leave
  by_cases guarded : c.guard = some .task
  · rw [if_pos guarded, dropGuard, if_pos guarded]
    refine goes_of_drop guarded (fun _ => by rw [leaving]; rfl) fun sound => sound.closed ?_
    rw [guarded]
    nofun
  · rw [if_neg guarded]
    refine ⟨fun sound => ?_, fun _ => .kept rfl,
      fun isRefused => ⟨rfl, isRefused.worker, isRefused.guard, ?_⟩⟩
    · have apart := sound.apart (by rw [leaving]; nofun) (by rw [leaving]; nofun)
      exact ⟨nofun, sound.engine, fun kept => (guarded kept).elim, fun kept => (apart kept).elim,
        nofun⟩
    · rcases isRefused.stage with isLeaving | isEnded | isDropped
      · rw [leaving] at isLeaving
        cases isLeaving
        exact Or.inr (Or.inl rfl)
      · rw [leaving] at isEnded
        cases isEnded
      · rw [leaving] at isDropped
        cases isDropped

theorem claim_goes (arriving : c.stage = .arriving) : c.Goes session (c.claim session) := by
  have guarded (sound : c.Sound) : c.guard = none := sound.guard_eq_none (Or.inl arriving)
  have unrefused (isRefused : c.IsRefused) : False := by
    rcases isRefused.stage with isStage | isStage | isStage <;> rw [arriving] at isStage <;>
      cases isStage
  unfold claim
  cases busy : session.busy with
  | true =>
      refine ⟨fun sound => ?_, fun _ => .kept rfl, fun isRefused => (unrefused isRefused).elim⟩
      have closed := sound.closed (by rw [guarded sound]; nofun)
      rw [guarded sound]
      exact sound_of_none rfl closed
  | false =>
      refine ⟨fun sound => ?_, fun sound => .claimed busy (by rw [holds, guarded sound]; rfl) rfl,
        fun isRefused => (unrefused isRefused).elim⟩
      refine ⟨fun _ => rfl, fun isOpen => ?_, fun _ => Or.inl rfl, nofun, nofun⟩
      have closed := sound.closed (by rw [guarded sound]; nofun)
      exact (Bool.eq_false_iff.mp closed isOpen).elim

theorem handOver_goes {job : Render.Job α} (starting : c.stage = .starting job) :
    c.Goes session (session, c.handOver job) := by
  have early : c.stage.isEarly = true := by rw [starting]; rfl
  refine ⟨fun sound => ?_, fun _ => .kept (by simp [handOver, holds]), fun isRefused => ?_⟩
  · have guarded := sound.early early
    refine ⟨nofun, fun _ => by rw [handOver, guarded]; rfl, fun kept => ?_,
      fun _ => ⟨Or.inl rfl, Or.inl rfl⟩, nofun⟩
    rw [handOver, guarded] at kept
    cases kept
  · rw [Stage.isEarly_of_isLate isRefused.late] at early
    cases early

theorem collect_goes (waiting : c.stage = .waiting) : c.Goes session (session, c.collect) := by
  unfold collect
  split
  case h_1 ending isDone =>
    refine ⟨fun sound => ?_, fun _ => .kept rfl, fun isRefused => ?_⟩
    · have notTask := sound.handed (by rw [waiting]; rfl) (by rw [waiting]; nofun)
      have notWorker : c.guard ≠ some .worker := by
        intro kept
        rcases (sound.worker kept).2 with isOpen | ⟨other, leaving⟩
        · rw [isDone] at isOpen
          cases isOpen
        · rw [isDone] at leaving
          cases leaving
      rw [guard_eq_none_of_ne notTask notWorker, isDone]
      exact sound_of_none rfl rfl
    · rw [isRefused.worker] at isDone
      cases isDone
  case h_2 => exact goes_self

variable [Scalar α] [Host (StateM World)]

theorem step_goes (request : Request α) (send : Progress α → StateM World Unit) (world : World) :
    c.Goes session ((c.step request send session : StateM World _).run world).1 := by
  obtain ⟨stage, worker, guard⟩ := c
  have onward {stage next : Stage α} (early : stage.isEarly = true)
      (on : next.isEarly = true ∨ ∃ result, next = .leaving result) :
      (⟨stage, worker, guard⟩ : Course α).Goes session (session, ⟨next, worker, guard⟩) :=
    goes_of_early early on
  cases stage with
  | arriving => exact claim_goes rfl
  | compiling =>
      simp only [step]
      rcases Render.compile request.timeline request.assets request.options with _ | e | job
      · exact goes_self
      · exact onward rfl (Or.inr ⟨_, rfl⟩)
      · exact onward rfl (Or.inl rfl)
  | preparing job =>
      simp only [step, StateT.run_bind]
      generalize (prepare request.output : StateM World (Except DiskError Unit)).run world = outcome
      obtain ⟨e | -, left⟩ := outcome
      · exact onward rfl (Or.inr ⟨_, rfl⟩)
      · exact onward rfl (Or.inl rfl)
  | documenting job => exact onward rfl (Or.inl rfl)
  | announcing job => exact onward rfl (Or.inl rfl)
  | starting job => exact handOver_goes rfl
  | waiting => exact collect_goes rfl
  | leaving result => exact leave_goes rfl
  | ended result => exact goes_self
  | dropped => exact goes_self

end Goes

end Course

/-! ## The owner of the session -/

namespace Scene

/-- The session is claimed by the call at the owner's place and by no other. -/
structure OwnedBy (scene : Scene World α) (owner : Option Nat) : Prop where
  present : ∀ index ∈ owner, index < scene.calls.length
  busy : scene.session.busy = owner.isSome
  only : ∀ (index : Nat) (call : Call World α),
    scene.calls[index]? = some call → (call.course.holds = true ↔ owner = some index)

section Owner

variable {scene : Scene World α} {owner : Option Nat}

theorem initial_owned (world : World) : (initial world : Scene World α).OwnedBy none where
  present := by
    intro index isOwner
    cases isOwner
  busy := rfl
  only := by
    intro index call found
    cases found

theorem OwnedBy.exclusive (owned : scene.OwnedBy owner) {i j : Nat}
    {c d : Call World α} (isFirst : scene.calls[i]? = some c) (isSecond : scene.calls[j]? = some d)
    (first : c.course.guard.isSome) (second : d.course.guard.isSome) : i = j := by
  have one := (owned.only i c isFirst).mp first
  have other := (owned.only j d isSecond).mp second
  rw [one] at other
  exact Option.some.inj other

theorem OwnedBy.busy_iff (owned : scene.OwnedBy owner) :
    scene.session.busy = true ↔ ∃ c ∈ scene.calls, c.course.guard.isSome := by
  rw [owned.busy, Option.isSome_iff_exists]
  constructor
  · rintro ⟨i, isOwner⟩
    have bound := owned.present i isOwner
    have found : scene.calls[i]? = some scene.calls[i] := List.getElem?_eq_getElem bound
    exact ⟨scene.calls[i], List.getElem_mem bound, (owned.only i _ found).mpr isOwner⟩
  · rintro ⟨c, member, holds⟩
    obtain ⟨i, found⟩ := List.mem_iff_getElem?.mp member
    exact ⟨i, (owned.only i c found).mp holds⟩

theorem OwnedBy.alters (owned : scene.OwnedBy owner) (world : World) :
    OwnedBy { scene with world } owner :=
  ⟨owned.present, owned.busy, owned.only⟩

/-- A call that has just arrived holds nothing. -/
theorem OwnedBy.arrives (owned : scene.OwnedBy owner) (request : Request α)
    (send : Progress α → StateM World Unit) :
    OwnedBy { scene with calls := scene.calls ++ [⟨request, send, .arriving⟩] } owner where
  present := by
    intro index isOwner
    have bound := owned.present index isOwner
    rw [List.length_append]
    omega
  busy := owned.busy
  only := by
    intro index call found
    rcases Nat.lt_or_ge index scene.calls.length with early | late
    · rw [List.getElem?_append_left early] at found
      exact owned.only index call found
    · have isLast : call = ⟨request, send, .arriving⟩ := by
        rw [List.getElem?_append_right late] at found
        exact List.mem_singleton.mp (List.mem_of_getElem? found)
      rw [isLast]
      refine iff_of_false Bool.false_ne_true fun isOwner => ?_
      have bound := owned.present index isOwner
      omega

theorem getElem?_moved {index other : Nat} {call d : Call World α} {next : Session × Course α}
    (present : scene.calls[index]? = some call)
    (found : (scene.moved index call next).calls[other]? = some d) :
    (other = index ∧ d = { call with course := next.2 }) ∨
      (other ≠ index ∧ scene.calls[other]? = some d) := by
  have bound : index < scene.calls.length := (List.getElem?_eq_some_iff.mp present).1
  unfold moved at found
  rw [List.getElem?_set] at found
  by_cases same : index = other
  · rw [if_pos same, if_pos bound] at found
    exact Or.inl ⟨same.symm, (Option.some.inj found).symm⟩
  · rw [if_neg same] at found
    exact Or.inr ⟨Ne.symm same, found⟩

/-- A call that goes on keeps the session, takes it from nobody, or gives back what is its own. -/
theorem OwnedBy.moved (owned : scene.OwnedBy owner) {index : Nat} {call : Call World α}
    (found : scene.calls[index]? = some call) {next : Session × Course α}
    (moves : call.course.Moves scene.session next) :
    ∃ owner, (scene.moved index call next).OwnedBy owner := by
  have bound : index < scene.calls.length := (List.getElem?_eq_some_iff.mp found).1
  have own := owned.only index call found
  -- Who owns the session afterwards depends on what the move does to it: the owner stays, the call
  -- becomes the owner, or nobody is.
  cases moves with
  | kept same =>
      refine ⟨owner, ?_, owned.busy, ?_⟩
      · intro place isOwner
        rw [Scene.moved, List.length_set]
        exact owned.present place isOwner
      · intro other d isCall
        rcases getElem?_moved found isCall with ⟨rfl, rfl⟩ | ⟨-, before⟩
        · rw [same]
          exact own
        · exact owned.only other d before
  | claimed free idle holds =>
      have nobody : owner = none := by
        rw [owned.busy] at free
        exact Option.isSome_eq_false_iff.mp free |> Option.isNone_iff_eq_none.mp
      refine ⟨some index, ?_, rfl, ?_⟩
      · rintro place isOwner
        cases isOwner
        rw [Scene.moved, List.length_set]
        exact bound
      · intro other d isCall
        rcases getElem?_moved found isCall with ⟨rfl, rfl⟩ | ⟨apart, before⟩
        · exact iff_of_true holds rfl
        · rw [owned.only other d before, nobody]
          exact iff_of_false nofun fun isOwner => apart (Option.some.inj isOwner).symm
  | released held done =>
      have mine : owner = some index := own.mp held
      refine ⟨none, nofun, rfl, ?_⟩
      intro other d isCall
      rcases getElem?_moved found isCall with ⟨rfl, rfl⟩ | ⟨apart, before⟩
      · exact iff_of_false (by rw [done]; exact Bool.false_ne_true) nofun
      · rw [owned.only other d before, mine]
        exact iff_of_false (fun isOwner => apart (Option.some.inj isOwner).symm) nofun

end Owner

/-! ## Events -/

/-- What one event can make of a scene. -/
inductive Follows (scene : Scene World α) : Scene World α → Prop
  | same : Follows scene scene
  | altered (world : World) : Follows scene { scene with world }
  | arrived (request : Request α) (send : Progress α → StateM World Unit) :
      Follows scene { scene with calls := scene.calls ++ [⟨request, send, .arriving⟩] }
  | moved {index : Nat} {call : Call World α} {next : Session × Course α}
      (found : scene.calls[index]? = some call) (goes : call.course.Goes scene.session next)
      (world : World) : Follows scene { scene.moved index call next with world }

/-- The guards of all calls are where they have to be, and one call at most has one. -/
structure Guarded (scene : Scene World α) : Prop where
  owned : ∃ owner, scene.OwnedBy owner
  sound : ∀ call ∈ scene.calls, call.course.Sound

section Follows

variable {scene later : Scene World α}

theorem initial_guarded (world : World) : (initial world : Scene World α).Guarded :=
  ⟨⟨none, initial_owned world⟩, List.forall_mem_nil _⟩

theorem Follows.guarded (follows : scene.Follows later) (guarded : scene.Guarded) : later.Guarded := by
  obtain ⟨⟨owner, owned⟩, sound⟩ := guarded
  cases follows with
  | same => exact ⟨⟨owner, owned⟩, sound⟩
  | altered world => exact ⟨⟨owner, owned.alters world⟩, sound⟩
  | arrived request send =>
      refine ⟨⟨owner, owned.arrives request send⟩, ?_⟩
      exact List.forall_mem_append.mpr ⟨sound, List.forall_mem_singleton.mpr Course.arriving_sound⟩
  | @moved index call next found goes world =>
      have isSound := sound call (List.mem_of_getElem? found)
      obtain ⟨owner, moved⟩ := owned.moved found (goes.moves isSound)
      refine ⟨⟨owner, moved.alters world⟩, fun d member => ?_⟩
      rcases List.mem_or_eq_of_mem_set member with before | rfl
      · exact sound d before
      · exact goes.sound isSound

/-- A call that drops its guard frees the session in the same event. -/
theorem Follows.free_of_dropped (follows : scene.Follows later) (guarded : scene.Guarded) {index : Nat}
    {call dropped : Call World α} (before : scene.calls[index]? = some call)
    (held : call.course.holds = true) (after : later.calls[index]? = some dropped)
    (done : dropped.course.holds = false) : later.session = .free := by
  have unmoved (kept : scene.calls[index]? = some dropped) : later.session = .free := by
    rw [before] at kept
    cases kept
    rw [held] at done
    cases done
  cases follows with
  | same => exact unmoved after
  | altered world => exact unmoved after
  | arrived request send =>
      have bound : index < scene.calls.length := (List.getElem?_eq_some_iff.mp before).1
      refine unmoved ?_
      rwa [List.getElem?_append_left bound] at after
  | moved found goes world =>
      rcases getElem?_moved found after with ⟨rfl, rfl⟩ | ⟨-, kept⟩
      · rw [before] at found
        cases found
        cases goes.moves (guarded.sound call (List.mem_of_getElem? before)) with
        | kept same =>
            rw [same, held] at done
            cases done
        | claimed _ idle _ =>
            rw [held] at idle
            cases idle
        | released _ _ => rfl
      · exact unmoved kept

/-- A call that was refused stays so. -/
theorem Follows.refused (follows : scene.Follows later) {index : Nat} {call : Call World α}
    (found : scene.calls[index]? = some call) (isRefused : call.course.IsRefused) :
    ∃ d, later.calls[index]? = some d ∧ d.course.IsRefused := by
  have bound : index < scene.calls.length := (List.getElem?_eq_some_iff.mp found).1
  cases follows with
  | same => exact ⟨call, found, isRefused⟩
  | altered world => exact ⟨call, found, isRefused⟩
  | arrived request send =>
      refine ⟨call, ?_, isRefused⟩
      show (scene.calls ++ _)[index]? = some call
      rwa [List.getElem?_append_left bound]
  | @moved place d next present goes world =>
      show ∃ e, (scene.calls.set place { d with course := next.2 })[index]? = some e ∧ _
      rw [List.getElem?_set]
      by_cases same : place = index
      · subst same
        rw [found] at present
        cases present
        rw [if_pos rfl, if_pos bound]
        exact ⟨_, rfl, (goes.refused isRefused).2⟩
      · rw [if_neg same]
        exact ⟨call, found, isRefused⟩

end Follows

section Runs

variable {scene : Scene World α}

theorem follows_change {index : Nat} {next : Call World α → (Session × Course α) × World}
    (goes : ∀ call : Call World α, call.course.Goes scene.session (next call).1) :
    scene.Follows (scene.change index next) := by
  unfold change
  split
  case h_1 => exact .same
  case h_2 call found => exact .moved found (goes call) _

variable [Scalar α] [Host (StateM World)]

theorem follows_after (scene : Scene World α) (event : Event World α) :
    scene.Follows (scene.after event) := by
  cases event with
  | arrives request send => exact .arrived request send
  | advances index =>
      exact follows_change fun call => Course.step_goes call.request call.send scene.world
  | works index => exact follows_change fun _ => Course.work_goes
  | concludes index ending => exact follows_change fun _ => Course.conclude_goes ending
  | discards index reason => exact follows_change fun _ => Course.discard_goes reason
  | abandons index => exact follows_change fun _ => Course.abandon_goes
  | alters world => exact .altered world

theorem Guarded.run (guarded : scene.Guarded) (events : List (Event World α)) :
    (scene.run events).Guarded := by
  induction events generalizing scene with
  | nil => exact guarded
  | cons event rest inductionHypothesis =>
      exact inductionHypothesis ((scene.follows_after event).guarded guarded)

/-! ## Calls that are refused -/

theorem refused_run {index : Nat} {call : Call World α} (found : scene.calls[index]? = some call)
    (isRefused : call.course.IsRefused) (events : List (Event World α)) :
    ∃ d, (scene.run events).calls[index]? = some d ∧ d.course.IsRefused := by
  induction events generalizing scene call with
  | nil => exact ⟨call, found, isRefused⟩
  | cons event rest inductionHypothesis =>
      obtain ⟨d, stays, stillRefused⟩ := (scene.follows_after event).refused found isRefused
      exact inductionHypothesis stays stillRefused

/-- The task of a refused call does nothing to the session or to the world, and ends as busy. -/
theorem advances_of_refused {index : Nat} {call : Call World α} (found : scene.calls[index]? = some call)
    (isRefused : call.course.IsRefused) :
    (scene.after (.advances index)).session = scene.session ∧
      (scene.after (.advances index)).world = scene.world ∧
      (call.course.stage = .leaving (.error .busy) →
        ∃ d, (scene.after (.advances index)).calls[index]? = some d ∧
          d.course.stage = .ended (.error .busy)) := by
  have bound : index < scene.calls.length := (List.getElem?_eq_some_iff.mp found).1
  have stepped : ∃ next : Course α, scene.stepOf call = ((scene.session, next), scene.world) ∧
      (call.course.stage = .leaving (.error .busy) → next.stage = .ended (.error .busy)) := by
    unfold stepOf Course.step
    rcases isRefused.stage with leaving | ended | dropped
    · rw [leaving]
      refine ⟨{ call.course with stage := .ended (.error .busy) }, ?_, fun _ => rfl⟩
      have unguarded : call.course.guard ≠ some .task := by
        rw [isRefused.guard]
        nofun
      simp only [Course.leave, if_neg unguarded]
      rfl
    · rw [ended]
      exact ⟨call.course, rfl, nofun⟩
    · rw [dropped]
      exact ⟨call.course, rfl, nofun⟩
  obtain ⟨next, isNext, ends⟩ := stepped
  have changed : scene.after (.advances index) = scene.moved index call (scene.session, next) := by
    simp only [after, change, found, isNext]
    rfl
  rw [changed]
  exact ⟨rfl, rfl, fun leaving => ⟨_, List.getElem?_set_self bound, ends leaving⟩⟩

/-- A call that finds the session busy does nothing but to turn back. -/
theorem advances_of_busy {index : Nat} {call : Call World α}
    (found : scene.calls[index]? = some call) (arriving : call.course.stage = .arriving)
    (busy : scene.session.busy = true) :
    scene.after (.advances index) =
      scene.moved index call (scene.session, { call.course with stage := .leaving (.error .busy) }) := by
  have refused : scene.stepOf call =
      ((scene.session, { call.course with stage := .leaving (.error .busy) }), scene.world) := by
    unfold stepOf Course.step
    rw [arriving]
    simp only [Course.claim, busy, if_true]
    rfl
  simp only [after, change, found, refused]
  rfl

/-! ## Runs -/

/-- What holds at every moment of the calls on one session. -/
structure Orderly (scene : Scene World α) : Prop where
  /-- At most one call has the guard of the session. -/
  exclusive : ∀ (i j : Nat) (c d : Call World α), scene.calls[i]? = some c →
    scene.calls[j]? = some d → c.course.guard.isSome → d.course.guard.isSome → i = j
  /-- The session is busy exactly while a call has its guard. -/
  busy_iff : scene.session.busy = true ↔ ∃ c ∈ scene.calls, c.course.guard.isSome
  /-- An engine works only for the call that has the guard, whose worker keeps it. -/
  engine : ∀ c ∈ scene.calls, ∀ job, c.course.worker = .working job → c.course.guard = some .worker
  /-- A call that finds the session busy turns back: its first step changes nothing else, no step that it
  takes afterwards changes the session or the world, it never has a worker, and it ends as busy. -/
  refused : ∀ (i : Nat) (c : Call World α), scene.calls[i]? = some c → c.course.stage = .arriving →
    scene.session.busy = true →
    let first := scene.after (.advances i)
    first = scene.moved i c (scene.session, { c.course with stage := .leaving (.error .busy) }) ∧
      ∀ events, let later := first.run events
        ∃ d, later.calls[i]? = some d ∧ d.course.IsRefused ∧
          (later.after (.advances i)).session = later.session ∧
          (later.after (.advances i)).world = later.world ∧
          (d.course.stage = .leaving (.error .busy) →
            ∃ e, (later.after (.advances i)).calls[i]? = some e ∧
              e.course.stage = .ended (.error .busy))
  /-- A call whose result is delivered has no guard any more. -/
  released : ∀ c ∈ scene.calls, ∀ result, c.course.stage = .ended result → c.course.guard = none
  /-- The event in which a call loses its guard frees the session. -/
  freed : ∀ (event : Event World α) (i : Nat) (c d : Call World α), scene.calls[i]? = some c →
    c.course.guard.isSome → (scene.after event).calls[i]? = some d → d.course.guard = none →
    (scene.after event).session = .free

/-- A call that turns back is refused, whatever happens afterwards. -/
theorem refused_of_busy {i : Nat} {c : Call World α} (found : scene.calls[i]? = some c)
    (sound : c.course.Sound) (arriving : c.course.stage = .arriving)
    (busy : scene.session.busy = true) (events : List (Event World α)) :
    ∃ d, ((scene.after (.advances i)).run events).calls[i]? = some d ∧ d.course.IsRefused := by
  have bound : i < scene.calls.length := (List.getElem?_eq_some_iff.mp found).1
  have isRefused : Course.IsRefused { c.course with stage := .leaving (.error .busy) } :=
    ⟨sound.fresh arriving, sound.guard_eq_none (Or.inl arriving), Or.inl rfl⟩
  rw [advances_of_busy found arriving busy]
  let turned : Call World α := { c with course := { c.course with stage := .leaving (.error .busy) } }
  have isTurned : (scene.moved i c (scene.session, turned.course)).calls[i]? = some turned :=
    List.getElem?_set_self bound
  exact refused_run isTurned isRefused events

theorem Guarded.orderly (guarded : scene.Guarded) : scene.Orderly := by
  obtain ⟨owner, owned⟩ := guarded.owned
  constructor
  case exclusive => exact fun i j c d => owned.exclusive
  case busy_iff => exact owned.busy_iff
  case engine =>
    intro c member job working
    exact (guarded.sound c member).engine (by rw [working]; rfl)
  case refused =>
    intro i c found arriving busy
    have sound := guarded.sound c (List.mem_of_getElem? found)
    refine ⟨advances_of_busy found arriving busy, fun events => ?_⟩
    obtain ⟨d, stays, isRefused⟩ := refused_of_busy found sound arriving busy events
    exact ⟨d, stays, isRefused, advances_of_refused stays isRefused⟩
  case released =>
    intro c member result ended
    exact (guarded.sound c member).guard_eq_none (Or.inr ⟨result, ended⟩)
  case freed =>
    intro event i c d before held after dropped
    refine (scene.follows_after event).free_of_dropped guarded before held after ?_
    rw [Course.holds, dropped]
    rfl

/-- Whatever the calls on a session do, and however they end, at most one export runs at a time. -/
theorem run_orderly (world : World) (events : List (Event World α)) :
    ((initial world).run events).Orderly :=
  ((initial_guarded world).run events).orderly

/-! ## A second call -/

/-- The scene of one call with a claim on the session. -/
def alone (request : Request α) (send : Progress α → StateM World Unit) (course : Course α)
    (world : World) : Scene World α :=
  ⟨⟨true⟩, [⟨request, send, course⟩], world⟩

/-- The events that take a first call from its arrival to the work of its engine. -/
def opening (request : Request α) (send : Progress α → StateM World Unit) : List (Event World α) :=
  .arrives request send :: (List.replicate Course.stepsToWorker (.advances 0) ++ [.works 0])

/-- A call whose timeline is compiled, and whose directory is made, gets to the engine. -/
theorem run_opening {request : Request α} {job : Render.Job α}
    (compiled : Render.compile request.timeline request.assets request.options = some (.ok job))
    (prepared : ∀ world : World,
      ((Course.prepare request.output : StateM World _).run world).1 = .ok ())
    (send : Progress α → StateM World Unit) (world : World) :
    ∃ between, (initial world).run (opening request send) =
      alone request send ⟨.waiting, .working job, some .worker⟩ between := by
  let held (stage : Stage α) (world : World) : Scene World α :=
    alone request send ⟨stage, .absent, some .task⟩ world
  have claims : ((initial world).after (.arrives request send)).after (.advances 0) =
      held .compiling world := rfl
  have compiles : (held .compiling world).after (.advances 0) = held (.preparing job) world := by
    simp only [held, alone, after, change, stepOf, Course.step, List.getElem?_cons_zero, compiled]
    rfl
  have prepares : ∃ between,
      (held (.preparing job) world).after (.advances 0) = held (.documenting job) between := by
    have made := prepared world
    rcases outcome : (Course.prepare request.output : StateM World _).run world with ⟨result, between⟩
    rw [outcome] at made
    obtain rfl : result = .ok () := made
    refine ⟨between, ?_⟩
    simp only [held, alone, after, change, stepOf, Course.step, List.getElem?_cons_zero,
      StateT.run_bind, outcome]
    rfl
  obtain ⟨between, prepares⟩ := prepares
  have works : ∃ last, (held (.documenting job) between).run
      [.advances 0, .advances 0, .advances 0, .works 0] =
        alone request send ⟨.waiting, .working job, some .worker⟩ last := ⟨_, rfl⟩
  obtain ⟨last, works⟩ := works
  refine ⟨last, ?_⟩
  rw [← works, ← prepares, ← compiles, ← claims]
  rfl

/-- A call that arrives while the engine works for the first one is refused: it ends as busy, and neither
the engine nor the world notices it. -/
theorem second_refused {request : Request α} {job : Render.Job α}
    (compiled : Render.compile request.timeline request.assets request.options = some (.ok job))
    (prepared : ∀ world : World,
      ((Course.prepare request.output : StateM World _).run world).1 = .ok ())
    (send : Progress α → StateM World Unit) (second : Request α)
    (other : Progress α → StateM World Unit) (world : World) :
    let working := (initial world).run (opening request send)
    working.run [.arrives second other, .advances 1, .advances 1] =
      ⟨⟨true⟩,
        [⟨request, send, ⟨.waiting, .working job, some .worker⟩⟩,
         ⟨second, other, ⟨.ended (.error .busy), .absent, none⟩⟩], working.world⟩ := by
  obtain ⟨between, isWorking⟩ := run_opening compiled prepared send world
  rw [isWorking]
  rfl

end Runs

/-- A black picture, exported beside the program without a report. -/
def blank : Request Extended :=
  { timeline := Timeline.empty
    assets := .ofList []
    options := ⟨true, "medium", 23, 192⟩
    output := ⟨"blank.mp4"⟩
    writesReport := false }

/-- While the engine works for a black picture, a second call for it is refused. -/
theorem second_refused_blank [Host (StateM World)] (send : Progress Extended → StateM World Unit)
    (world : World) :
    ∃ job, Render.compile blank.timeline blank.assets blank.options = some (.ok job) ∧
      let working := (initial world).run (opening blank send)
      working.run [.arrives blank send, .advances 1, .advances 1] =
        ⟨⟨true⟩,
          [⟨blank, send, ⟨.waiting, .working job, some .worker⟩⟩,
           ⟨blank, send, ⟨.ended (.error .busy), .absent, none⟩⟩], working.world⟩ := by
  have compiles : ∃ job, Render.compile blank.timeline blank.assets blank.options = some (.ok job) :=
    Render.compile_isOk_of_renderable (Or.inr rfl) (List.forall_mem_nil _) (List.forall_mem_nil _)
  obtain ⟨job, compiled⟩ := compiles
  exact ⟨job, compiled, second_refused compiled (fun _ => rfl) send blank send world⟩

end Scene

/-! ## A whole call -/

section Perform

variable [Scalar α] {m : Type → Type} [Monad m] [LawfulMonad m] [Host m] (request : Request α)
  (send : Progress α → m Unit) {session : Session}

theorem Course.steps_of_ended (count : Nat) {c : Course α} {result : Except Failure Path}
    (ended : c.stage = .ended result) :
    Course.steps request send count session c = pure (session, c) := by
  induction count with
  | zero => rfl
  | succ count inductionHypothesis =>
      have stays : Course.step request send session c = pure (session, c) := by
        unfold Course.step
        rw [ended]
      rw [Course.steps, stays, pure_bind]
      exact inductionHypothesis

/-- A call on a busy session is refused and asks nothing of its host. -/
theorem perform_of_busy (engine : Render.Job α → m Ending) (busy : session.busy = true) :
    perform request send engine session = pure (some (session, .error .busy)) := by
  let leaving : Course α := ⟨.leaving (.error .busy), .absent, none⟩
  let ended : Course α := ⟨.ended (.error .busy), .absent, none⟩
  have first : Course.step request send session .arriving = pure (session, leaving) := by
    simp only [Course.step, Course.arriving, Course.claim, busy, if_true, leaving]
  have second : Course.step request send session leaving = pure (session, ended) := rfl
  have stays (count : Nat) : Course.steps request send count session ended = pure (session, ended) :=
    Course.steps_of_ended request send count rfl
  have stopped : Course.steps request send Course.stepsToWorker session .arriving =
      pure (session, ended) := by
    rw [Course.stepsToWorker, Course.steps, first, pure_bind]
    show Course.steps request send 5 session leaving = _
    rw [Course.steps, second, pure_bind]
    exact stays 4
  have idle : ended.workOff engine session = pure (session, ended) := rfl
  simp only [perform, stopped, idle, stays, pure_bind]
  rfl

end Perform

end Montage.Export

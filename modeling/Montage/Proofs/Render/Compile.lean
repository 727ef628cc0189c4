import Montage.Proofs.Render.Wiring

/-!
Contract: what a compilation returns.

Owns: the plan of a list of clips, the equation of `compile` without its last check, and the wiring of
every compiled graph.

Does **not** own: which timelines are accepted (`Montage.Proofs.Render.Acceptance`).

The last check of a compilation looks for faults that its own construction rules out. Once that is
known, a compilation is its checks on the elements followed by an assembly that cannot fail. Only the graph
may be built for ever.
-/

set_option autoImplicit false

namespace Montage.Render

open FilterGraph

variable {α : Type} [Scalar α]

/-! ## Planning -/

/-- The input of a clip with its number, its asset, and the extension of that. -/
def inputOf (index : Nat) (c : Clip α) (asset : Resolved) (extension : String) : Input α :=
  { index, clipId := c.id
    localName := "input" ++ toString index ++ "." ++ extension
    mime := asset.mime
    isStill := decide (c.kind = .image)
    hold := if c.kind = .image then some c.timelineSpan else none
    source := asset.source }

/-- A clip is planned with the asset that its check finds, if that is of a known type. -/
theorem planClip_eq_ok {assets : Store} {index : Nat} {c : Clip α}
    {plan : Input α × PlannedClip α} (planned : planClip assets index c = .ok plan) :
    ∃ asset extension, checkClip assets c = .ok asset ∧
      Media.extensionFor asset.mime = some extension ∧
      plan = (inputOf index c asset extension, { clip := c, asset, input := index }) := by
  unfold planClip at planned
  cases checked : checkClip assets c with
  | error e => simp [checked, bind, Except.bind] at planned
  | ok asset =>
      cases known : Media.extensionFor asset.mime with
      | none => simp [checked, known, bind, Except.bind] at planned
      | some extension =>
          simp only [checked, known, bind, Except.bind, Except.ok.injEq, decide_eq_true_eq] at planned
          exact ⟨asset, extension, rfl, known, planned.symm⟩

/-- A plan that succeeds is that of its first clip and that of the others. -/
theorem planClips_cons_eq_ok {assets : Store} {index : Nat} {c : Clip α} {rest : List (Clip α)}
    {plans : List (Input α × PlannedClip α)} :
    planClips assets index (c :: rest) = .ok plans ↔
      ∃ plan others, planClip assets index c = .ok plan ∧
        planClips assets (index + 1) rest = .ok others ∧ plans = plan :: others := by
  simp only [planClips, bind, Except.bind]
  cases planClip assets index c with
  | error e => simp
  | ok plan =>
      cases planClips assets (index + 1) rest with
      | error e => simp
      | ok others => simp [eq_comm]

/-- The clips of a plan are the given ones, numbered in their order. -/
theorem planClips_eq_ok {assets : Store} (clips : List (Clip α)) {index : Nat}
    {plans : List (Input α × PlannedClip α)} (planned : planClips assets index clips = .ok plans) :
    plans.map (·.2.clip) = clips ∧ plans.map (·.2.input) = List.range' index plans.length := by
  induction clips generalizing index plans with
  | nil =>
      obtain rfl : plans = [] := by simpa [planClips, eq_comm] using planned
      exact ⟨rfl, rfl⟩
  | cons c rest inductionHypothesis =>
      obtain ⟨plan, others, first, second, rfl⟩ := planClips_cons_eq_ok.mp planned
      obtain ⟨clips, inputs⟩ := inductionHypothesis second
      obtain ⟨asset, extension, -, -, rfl⟩ := planClip_eq_ok first
      exact ⟨by simp [clips], by simp [inputs, List.range'_succ]⟩

/-! ## Assembly -/

def assemble (t : Timeline α) (options : Options) (plans : List (Input α × PlannedClip α))
    (graph : FilterGraph) : Job α :=
  let hasAudio := (plans.map (·.2)).any fun p => carriesAudio p.clip p.asset
  let audio := if hasAudio then some audioLabel else none
  { inputs := plans.map (·.1)
    graph
    outputs := { video := videoLabel, audio }
    encoding := encodingOf t options t.totalDuration audio }

omit [Scalar α] in
theorem soundingClips_isEmpty (planned : List (PlannedClip α)) :
    (soundingClips planned).isEmpty = !planned.any fun p => carriesAudio p.clip p.asset := by
  induction planned with
  | nil => rfl
  | cons p rest inductionHypothesis =>
      unfold soundingClips at inductionHypothesis ⊢
      cases heard : carriesAudio p.clip p.asset <;> simp [heard, inductionHypothesis]

theorem assemble_terminals (t : Timeline α) (options : Options)
    (plans : List (Input α × PlannedClip α)) (graph : FilterGraph) :
    (assemble t options plans graph).outputs.terminals =
      videoLabel :: soundTerminals (soundingClips (plans.map (·.2))) := by
  simp only [assemble, OutputMap.terminals, soundTerminals, soundingClips_isEmpty]
  cases (plans.map (·.2)).any fun p => carriesAudio p.clip p.asset <;> rfl

/-- The graph of a plan has no fault. -/
theorem assemble_isWired {t : Timeline α} {assets : Store} (options : Options)
    {clips : List (Clip α)} {plans : List (Input α × PlannedClip α)}
    (planned : planClips assets 0 clips = .ok plans) {graph : FilterGraph}
    (built : buildGraph t t.totalDuration (plans.map (·.2)) = some graph) :
    graph.IsWired plans.length (assemble t options plans graph).outputs.terminals := by
  rw [assemble_terminals]
  apply buildGraph_isWired built
  intro p member
  obtain ⟨plan, inPlans, rfl⟩ := List.mem_map.mp member
  have numbered : plan.2.input ∈ List.range' 0 plans.length := by
    rw [← (planClips_eq_ok clips planned).2]
    exact List.mem_map.mpr ⟨plan, inPlans, rfl⟩
  simpa using numbered

theorem planTimeline_eq_ok_iff {t : Timeline α} {assets : Store} {options : Options}
    {plans : List (Input α × PlannedClip α)} :
    planTimeline t assets options = .ok plans ↔
      (t.isEmpty && !options.allowEmpty) = false ∧ isRenderable t.totalDuration = true ∧
        planClips assets 0 (orderedClips t) = .ok plans ∧ checkOverlays t.overlays = .ok () := by
  unfold planTimeline
  cases t.isEmpty && !options.allowEmpty with
  | true => simp
  | false =>
      cases isRenderable t.totalDuration with
      | false => simp
      | true =>
          cases planClips assets 0 (orderedClips t) with
          | error e => simp [bind, Except.bind]
          | ok found => cases checkOverlays t.overlays <;> simp [bind, Except.bind]

/-- A compilation without its last check, which finds nothing. -/
theorem compile_eq (t : Timeline α) (assets : Store) (options : Options) :
    compile t assets options =
      match planTimeline t assets options with
      | .error e => some (.error e)
      | .ok plans =>
        (buildGraph t t.totalDuration (plans.map (·.2))).map fun graph =>
          .ok (assemble t options plans graph) := by
  unfold compile
  cases isPlan : planTimeline t assets options with
  | error e => rfl
  | ok plans =>
      obtain ⟨-, -, planned, -⟩ := planTimeline_eq_ok_iff.mp isPlan
      cases built : buildGraph t t.totalDuration (plans.map (·.2)) with
      | none => simp only [built, Option.bind_eq_bind, Option.bind_none, Option.map_none]
      | some graph =>
          have accepted := (check_eq_ok_iff _ _ _).mpr (assemble_isWired options planned built)
          simp only [assemble] at accepted
          simp only [built, Option.bind_eq_bind, Option.bind_some, Option.map_some, accepted, assemble]

/-! ## Wiring -/

theorem planClip_ne_invalidGraph (assets : Store) (index : Nat) (c : Clip α) (fault : GraphFault) :
    planClip assets index c ≠ .error (.invalidGraph fault) := by
  unfold planClip checkClip
  cases assets c.asset with
  | none => simp [bind, Except.bind]
  | some asset =>
      cases isRenderable c.timelineSpan <;> cases isRenderable c.sourceSpan <;>
        cases known : Media.extensionFor asset.mime <;> simp [bind, Except.bind, known]

theorem planClips_ne_invalidGraph (assets : Store) (clips : List (Clip α)) (index : Nat)
    (fault : GraphFault) : planClips assets index clips ≠ .error (.invalidGraph fault) := by
  induction clips generalizing index with
  | nil => simp [planClips]
  | cons c rest inductionHypothesis =>
      have first := planClip_ne_invalidGraph assets index c fault
      have others := inductionHypothesis (index + 1)
      simp only [planClips, bind, Except.bind]
      cases planned : planClip assets index c with
      | error e =>
          intro failed
          exact first (planned.trans (congrArg Except.error (Except.error.inj failed)))
      | ok plan =>
          cases plannedOthers : planClips assets (index + 1) rest with
          | error e =>
              intro failed
              exact others (plannedOthers.trans (congrArg Except.error (Except.error.inj failed)))
          | ok plans => simp

theorem checkOverlays_ne_invalidGraph (overlays : List (Overlay α)) (fault : GraphFault) :
    checkOverlays overlays ≠ .error (.invalidGraph fault) := by
  induction overlays with
  | nil => simp [checkOverlays]
  | cons o rest inductionHypothesis =>
      unfold checkOverlays checkOverlay
      cases isRenderable o.timelineSpan with
      | true => exact inductionHypothesis
      | false => simp [bind, Except.bind]

theorem compile_eq_error_iff_plan {t : Timeline α} {assets : Store} {options : Options}
    {e : CompileError α} :
    compile t assets options = some (.error e) ↔ planTimeline t assets options = .error e := by
  rw [compile_eq]
  cases planTimeline t assets options <;> simp

/-- A compilation succeeds with the job of a plan of its clips, if all its checks do and the graph is
built. -/
theorem compile_eq_ok_iff {t : Timeline α} {assets : Store} {options : Options} {job : Job α} :
    compile t assets options = some (.ok job) ↔
      (t.isEmpty && !options.allowEmpty) = false ∧ isRenderable t.totalDuration = true ∧
        ∃ plans graph, planClips assets 0 (orderedClips t) = .ok plans ∧
          checkOverlays t.overlays = .ok () ∧
          buildGraph t t.totalDuration (plans.map (·.2)) = some graph ∧
          assemble t options plans graph = job := by
  constructor
  · intro compiled
    rw [compile_eq] at compiled
    cases isPlan : planTimeline t assets options with
    | error e => simp [isPlan] at compiled
    | ok plans =>
        rw [isPlan] at compiled
        obtain ⟨graph, built, isJob⟩ := Option.map_eq_some_iff.mp compiled
        obtain ⟨permitted, lasting, planned, checked⟩ := planTimeline_eq_ok_iff.mp isPlan
        exact ⟨permitted, lasting, plans, graph, planned, checked, built, Except.ok.inj isJob⟩
  · rintro ⟨permitted, lasting, plans, graph, planned, checked, built, rfl⟩
    rw [compile_eq, planTimeline_eq_ok_iff.mpr ⟨permitted, lasting, planned, checked⟩]
    exact Option.map_eq_some_iff.mpr ⟨graph, built, rfl⟩

/-- No check on the way to a graph reports a fault of it. -/
theorem compile_ne_invalidGraph (t : Timeline α) (assets : Store) (options : Options)
    (fault : GraphFault) : compile t assets options ≠ some (.error (.invalidGraph fault)) := by
  rw [Ne, compile_eq_error_iff_plan]
  unfold planTimeline
  cases t.isEmpty && !options.allowEmpty with
  | true => simp
  | false =>
      cases isRenderable t.totalDuration with
      | false => simp
      | true =>
          have planned := planClips_ne_invalidGraph assets (orderedClips t) 0 fault
          have checked := checkOverlays_ne_invalidGraph t.overlays fault
          cases isPlan : planClips assets 0 (orderedClips t) with
          | error e => simpa [isPlan, bind, Except.bind] using planned
          | ok plans =>
              cases isChecked : checkOverlays t.overlays with
              | error e => simpa [isChecked, bind, Except.bind] using checked
              | ok accepted => simp [bind, Except.bind]

/-- A compilation never fails at the wiring of its graph. The graph that it returns passes the check,
its chains can run in the order they stand in, and they read every input. -/
theorem compile_wired (t : Timeline α) (assets : Store) (options : Options) :
    (∀ fault, compile t assets options ≠ some (.error (.invalidGraph fault))) ∧
      ∀ job, compile t assets options = some (.ok job) →
        job.graph.check job.inputs.length job.outputs.terminals = .ok () ∧
        job.graph.IsOrdered ∧
        ∀ index < job.inputs.length, ∃ chain ∈ job.graph.chains, ∃ stream,
          Pad.input index stream ∈ chain.inputs := by
  refine ⟨compile_ne_invalidGraph t assets options, ?_⟩
  intro job compiled
  obtain ⟨-, -, plans, graph, planned, -, built, rfl⟩ := compile_eq_ok_iff.mp compiled
  have wired := (check_eq_ok_iff _ _ _).mpr (assemble_isWired options planned built)
  refine ⟨by simpa [assemble] using wired, buildGraph_isOrdered built, ?_⟩
  intro index below
  rw [← mem_inputIndices]
  have numbered : index ∈ plans.map (·.2.input) := by
    rw [(planClips_eq_ok _ planned).2]
    simpa [assemble] using below
  obtain ⟨plan, inPlans, same⟩ := List.mem_map.mp numbered
  exact (mem_inputIndices_buildGraph built index).mpr
    ⟨plan.2, List.mem_map.mpr ⟨plan, inPlans, rfl⟩, same⟩

end Montage.Render

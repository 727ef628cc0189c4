import Mathlib.Data.List.Forall2
import Montage.Proofs.Render.Compile

/-!
Contract: the order of elements in a compiled job.

Owns:
- stable orders by a key, and that clips and overlays are composed in the stable order of their
  `zIndex`;
- the plan of a timeline (`IsPlan`), and the inputs of a job as those of its planned clips.

Does **not** own: the chains that are built from a plan (`Montage.Proofs.Render.Composition`).
-/

set_option autoImplicit false

namespace Montage.Render

/-! ## Stable orders -/

/-- A list in the stable order of a key: the keys do not fall, and elements of one key stand as they
were given. -/
structure IsStableOrder {β κ : Type} [LE κ] [DecidableEq κ] (key : β → κ) (given sorted : List β) :
    Prop where
  ordered : sorted.Pairwise fun a b => key a ≤ key b
  stable : ∀ k, sorted.filter (fun x => key x = k) = given.filter (fun x => key x = k)

theorem mergeSort_isStableOrder {β κ : Type} [LE κ] [Std.IsLinearPreorder κ] [DecidableLE κ]
    [DecidableEq κ] (key : β → κ) (given : List β) :
    IsStableOrder key given (given.mergeSort fun a b => decide (key a ≤ key b)) := by
  have trans (a b c : β) (first : decide (key a ≤ key b) = true)
      (second : decide (key b ≤ key c) = true) : decide (key a ≤ key c) = true :=
    decide_eq_true (Std.le_trans (of_decide_eq_true first) (of_decide_eq_true second))
  have total (a b : β) : (decide (key a ≤ key b) || decide (key b ≤ key a)) = true := by
    simpa using Std.le_total
  constructor
  · exact (List.pairwise_mergeSort trans total given).imp of_decide_eq_true
  · intro k
    have alike : (given.filter fun x => key x = k).Pairwise
        fun a b => decide (key a ≤ key b) = true := by
      refine List.pairwise_of_forall_mem_list fun a first b second => decide_eq_true ?_
      have isFirst : key a = k := by simpa using (List.mem_filter.mp first).2
      have isSecond : key b = k := by simpa using (List.mem_filter.mp second).2
      rw [isFirst, isSecond]
      exact Std.le_refl k
    -- The elements of one key are already in order, so sorting keeps them as a part, and all of them.
    have kept := (List.sublist_mergeSort trans total alike List.filter_sublist).filter
      fun x => key x = k
    simp only [List.filter_filter, Bool.and_self] at kept
    have rearranged := (List.mergeSort_perm given fun a b => decide (key a ≤ key b)).filter
      fun x => key x = k
    exact (kept.eq_of_length rearranged.length_eq.symm).symm

section Unique

variable {β κ : Type} [LE κ] [Std.IsPartialOrder κ] [DecidableEq κ] {key : β → κ}

omit [LE κ] [Std.IsPartialOrder κ] in
theorem mem_iff_of_filters_eq {first second : List β}
    (alike : ∀ k, first.filter (fun x => key x = k) = second.filter (fun x => key x = k)) (x : β) :
    x ∈ first ↔ x ∈ second := by
  have same : x ∈ first.filter (fun y => key y = key x) ↔
      x ∈ second.filter (fun y => key y = key x) := by rw [alike]
  simpa [List.mem_filter] using same

/-- Two lists in order that have the same elements of each key are the same list. -/
theorem eq_of_filters_eq {first second : List β} (isFirst : first.Pairwise fun a b => key a ≤ key b)
    (isSecond : second.Pairwise fun a b => key a ≤ key b)
    (alike : ∀ k, first.filter (fun x => key x = k) = second.filter (fun x => key x = k)) :
    first = second := by
  have members := mem_iff_of_filters_eq alike
  induction first generalizing second with
  | nil =>
      symm
      rw [List.eq_nil_iff_forall_not_mem]
      exact fun x member => List.not_mem_nil ((members x).mpr member)
  | cons x rest inductionHypothesis =>
      cases second with
      | nil => exact (List.not_mem_nil ((members x).mp List.mem_cons_self)).elim
      | cons y others =>
          obtain ⟨below, isRest⟩ := List.pairwise_cons.mp isFirst
          obtain ⟨belowOthers, isOthers⟩ := List.pairwise_cons.mp isSecond
          have atMost : key x ≤ key y := by
            rcases List.mem_cons.mp ((members y).mpr List.mem_cons_self) with same | member
            · rw [same]
              exact Std.le_refl _
            · exact below y member
          have atLeast : key y ≤ key x := by
            rcases List.mem_cons.mp ((members x).mp List.mem_cons_self) with same | member
            · rw [same]
              exact Std.le_refl _
            · exact belowOthers x member
          have sameKey : key x = key y := Std.le_antisymm atMost atLeast
          -- The heads lead the elements of their key on both sides.
          have heads := alike (key y)
          rw [List.filter_cons_of_pos (by simpa using sameKey), List.filter_cons_of_pos (by simp),
            List.cons.injEq] at heads
          obtain ⟨rfl, -⟩ := heads
          have alikeRest (k : κ) :
              rest.filter (fun z => key z = k) = others.filter (fun z => key z = k) := by
            have both := alike k
            by_cases hasKey : key x = k
            · rw [List.filter_cons_of_pos (by simpa using hasKey),
                List.filter_cons_of_pos (by simpa using hasKey), List.cons.injEq] at both
              exact both.2
            · rwa [List.filter_cons_of_neg (by simpa using hasKey),
                List.filter_cons_of_neg (by simpa using hasKey)] at both
          rw [inductionHypothesis isRest isOthers alikeRest (mem_iff_of_filters_eq alikeRest)]

/-- A list has one stable order. -/
theorem IsStableOrder.unique {given first second : List β} (isFirst : IsStableOrder key given first)
    (isSecond : IsStableOrder key given second) : first = second :=
  eq_of_filters_eq isFirst.ordered isSecond.ordered fun k =>
    (isFirst.stable k).trans (isSecond.stable k).symm

end Unique

variable {α : Type}

theorem orderedClips_isStableOrder (t : Timeline α) :
    IsStableOrder (·.zIndex) t.clips (orderedClips t) :=
  mergeSort_isStableOrder (·.zIndex) t.clips

theorem orderedOverlays_isStableOrder (t : Timeline α) :
    IsStableOrder (·.zIndex) t.overlays (orderedOverlays t) :=
  mergeSort_isStableOrder (·.zIndex) t.overlays

variable [Scalar α]

/-! ## Plans and inputs -/

/-- The plan of a timeline: its clips in order, numbered from zero, each with its asset. -/
structure IsPlan (t : Timeline α) (assets : Store) (planned : List (PlannedClip α)) : Prop where
  clips : planned.map (·.clip) = orderedClips t
  inputs : planned.map (·.input) = List.range planned.length
  stored : ∀ p ∈ planned, assets p.clip.asset = some p.asset

/-- An input reads the asset of a planned clip under the clip's number. -/
structure Input.IsOf (input : Input α) (p : PlannedClip α) : Prop where
  index : input.index = p.input
  clip : input.clipId = p.clip.id
  asset : input.source = p.asset.source ∧ input.mime = p.asset.mime
  localName :
    ∃ extension, Media.extensionFor p.asset.mime = some extension ∧
      input.localName = "input" ++ toString p.input ++ "." ++ extension
  still :
    input.isStill = decide (p.clip.kind = .image) ∧
      input.hold = if p.clip.kind = .image then some p.clip.timelineSpan else none

theorem assets_of_checkClip {assets : Store} {c : Clip α} {asset : Resolved}
    (checked : checkClip assets c = .ok asset) : assets c.asset = some asset := by
  unfold checkClip at checked
  cases found : assets c.asset with
  | none => simp [found] at checked
  | some other =>
      simp only [found] at checked
      split at checked
      · cases checked
      · split at checked
        · cases checked
        · rw [Except.ok.inj checked]

/-- The input of a planned clip is that of its asset. -/
theorem isOf_of_planClip {assets : Store} {index : Nat} {c : Clip α}
    {plan : Input α × PlannedClip α} (planned : planClip assets index c = .ok plan) :
    assets plan.2.clip.asset = some plan.2.asset ∧ plan.1.IsOf plan.2 := by
  obtain ⟨asset, extension, checked, known, rfl⟩ := planClip_eq_ok planned
  exact ⟨assets_of_checkClip checked, rfl, rfl, ⟨rfl, rfl⟩, ⟨extension, known, rfl⟩, rfl, rfl⟩

theorem isOf_of_planClips {assets : Store} (clips : List (Clip α)) {index : Nat}
    {plans : List (Input α × PlannedClip α)} (planned : planClips assets index clips = .ok plans) :
    ∀ plan ∈ plans, assets plan.2.clip.asset = some plan.2.asset ∧ plan.1.IsOf plan.2 := by
  induction clips generalizing index plans with
  | nil =>
      obtain rfl : plans = [] := by simpa [planClips, eq_comm] using planned
      exact List.forall_mem_nil _
  | cons c rest inductionHypothesis =>
      obtain ⟨plan, others, first, second, rfl⟩ := planClips_cons_eq_ok.mp planned
      exact List.forall_mem_cons.mpr ⟨isOf_of_planClip first, inductionHypothesis second⟩

/-- What is planned for the clips of a timeline is its plan, and the inputs are those of the plan. -/
theorem isPlan_of_planClips {t : Timeline α} {assets : Store}
    {plans : List (Input α × PlannedClip α)}
    (planned : planClips assets 0 (orderedClips t) = .ok plans) :
    IsPlan t assets (plans.map (·.2)) ∧
      List.Forall₂ Input.IsOf (plans.map (·.1)) (plans.map (·.2)) := by
  obtain ⟨clips, inputs⟩ := planClips_eq_ok _ planned
  have each := isOf_of_planClips _ planned
  refine ⟨⟨by simpa [Function.comp_def] using clips, ?_, ?_⟩, ?_⟩
  · simpa [Function.comp_def, List.range_eq_range'] using inputs
  · rintro p member
    obtain ⟨plan, inPlans, rfl⟩ := List.mem_map.mp member
    exact (each plan inPlans).1
  · rw [List.forall₂_map_left_iff, List.forall₂_map_right_iff, List.forall₂_same]
    exact fun plan inPlans => (each plan inPlans).2

end Montage.Render

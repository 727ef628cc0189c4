import Montage.Edit.Drag

/-!
Contract: what an accepted command does to a timeline, said once.

Owns:
- the parts that each command puts in the place of a clip or an overlay;
- the outcomes of an accepted command (`Timeline.Outcome`);
- the passage from one command to a whole list of them.

Does **not** own: what the parts are like (`Montage.Proofs.Clip.Parts`, `Montage.Proofs.Overlay.Bounds`).

Every command either appends one element or puts parts in the place of one element. A property of all
elements is therefore kept by a command as soon as the appended element has it and the parts of an
element with the property have it.
-/

set_option autoImplicit false

namespace Montage

/-! ## Replacing the first element that is meant -/

namespace Edit

variable {β : Type}

/-- The first element that is meant splits the list. -/
theorem spliceFirst_eq_some
    {isMeant : β → Bool}
    {parts : β → List β}
    {list result : List β}
    (spliced : spliceFirst isMeant parts list = some result) :
    ∃ before x after, list.find? isMeant = some x ∧ list = before ++ x :: after ∧
      result = before ++ parts x ++ after := by
  induction list generalizing result with
  | nil => cases spliced
  | cons head rest inductionHypothesis =>
      unfold spliceFirst at spliced
      by_cases meant : isMeant head = true
      · rw [if_pos meant] at spliced
        refine ⟨[], head, rest, ?_, rfl, (Option.some.inj spliced).symm⟩
        rw [List.find?_cons, meant]
      · rw [if_neg meant] at spliced
        obtain ⟨tail, splicedRest, rfl⟩ := Option.map_eq_some_iff.mp spliced
        obtain ⟨before, x, after, found, place, rfl⟩ := inductionHypothesis splicedRest
        refine ⟨head :: before, x, after, ?_, by rw [place]; rfl, rfl⟩
        rw [List.find?_cons, Bool.eq_false_iff.mpr meant]
        exact found

/-- What holds of a list and of the parts of one element holds of the list with the parts. -/
theorem forall_mem_splice
    {P : β → Prop}
    {before after parts : List β}
    {x : β}
    (all : ∀ y ∈ before ++ x :: after, P y)
    (new : ∀ y ∈ parts, P y) :
    ∀ y ∈ before ++ parts ++ after, P y := by
  intro y member
  rw [List.append_assoc, List.mem_append, List.mem_append] at member
  rcases member with earlier | made | later
  · exact all y (List.mem_append_left _ earlier)
  · exact new y made
  · exact all y (List.mem_append_right _ (List.mem_cons_of_mem _ later))

end Edit

variable {α : Type}

/-! ## The parts of an element -/

namespace Command

/-- The element that a command is about; a command that appends one is about none. -/
def target? : Command α → Option Identity
  | .addClip _ => none
  | .addText _ => none
  | .split id _ => some id
  | .duplicate id => some id
  | .delete id => some id
  | .trimStart id _ => some id
  | .trimEnd id _ => some id
  | .clearTrim id => some id
  | .reposition id _ => some id
  | .resizeRight id _ => some id
  | .updateClip id _ => some id
  | .updateText id _ => some id

/-- What a command puts in the place of a clip; none if it is refused or is not about clips. -/
def clipParts? [Scalar α] (supply : IdSupply) (c : Clip α) : Command α → Option (List (Clip α))
  | .split _ position =>
      (c.halves? supply.next (supply.advance 1).next position).map fun (a, b) => [a, b]
  | .duplicate _ => some [c, { c with id := supply.next }]
  | .delete _ => some []
  | .trimStart _ request => some [c.trimStart request]
  | .trimEnd _ request => some [c.trimEnd request]
  | .clearTrim _ => some [c.clearTrim]
  | .reposition _ start => some [c.reposition start]
  | .resizeRight _ request => some [c.resizeRight request]
  | .updateClip _ patch => some [patch.apply c]
  | _ => none

/-- What a command puts in the place of an overlay; none if it is refused or is not about overlays. -/
def overlayParts? [Scalar α] (supply : IdSupply) (o : Overlay α) :
    Command α → Option (List (Overlay α))
  | .split _ position =>
      (o.halves? supply.next (supply.advance 1).next position).map fun (a, b) => [a, b]
  | .duplicate _ => some [o, { o with id := supply.next }]
  | .delete _ => some []
  | .reposition _ start => some [o.reposition start]
  | .resizeRight _ request => some [o.resizeRight request]
  | .updateText _ patch => some [patch.apply o]
  | _ => none

/-- The properties that a command brings with the element it appends. -/
def Introduces (P : Clip α → Prop) (Q : Overlay α → Prop) : Command α → Prop
  | .addClip c => P c
  | .addText o => Q o
  | _ => True

end Command

namespace Timeline

/-! ## Replacing an element of a timeline -/

section Splicing

variable {t next : Timeline α}

theorem spliceClip_eq_some
    {id : Identity}
    {parts : Clip α → List (Clip α)}
    (spliced : t.spliceClip id parts = some next) :
    ∃ before c after, t.clip? id = some c ∧ t.clips = before ++ c :: after ∧
      next = { t with clips := before ++ parts c ++ after } := by
  obtain ⟨clips, splicedClips, rfl⟩ := Option.map_eq_some_iff.mp spliced
  obtain ⟨before, c, after, found, place, rfl⟩ := Edit.spliceFirst_eq_some splicedClips
  exact ⟨before, c, after, found, place, rfl⟩

theorem spliceOverlay_eq_some
    {id : Identity}
    {parts : Overlay α → List (Overlay α)}
    (spliced : t.spliceOverlay id parts = some next) :
    ∃ before o after, t.overlay? id = some o ∧ t.overlays = before ++ o :: after ∧
      next = { t with overlays := before ++ parts o ++ after } := by
  obtain ⟨overlays, splicedOverlays, rfl⟩ := Option.map_eq_some_iff.mp spliced
  obtain ⟨before, o, after, found, place, rfl⟩ := Edit.spliceFirst_eq_some splicedOverlays
  exact ⟨before, o, after, found, place, rfl⟩

/-- No parts can be put in the place of a clip that is not there. -/
theorem clip?_eq_none
    {id : Identity}
    {parts : Clip α → List (Clip α)}
    (spliced : t.spliceClip id parts = none) :
    t.clip? id = none := by
  have missing := Edit.spliceFirst_isSome (fun c : Clip α => c.id == id) parts t.clips
  rw [Option.map_eq_none_iff.mp spliced] at missing
  unfold clip?
  rw [List.find?_eq_none]
  intro c member meant
  have present : t.clips.any (fun c => c.id == id) = true := List.any_eq_true.mpr ⟨c, member, meant⟩
  rw [← missing] at present
  cases present

/-- A result that is passed on with what is left of the supply is the accepted one. -/
theorem eq_ok_of_map
    {result : Except (EditError α) (Timeline α)}
    {rest left : IdSupply}
    (passed : (result.map fun timeline => (timeline, rest)) = .ok (next, left)) :
    result = .ok next := by
  cases result with
  | error e => cases passed
  | ok timeline =>
      cases passed
      rfl

end Splicing

/-! ## Properties of all elements -/

def All (P : Clip α → Prop) (Q : Overlay α → Prop) (t : Timeline α) : Prop :=
  (∀ c ∈ t.clips, P c) ∧ ∀ o ∈ t.overlays, Q o

theorem empty_all (P : Clip α → Prop) (Q : Overlay α → Prop) : (empty : Timeline α).All P Q :=
  ⟨List.forall_mem_nil P, List.forall_mem_nil Q⟩

variable [Scalar α]

/-! ## Outcomes -/

def appendedClip (t : Timeline α) (c : Clip α) : Clip α :=
  let start := latestEnd ((t.clips.filter fun d => d.kind == c.kind).map (·.timelineEnd))
  { c with timelineStart := start, timelineEnd := start + c.timelineSpan }

def appendedOverlay (t : Timeline α) (o : Overlay α) : Overlay α :=
  let start := latestEnd (t.overlays.map (·.timelineEnd))
  { o with timelineStart := start, timelineEnd := start + o.timelineSpan }

/-- What an accepted command can make of a timeline. -/
inductive Outcome (t : Timeline α) (supply : IdSupply) : Command α → Timeline α → Prop
  | addClip (c : Clip α) :
      Outcome t supply (.addClip c) { t with clips := t.clips ++ [t.appendedClip c] }
  | addText (o : Overlay α) :
      Outcome t supply (.addText o) { t with overlays := t.overlays ++ [t.appendedOverlay o] }
  | clip {command : Command α} {id : Identity} {before after parts : List (Clip α)} {c : Clip α}
      (target : command.target? = some id)
      (found : t.clip? id = some c)
      (place : t.clips = before ++ c :: after)
      (made : command.clipParts? supply c = some parts) :
      Outcome t supply command { t with clips := before ++ parts ++ after }
  | overlay {command : Command α} {id : Identity} {before after parts : List (Overlay α)}
      {o : Overlay α}
      (target : command.target? = some id)
      (found : t.overlay? id = some o)
      (noClip : t.clip? id = none ∨ ∃ patch, command = .updateText id patch)
      (place : t.overlays = before ++ o :: after)
      (made : command.overlayParts? supply o = some parts) :
      Outcome t supply command { t with overlays := before ++ parts ++ after }

section Inversion

variable {t next : Timeline α} {supply left : IdSupply}

/-- A change of a clip is an outcome of a command that changes clips so. -/
theorem changeClip_outcome
    {command : Command α}
    {id : Identity}
    {change : Clip α → Clip α}
    (changed : t.changeClip id change = .ok next)
    (target : command.target? = some id)
    (made : ∀ c, command.clipParts? supply c = some [change c]) :
    Outcome t supply command next := by
  unfold changeClip at changed
  split at changed
  · rename_i spliced
    obtain ⟨before, c, after, found, place, rfl⟩ := spliceClip_eq_some spliced
    cases changed
    exact .clip target found place (made c)
  · cases changed

/-- A replacement of an element is an outcome of a command with the same parts. -/
theorem replaceElement_outcome
    {command : Command α}
    {id : Identity}
    {clipParts : Clip α → List (Clip α)}
    {overlayParts : Overlay α → List (Overlay α)}
    (replaced : t.replaceElement id clipParts overlayParts = .ok next)
    (target : command.target? = some id)
    (madeClips : ∀ c, t.clip? id = some c → command.clipParts? supply c = some (clipParts c))
    (madeOverlays :
      ∀ o, t.clip? id = none → t.overlay? id = some o →
        command.overlayParts? supply o = some (overlayParts o)) :
    Outcome t supply command next := by
  unfold replaceElement spliceElement at replaced
  -- A clip with the identity is preferred, so that overlays count only where there is none.
  cases spliced : t.spliceClip id clipParts with
  | some result =>
      rw [spliced] at replaced
      cases replaced
      obtain ⟨before, c, after, found, place, rfl⟩ := spliceClip_eq_some spliced
      exact .clip target found place (madeClips c found)
  | none =>
      rw [spliced, Option.none_or] at replaced
      split at replaced
      · rename_i splicedOverlay
        cases replaced
        obtain ⟨before, o, after, found, place, rfl⟩ := spliceOverlay_eq_some splicedOverlay
        have absent := clip?_eq_none spliced
        exact .overlay target found (Or.inl absent) place (madeOverlays o absent found)
      · cases replaced

theorem changeOverlay_outcome
    {id : Identity}
    {patch : TextPatch α}
    (changed : t.changeOverlay id patch.apply = .ok next) :
    Outcome t supply (.updateText id patch) next := by
  unfold changeOverlay at changed
  split at changed
  · rename_i spliced
    obtain ⟨before, o, after, found, place, rfl⟩ := spliceOverlay_eq_some spliced
    cases changed
    exact .overlay rfl found (Or.inr ⟨patch, rfl⟩) place rfl
  · cases changed

theorem split_outcome
    {id : Identity}
    {position : α}
    (cut : t.split id supply.next (supply.advance 1).next position = .ok next) :
    Outcome t supply (.split id position) next := by
  unfold split at cut
  cases isClip : t.clip? id with
  | some c =>
      simp only [element?, isClip] at cut
      split at cut
      · rename_i a b halves
        apply replaceElement_outcome cut rfl
        · intro d found
          cases isClip.symm.trans found
          simp [Command.clipParts?, halves]
        · intro o absent
          rw [isClip] at absent
          cases absent
      · cases cut
  | none =>
      cases isOverlay : t.overlay? id with
      | some o =>
          simp only [element?, isClip, isOverlay, Option.map_some] at cut
          split at cut
          · rename_i a b halves
            apply replaceElement_outcome cut rfl
            · intro d found
              rw [isClip] at found
              cases found
            · intro p _ found
              cases isOverlay.symm.trans found
              simp [Command.overlayParts?, halves]
          · cases cut
      | none =>
          simp only [element?, isClip, isOverlay, Option.map_none] at cut
          cases cut

/-- Whatever an accepted command does is one of the outcomes. -/
theorem apply_outcome
    {command : Command α}
    (applied : t.apply supply command = .ok (next, left)) :
    Outcome t supply command next := by
  cases command with
  | addClip c =>
      cases applied
      exact .addClip c
  | addText o =>
      cases applied
      exact .addText o
  | split id position =>
      exact split_outcome (eq_ok_of_map applied)
  | duplicate id =>
      exact replaceElement_outcome (eq_ok_of_map applied) rfl (fun _ _ => rfl) fun _ _ _ => rfl
  | delete id =>
      exact replaceElement_outcome (eq_ok_of_map applied) rfl (fun _ _ => rfl) fun _ _ _ => rfl
  | trimStart id request =>
      exact changeClip_outcome (eq_ok_of_map applied) rfl fun _ => rfl
  | trimEnd id request =>
      exact changeClip_outcome (eq_ok_of_map applied) rfl fun _ => rfl
  | clearTrim id =>
      exact changeClip_outcome (eq_ok_of_map applied) rfl fun _ => rfl
  | reposition id start =>
      exact replaceElement_outcome (eq_ok_of_map applied) rfl (fun _ _ => rfl) fun _ _ _ => rfl
  | resizeRight id request =>
      exact replaceElement_outcome (eq_ok_of_map applied) rfl (fun _ _ => rfl) fun _ _ _ => rfl
  | updateClip id patch =>
      exact changeClip_outcome (eq_ok_of_map applied) rfl fun _ => rfl
  | updateText id patch =>
      exact changeOverlay_outcome (eq_ok_of_map applied)

end Inversion

/-- A command keeps a property of all clips that the appended clip has and that passes from a clip to
its parts. -/
theorem Outcome.forall_clips
    {t next : Timeline α}
    {supply : IdSupply}
    {command : Command α}
    {P : Clip α → Prop}
    (outcome : Outcome t supply command next)
    (all : ∀ c ∈ t.clips, P c)
    (appended : ∀ c, command = .addClip c → P (t.appendedClip c))
    (parts :
      ∀ id c made, command.target? = some id → t.clip? id = some c → P c →
        command.clipParts? supply c = some made → ∀ d ∈ made, P d) :
    ∀ c ∈ next.clips, P c := by
  cases outcome with
  | addClip c => simpa [or_imp, forall_and] using ⟨all, appended c rfl⟩
  | addText o => exact all
  | @clip _ id before after made c target found place isMade =>
      rw [place] at all
      have holds := all c (by simp)
      exact Edit.forall_mem_splice all (parts id c made target found holds isMade)
  | overlay => exact all

/-- A command keeps a property of all overlays that the appended overlay has and that passes from an
overlay to its parts. -/
theorem Outcome.forall_overlays
    {t next : Timeline α}
    {supply : IdSupply}
    {command : Command α}
    {Q : Overlay α → Prop}
    (outcome : Outcome t supply command next)
    (all : ∀ o ∈ t.overlays, Q o)
    (appended : ∀ o, command = .addText o → Q (t.appendedOverlay o))
    (parts :
      ∀ id o made, command.target? = some id → t.overlay? id = some o →
        (t.clip? id = none ∨ ∃ patch, command = .updateText id patch) → Q o →
        command.overlayParts? supply o = some made → ∀ p ∈ made, Q p) :
    ∀ o ∈ next.overlays, Q o := by
  cases outcome with
  | addClip c => exact all
  | addText o => simpa [or_imp, forall_and] using ⟨all, appended o rfl⟩
  | clip => exact all
  | @overlay _ id before after made o target found noClip place isMade =>
      rw [place] at all
      have holds := all o (by simp)
      exact Edit.forall_mem_splice all (parts id o made target found noClip holds isMade)

/-- A command changes nothing but the elements. -/
theorem Outcome.same_settings
    {t next : Timeline α}
    {supply : IdSupply}
    {command : Command α}
    (outcome : Outcome t supply command next) :
    next.version = t.version ∧ next.frameRate = t.frameRate ∧ next.canvas = t.canvas := by
  cases outcome <;> exact ⟨rfl, rfl, rfl⟩

/-- Every part of the clip that a command is about is a clip of the outcome. -/
theorem Outcome.exists_clipParts
    {t next : Timeline α}
    {supply : IdSupply}
    {command : Command α}
    {id : Identity}
    {c : Clip α}
    (outcome : Outcome t supply command next)
    (target : command.target? = some id)
    (found : t.clip? id = some c)
    (notText : ∀ patch, command ≠ .updateText id patch) :
    ∃ parts, command.clipParts? supply c = some parts ∧ ∀ d ∈ parts, d ∈ next.clips := by
  cases outcome with
  | addClip => cases target
  | addText => cases target
  | @clip _ id' before after parts c' target' found' place made =>
      cases target.symm.trans target'
      cases found.symm.trans found'
      exact ⟨parts, made, fun d member => by simp [member]⟩
  | @overlay _ id' before after parts o target' found' noClip place made =>
      cases target.symm.trans target'
      rcases noClip with absent | ⟨patch, isText⟩
      · rw [found] at absent
        cases absent
      · exact (notText patch isText).elim

/-! ## Whole runs -/

/-- A run is accepted if its first command is and the run of the others is. -/
theorem applyAll_cons_eq_ok_iff
    {command : Command α}
    {rest : List (Command α)}
    {t next : Timeline α}
    {supply left : IdSupply} :
    t.applyAll supply (command :: rest) = .ok (next, left) ↔
      ∃ middle supply', t.apply supply command = .ok (middle, supply') ∧
        middle.applyAll supply' rest = .ok (next, left) := by
  rw [applyAll]
  cases t.apply supply command with
  | error e => exact iff_of_false nofun nofun
  | ok passed =>
      constructor
      · intro ran
        exact ⟨_, _, rfl, ran⟩
      · rintro ⟨_, _, ⟨⟩, ran⟩
        exact ran

/-- What every accepted command of a list keeps, a run of the list keeps. -/
theorem applyAll_induction
    {Invariant : Timeline α → Prop}
    {commands : List (Command α)}
    (step :
      ∀ command ∈ commands, ∀ (t next : Timeline α) (supply left : IdSupply), Invariant t →
        t.apply supply command = .ok (next, left) → Invariant next)
    {t next : Timeline α}
    {supply left : IdSupply}
    (start : Invariant t)
    (ran : t.applyAll supply commands = .ok (next, left)) :
    Invariant next := by
  induction commands generalizing t supply with
  | nil =>
      cases ran
      exact start
  | cons command rest inductionHypothesis =>
      obtain ⟨middle, supply', applied, ran⟩ := applyAll_cons_eq_ok_iff.mp ran
      exact inductionHypothesis (fun later member => step later (List.mem_cons_of_mem _ member))
        (step command List.mem_cons_self t middle supply supply' start applied) ran

/-- Whether all commands of a list are accepted and lead to a timeline that passes a test. -/
def leadsTo (t : Timeline α) (supply : IdSupply) (commands : List (Command α))
    (test : Timeline α → Bool) : Bool :=
  match t.applyAll supply commands with
  | .error _ => false
  | .ok (next, _) => test next

theorem leadsTo_iff
    {t : Timeline α}
    {supply : IdSupply}
    {commands : List (Command α)}
    {test : Timeline α → Bool} :
    t.leadsTo supply commands test = true ↔
      ∃ next left, t.applyAll supply commands = .ok (next, left) ∧ test next = true := by
  unfold leadsTo
  cases t.applyAll supply commands with
  | error e => simp
  | ok result =>
      obtain ⟨next, left⟩ := result
      simp

/-- The timelines that a list of commands passes, each with the command that is applied to it. -/
def stages (t : Timeline α) (supply : IdSupply) : List (Command α) → List (Timeline α × Command α)
  | [] => []
  | command :: rest =>
      (t, command) ::
        match t.apply supply command with
        | .error _ => []
        | .ok (next, left) => stages next left rest

/-- What holds of every timeline that a run passes, and of the last one, holds of the first. -/
theorem holds_of_stages
    {P : Timeline α → Prop}
    {commands : List (Command α)}
    {t next : Timeline α}
    {supply left : IdSupply}
    (ran : t.applyAll supply commands = .ok (next, left))
    (passed : ∀ stage ∈ t.stages supply commands, P stage.1)
    (last : P next) :
    P t := by
  cases commands with
  | nil =>
      cases ran
      exact last
  | cons command rest => exact passed _ List.mem_cons_self

/-- What the commands of a run keep where the run meets them, the run keeps. -/
theorem applyAll_induction_stages
    {Invariant : Timeline α → Prop}
    {commands : List (Command α)}
    {t next : Timeline α}
    {supply left : IdSupply}
    (step :
      ∀ stage ∈ t.stages supply commands, ∀ (next : Timeline α) (supply left : IdSupply),
        Invariant stage.1 → stage.1.apply supply stage.2 = .ok (next, left) → Invariant next)
    (start : Invariant t)
    (ran : t.applyAll supply commands = .ok (next, left)) :
    Invariant next := by
  induction commands generalizing t supply with
  | nil =>
      cases ran
      exact start
  | cons command rest inductionHypothesis =>
      obtain ⟨middle, supply', applied, ran⟩ := applyAll_cons_eq_ok_iff.mp ran
      rw [stages, applied] at step
      have kept := step (t, command) List.mem_cons_self middle supply supply' start applied
      exact inductionHypothesis (fun stage member => step stage (List.mem_cons_of_mem _ member))
        kept ran

theorem mem_of_mem_stages
    {commands : List (Command α)}
    {t : Timeline α}
    {supply : IdSupply}
    {stage : Timeline α × Command α}
    (member : stage ∈ t.stages supply commands) :
    stage.2 ∈ commands := by
  induction commands generalizing t supply with
  | nil => cases member
  | cons command rest inductionHypothesis =>
      rw [stages] at member
      rcases List.mem_cons.mp member with rfl | later
      · exact List.mem_cons_self
      · refine List.mem_cons_of_mem command ?_
        split at later
        · cases later
        · exact inductionHypothesis later

end Timeline

end Montage

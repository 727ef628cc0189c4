import Montage.Proofs.Edit.Outcome

/-!
Contract: a command is accepted wherever it makes parts of its element.

Owns:
- the first element that is meant, with what stands around it (`Edit.IsFirst`);
- the result of a command on the clip or overlay in that place.

Does **not** own: what accepted commands have in common (`Montage.Proofs.Edit.Outcome`).
-/

set_option autoImplicit false

namespace Montage

/-! ## The place of an element -/

namespace Edit

variable {β : Type}

/-- The first element of a list that is meant, and what stands before and after it. -/
structure IsFirst (isMeant : β → Bool) (list before : List β) (x : β) (after : List β) : Prop where
  place : list = before ++ x :: after
  meant : isMeant x = true
  others : ∀ y ∈ before, isMeant y = false

section IsFirst

variable {isMeant : β → Bool} {list before after : List β} {x y : β}

theorem exists_isFirst (found : list.find? isMeant = some x) :
    ∃ before after, IsFirst isMeant list before x after := by
  obtain ⟨meant, before, after, place, others⟩ := List.find?_eq_some_iff_append.mp found
  exact ⟨before, after, place, meant, fun y member => by simpa using others y member⟩

theorem IsFirst.find?_eq (first : IsFirst isMeant list before x after) :
    list.find? isMeant = some x :=
  List.find?_eq_some_iff_append.mpr
    ⟨first.meant, before, after, first.place, fun y member => by simp [first.others y member]⟩

theorem IsFirst.spliceFirst_eq (first : IsFirst isMeant list before x after)
    (parts : β → List β) :
    spliceFirst isMeant parts list = some (before ++ parts x ++ after) := by
  rw [first.place]
  exact spliceFirst_append isMeant parts x after first.meant before first.others

theorem IsFirst.mem (first : IsFirst isMeant list before x after) : x ∈ list := by
  rw [first.place]
  exact List.mem_append_right _ List.mem_cons_self

theorem IsFirst.not_nowhere (first : IsFirst isMeant list before x after) :
    ¬ ∀ y ∈ list, isMeant y = false :=
  fun nowhere => Bool.false_ne_true ((nowhere x first.mem).symm.trans first.meant)

theorem IsFirst.before_eq (first : IsFirst isMeant list before x after) :
    before = list.takeWhile fun y => !isMeant y := by
  have passed : ∀ y ∈ before, (!isMeant y) = true := fun y member => by rw [first.others y member]; rfl
  rw [first.place, List.takeWhile_append_of_pos passed, List.takeWhile_cons_of_neg,
    List.append_nil]
  rw [first.meant]
  exact Bool.false_ne_true

/-- A list has its first element that is meant in one place. -/
theorem IsFirst.unique {before' after' : List β} (first : IsFirst isMeant list before x after)
    (first' : IsFirst isMeant list before' y after') : before = before' ∧ x = y ∧ after = after' := by
  obtain rfl : before = before' := first.before_eq.trans first'.before_eq.symm
  have rest := List.append_cancel_left (first.place.symm.trans first'.place)
  obtain ⟨rfl, rfl⟩ := List.cons.inj rest
  exact ⟨rfl, rfl, rfl⟩

/-- An element that is meant as well can stand in the same place. -/
theorem IsFirst.replaced (first : IsFirst isMeant list before x after) (meant : isMeant y = true) :
    IsFirst isMeant (before ++ [y] ++ after) before y after :=
  ⟨List.append_assoc before [y] after, meant, first.others⟩

theorem IsFirst.replaced_eq_iff (first : IsFirst isMeant list before x after) :
    before ++ [y] ++ after = list ↔ y = x := by
  rw [first.place, List.append_assoc, List.append_cancel_left_eq, List.singleton_append, List.cons.injEq,
    and_iff_left rfl]

end IsFirst

/-- No parts can be put in the place of an element that is not there. -/
theorem spliceFirst_eq_none {isMeant : β → Bool} {list : List β} (absent : list.find? isMeant = none)
    (parts : β → List β) : spliceFirst isMeant parts list = none := by
  have missing := spliceFirst_isSome isMeant parts list
  rw [List.any_eq_false.mpr (List.find?_eq_none.mp absent)] at missing
  exact Option.isNone_iff_eq_none.mp (Option.isSome_eq_false_iff.mp missing)

end Edit

variable {α : Type}

/-- How many identities a command takes from the supply. -/
def Command.drawn : Command α → Nat
  | .split _ _ => 2
  | .duplicate _ => 1
  | _ => 0

namespace Timeline

/-- The first clip with an identity stands in this place. -/
abbrev HasClip (t : Timeline α) (id : Identity) (before : List (Clip α)) (c : Clip α)
    (after : List (Clip α)) : Prop :=
  Edit.IsFirst (fun c => c.id == id) t.clips before c after

/-- The first overlay with an identity stands in this place, and no clip has the identity. -/
structure HasOverlay (t : Timeline α) (id : Identity) (before : List (Overlay α)) (o : Overlay α)
    (after : List (Overlay α)) : Prop extends
    Edit.IsFirst (fun o => o.id == id) t.overlays before o after where
  noClip : t.clip? id = none

section Places

variable {t : Timeline α} {id : Identity}

theorem element?_eq_some {element : Element α} (found : t.element? id = some element) :
    (∃ c, element = .clip c ∧ t.clip? id = some c) ∨
      ∃ o, element = .text o ∧ t.clip? id = none ∧ t.overlay? id = some o := by
  unfold element? at found
  cases isClip : t.clip? id with
  | some c =>
      rw [isClip] at found
      exact Or.inl ⟨c, (Option.some.inj found).symm, rfl⟩
  | none =>
      rw [isClip] at found
      obtain ⟨o, isOverlay, isElement⟩ := Option.map_eq_some_iff.mp found
      exact Or.inr ⟨o, isElement.symm, rfl, isOverlay⟩

theorem exists_hasClip {c : Clip α} (found : t.clip? id = some c) :
    ∃ before after, t.HasClip id before c after :=
  Edit.exists_isFirst found

theorem exists_hasOverlay {o : Overlay α} (absent : t.clip? id = none)
    (found : t.overlay? id = some o) : ∃ before after, t.HasOverlay id before o after := by
  obtain ⟨before, after, first⟩ := Edit.exists_isFirst found
  exact ⟨before, after, first, absent⟩

theorem spliceClip_eq_none (absent : t.clip? id = none) (parts : Clip α → List (Clip α)) :
    t.spliceClip id parts = none := by
  rw [spliceClip, Edit.spliceFirst_eq_none absent, Option.map_none]

theorem spliceOverlay_eq_none (absent : t.overlay? id = none)
    (parts : Overlay α → List (Overlay α)) : t.spliceOverlay id parts = none := by
  rw [spliceOverlay, Edit.spliceFirst_eq_none absent, Option.map_none]

end Places

/-! ## Commands on the element in a place -/

section Clips

variable {t : Timeline α} {id : Identity} {before after : List (Clip α)} {c : Clip α}

theorem HasClip.changeClip_eq (place : t.HasClip id before c after) (change : Clip α → Clip α) :
    t.changeClip id change = .ok { t with clips := before ++ [change c] ++ after } := by
  unfold changeClip spliceClip
  rw [place.spliceFirst_eq]
  rfl

theorem HasClip.replaceElement_eq (place : t.HasClip id before c after)
    (clipParts : Clip α → List (Clip α)) (overlayParts : Overlay α → List (Overlay α)) :
    t.replaceElement id clipParts overlayParts =
      .ok { t with clips := before ++ clipParts c ++ after } := by
  unfold replaceElement spliceElement spliceClip
  rw [place.spliceFirst_eq]
  rfl

variable [Scalar α]

theorem HasClip.split_eq (place : t.HasClip id before c after) (first second : Identity)
    (position : α) :
    t.split id first second position =
      match c.halves? first second position with
      | some (a, b) => .ok { t with clips := before ++ [a, b] ++ after }
      | none => .error (.splitOutOfRange id position c.timelineStart c.timelineEnd) := by
  have found : t.clip? id = some c := place.find?_eq
  simp only [split, element?, found, place.replaceElement_eq]
  rfl

/-- A command that makes parts of a clip puts them in its place. -/
theorem HasClip.apply_eq
    (place : t.HasClip id before c after)
    {supply : IdSupply}
    {command : Command α}
    {parts : List (Clip α)}
    (target : command.target? = some id)
    (made : command.clipParts? supply c = some parts) :
    t.apply supply command =
      .ok ({ t with clips := before ++ parts ++ after }, supply.advance command.drawn) := by
  cases command with
  | addClip clip => cases made
  | addText overlay => cases made
  | updateText target patch => cases made
  | split target position =>
      cases target
      obtain ⟨⟨a, b⟩, halves, rfl⟩ := Option.map_eq_some_iff.mp made
      simp only [apply, place.split_eq, halves]
      rfl
  | duplicate target | delete target | reposition target start | resizeRight target request =>
      cases target
      cases made
      simp only [apply, place.replaceElement_eq]
      rfl
  | trimStart target request | trimEnd target request | clearTrim target
  | updateClip target patch =>
      cases target
      cases made
      simp only [apply, place.changeClip_eq]
      rfl

end Clips

section Overlays

variable {t : Timeline α} {id : Identity} {before after : List (Overlay α)} {o : Overlay α}

theorem changeOverlay_eq_of_isFirst
    (place : Edit.IsFirst (fun o => o.id == id) t.overlays before o after)
    (change : Overlay α → Overlay α) :
    t.changeOverlay id change = .ok { t with overlays := before ++ [change o] ++ after } := by
  unfold changeOverlay spliceOverlay
  rw [place.spliceFirst_eq]
  rfl

theorem HasOverlay.replaceElement_eq (place : t.HasOverlay id before o after)
    (clipParts : Clip α → List (Clip α)) (overlayParts : Overlay α → List (Overlay α)) :
    t.replaceElement id clipParts overlayParts =
      .ok { t with overlays := before ++ overlayParts o ++ after } := by
  unfold replaceElement spliceElement
  rw [spliceClip_eq_none place.noClip, Option.none_or, spliceOverlay, place.spliceFirst_eq]
  rfl

variable [Scalar α]

theorem HasOverlay.split_eq (place : t.HasOverlay id before o after) (first second : Identity)
    (position : α) :
    t.split id first second position =
      match o.halves? first second position with
      | some (a, b) => .ok { t with overlays := before ++ [a, b] ++ after }
      | none => .error (.splitOutOfRange id position o.timelineStart o.timelineEnd) := by
  have found : t.overlay? id = some o := place.find?_eq
  simp only [split, element?, place.noClip, found, Option.map_some, place.replaceElement_eq]
  rfl

/-- A command that makes parts of an overlay puts them in its place. -/
theorem HasOverlay.apply_eq
    (place : t.HasOverlay id before o after)
    {supply : IdSupply}
    {command : Command α}
    {parts : List (Overlay α)}
    (target : command.target? = some id)
    (made : command.overlayParts? supply o = some parts) :
    t.apply supply command =
      .ok ({ t with overlays := before ++ parts ++ after }, supply.advance command.drawn) := by
  cases command with
  | split target position =>
      cases target
      obtain ⟨⟨a, b⟩, halves, rfl⟩ := Option.map_eq_some_iff.mp made
      simp only [apply, place.split_eq, halves]
      rfl
  | duplicate target | delete target | reposition target start | resizeRight target request =>
      cases target
      cases made
      simp only [apply, place.replaceElement_eq]
      rfl
  | updateText target patch =>
      cases target
      cases made
      simp only [apply, changeOverlay_eq_of_isFirst place.toIsFirst]
      rfl
  | _ => cases made

end Overlays

end Timeline

end Montage

import Montage.Proofs.Edit.Place

/-!
Contract: every edit is local.

Owns:
- the element that a command means, among clips and overlays together (`Command.means`);
- what a command may leave in the place of that element (`Command.Leaves`);
- that it changes nothing else (`Timeline.LocalEdit`), and when it finds no element.

Does **not** own: what an edit does to the numbers of its element (`Montage.Proofs.Clip.Parts`,
`Montage.Proofs.Overlay.Bounds`).

The clips and the overlays are one list here, the clips first, so that an element has one place whatever
its kind. A command that looks in both lists means the first element of that list with its identity.
-/

set_option autoImplicit false

namespace Montage

variable {α : Type}

/-! ## Elements -/

namespace Element

/-- The kind and the asset of a clip; a text has neither. -/
def nature : Element α → Option (MediaKind × AssetRef)
  | .clip c => some (c.kind, c.asset)
  | .text _ => none

def withId (id : Identity) : Element α → Element α
  | .clip c => .clip { c with id }
  | .text o => .text { o with id }

def halves? [Scalar α] (first second : Identity) (position : α) :
    Element α → Option (Element α × Element α)
  | .clip c => (c.halves? first second position).map (Prod.map .clip .clip)
  | .text o => (o.halves? first second position).map (Prod.map .text .text)

@[simp] theorem withId_id (e : Element α) (id : Identity) : (e.withId id).id = id := by
  cases e <;> rfl

@[simp] theorem withId_nature (e : Element α) (id : Identity) : (e.withId id).nature = e.nature := by
  cases e <;> rfl

end Element

section Halves

variable [Scalar α] {first second : Identity} {position : α}

theorem Clip.of_halves?_eq_some {c a b : Clip α}
    (halves : c.halves? first second position = some (a, b)) :
    ∃ cut, a = { c with id := first, timelineEnd := position, sourceOut := cut } ∧
      b = { c with id := second, timelineStart := position, sourceIn := cut } := by
  simp only [Clip.halves?] at halves
  split at halves
  · split at halves
    · cases halves
    · cases halves
      exact ⟨_, rfl, rfl⟩
  · cases halves

theorem Overlay.of_halves?_eq_some {o a b : Overlay α}
    (halves : o.halves? first second position = some (a, b)) :
    a = { o with id := first, timelineEnd := position } ∧
      b = { o with id := second, timelineStart := position } := by
  unfold Overlay.halves? at halves
  split at halves
  · cases halves
    exact ⟨rfl, rfl⟩
  · cases halves

/-- The halves of an element are of its nature and have the identities given to them. -/
theorem Element.of_halves?_eq_some {e a b : Element α}
    (cut : e.halves? first second position = some (a, b)) :
    (a.id = first ∧ a.nature = e.nature) ∧ b.id = second ∧ b.nature = e.nature := by
  cases e with
  | clip c =>
      obtain ⟨⟨first, second⟩, halves, isPair⟩ := Option.map_eq_some_iff.mp cut
      obtain ⟨_, rfl, rfl⟩ := Clip.of_halves?_eq_some halves
      cases isPair
      exact ⟨⟨rfl, rfl⟩, rfl, rfl⟩
  | text o =>
      obtain ⟨⟨first, second⟩, halves, isPair⟩ := Option.map_eq_some_iff.mp cut
      obtain ⟨rfl, rfl⟩ := Overlay.of_halves?_eq_some halves
      cases isPair
      exact ⟨⟨rfl, rfl⟩, rfl, rfl⟩

end Halves

/-! ## The element that a command means -/

namespace Command

def onClips : Command α → Bool
  | .addClip _ | .addText _ | .updateText _ _ => false
  | _ => true

/-- Whether a command looks for its element among the overlays. -/
def onTexts : Command α → Bool
  | .split _ _ | .duplicate _ | .delete _ | .reposition _ _ | .resizeRight _ _
  | .updateText _ _ => true
  | _ => false

def worksOn (command : Command α) : Element α → Bool
  | .clip _ => command.onClips
  | .text _ => command.onTexts

/-- Whether an element is of a kind that a command works on and has the identity that it names. -/
def means (command : Command α) (e : Element α) : Bool :=
  command.worksOn e && command.target? == some e.id

theorem means_iff {command : Command α} {id : Identity} (target : command.target? = some id)
    (e : Element α) : command.means e = true ↔ command.worksOn e = true ∧ e.id = id := by
  rw [means, target, Bool.and_eq_true, beq_iff_eq, Option.some.injEq, @eq_comm _ id]

theorem target?_of_means {command : Command α} {e : Element α} (meant : command.means e = true) :
    command.target? = some e.id :=
  beq_iff_eq.mp ((Bool.and_eq_true _ _).mp meant).2

theorem means_eq_false_iff {command : Command α} {id : Identity}
    (target : command.target? = some id) (e : Element α) :
    command.means e = false ↔ (command.worksOn e = true → e.id ≠ id) := by
  rw [← Bool.not_eq_true, means_iff target, not_and]

variable [Scalar α]

/-- What a command puts in the place of an element; none if it is refused or does not work on it. -/
def parts? (command : Command α) (supply : IdSupply) : Element α → Option (List (Element α))
  | .clip c => (command.clipParts? supply c).map (List.map .clip)
  | .text o => (command.overlayParts? supply o).map (List.map .text)

/-- What a command may leave in the place of the element that it means: nothing, the element with a copy
after it, its two halves, or one element of the same identity and nature. -/
def Leaves (supply : IdSupply) (e : Element α) (parts : List (Element α)) : Command α → Prop
  | .addClip _ | .addText _ => False
  | .delete _ => parts = []
  | .duplicate _ => parts = [e, e.withId supply.next]
  | .split _ position =>
      ∃ a b, e.halves? supply.next (supply.advance 1).next position = some (a, b) ∧ parts = [a, b]
  | _ => ∃ d, parts = [d] ∧ d.id = e.id ∧ d.nature = e.nature

section Parts

variable {command : Command α} {supply : IdSupply}

theorem leaves_of_clipParts? {c : Clip α} {parts : List (Clip α)}
    (made : command.clipParts? supply c = some parts) :
    command.Leaves supply (.clip c) (parts.map .clip) := by
  cases command with
  | addClip | addText | updateText => cases made
  | split id position =>
      obtain ⟨⟨a, b⟩, halves, rfl⟩ := Option.map_eq_some_iff.mp made
      exact ⟨.clip a, .clip b, by rw [Element.halves?, halves]; rfl, rfl⟩
  | duplicate | delete => cases made; rfl
  | clearTrim | updateClip => cases made; exact ⟨_, rfl, rfl, rfl⟩
  | trimStart id request =>
      cases made
      refine ⟨_, rfl, ?_⟩
      unfold Clip.trimStart
      split <;> exact ⟨rfl, rfl⟩
  | trimEnd id request =>
      cases made
      refine ⟨_, rfl, ?_⟩
      unfold Clip.trimEnd
      split <;> exact ⟨rfl, rfl⟩
  | reposition id start =>
      cases made
      refine ⟨_, rfl, ?_⟩
      unfold Clip.reposition
      split <;> exact ⟨rfl, rfl⟩
  | resizeRight id request =>
      cases made
      refine ⟨_, rfl, ?_⟩
      unfold Clip.resizeRight
      split <;> exact ⟨rfl, rfl⟩

theorem leaves_of_overlayParts? {o : Overlay α} {parts : List (Overlay α)}
    (made : command.overlayParts? supply o = some parts) :
    command.Leaves supply (.text o) (parts.map .text) := by
  cases command with
  | split id position =>
      obtain ⟨⟨a, b⟩, halves, rfl⟩ := Option.map_eq_some_iff.mp made
      exact ⟨.text a, .text b, by rw [Element.halves?, halves]; rfl, rfl⟩
  | duplicate | delete => cases made; rfl
  | updateText => cases made; exact ⟨_, rfl, rfl, rfl⟩
  | reposition id start =>
      cases made
      refine ⟨_, rfl, ?_⟩
      unfold Overlay.reposition
      split <;> exact ⟨rfl, rfl⟩
  | resizeRight id request =>
      cases made
      refine ⟨_, rfl, ?_⟩
      unfold Overlay.resizeRight
      split <;> exact ⟨rfl, rfl⟩
  | _ => cases made

theorem leaves_of_parts? {e : Element α} {parts : List (Element α)}
    (made : command.parts? supply e = some parts) : command.Leaves supply e parts := by
  cases e with
  | clip c =>
      obtain ⟨clips, clipParts, rfl⟩ := Option.map_eq_some_iff.mp made
      exact leaves_of_clipParts? clipParts
  | text o =>
      obtain ⟨overlays, overlayParts, rfl⟩ := Option.map_eq_some_iff.mp made
      exact leaves_of_overlayParts? overlayParts

end Parts

end Command

namespace Timeline

/-! ## The place of an element of either kind -/

section Places

variable {t : Timeline α} {command : Command α} {id : Identity}

theorem isFirst_elements_of_clip {before after : List (Clip α)} {c : Clip α}
    (place : t.HasClip id before c after) (target : command.target? = some id)
    (works : command.onClips = true) :
    Edit.IsFirst command.means t.elements (before.map .clip) (.clip c)
      (after.map .clip ++ t.overlays.map .text) := by
  constructor
  · rw [elements, place.place]
    simp
  · exact (Command.means_iff target _).mpr ⟨works, beq_iff_eq.mp place.meant⟩
  · intro e earlier
    obtain ⟨d, member, rfl⟩ := List.mem_map.mp earlier
    refine (Command.means_eq_false_iff target _).mpr fun _ => ?_
    exact beq_eq_false_iff_ne.mp (place.others d member)

theorem isFirst_elements_of_text {before after : List (Overlay α)} {o : Overlay α}
    (place : Edit.IsFirst (fun o => o.id == id) t.overlays before o after)
    (target : command.target? = some id) (works : command.onTexts = true)
    (noClip : ∀ c ∈ t.clips, command.means (.clip c) = false) :
    Edit.IsFirst command.means t.elements (t.clips.map .clip ++ before.map .text) (.text o)
      (after.map .text) := by
  constructor
  · rw [elements, place.place]
    simp
  · exact (Command.means_iff target _).mpr ⟨works, beq_iff_eq.mp place.meant⟩
  · intro e earlier
    rcases List.mem_append.mp earlier with isClip | isText
    · obtain ⟨c, member, rfl⟩ := List.mem_map.mp isClip
      exact noClip c member
    · obtain ⟨d, member, rfl⟩ := List.mem_map.mp isText
      refine (Command.means_eq_false_iff target _).mpr fun _ => ?_
      exact beq_eq_false_iff_ne.mp (place.others d member)

end Places

/-! ## Looking for the element -/

section Lookup

variable {t : Timeline α} {command : Command α} {id : Identity}

/-- No clip is meant where the clips are not searched or none has the identity. -/
theorem means_clip_eq_false (target : command.target? = some id)
    (noClip : command.onClips = true → t.clip? id = none) :
    ∀ c ∈ t.clips, command.means (.clip c) = false := by
  intro c member
  refine (Command.means_eq_false_iff target _).mpr fun works same => ?_
  exact List.find?_eq_none.mp (noClip works) c member (beq_iff_eq.mpr same)

theorem means_text_eq_false (target : command.target? = some id)
    (noOverlay : command.onTexts = true → t.overlay? id = none) :
    ∀ o ∈ t.overlays, command.means (.text o) = false := by
  intro o member
  refine (Command.means_eq_false_iff target _).mpr fun works same => ?_
  exact List.find?_eq_none.mp (noOverlay works) o member (beq_iff_eq.mpr same)

variable [Scalar α] {supply : IdSupply}

theorem apply_eq_notFound (target : command.target? = some id)
    (noClip : command.onClips = true → t.clip? id = none)
    (noOverlay : command.onTexts = true → t.overlay? id = none) :
    t.apply supply command = .error (.elementNotFound id) := by
  cases command with
  | addClip | addText => cases target
  | trimStart | trimEnd | clearTrim | updateClip =>
      cases target
      simp only [apply, changeClip, spliceClip_eq_none (noClip rfl)]
      rfl
  | updateText =>
      cases target
      simp only [apply, changeOverlay, spliceOverlay_eq_none (noOverlay rfl)]
      rfl
  | split =>
      cases target
      simp only [apply, split, element?, noClip rfl, noOverlay rfl, Option.map_none]
      rfl
  | duplicate | delete | reposition | resizeRight =>
      cases target
      simp only [apply, replaceElement, spliceElement, spliceClip_eq_none (noClip rfl),
        spliceOverlay_eq_none (noOverlay rfl), Option.none_or]
      rfl

/-- A command that finds no clip puts parts in the place of the first overlay with the identity. -/
theorem apply_eq_of_overlayParts? {before after parts : List (Overlay α)} {o : Overlay α}
    (place : Edit.IsFirst (fun o => o.id == id) t.overlays before o after)
    (target : command.target? = some id)
    (noClip : command.onClips = true → t.clip? id = none)
    (made : command.overlayParts? supply o = some parts) :
    t.apply supply command =
      .ok ({ t with overlays := before ++ parts ++ after }, supply.advance command.drawn) := by
  cases command with
  | addClip | addText => cases target
  | updateText id patch =>
      cases target
      cases made
      simp only [apply, changeOverlay_eq_of_isFirst place]
      rfl
  | _ => exact HasOverlay.apply_eq ⟨place, noClip rfl⟩ target made

end Lookup

/-- What comes of a command that names an element: there is none, or the element cannot be cut there, or
parts are put in its place. -/
inductive Attempt [Scalar α] (t : Timeline α) (supply : IdSupply) (command : Command α)
    (id : Identity) : Except (EditError α) (Timeline α × IdSupply) → Prop
  | notFound (nowhere : ∀ e ∈ t.elements, command.means e = false) :
      Attempt t supply command id (.error (.elementNotFound id))
  | whole {before after : List (Element α)} {e : Element α} {position : α}
      (place : Edit.IsFirst command.means t.elements before e after)
      (isSplit : command = .split id position)
      (uncut : e.halves? supply.next (supply.advance 1).next position = none) :
      Attempt t supply command id (.error (.splitOutOfRange id position e.span.1 e.span.2))
  | edited {before after parts : List (Element α)} {e : Element α} {next : Timeline α}
      (place : Edit.IsFirst command.means t.elements before e after)
      (made : command.parts? supply e = some parts)
      (elements : next.elements = before ++ parts ++ after) :
      Attempt t supply command id (.ok (next, supply.advance command.drawn))

section Attempt

variable [Scalar α] {t : Timeline α} {supply : IdSupply} {command : Command α} {id : Identity}

theorem HasClip.attempt {before after : List (Clip α)} {c : Clip α}
    (place : t.HasClip id before c after) (target : command.target? = some id)
    (works : command.onClips = true) : t.Attempt supply command id (t.apply supply command) := by
  have isFirst := isFirst_elements_of_clip place target works
  cases made : command.clipParts? supply c with
  | some parts =>
      rw [place.apply_eq target made]
      refine .edited isFirst (by rw [Command.parts?, made]; rfl) ?_
      simp [elements]
  | none =>
      cases command with
      | addClip | addText | updateText => cases works
      | split id position =>
          cases target
          have uncut := Option.map_eq_none_iff.mp made
          have refused : t.apply supply (.split id position) =
              .error (.splitOutOfRange id position c.timelineStart c.timelineEnd) := by
            simp only [apply, place.split_eq, uncut]
            rfl
          rw [refused]
          exact .whole isFirst rfl (by rw [Element.halves?, uncut]; rfl)
      | _ => cases made

theorem attempt_of_overlay {before after : List (Overlay α)} {o : Overlay α}
    (place : Edit.IsFirst (fun o => o.id == id) t.overlays before o after)
    (target : command.target? = some id) (works : command.onTexts = true)
    (noClip : command.onClips = true → t.clip? id = none) :
    t.Attempt supply command id (t.apply supply command) := by
  have isFirst := isFirst_elements_of_text place target works (means_clip_eq_false target noClip)
  cases made : command.overlayParts? supply o with
  | some parts =>
      rw [apply_eq_of_overlayParts? place target noClip made]
      refine .edited isFirst (by rw [Command.parts?, made]; rfl) ?_
      simp [elements]
  | none =>
      cases command with
      | split id position =>
          cases target
          have uncut := Option.map_eq_none_iff.mp made
          have hasOverlay : t.HasOverlay id before o after := ⟨place, noClip rfl⟩
          have refused : t.apply supply (.split id position) =
              .error (.splitOutOfRange id position o.timelineStart o.timelineEnd) := by
            simp only [apply, hasOverlay.split_eq, uncut]
            rfl
          rw [refused]
          exact .whole isFirst rfl (by rw [Element.halves?, uncut]; rfl)
      | duplicate | delete | reposition | resizeRight | updateText => cases made
      | _ => cases works

/-- A command that names an element finds the first one that it means, clips before overlays. -/
theorem apply_attempt (t : Timeline α) (supply : IdSupply) (target : command.target? = some id) :
    t.Attempt supply command id (t.apply supply command) := by
  -- The clips are searched first, and the overlays only where no clip is found.
  by_cases inClips : command.onClips = true ∧ (t.clip? id).isSome = true
  · obtain ⟨c, found⟩ := Option.isSome_iff_exists.mp inClips.2
    obtain ⟨before, after, place⟩ := exists_hasClip found
    exact place.attempt target inClips.1
  · have noClip : command.onClips = true → t.clip? id = none := by
      intro works
      rw [← Option.not_isSome_iff_eq_none]
      exact fun found => inClips ⟨works, found⟩
    by_cases inTexts : command.onTexts = true ∧ (t.overlay? id).isSome = true
    · obtain ⟨o, found⟩ := Option.isSome_iff_exists.mp inTexts.2
      obtain ⟨before, after, place⟩ := Edit.exists_isFirst found
      exact attempt_of_overlay place target inTexts.1 noClip
    · have noOverlay : command.onTexts = true → t.overlay? id = none := by
        intro works
        rw [← Option.not_isSome_iff_eq_none]
        exact fun found => inTexts ⟨works, found⟩
      rw [apply_eq_notFound target noClip noOverlay]
      refine .notFound fun e member => ?_
      rcases List.mem_append.mp member with isClip | isText
      · obtain ⟨c, present, rfl⟩ := List.mem_map.mp isClip
        exact means_clip_eq_false target noClip c present
      · obtain ⟨o, present, rfl⟩ := List.mem_map.mp isText
        exact means_text_eq_false target noOverlay o present

end Attempt

/-! ## Local edits -/

section Elements

theorem ids_eq_map_elements (t : Timeline α) : t.ids = t.elements.map Element.id := by
  rw [ids, elements, List.map_append, List.map_map, List.map_map]
  rfl

theorem clips_of_elements (t : Timeline α) :
    (t.elements.filterMap fun | .clip c => some c | .text _ => none) = t.clips := by
  have others : t.overlays.filterMap (fun _ => (none : Option (Clip α))) = [] :=
    List.filterMap_eq_nil_iff.mpr fun _ _ => rfl
  rw [elements, List.filterMap_append, List.filterMap_map, List.filterMap_map]
  show t.clips.filterMap some ++ t.overlays.filterMap (fun _ => none) = t.clips
  rw [List.filterMap_some, others, List.append_nil]

theorem overlays_of_elements (t : Timeline α) :
    (t.elements.filterMap fun | .clip _ => none | .text o => some o) = t.overlays := by
  have others : t.clips.filterMap (fun _ => (none : Option (Overlay α))) = [] :=
    List.filterMap_eq_nil_iff.mpr fun _ _ => rfl
  rw [elements, List.filterMap_append, List.filterMap_map, List.filterMap_map]
  show t.clips.filterMap (fun _ => none) ++ t.overlays.filterMap some = t.overlays
  rw [List.filterMap_some, others, List.nil_append]

/-- The elements tell the clips from the overlays. -/
theorem eq_of_elements_eq {t t' : Timeline α}
    (settings : t.version = t'.version ∧ t.frameRate = t'.frameRate ∧ t.canvas = t'.canvas)
    (same : t.elements = t'.elements) : t = t' := by
  have clips : t.clips = t'.clips := by rw [← clips_of_elements, same, clips_of_elements]
  have overlays : t.overlays = t'.overlays := by
    rw [← overlays_of_elements, same, overlays_of_elements]
  obtain ⟨version, frameRate, canvas⟩ := settings
  cases t
  cases t'
  cases version
  cases frameRate
  cases canvas
  cases clips
  cases overlays
  rfl

end Elements

variable [Scalar α]

/-- An edit that touches one element: it appends the one that it brings, or leaves others in the place of
the one that it means. -/
inductive LocalEdit (t : Timeline α) (supply : IdSupply) : Command α → Timeline α → Prop
  | addClip (c : Clip α) :
      LocalEdit t supply (.addClip c) { t with clips := t.clips ++ [t.appendedClip c] }
  | addText (o : Overlay α) :
      LocalEdit t supply (.addText o) { t with overlays := t.overlays ++ [t.appendedOverlay o] }
  | inPlace {command : Command α} {before after parts : List (Element α)} {e : Element α}
      {next : Timeline α}
      (place : Edit.IsFirst command.means t.elements before e after)
      (leaves : command.Leaves supply e parts)
      (elements : next.elements = before ++ parts ++ after) :
      LocalEdit t supply command next

section LocalEdit

variable {t next : Timeline α} {supply left : IdSupply} {command : Command α} {id : Identity}

theorem elementNotFound_iff (t : Timeline α) (supply : IdSupply) (command : Command α) (id : Identity) :
    t.apply supply command = .error (.elementNotFound id) ↔
      command.target? = some id ∧ ∀ e ∈ t.elements, command.worksOn e = true → e.id ≠ id := by
  cases target : command.target? with
  | none =>
      refine iff_of_false ?_ fun named => nomatch named.1
      cases command with
      | addClip | addText => exact nofun
      | _ => cases target
  | some named =>
      have nowhere_iff :
          (∀ e ∈ t.elements, command.means e = false) ↔
            ∀ e ∈ t.elements, command.worksOn e = true → e.id ≠ named :=
        forall₂_congr fun e _ => Command.means_eq_false_iff target e
      have attempt := apply_attempt t supply target
      generalize t.apply supply command = result at attempt
      cases attempt with
      | notFound nowhere =>
          constructor
          · rintro ⟨⟩
            exact ⟨rfl, nowhere_iff.mp nowhere⟩
          · rintro ⟨⟨⟩, -⟩
            rfl
      | whole place | edited place =>
          refine iff_of_false nofun ?_
          rintro ⟨⟨⟩, nowhere⟩
          exact place.not_nowhere (nowhere_iff.mpr nowhere)

/-- A command is refused for another reason only if it is a cut that makes no halves. -/
theorem halves?_eq_none_of_refused {error : EditError α}
    (refused : t.apply supply command = .error error)
    (found : ∀ id, error ≠ .elementNotFound id) :
    ∃ id position before e after, command = .split id position ∧
      Edit.IsFirst command.means t.elements before e after ∧
      e.halves? supply.next (supply.advance 1).next position = none ∧
      error = .splitOutOfRange id position e.span.1 e.span.2 := by
  cases target : command.target? with
  | none =>
      cases command with
      | addClip | addText => cases refused
      | _ => cases target
  | some id =>
      have attempt := apply_attempt t supply target
      rw [refused] at attempt
      cases attempt with
      | notFound => exact (found id rfl).elim
      | whole place isSplit uncut => exact ⟨_, _, _, _, _, isSplit, place, uncut, rfl⟩

/-- An accepted command touches one element, and takes from the supply what it gives to new ones. -/
theorem apply_localEdit (applied : t.apply supply command = .ok (next, left)) :
    t.LocalEdit supply command next ∧ left = supply.advance command.drawn := by
  cases target : command.target? with
  | none =>
      cases command with
      | addClip c => cases applied; exact ⟨.addClip c, rfl⟩
      | addText o => cases applied; exact ⟨.addText o, rfl⟩
      | _ => cases target
  | some id =>
      have attempt := apply_attempt t supply target
      rw [applied] at attempt
      cases attempt with
      | edited place made elements =>
          exact ⟨.inPlace place (Command.leaves_of_parts? made) elements, rfl⟩

theorem exists_apply_delete {before after : List (Element α)} {e : Element α}
    (place : Edit.IsFirst (Command.delete id : Command α).means t.elements before e after) :
    ∃ next, t.apply supply (.delete id) = .ok (next, supply) ∧
      next.elements = before ++ after := by
  have attempt : t.Attempt supply (.delete id) id _ := apply_attempt t supply rfl
  generalize t.apply supply (.delete id) = result at attempt ⊢
  cases attempt with
  | notFound nowhere => exact (place.not_nowhere nowhere).elim
  | whole _ isSplit => cases isSplit
  | edited found made elements =>
      obtain ⟨rfl, rfl, rfl⟩ := place.unique found
      obtain rfl := Command.leaves_of_parts? made
      rw [List.append_nil] at elements
      exact ⟨_, rfl, elements⟩

/-- The copy of an element stands right after it, so that no other element is deleted with its identity. -/
theorem delete_copy (unused : supply.next ∉ t.ids)
    (applied : t.apply supply (.duplicate id) = .ok (next, left)) :
    next.apply left (.delete supply.next) = .ok (t, left) := by
  obtain ⟨edit, -⟩ := apply_localEdit applied
  cases edit with
  | @inPlace _ before after parts e _ place leaves elements =>
      obtain rfl : parts = [e, e.withId supply.next] := leaves
      have copyPlace : Edit.IsFirst (Command.delete supply.next : Command α).means next.elements
          (before ++ [e]) (e.withId supply.next) after := by
        refine ⟨by rw [elements]; simp, (Command.means_iff rfl _).mpr ⟨?_, by simp⟩, ?_⟩
        · cases e <;> rfl
        · -- Nothing before the copy has its identity, which the timeline did not use.
          intro d member
          refine (Command.means_eq_false_iff rfl _).mpr fun _ taken => ?_
          have present : d ∈ t.elements := by
            rw [place.place, List.append_cons]
            exact List.mem_append_left _ member
          rw [ids_eq_map_elements, ← taken] at unused
          exact unused (List.mem_map_of_mem present)
      obtain ⟨restored, deleted, others⟩ := exists_apply_delete copyPlace
      obtain ⟨version, frameRate, canvas⟩ := (apply_outcome deleted).same_settings
      obtain ⟨version', frameRate', canvas'⟩ := (apply_outcome applied).same_settings
      have same : restored = t := by
        refine eq_of_elements_eq ⟨version.trans version', frameRate.trans frameRate',
          canvas.trans canvas'⟩ ?_
        rw [others, place.place, List.append_assoc]
        rfl
      rw [deleted, same]

end LocalEdit

/-- A command acts on the one element that it means and on nothing else, and it is refused where it means
none. -/
structure ActsLocally (t : Timeline α) (supply : IdSupply) (command : Command α) : Prop where
  /-- It finds no element exactly if none of a kind that it works on has the identity that it names. -/
  notFound : ∀ id,
    t.apply supply command = .error (.elementNotFound id) ↔
      command.target? = some id ∧ ∀ e ∈ t.elements, command.worksOn e = true → e.id ≠ id
  /-- Otherwise it is refused only as a cut that makes no halves. -/
  refused : ∀ error, t.apply supply command = .error error →
    (∃ id, error = .elementNotFound id) ∨
      ∃ id position before e after, command = .split id position ∧
        Edit.IsFirst command.means t.elements before e after ∧
        e.halves? supply.next (supply.advance 1).next position = none ∧
        error = .splitOutOfRange id position e.span.1 e.span.2
  /-- If it is accepted, the settings and all other elements stay as they are and where they are. -/
  accepted : ∀ next left, t.apply supply command = .ok (next, left) →
    (next.version = t.version ∧ next.frameRate = t.frameRate ∧ next.canvas = t.canvas) ∧
      t.LocalEdit supply command next
  /-- Deleting the copy that it has made brings the timeline back. -/
  undone : ∀ id next left, command = .duplicate id → supply.next ∉ t.ids →
    t.apply supply command = .ok (next, left) →
      next.apply left (.delete supply.next) = .ok (t, left)

/-- Every command acts locally, on every timeline. -/
theorem apply_actsLocally (t : Timeline α) (supply : IdSupply) (command : Command α) :
    t.ActsLocally supply command := by
  constructor
  · exact elementNotFound_iff t supply command
  · intro error refused
    by_cases found : ∃ id, error = .elementNotFound id
    · exact Or.inl found
    · exact Or.inr (halves?_eq_none_of_refused refused (not_exists.mp found))
  · intro next left applied
    exact ⟨(apply_outcome applied).same_settings, (apply_localEdit applied).1⟩
  · rintro id next left rfl unused applied
    exact delete_copy unused applied

end Timeline

end Montage

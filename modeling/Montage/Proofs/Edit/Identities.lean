import Mathlib.Data.List.Nodup
import Montage.Proofs.Edit.Bounds
import Montage.Proofs.Edit.Locality

/-!
Contract: the identities of elements over whole runs.

Owns:
- the identities that commands bring and take away (`Command.introduced`, `Command.removed`);
- the balance of elements over a run (`Timeline.Balances`), and what it says where no identity is brought
  twice.

Does **not** own: where identities come from. A supply may repeat itself; that it does not is assumed here
as one condition on all identities that a run meets.

Every fact about a run is read off its balance: what is there in the end and what was taken away is, up to
order, what was there in the beginning and what was brought. One command balances, so a run does.
-/

set_option autoImplicit false

namespace Montage

variable {α : Type}

/-! ## What a command brings and takes away -/

namespace Command

def introduced (supply : IdSupply) : Command α → List Identity
  | .addClip c => [c.id]
  | .addText o => [o.id]
  | .split _ _ => [supply.next, (supply.advance 1).next]
  | .duplicate _ => [supply.next]
  | _ => []

/-- The identities of the elements that a command takes away. -/
def removed : Command α → List Identity
  | .split id _ => [id]
  | .delete id => [id]
  | _ => []

def introducedBy (supply : IdSupply) : List (Command α) → List Identity
  | [] => []
  | command :: rest =>
      command.introduced supply ++ introducedBy (supply.advance command.drawn) rest

/-- The identities that a run of commands takes away, in order. -/
def removedBy (commands : List (Command α)) : List Identity :=
  commands.flatMap removed

end Command

/-- What an element is known by: its identity and its nature. -/
abbrev Entry := Identity × Option (MediaKind × AssetRef)

def Element.entry (e : Element α) : Entry := (e.id, e.nature)

namespace Timeline

/-! ## Balances -/

/-- The elements of two timelines balance: those of the later one and those taken away are those of the
earlier one and those brought. -/
def Balances (t next : Timeline α) (introduced removed : List Identity) : Prop :=
  ∃ new gone : List Entry, new.map Prod.fst = introduced ∧ gone.map Prod.fst = removed ∧
    (next.elements.map Element.entry ++ gone).Perm (t.elements.map Element.entry ++ new)

section Balances

variable {t middle next : Timeline α} {introduced removed introduced' removed' : List Identity}

theorem Balances.refl (t : Timeline α) : t.Balances t [] [] :=
  ⟨[], [], rfl, rfl, .refl _⟩

theorem Balances.trans (first : t.Balances middle introduced removed)
    (second : middle.Balances next introduced' removed') :
    t.Balances next (introduced ++ introduced') (removed ++ removed') := by
  obtain ⟨new, gone, rfl, rfl, balance⟩ := first
  obtain ⟨new', gone', rfl, rfl, balance'⟩ := second
  refine ⟨new ++ new', gone ++ gone', List.map_append, List.map_append, ?_⟩
  -- The elements in between stand on both sides and pass from one balance to the other.
  calc
    _ = next.elements.map Element.entry ++ (gone ++ gone') := rfl
    _ |>.Perm (next.elements.map Element.entry ++ (gone' ++ gone)) :=
        .append_left _ List.perm_append_comm
    _ |>.Perm (middle.elements.map Element.entry ++ new' ++ gone) := by
        rw [← List.append_assoc]
        exact balance'.append_right gone
    _ |>.Perm (middle.elements.map Element.entry ++ gone ++ new') := by
        rw [List.append_assoc, List.append_assoc]
        exact .append_left _ List.perm_append_comm
    _ |>.Perm (t.elements.map Element.entry ++ (new ++ new')) := by
        rw [← List.append_assoc]
        exact balance.append_right new'

theorem Balances.ids (balance : t.Balances next introduced removed) :
    (next.ids ++ removed).Perm (t.ids ++ introduced) := by
  obtain ⟨new, gone, rfl, rfl, balance⟩ := balance
  have firsts := balance.map Prod.fst
  simpa [ids_eq_map_elements, Function.comp_def, Element.entry] using firsts

section Fresh

variable (balance : t.Balances next introduced removed)

include balance

theorem Balances.nodup_ids (fresh : (t.ids ++ introduced).Nodup) : next.ids.Nodup :=
  (List.nodup_append.mp (balance.ids.nodup_iff.mpr fresh)).1

/-- Where no identity comes twice, what is there in the end is what was there or was brought and was not
taken away. -/
theorem Balances.mem_ids_iff (fresh : (t.ids ++ introduced).Nodup) (id : Identity) :
    id ∈ next.ids ↔ (id ∈ t.ids ∨ id ∈ introduced) ∧ id ∉ removed := by
  obtain ⟨-, -, apart⟩ := List.nodup_append.mp (balance.ids.nodup_iff.mpr fresh)
  have member := balance.ids.mem_iff (a := id)
  rw [List.mem_append, List.mem_append] at member
  constructor
  · intro present
    exact ⟨member.mp (Or.inl present), fun gone => apart id present id gone rfl⟩
  · rintro ⟨met, kept⟩
    exact (member.mpr met).resolve_right kept

/-- What is fresh for a whole run is fresh for the rest of it. -/
theorem Balances.fresh_rest {later : List Identity} (fresh : (t.ids ++ (introduced ++ later)).Nodup) :
    (next.ids ++ later).Nodup := by
  rw [← List.append_assoc] at fresh
  have distinct := (balance.ids.append_right later).nodup_iff.mpr fresh
  exact distinct.sublist (.append_right (List.sublist_append_left _ _) _)

/-- Where no identity comes twice, an element keeps its nature. -/
theorem Balances.nature_eq (fresh : (t.ids ++ introduced).Nodup) {e d : Element α}
    (before : e ∈ t.elements) (after : d ∈ next.elements) (same : d.id = e.id) :
    d.nature = e.nature := by
  obtain ⟨new, gone, rfl, rfl, balance⟩ := balance
  have firsts : ((t.elements.map Element.entry ++ new).map Prod.fst).Nodup := by
    simpa [ids_eq_map_elements, Function.comp_def, Element.entry] using fresh
  have old : e.entry ∈ t.elements.map Element.entry ++ new :=
    List.mem_append_left _ (List.mem_map_of_mem before)
  have kept : d.entry ∈ t.elements.map Element.entry ++ new :=
    balance.subset (List.mem_append_left _ (List.mem_map_of_mem after))
  exact congrArg Prod.snd (List.inj_on_of_nodup_map firsts kept old same)

end Fresh

end Balances

/-- Parts that balance with others balance in their place. -/
theorem perm_splice {β : Type} {before after parts others gone new : List β}
    (balance : (parts ++ gone).Perm (others ++ new)) :
    (before ++ parts ++ after ++ gone).Perm (before ++ others ++ after ++ new) := by
  calc
    _ = before ++ parts ++ (after ++ gone) := List.append_assoc _ _ _
    _ |>.Perm (before ++ parts ++ (gone ++ after)) := .append_left _ List.perm_append_comm
    _ = before ++ (parts ++ gone ++ after) := by simp
    _ |>.Perm (before ++ (others ++ new ++ after)) := .append_left _ (balance.append_right _)
    _ = before ++ others ++ (new ++ after) := by simp
    _ |>.Perm (before ++ others ++ (after ++ new)) := .append_left _ List.perm_append_comm
    _ = before ++ others ++ after ++ new := (List.append_assoc _ _ _).symm

variable [Scalar α]

section Runs

variable {t middle next : Timeline α} {supply rest left : IdSupply} {command : Command α}

/-- What a command leaves in the place of an element balances with it. -/
theorem balances_of_leaves {e : Element α} {parts : List (Element α)}
    (leaves : command.Leaves supply e parts) (target : command.target? = some e.id) :
    ∃ new gone : List Entry, new.map Prod.fst = command.introduced supply ∧
      gone.map Prod.fst = command.removed ∧
      (parts.map Element.entry ++ gone).Perm ([e.entry] ++ new) := by
  cases command with
  | addClip | addText => cases leaves
  | delete id =>
      obtain rfl : parts = [] := leaves
      cases target
      exact ⟨[], [e.entry], rfl, rfl, .refl _⟩
  | duplicate id =>
      obtain rfl : parts = [e, e.withId supply.next] := leaves
      refine ⟨[(e.withId supply.next).entry], [], ?_, rfl, .refl _⟩
      simp [Element.entry, Command.introduced]
  | split id position =>
      obtain ⟨a, b, halves, rfl⟩ := leaves
      obtain ⟨⟨firstId, -⟩, secondId, -⟩ := Element.of_halves?_eq_some halves
      cases target
      refine ⟨[a.entry, b.entry], [e.entry], ?_, rfl, List.perm_append_comm⟩
      simp [Element.entry, Command.introduced, firstId, secondId]
  | _ =>
      obtain ⟨d, rfl, sameId, sameNature⟩ := leaves
      refine ⟨[], [], rfl, rfl, ?_⟩
      simp [Element.entry, sameId, sameNature]

theorem LocalEdit.balances (edit : t.LocalEdit supply command next) :
    t.Balances next (command.introduced supply) command.removed := by
  cases edit with
  | addClip c =>
      refine ⟨[(Element.clip c).entry], [], rfl, rfl, ?_⟩
      have appended : (Element.clip (t.appendedClip c)).entry = (Element.clip c).entry := rfl
      simpa [elements, appended] using (List.perm_append_singleton _ _).symm.append_left _
  | addText o =>
      refine ⟨[(Element.text o).entry], [], rfl, rfl, ?_⟩
      have appended : (Element.text (t.appendedOverlay o)).entry = (Element.text o).entry := rfl
      simp [elements, appended]
  | inPlace place leaves result =>
      obtain ⟨new, gone, brought, taken, balance⟩ :=
        balances_of_leaves leaves (Command.target?_of_means place.meant)
      refine ⟨new, gone, brought, taken, ?_⟩
      rw [result, place.place, List.append_cons, List.map_append, List.map_append, List.map_append,
        List.map_append]
      exact perm_splice balance

theorem applyAll_balances {commands : List (Command α)}
    (ran : t.applyAll supply commands = .ok (next, left)) :
    t.Balances next (Command.introducedBy supply commands) (Command.removedBy commands) := by
  induction commands generalizing t supply with
  | nil =>
      cases ran
      exact .refl _
  | cons command rest inductionHypothesis =>
      obtain ⟨middle, supply', applied, ran⟩ := applyAll_cons_eq_ok_iff.mp ran
      obtain ⟨edit, rfl⟩ := apply_localEdit applied
      exact edit.balances.trans (inductionHypothesis ran)

/-- A run passes what the beginning of it leads to. -/
theorem exists_applyAll_of_append {earlier later : List (Command α)}
    (ran : t.applyAll supply (earlier ++ later) = .ok (next, left)) :
    ∃ middle rest, t.applyAll supply earlier = .ok (middle, rest) ∧
      middle.applyAll rest later = .ok (next, left) := by
  induction earlier generalizing t supply with
  | nil => exact ⟨t, supply, rfl, ran⟩
  | cons command earlier inductionHypothesis =>
      obtain ⟨passed, supply', applied, ran⟩ := applyAll_cons_eq_ok_iff.mp ran
      obtain ⟨middle, rest, before, after⟩ := inductionHypothesis ran
      exact ⟨middle, rest, applyAll_cons_eq_ok_iff.mpr ⟨passed, supply', applied, before⟩, after⟩

/-- Two runs, one after the other, bring what the whole run brings. -/
theorem introducedBy_append {earlier : List (Command α)}
    (ran : t.applyAll supply earlier = .ok (middle, rest)) (later : List (Command α)) :
    Command.introducedBy supply (earlier ++ later) =
      Command.introducedBy supply earlier ++ Command.introducedBy rest later := by
  induction earlier generalizing t supply with
  | nil =>
      cases ran
      rfl
  | cons command earlier inductionHypothesis =>
      obtain ⟨passed, supply', applied, ran⟩ := applyAll_cons_eq_ok_iff.mp ran
      obtain ⟨-, rfl⟩ := apply_localEdit applied
      rw [List.cons_append, Command.introducedBy, Command.introducedBy, inductionHypothesis ran,
        List.append_assoc]

end Runs

/-! ## Identities over a run -/

section Identities

variable {t middle next : Timeline α} {supply rest left : IdSupply}
  {earlier later : List (Command α)}

/-- If no identity is brought that the run has met before, then of any two timelines of the run the later
one has distinct identities, those of the earlier one and those brought since without those taken away
since; none that was ever taken away; and no element has changed its nature. -/
theorem applyAll_identities
    (fresh : (t.ids ++ Command.introducedBy supply (earlier ++ later)).Nodup)
    (before : t.applyAll supply earlier = .ok (middle, rest))
    (after : middle.applyAll rest later = .ok (next, left)) :
    next.ids.Nodup ∧
      (∀ id, id ∈ next.ids ↔
        (id ∈ middle.ids ∨ id ∈ Command.introducedBy rest later) ∧ id ∉ Command.removedBy later) ∧
      (∀ id ∈ Command.removedBy (earlier ++ later), id ∉ next.ids) ∧
      ∀ e ∈ middle.elements, ∀ d ∈ next.elements, d.id = e.id → d.nature = e.nature := by
  have first := applyAll_balances before
  have since := applyAll_balances after
  rw [introducedBy_append before] at fresh
  have freshSince := first.fresh_rest fresh
  refine ⟨since.nodup_ids freshSince, since.mem_ids_iff freshSince, ?_, ?_⟩
  · intro id gone present
    rw [Command.removedBy, List.flatMap_append] at gone
    obtain ⟨-, kept⟩ := ((first.trans since).mem_ids_iff fresh id).mp present
    exact kept gone
  · intro e old d present same
    exact since.nature_eq freshSince old present same

end Identities

/-- A film gets a caption and is cut in two. -/
def captionAndCut : List (Command Extended) :=
  [.addText (.ofText ⟨1⟩ "caption" 0), .split film.id 5]

/-- Then the caption is copied and taken away, and so is one half of the film. -/
def copyAndDelete : List (Command Extended) :=
  [.duplicate ⟨1⟩, .delete ⟨1⟩, .delete (IdSupply.ofSeed 1).next]

/-- The other half of the film and the copy of the caption keep their identities and natures. -/
theorem captionAndCut_identities :
    ∃ middle rest next left,
      ({ empty with clips := [film] } : Timeline Extended).applyAll (.ofSeed 1) captionAndCut =
          .ok (middle, rest) ∧
        middle.applyAll rest copyAndDelete = .ok (next, left) ∧
        next.ids.Nodup ∧
        (∀ id ∈ Command.removedBy (captionAndCut ++ copyAndDelete), id ∉ next.ids) ∧
        ∀ e ∈ middle.elements, ∀ d ∈ next.elements, d.id = e.id → d.nature = e.nature := by
  have accepted :
      ({ empty with clips := [film] } : Timeline Extended).leadsTo (.ofSeed 1)
        (captionAndCut ++ copyAndDelete) (fun t => t.ids.length == 2) = true := by
    decide +kernel
  have fresh :
      (({ empty with clips := [film] } : Timeline Extended).ids ++
        Command.introducedBy (.ofSeed 1) (captionAndCut ++ copyAndDelete)).Nodup := by
    decide +kernel
  obtain ⟨next, left, ran, -⟩ := leadsTo_iff.mp accepted
  obtain ⟨middle, rest, before, after⟩ := exists_applyAll_of_append ran
  obtain ⟨distinct, -, gone, nature⟩ := applyAll_identities fresh before after
  exact ⟨middle, rest, next, left, before, after, distinct, gone, nature⟩

end Timeline

end Montage

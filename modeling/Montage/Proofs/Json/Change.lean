import Mathlib.Data.List.Nodup
import Montage.Proofs.Json.Record

/-!
Contract: records of which one field is changed.

Owns:
- two records that differ in one field, in either form of a record (`FieldChange`);
- what is found in the members of the two (`MemberChange`);
- readers that look at every field by itself (`ReadsFieldwise`), and what a change does to their verdict.

Does **not** own: the records of the library (`Montage.Proofs.Stored.Tolerance`).
-/

set_option autoImplicit false

namespace Montage.Json

variable {α β : Type}

/-! ## Changes -/

/-- One field of a record is given another value, or it is taken away. An array can only lose its last item,
for the items behind another one would come to stand for other fields. -/
inductive FieldChange (names : List String) (name : String) (old : Json α) :
    (new : Option (Json α)) → Json α → Json α → Prop
  | member (before after : Members α) (new : Option (Json α)) :
      FieldChange names name old new (.object (before ++ (name, old) :: after))
        (.object (before ++ (new.map (Prod.mk name)).toList ++ after))
  | item (before after : List (Json α)) (new : Json α) (place : names[before.length]? = some name) :
      FieldChange names name old (some new) (.array (before ++ old :: after))
        (.array (before ++ new :: after))
  | lastItem (before : List (Json α)) (place : names[before.length]? = some name) :
      FieldChange names name old none (.array (before ++ [old])) (.array before)

/-- The value of the one member of a name is changed, or the member is taken away. -/
inductive MemberChange (name : String) (old : Json α) (new : Option (Json α)) :
    Members α → Members α → Prop
  | mk {before after : Members α} (first : ∀ member ∈ before, member.1 ≠ name)
      (only : ∀ member ∈ after, member.1 ≠ name) :
      MemberChange name old new (before ++ (name, old) :: after)
        (before ++ (new.map (Prod.mk name)).toList ++ after)

section Lookup

variable {name : String} {old : Json α} {new : Option (Json α)} {m m' : Members α}

theorem lookup_eq_none {members : Members α} (others : ∀ member ∈ members, member.1 ≠ name) :
    members.lookup name = none := by
  rw [List.lookup_eq_none_iff]
  intro member isMember
  rw [bne_iff_ne]
  exact (others member isMember).symm

theorem MemberChange.lookup_old (change : MemberChange name old new m m') : m.lookup name = some old := by
  obtain ⟨first, -⟩ := change
  rw [List.lookup_append, lookup_eq_none first, Option.none_or, List.lookup_cons_self]

theorem MemberChange.lookup_new (change : MemberChange name old new m m') : m'.lookup name = new := by
  obtain ⟨first, only⟩ := change
  rw [List.append_assoc, List.lookup_append, List.lookup_append, lookup_eq_none first, Option.none_or,
    lookup_eq_none only, Option.or_none]
  cases new with
  | none => rfl
  | some v => exact List.lookup_cons_self

theorem MemberChange.lookup_other (change : MemberChange name old new m m') {other : String}
    (different : other ≠ name) : m'.lookup other = m.lookup other := by
  obtain ⟨first, only⟩ := change
  have passedOver (value : Json α) : [(name, value)].lookup other = none :=
    lookup_eq_none (List.forall_mem_singleton.mpr different.symm)
  have absent : (new.map (Prod.mk name)).toList.lookup other = none := by
    cases new with
    | none => rfl
    | some v => exact passedOver v
  rw [List.append_cons, List.lookup_append, List.lookup_append, List.lookup_append, List.lookup_append,
    absent, passedOver old]

end Lookup

/-! ## Members of changed records -/

theorem forall_ne_of_nodup {name : String} {before after : Members α} {value : Json α}
    (distinct : ((before ++ (name, value) :: after).map (·.1)).Nodup) :
    (∀ member ∈ before, member.1 ≠ name) ∧ ∀ member ∈ after, member.1 ≠ name := by
  rw [List.map_append, List.map_cons] at distinct
  have unique := List.nodup_middle.mp distinct
  have absent := (List.nodup_cons.mp unique).1
  rw [← List.map_append, List.mem_map, not_exists] at absent
  constructor
  · exact fun member isMember same => absent member ⟨List.mem_append_left _ isMember, same⟩
  · exact fun member isMember same => absent member ⟨List.mem_append_right _ isMember, same⟩

section Members

variable {fields : List Field} {name : String} {old : Json α} {new : Option (Json α)}

/-- A changed object has the changed members. -/
theorem members?_object_change {before after m : Members α} (known : name ∈ fields.map (·.name))
    (isRecord : members? fields (.object (before ++ (name, old) :: after)) = some m) :
    ∃ m', members? fields (.object (before ++ (new.map (Prod.mk name)).toList ++ after)) = some m' ∧
      MemberChange name old new m m' := by
  obtain ⟨isField, isField_eq⟩ : ∃ isField : String × Json α → Bool,
      isField = fun member => fields.any fun field => field.name == member.1 := ⟨_, rfl⟩
  have isKnown (value : Json α) : isField (name, value) = true := by
    rw [isField_eq]
    show (fields.any fun field => field.name == name) = true
    rw [any_name_eq]
    exact List.any_eq_true.mpr ⟨name, known, beq_self_eq_true name⟩
  -- Members that are no fields are passed over, before and behind the one that is changed.
  have formerly : (before ++ (name, old) :: after).filter isField =
      before.filter isField ++ (name, old) :: after.filter isField := by
    rw [List.filter_append, List.filter_cons_of_pos (isKnown old)]
  have afterwards : (before ++ (new.map (Prod.mk name)).toList ++ after).filter isField =
      before.filter isField ++ (new.map (Prod.mk name)).toList ++ after.filter isField := by
    rw [List.filter_append, List.filter_append]
    cases new with
    | none => rfl
    | some v => rw [Option.map_some, Option.toList_some, List.filter_cons_of_pos (isKnown v), List.filter_nil]
  simp only [members?, ← isField_eq, formerly, afterwards] at isRecord ⊢
  split at isRecord
  · rename_i distinct
    cases isRecord
    obtain ⟨first, only⟩ := forall_ne_of_nodup distinct
    rw [if_pos]
    · exact ⟨_, rfl, first, only⟩
    · rw [List.map_append, List.map_cons] at distinct
      cases new with
      | none => simpa using (List.nodup_cons.mp (List.nodup_middle.mp distinct)).2
      | some v => simpa using distinct
  · cases isRecord

theorem exists_split {names : List String} {level : Nat} (distinct : names.Nodup)
    (place : names[level]? = some name) :
    ∃ first others, names = first ++ name :: others ∧ first.length = level ∧ name ∉ first ∧
      name ∉ others := by
  obtain ⟨bound, isName⟩ := List.getElem?_eq_some_iff.mp place
  have split : names = names.take level ++ name :: names.drop (level + 1) := by
    rw [← isName, List.getElem_cons_drop, List.take_append_drop]
  rw [split] at distinct
  have absent := (List.nodup_cons.mp (List.nodup_middle.mp distinct)).1
  rw [List.mem_append, not_or] at absent
  exact ⟨_, _, split, List.length_take_of_le (Nat.le_of_lt bound), absent⟩

theorem ne_of_mem_zip {names : List String} {items : List (Json α)} (absent : name ∉ names) :
    ∀ member ∈ names.zip items, member.1 ≠ name := by
  rintro member isMember rfl
  exact absent (List.of_mem_zip isMember).1

/-- A changed record has the changed members, if nothing is taken away from an array that has to be whole. -/
theorem FieldChange.exists_memberChange {j j' : Json α} {m : Members α}
    (change : FieldChange (fields.map (·.name)) name old new j j')
    (distinct : (fields.map (·.name)).Nodup) (known : name ∈ fields.map (·.name))
    (ends : new = none → ∀ field ∈ fields, field.mayEnd = true)
    (isRecord : members? fields j = some m) :
    ∃ m', members? fields j' = some m' ∧ MemberChange name old new m m' := by
  cases change with
  | member before after => exact members?_object_change known isRecord
  | item before after value place =>
      -- An item stands for the name at its level, and no other level has that name.
      obtain ⟨first, others, names, level, isFirst, isOther⟩ := exists_split distinct place
      simp only [members?, List.length_append, List.length_cons, names, List.zip_append level,
        List.zip_cons_cons] at isRecord ⊢
      split at isRecord
      · rename_i fits
        cases isRecord
        rw [if_pos fits, List.append_cons]
        exact ⟨_, rfl, ne_of_mem_zip isFirst, ne_of_mem_zip isOther⟩
      · cases isRecord
  | lastItem before place =>
      obtain ⟨first, others, names, level, isFirst, isOther⟩ := exists_split distinct place
      have without : (first ++ name :: others).zip before = first.zip before := by
        have shorter : (first ++ name :: others).zip (before ++ []) = _ := List.zip_append level
        rwa [List.append_nil, List.zip_nil_right, List.append_nil] at shorter
      simp only [members?, List.length_append, List.length_cons, List.length_nil, names, without,
        List.zip_append level, List.zip_cons_cons, List.zip_nil_right] at isRecord ⊢
      split at isRecord
      · rename_i fits
        cases isRecord
        have whole : ((fields.drop before.length).all (·.mayEnd)) = true := by
          rw [List.all_eq_true]
          exact fun field member => ends rfl field (List.mem_of_mem_drop member)
        rw [if_pos ⟨Nat.le_of_succ_le fits.1, whole⟩]
        refine ⟨_, rfl, ?_⟩
        have changed : MemberChange name old none (first.zip before ++ (name, old) :: [])
            (first.zip before ++ [] ++ []) := ⟨ne_of_mem_zip isFirst, List.forall_mem_nil _⟩
        simpa only [List.append_nil] using changed
      · cases isRecord

end Members

/-! ## Readers that look at every field by itself -/

theorem isSome_bind {γ : Type} (o : Option β) (f : β → Option γ) :
    (o >>= f).isSome = o.any fun b => (f b).isSome :=
  Option.isSome_bind o f

theorem any_const (o : Option β) (b : Bool) : (o.any fun _ => b) = (o.isSome && b) := by
  cases o <;> rfl

def accepts (read : Json α → Option β) (value : Json α) : Bool := (read value).isSome

section Accepts

variable {members : Members α} {name : String}

theorem isSome_defaulted {default : β} {read : Json α → Option β} :
    (defaulted members name default read).isSome = (members.lookup name).all (accepts read) := by
  unfold defaulted
  cases members.lookup name <;> rfl

theorem isSome_required {read : Json α → Option β} :
    (required members name read).isSome = (members.lookup name).any (accepts read) :=
  Option.isSome_bind _ _

theorem accepts_array (read : Json α → Option β) (items : List (Json α)) :
    accepts (array? read) (.array items) = items.all (accepts read) := by
  show (items.mapM read).isSome = items.all (accepts read)
  induction items with
  | nil => rfl
  | cons item rest inductionHypothesis =>
      rw [List.mapM_cons, List.all_cons, ← inductionHypothesis, accepts]
      simp only [Option.bind_eq_bind, Option.isSome_bind, Option.pure_def, Option.isSome_some, any_const,
        Bool.and_true]

/-- One item of an accepted list may be replaced by another one that is accepted. -/
theorem accepts_array_replaced {read : Json α → Option β} {before after : List (Json α)} {old : Json α}
    (new : Json α) (accepted : accepts (array? read) (.array (before ++ old :: after)) = true) :
    accepts read old = true ∧
      accepts (array? read) (.array (before ++ new :: after)) = accepts read new := by
  simp only [accepts_array, List.all_append, List.all_cons, Bool.and_eq_true] at accepted ⊢
  obtain ⟨first, isOld, others⟩ := accepted
  exact ⟨isOld, by rw [first, others, Bool.true_and, Bool.and_true]⟩

theorem FieldChange.accepts_nullable {names : List String} {old : Json α} {new : Option (Json α)}
    {j j' : Json α} (change : FieldChange names name old new j j') (read : Json α → Option β) :
    accepts (nullable read) j = accepts read j ∧ accepts (nullable read) j' = accepts read j' := by
  cases change <;> exact ⟨Option.isSome_map, Option.isSome_map⟩

end Accepts

/-- What the values of some fields have to be, wherever they are present. -/
abbrev Checks (α : Type) := List (String × (Json α → Bool))

/-- Whether the values of a record pass the checks of their fields. -/
def passes (checks : Checks α) (members : Members α) : Bool :=
  checks.all fun check => (members.lookup check.1).all check.2

theorem passes_iff {checks : Checks α} {members : Members α} :
    passes checks members = true ↔
      ∀ check ∈ checks, ∀ value, members.lookup check.1 = some value → check.2 value = true := by
  simp only [passes, List.all_eq_true, Option.all_eq_true]

/-- A reader of a record whose fields may all be absent. It has one check for each of them, and refuses a
record only for a value that does not pass. -/
structure ReadsFieldwise (fields : List Field) (checks : Checks α) (read : Json α → Option β) : Prop where
  distinct : (fields.map (·.name)).Nodup
  ends : ∀ field ∈ fields, field.mayEnd = true
  covers : (checks.map Prod.fst).Perm (fields.map (·.name))
  isSome_eq (j : Json α) : (read j).isSome = (members? fields j).any (passes checks)

namespace ReadsFieldwise

variable {fields : List Field} {checks : Checks α} {read : Json α → Option β} {name : String}
  {check : Json α → Bool} {old : Json α} {new : Option (Json α)} {j j' : Json α}

theorem known (reads : ReadsFieldwise fields checks read) (isCheck : (name, check) ∈ checks) :
    name ∈ fields.map (·.name) :=
  reads.covers.subset (List.mem_map_of_mem isCheck)

theorem exists_memberChange (reads : ReadsFieldwise fields checks read)
    (isCheck : (name, check) ∈ checks)
    (change : FieldChange (fields.map (·.name)) name old new j j') (accepted : (read j).isSome = true) :
    ∃ m m', passes checks m = true ∧ members? fields j' = some m' ∧ MemberChange name old new m m' := by
  rw [reads.isSome_eq, Option.any_eq_true] at accepted
  obtain ⟨m, isRecord, passed⟩ := accepted
  obtain ⟨m', isChanged, members⟩ :=
    change.exists_memberChange reads.distinct (reads.known isCheck) (fun _ => reads.ends) isRecord
  exact ⟨m, m', passed, isChanged, members⟩

/-- The value that is changed in an accepted record has passed its check. -/
theorem old_passes (reads : ReadsFieldwise fields checks read) (isCheck : (name, check) ∈ checks)
    (change : FieldChange (fields.map (·.name)) name old new j j') (accepted : (read j).isSome = true) :
    check old = true := by
  obtain ⟨m, m', passed, -, members⟩ := reads.exists_memberChange isCheck change accepted
  exact passes_iff.mp passed (name, check) isCheck old members.lookup_old

/-- An accepted record is accepted after a change exactly if the new value passes its check; where the value
is taken away there is nothing to check. -/
theorem isSome_changed_iff (reads : ReadsFieldwise fields checks read) (isCheck : (name, check) ∈ checks)
    (change : FieldChange (fields.map (·.name)) name old new j j') (accepted : (read j).isSome = true) :
    (read j').isSome = true ↔ ∀ value ∈ new, check value = true := by
  obtain ⟨m, m', passed, isRecord, members⟩ := reads.exists_memberChange isCheck change accepted
  rw [reads.isSome_eq, isRecord, Option.any_some, passes_iff]
  rw [passes_iff] at passed
  constructor
  · intro passes value isNew
    exact passes (name, check) isCheck value (members.lookup_new.trans isNew)
  · intro changed other isOther value present
    by_cases same : other.1 = name
    · obtain rfl : other = (name, check) :=
        List.inj_on_of_nodup_map (reads.covers.nodup_iff.mpr reads.distinct) isOther isCheck same
      exact changed value (members.lookup_new.symm.trans present)
    · rw [members.lookup_other same] at present
      exact passed other isOther value present

end ReadsFieldwise

end Montage.Json

import Mathlib.Data.List.Basic
import Montage.Json.Record

/-!
Contract: what is read from the members of a record.

Owns:
- the members of a record that was written with its fields in order;
- readers with other defaults that see the same members;
- the reading back of simple values;
- the numbers that a value holds.

Does **not** own: the records themselves (`Montage.Proofs.Stored`).
-/

set_option autoImplicit false

namespace Montage.Json

variable {α β : Type}

/-! ## Members -/

theorem any_name_eq (fields : List Field) (name : String) :
    (fields.any fun field => field.name == name) = (fields.map (·.name)).any (· == name) := by
  rw [List.any_map]
  rfl

/-- A record that was written with all its fields is read with all its members. -/
theorem members?_object {fields : List Field} {members : Members α}
    (names : members.map (·.1) = fields.map (·.name)) (distinct : (fields.map (·.name)).Nodup) :
    members? fields (.object members) = some members := by
  have known :
      (members.filter fun member => fields.any fun field => field.name == member.1) = members := by
    rw [List.filter_eq_self]
    intro member isMember
    rw [any_name_eq, ← names]
    exact List.any_eq_true.mpr
      ⟨member.1, List.mem_map.mpr ⟨member, isMember, rfl⟩, beq_self_eq_true member.1⟩
  unfold members?
  simp only [known]
  rw [if_pos]
  rw [names]
  exact distinct

/-- A reader all of whose fields have defaults sees the members that a reader of the same fields sees. -/
theorem members?_of_names {strict loose : List Field} {j : Json α} {members : Members α}
    (names : loose.map (·.name) = strict.map (·.name))
    (ends : ∀ field ∈ loose, field.mayEnd = true)
    (isRecord : members? strict j = some members) :
    members? loose j = some members := by
  cases j with
  | object written =>
      unfold members? at isRecord ⊢
      simp only [any_name_eq] at isRecord ⊢
      rw [names]
      exact isRecord
  | array items =>
      have sameLength : loose.length = strict.length := by
        have lengths := congrArg List.length names
        simpa only [List.length_map] using lengths
      have optional : (loose.drop items.length).all (·.mayEnd) = true := by
        rw [List.all_eq_true]
        intro field member
        exact ends field (List.mem_of_mem_drop member)
      simp only [members?] at isRecord ⊢
      split at isRecord
      · rename_i fits
        rw [if_pos ⟨sameLength ▸ fits.1, optional⟩, names]
        exact isRecord
      · cases isRecord
  | _ => cases isRecord

section Fields

variable {members : Members α} {name : String} {read : Json α → Option β}

theorem required_eq_some {b : β} :
    required members name read = some b ↔
      ∃ j, members.lookup name = some j ∧ read j = some b :=
  Option.bind_eq_some_iff

theorem defaulted_eq_some {default b : β} :
    defaulted members name default read = some b ↔
      (members.lookup name = none ∧ default = b) ∨
        ∃ j, members.lookup name = some j ∧ read j = some b := by
  unfold defaulted
  cases members.lookup name with
  | none => simp
  | some j => simp

theorem defaulted_of_lookup {default : β} {j : Json α} (present : members.lookup name = some j) :
    defaulted members name default read = read j := by
  unfold defaulted
  rw [present]

theorem defaulted_of_absent {default : β} (absent : members.lookup name = none) :
    defaulted members name default read = some default := by
  unfold defaulted
  rw [absent]

/-- What is read from a value is read where the value may be missing. -/
theorem nullable_eq_some {j : Json α} {b : β} (notNull : read .null = none)
    (isRead : read j = some b) : nullable read j = some (some b) := by
  cases j with
  | null =>
      rw [notNull] at isRead
      cases isRead
  | _ => exact congrArg (Option.map some) isRead

theorem optional_of_required {b : β} (notNull : read .null = none)
    (isRead : required members name read = some b) :
    optional members name read = some (some b) := by
  obtain ⟨j, present, value⟩ := required_eq_some.mp isRead
  unfold optional
  rw [defaulted_of_lookup present]
  exact nullable_eq_some notNull value

theorem optional_of_defaulted {default b : β} (notNull : read .null = none)
    (isRead : defaulted members name default read = some b) :
    ∃ o, optional members name read = some o ∧ o.getD default = b := by
  unfold optional
  rcases defaulted_eq_some.mp isRead with ⟨absent, same⟩ | ⟨j, present, value⟩
  · rw [defaulted_of_absent absent]
    exact ⟨none, rfl, same⟩
  · rw [defaulted_of_lookup present]
    exact ⟨some b, nullable_eq_some notNull value, rfl⟩

end Fields

/-- A reader that gives what another one gives does so where the value may be missing. -/
theorem nullable_of_refines {read other : Json α → Option β} {j : Json α} {o : Option β}
    (refines : ∀ b, read j = some b → other j = some b) (isRead : nullable read j = some o) :
    nullable other j = some o := by
  cases j with
  | null => exact isRead
  | _ =>
      obtain ⟨b, isValue, rfl⟩ := Option.map_eq_some_iff.mp isRead
      exact congrArg (Option.map some) (refines b isValue)

/-! ## Fractional numbers -/

mutual

/-- The fractional numbers in a value. -/
def reals : Json α → List α
  | .real x => [x]
  | .array items => realsOfItems items
  | .object members => realsOfMembers members
  | _ => []

def realsOfItems : List (Json α) → List α
  | [] => []
  | item :: rest => reals item ++ realsOfItems rest

def realsOfMembers : List (String × Json α) → List α
  | [] => []
  | (_, value) :: rest => reals value ++ realsOfMembers rest

end

theorem reals_array (items : List (Json α)) : (array items).reals = items.flatMap reals := by
  rw [reals]
  induction items with
  | nil => rfl
  | cons item rest inductionHypothesis =>
      rw [realsOfItems, inductionHypothesis, List.flatMap_cons]

theorem reals_object (members : List (String × Json α)) :
    (object members).reals = members.flatMap fun member => member.2.reals := by
  rw [reals]
  induction members with
  | nil => rfl
  | cons member rest inductionHypothesis =>
      obtain ⟨name, value⟩ := member
      rw [realsOfMembers, inductionHypothesis, List.flatMap_cons]

/-- The members of a record hold no other numbers than the record. -/
theorem reals_of_members? {fields : List Field} {j : Json α} {members : Members α}
    (isRecord : members? fields j = some members) {member : String × Json α}
    (isMember : member ∈ members) : ∀ x ∈ member.2.reals, x ∈ j.reals := by
  intro x isNumber
  cases j with
  | object written =>
      simp only [members?] at isRecord
      split at isRecord
      · cases isRecord
        rw [reals_object, List.mem_flatMap]
        exact ⟨member, List.mem_of_mem_filter isMember, isNumber⟩
      · cases isRecord
  | array items =>
      simp only [members?] at isRecord
      split at isRecord
      · cases isRecord
        rw [reals_array, List.mem_flatMap]
        exact ⟨member.2, (List.of_mem_zip isMember).2, isNumber⟩
      · cases isRecord
  | _ => cases isRecord

/-! ## Simple values -/

theorem nullable_ofOption {read : Json α → Option β} {write : β → Json α} {o : Option β}
    (notNull : read .null = none) (reads : ∀ b ∈ o, read (write b) = some b) :
    nullable read (ofOption write o) = some o := by
  cases o with
  | none => rfl
  | some b => exact nullable_eq_some notNull (reads b rfl)

theorem array?_map {read : Json α → Option β} {write : β → Json α} {list : List β}
    (reads : ∀ b ∈ list, read (write b) = some b) :
    array? read (.array (list.map write)) = some list := by
  show (list.map write).mapM read = some list
  induction list with
  | nil => rfl
  | cons b rest inductionHypothesis =>
      have first := reads b List.mem_cons_self
      have others := inductionHypothesis fun later member =>
        reads later (List.mem_cons_of_mem b member)
      rw [List.map_cons, List.mapM_cons, first, others]
      rfl

/-- A reader that gives the image of what another one gives does so for lists. -/
theorem mapM_of_refines {γ : Type} {read : Json α → Option β} {other : Json α → Option γ}
    {image : β → γ} {P : β → Prop} {items : List (Json α)} {list : List β}
    (refines : ∀ item ∈ items, ∀ b, read item = some b → P b → other item = some (image b))
    (isRead : items.mapM read = some list) (all : ∀ b ∈ list, P b) :
    items.mapM other = some (list.map image) := by
  induction items generalizing list with
  | nil =>
      cases isRead
      rfl
  | cons item rest inductionHypothesis =>
      rw [List.mapM_cons, Option.bind_eq_bind, Option.bind_eq_some_iff] at isRead
      obtain ⟨b, first, isRead⟩ := isRead
      rw [Option.bind_eq_bind, Option.bind_eq_some_iff] at isRead
      obtain ⟨others, later, same⟩ := isRead
      cases same
      have head := refines item List.mem_cons_self b first (all b List.mem_cons_self)
      have tail := inductionHypothesis
        (fun later member => refines later (List.mem_cons_of_mem item member)) later
        (fun c member => all c (List.mem_cons_of_mem b member))
      rw [List.mapM_cons, head, tail]
      rfl

/-- What is read from a list of values has a property if what is read from each of them has it. -/
theorem forall_of_mapM {read : Json α → Option β} {P : β → Prop} {items : List (Json α)}
    {list : List β} (isRead : items.mapM read = some list)
    (each : ∀ item ∈ items, ∀ b, read item = some b → P b) : ∀ b ∈ list, P b := by
  induction items generalizing list with
  | nil =>
      cases isRead
      exact List.forall_mem_nil P
  | cons item rest inductionHypothesis =>
      rw [List.mapM_cons] at isRead
      obtain ⟨b, first, isRead⟩ := Option.bind_eq_some_iff.mp isRead
      obtain ⟨others, later, same⟩ := Option.bind_eq_some_iff.mp isRead
      cases same
      exact List.forall_mem_cons.mpr ⟨each item List.mem_cons_self b first,
        inductionHypothesis later fun later member => each later (List.mem_cons_of_mem item member)⟩

theorem uint32?_toNat (n : UInt32) : (Json.whole n.toNat : Json α).uint32? = some n := by
  have small : n.toNat < 2 ^ 32 := n.toNat_lt
  have within : (0 : Int) ≤ n.toNat ∧ (n.toNat : Int) ≤ 0xFFFFFFFF := by omega
  unfold uint32? integer?
  simp only [if_pos within, Option.map_some, Int.toNat_natCast, UInt32.ofNat_toNat]

theorem uint64?_toNat (n : UInt64) : (Json.whole n.toNat : Json α).uint64? = some n := by
  have small : n.toNat < 2 ^ 64 := n.toNat_lt
  have within : (0 : Int) ≤ n.toNat ∧ (n.toNat : Int) ≤ 0xFFFFFFFFFFFFFFFF := by omega
  unfold uint64? integer?
  simp only [if_pos within, Option.map_some, Int.toNat_natCast, UInt64.ofNat_toNat]

theorem int32?_toInt (z : Int32) : (Json.whole z.toInt : Json α).int32? = some z := by
  have least := z.le_toInt
  have greatest := z.toInt_lt
  have within : (-0x80000000 : Int) ≤ z.toInt ∧ z.toInt ≤ 0x7FFFFFFF := by omega
  unfold int32? integer?
  simp only [if_pos within, Option.map_some, Int32.ofInt_toInt]

variable [Scalar α]

/-- The fractional numbers in a value are finite, as they are in a document. -/
def HoldsFinite (j : Json α) : Prop := ∀ x ∈ j.reals, Scalar.isFinite x = true

@[simp] theorem holdsFinite_object (members : List (String × Json α)) :
    (object members).HoldsFinite ↔ ∀ member ∈ members, member.2.HoldsFinite := by
  unfold HoldsFinite
  simp only [reals_object, List.mem_flatMap, forall_exists_index, and_imp]
  exact forall_comm.trans (forall_congr' fun _ => forall_comm)

@[simp] theorem holdsFinite_array (items : List (Json α)) :
    (array items).HoldsFinite ↔ ∀ item ∈ items, item.HoldsFinite := by
  unfold HoldsFinite
  simp only [reals_array, List.mem_flatMap, forall_exists_index, and_imp]
  exact forall_comm.trans (forall_congr' fun _ => forall_comm)

@[simp] theorem holdsFinite_string (s : String) : (string s : Json α).HoldsFinite := nofun

@[simp] theorem holdsFinite_whole (n : Int) : (whole n : Json α).HoldsFinite := nofun

/-- There is no value for a number that is not finite. -/
@[simp] theorem holdsFinite_ofScalar (x : α) : (ofScalar x).HoldsFinite := by
  unfold ofScalar
  split
  · rename_i finite
    intro y member
    rw [List.mem_singleton.mp member]
    exact finite
  · nofun

theorem holdsFinite_ofOption {write : β → Json α} {o : Option β}
    (finite : ∀ b ∈ o, (write b).HoldsFinite) : (ofOption write o).HoldsFinite := by
  cases o with
  | none => nofun
  | some b => exact finite b rfl

theorem HoldsFinite.of_members? {fields : List Field} {j : Json α} {members : Members α}
    (finite : j.HoldsFinite) (isRecord : members? fields j = some members) :
    ∀ member ∈ members, member.2.HoldsFinite :=
  fun _ isMember x isNumber => finite x (reals_of_members? isRecord isMember x isNumber)

theorem scalar?_ofScalar {x : α} (finite : Scalar.isFinite x = true) :
    scalar? (ofScalar x) = some x := by
  unfold ofScalar
  rw [if_pos finite]
  rfl

end Montage.Json

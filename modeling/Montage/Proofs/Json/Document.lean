import Montage.Proofs.Json.Record
import Montage.Proofs.Json.Text
import Montage.Proofs.Number.Range

/-!
Contract: the numbers in a document.

Owns:
- that the reading of a text gives whole numbers of 64 bits and finite fractional ones only
  (`IsDocument`), whatever the text;
- that what a record finds among its members is finite as well, as are the members themselves.

Does **not** own: what is read from the texts that the library writes (`Montage.Proofs.Json.Text`).

A reader that scales a significand by powers of ten could end in an infinite number. The bounds on the
last place, carried through every step of the scaling, show that it does not.
-/

set_option autoImplicit false

namespace Montage.Json

open Binary64 (UnitAtMost UnitAtLeast)

/-- Values whose numbers a text can hold. -/
inductive IsDocument : Json Float → Prop
  | null : IsDocument .null
  | bool (b : Bool) : IsDocument (.bool b)
  | whole {n : Int} (wide : IsWide n) : IsDocument (.whole n)
  | real {x : Float} (finite : Scalar.isFinite x = true) : IsDocument (.real x)
  | string (s : String) : IsDocument (.string s)
  | array {items : List (Json Float)} (parts : ∀ item ∈ items, IsDocument item) :
      IsDocument (.array items)
  | object {members : List (String × Json Float)} (parts : ∀ member ∈ members, IsDocument member.2) :
      IsDocument (.object members)
  | unreadable : IsDocument .unreadable

/-! ## The number that a text stands for -/

namespace Number

theorem takeDigits_le {significand : Nat} (digits : List Char) (fits : significand ≤ significandLimit) :
    (takeDigits significand digits).1 ≤ significandLimit := by
  induction digits generalizing significand with
  | nil => exact fits
  | cons c rest inductionHypothesis =>
      simp only [takeDigits]
      split
      · exact fits
      · rename_i notTooLarge
        exact inductionHypothesis (Nat.not_lt.mp notTooLarge)

theorem significandOf_le (number : Literal) : (significandOf number).1 ≤ significandLimit := by
  have start : 0 ≤ significandLimit := Nat.zero_le _
  exact takeDigits_le _ (takeDigits_le number.whole start)

/-- Division by a power of ten does not leave the range, in however many steps it is done. -/
theorem isFinite_scaleDown {x : Float} (places : Nat) (unit : UnitAtMost 400 x.toModel.unpack) :
    Scalar.isFinite (scaleDown x places) = true := by
  fun_induction scaleDown x places with
  | case1 x places few =>
      have quotient := Binary64.unitAtMost_floatDiv unit (Binary64.unitAtLeast_power few) (by decide)
      rw [Binary64.isFinite_iff_unpack]
      exact quotient.isFinite
  | case2 x places many isZero =>
      rw [Binary64.isFinite_iff_unpack]
      exact unit.isFinite
  | case3 x places many notZero inductionHypothesis =>
      have largest : UnitAtLeast 971 (1e308 : Float).toModel.unpack := by decide +kernel
      have quotient := Binary64.unitAtMost_floatDiv unit largest (by decide)
      exact inductionHypothesis (quotient.mono (by decide))

theorem isFinite_of_scale? {significand : Nat} {exponent : Int} {x : Float}
    (fits : significand ≤ significandLimit) (isScaled : scale? significand exponent = some x) :
    Scalar.isFinite x = true := by
  have narrow : significand < 2 ^ 64 := Nat.lt_succ_of_le fits
  have unit := Binary64.unitAtMost_ofNat narrow
  have finite : Scalar.isFinite (Float.ofNat significand) = true := by
    rw [Binary64.isFinite_iff_unpack]
    exact unit.isFinite
  simp only [scale?] at isScaled
  split_ifs at isScaled with below within inRange isZero
  · cases isScaled
    exact isFinite_scaleDown _ unit
  · cases isScaled
    have power : exponent.natAbs ≤ 308 := by omega
    have isPower : Scalar.isFinite (Float.ofScientific 1 false exponent.natAbs) = true := by
      rw [Binary64.isFinite_iff_unpack]
      exact (Binary64.unitAtLeast_power power).isFinite
    exact Binary64.isFinite_floatMul finite isPower (Bool.not_eq_true _ ▸ inRange)
  · cases isScaled
    exact finite

theorem isDocument_value (number : Literal) : IsDocument (value number) := by
  simp only [value]
  have finite (x : Float) (isScaled : scale? (significandOf number).1 (significandOf number).2 =
      some x) : Scalar.isFinite x = true :=
    isFinite_of_scale? (significandOf_le number) isScaled
  split_ifs with unsigned signed negative
  · simp only [Bool.and_eq_true, decide_eq_true_eq] at unsigned
    have fits := unsigned.2
    unfold significandLimit at fits
    exact .whole ⟨by omega, by omega⟩
  · simp only [Bool.and_eq_true, decide_eq_true_eq] at signed
    have fits := signed.2
    exact .whole ⟨by omega, by omega⟩
  · cases isScaled : scale? (significandOf number).1 (significandOf number).2 with
    | none => exact .unreadable
    | some x => exact .real (Binary64.isFinite_floatNeg (finite x isScaled))
  · cases isScaled : scale? (significandOf number).1 (significandOf number).2 with
    | none => exact .unreadable
    | some x => exact .real (finite x isScaled)

end Number

/-! ## The value that a text stands for -/

namespace Reader

/-- The parts that an open container has so far are those of a document. -/
inductive Frame.HoldsDocuments : Frame → Prop
  | array {void : Bool} {items : List (Json Float)} (parts : ∀ item ∈ items, IsDocument item) :
      HoldsDocuments (.array void items)
  | object {void : Bool} {members : List (String × Json Float)} {key : String}
      (parts : ∀ member ∈ members, IsDocument member.2) : HoldsDocuments (.object void members key)

/-- All values that a walk has found so far are those of a document. -/
structure State.HoldsDocuments (state : State) : Prop where
  stack : ∀ frame ∈ state.stack, frame.HoldsDocuments
  value : ∀ value, state.expecting = .finish value → IsDocument value

variable {stack : List Frame}

theorem place_holdsDocuments (opened : ∀ frame ∈ stack, frame.HoldsDocuments) {value : Json Float}
    (isDocument : IsDocument value) : (place stack value).HoldsDocuments := by
  cases stack with
  | nil => exact ⟨nofun, by rintro _ ⟨⟩; exact isDocument⟩
  | cons frame rest =>
      obtain ⟨first, others⟩ := List.forall_mem_cons.mp opened
      cases first with
      | array parts =>
          have more := List.forall_mem_cons.mpr ⟨isDocument, parts⟩
          exact ⟨List.forall_mem_cons.mpr ⟨.array more, others⟩, nofun⟩
      | @object void members key parts =>
          have more : ∀ member ∈ (key, value) :: members, IsDocument member.2 :=
            List.forall_mem_cons.mpr ⟨isDocument, parts⟩
          exact ⟨List.forall_mem_cons.mpr ⟨.object more, others⟩, nofun⟩

theorem openFrame_holdsDocuments (opened : ∀ frame ∈ stack, frame.HoldsDocuments) (isObject : Bool) :
    (openFrame stack isObject).HoldsDocuments := by
  cases isObject with
  | false => exact ⟨List.forall_mem_cons.mpr ⟨.array nofun, opened⟩, nofun⟩
  | true => exact ⟨List.forall_mem_cons.mpr ⟨.object nofun, opened⟩, nofun⟩

variable {next : State}

theorem closeFrame_holdsDocuments (opened : ∀ frame ∈ stack, frame.HoldsDocuments) {isObject : Bool}
    (closed : closeFrame stack isObject = some next) : next.HoldsDocuments := by
  unfold closeFrame at closed
  split at closed
  · rename_i void items rest
    obtain ⟨first, others⟩ := List.forall_mem_cons.mp opened
    cases closed
    cases first with
    | array parts =>
        refine place_holdsDocuments others ?_
        split
        · exact .unreadable
        · exact .array fun item member => parts item (List.mem_reverse.mp member)
  · rename_i void members key rest
    obtain ⟨first, others⟩ := List.forall_mem_cons.mp opened
    cases closed
    cases first with
    | object parts =>
        refine place_holdsDocuments others ?_
        split
        · exact .unreadable
        · exact .object fun member isMember => parts member (List.mem_reverse.mp isMember)
  · cases closed

theorem stepValue_holdsDocuments (opened : ∀ frame ∈ stack, frame.HoldsDocuments) {token : Token}
    (taken : stepValue stack token = some next) : next.HoldsDocuments := by
  unfold stepValue at taken
  split at taken <;> cases taken
  · exact place_holdsDocuments opened .null
  · exact place_holdsDocuments opened (.bool _)
  · exact place_holdsDocuments opened (Number.isDocument_value _)
  · exact place_holdsDocuments opened (.string _)
  · exact place_holdsDocuments opened .unreadable
  · exact openFrame_holdsDocuments opened false
  · exact openFrame_holdsDocuments opened true

theorem stepKey_holdsDocuments (opened : ∀ frame ∈ stack, frame.HoldsDocuments) {token : Token}
    (taken : stepKey stack token = some next) : next.HoldsDocuments := by
  unfold stepKey at taken
  split at taken
  · split at taken
    · obtain ⟨first, others⟩ := List.forall_mem_cons.mp opened
      cases taken
      cases first with
      | object parts => exact ⟨List.forall_mem_cons.mpr ⟨.object parts, others⟩, nofun⟩
    · cases taken
  · cases taken

theorem stepAfterPart_holdsDocuments (opened : ∀ frame ∈ stack, frame.HoldsDocuments) {token : Token}
    (taken : stepAfterPart stack token = some next) : next.HoldsDocuments := by
  unfold stepAfterPart at taken
  split at taken
  · split at taken <;> cases taken
    · exact ⟨opened, nofun⟩
    · exact ⟨opened, nofun⟩
  · exact closeFrame_holdsDocuments opened taken
  · exact closeFrame_holdsDocuments opened taken
  · cases taken

theorem step_holdsDocuments {state : State} {token : Token} (holds : state.HoldsDocuments)
    (taken : step state token = some next) : next.HoldsDocuments := by
  have opened := holds.stack
  unfold step at taken
  split at taken
  · exact stepValue_holdsDocuments opened taken
  · split at taken
    · exact closeFrame_holdsDocuments opened taken
    · exact stepValue_holdsDocuments opened taken
  · exact stepKey_holdsDocuments opened taken
  · split at taken
    · exact closeFrame_holdsDocuments opened taken
    · exact stepKey_holdsDocuments opened taken
  · split at taken <;> cases taken
    exact ⟨opened, nofun⟩
  · exact stepAfterPart_holdsDocuments opened taken
  · cases taken

theorem foldlM_holdsDocuments {tokens : List Token} {state : State} (holds : state.HoldsDocuments)
    (walked : tokens.foldlM step state = some next) : next.HoldsDocuments := by
  induction tokens generalizing state with
  | nil =>
      cases walked
      exact holds
  | cons token rest inductionHypothesis =>
      rw [List.foldlM_cons, Option.bind_eq_bind, Option.bind_eq_some_iff] at walked
      obtain ⟨between, taken, walked⟩ := walked
      exact inductionHypothesis (step_holdsDocuments holds taken) walked

end Reader

theorem isDocument_of_value? {tokens : List Token} {j : Json Float}
    (isRead : Reader.value? tokens = some j) : IsDocument j := by
  unfold Reader.value? at isRead
  obtain ⟨state, walked, isRead⟩ := Option.bind_eq_some_iff.mp isRead
  have start : Reader.State.HoldsDocuments ⟨[], .value⟩ := ⟨nofun, nofun⟩
  have holds := Reader.foldlM_holdsDocuments start walked
  split at isRead
  · rename_i finished
    cases isRead
    exact holds.value j finished
  · cases isRead

/-- Whatever the text, the numbers that are read from it are in range. -/
theorem isDocument_of_read? {text : String} {j : Json Float} (isRead : read? text = some j) :
    IsDocument j := by
  obtain ⟨tokens, -, isRead⟩ := Option.bind_eq_some_iff.mp isRead
  exact isDocument_of_value? isRead

theorem isDocument_of_readBytes? {bytes : ByteArray} {j : Json Float}
    (isRead : readBytes? bytes = some j) : IsDocument j := by
  obtain ⟨tokens, -, isRead⟩ := Option.bind_eq_some_iff.mp isRead
  exact isDocument_of_value? isRead

/-! ## What readers give -/

/-- Whatever a reader takes from a document has a property. -/
def Ensures {β : Type} (read : Json Float → Option β) (P : β → Prop) : Prop :=
  ∀ ⦃j⦄, IsDocument j → ∀ ⦃b⦄, read j = some b → P b

/-- The values of all members are those of a document. -/
def AreDocuments (members : Members Float) : Prop :=
  ∀ member ∈ members, IsDocument member.2

theorem IsDocument.of_members? {fields : List Field} {j : Json Float} {members : Members Float}
    (isDocument : IsDocument j) (isRecord : members? fields j = some members) :
    AreDocuments members := by
  intro member isMember
  cases isDocument with
  | array parts =>
      simp only [members?] at isRecord
      split at isRecord
      · cases isRecord
        exact parts _ (List.of_mem_zip isMember).2
      · cases isRecord
  | object parts =>
      simp only [members?] at isRecord
      split at isRecord
      · cases isRecord
        exact parts _ (List.mem_of_mem_filter isMember)
      · cases isRecord
  | _ => cases isRecord

theorem ensures_scalar? : Ensures scalar? fun x : Float => Scalar.isFinite x = true := by
  intro j isDocument x isNumber
  cases isDocument with
  | whole wide =>
      obtain ⟨low, high⟩ := wide
      cases isNumber
      exact Binary64.isFinite_ofInt (by omega)
  | real finite =>
      cases isNumber
      exact finite
  | _ => cases isNumber

namespace Ensures

variable {β : Type} {read : Json Float → Option β} {P : β → Prop} {members : Members Float}
  {name : String}

theorem array (ensures : Ensures read P) : Ensures (array? read) fun list => ∀ b ∈ list, P b := by
  intro j isDocument list isList
  cases isDocument with
  | array parts =>
      exact forall_of_mapM isList fun item member b isRead => ensures (parts item member) isRead
  | _ => cases isList

theorem nullable (ensures : Ensures read P) : Ensures (nullable read) fun o => ∀ b ∈ o, P b := by
  intro j isDocument o isValue
  cases j with
  | null =>
      cases isValue
      exact nofun
  | _ =>
      obtain ⟨b, isRead, rfl⟩ := Option.map_eq_some_iff.mp isValue
      rintro _ ⟨⟩
      exact ensures isDocument isRead

section Fields

variable (documents : AreDocuments members)

include documents

theorem lookup (ensures : Ensures read P) {j : Json Float} {b : β}
    (present : members.lookup name = some j) (isRead : read j = some b) : P b := by
  obtain ⟨before, after, same, -⟩ := List.lookup_eq_some_iff.mp present
  have isDocument : IsDocument j := documents (name, j) (by rw [same]; simp)
  exact ensures isDocument isRead

theorem required (ensures : Ensures read P) {b : β} (isRead : required members name read = some b) :
    P b := by
  obtain ⟨j, present, isValue⟩ := required_eq_some.mp isRead
  exact ensures.lookup documents present isValue

theorem defaulted (ensures : Ensures read P) {default b : β} (usual : P default)
    (isRead : defaulted members name default read = some b) : P b := by
  rcases defaulted_eq_some.mp isRead with ⟨-, rfl⟩ | ⟨j, present, isValue⟩
  · exact usual
  · exact ensures.lookup documents present isValue

theorem optional (ensures : Ensures read P) {o : Option β}
    (isRead : optional members name read = some o) : ∀ b ∈ o, P b := by
  have absent : ∀ b ∈ (none : Option β), P b := nofun
  exact ensures.nullable.defaulted documents absent isRead

end Fields

end Ensures

end Montage.Json

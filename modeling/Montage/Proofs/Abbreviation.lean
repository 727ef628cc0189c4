import Mathlib.Data.List.Nodup
import Montage.Number.Exact
import Montage.Proofs.Text.Hex
import Montage.Timeline

/-!
Contract: what the beginning of an identity is resolved to.

Owns:
- that the text of an identity is read in any letter case, and that nothing shorter is read;
- that a beginning means an element exactly if no other element's identity begins so.

Does **not** own: the other spellings of a whole identity, which are resolved by reading them.

A whole identity is read before any beginning is looked for. A beginning can be as long as plain digits are,
but then it holds a hyphen, which plain digits do not.
-/

set_option autoImplicit false

namespace Montage

namespace Identity

/-- A beginning of the text of an identity, in any letter case. -/
def Abbreviates (id : Identity) (p : String) : Prop :=
  p.toList.map Char.toLower <+: id.text.toList

instance (id : Identity) (p : String) : Decidable (id.Abbreviates p) :=
  inferInstanceAs (Decidable (_ <+: _))

/-! ## Reading in any letter case -/

theorem hyphenated_append {a b c d : List Char} (e : List Char) (isFirst : a.length = 8)
    (isSecond : b.length = 4) (isThird : c.length = 4) (isFourth : d.length = 4) :
    hyphenated (a ++ (b ++ (c ++ (d ++ e)))) =
      a ++ '-' :: b ++ '-' :: c ++ '-' :: d ++ '-' :: e := by
  simp [hyphenated, List.drop_append, List.drop_eq_nil_of_le, isFirst, isSecond, isThird, isFourth]

/-- What comes to a hyphen between two parts in lower case has the hyphen itself. -/
theorem exists_append_hyphen {s front rest : List Char}
    (lower : s.map Char.toLower = front ++ '-' :: rest) :
    ∃ a b, s = a ++ '-' :: b ∧ a.map Char.toLower = front ∧ b.map Char.toLower = rest := by
  obtain ⟨a, tail, rfl, isFront, isTail⟩ := List.map_eq_append_iff.mp lower
  obtain ⟨c, b, rfl, hyphen, isRest⟩ := List.map_eq_cons_iff.mp isTail
  rw [Text.Hex.eq_hyphen_of_toLower hyphen]
  exact ⟨a, b, rfl, isFront, isRest⟩

/-- A text that is hyphenated in lower case is hyphenated as it is. -/
theorem exists_hyphenated {s digits : List Char} (length : digits.length = 32)
    (lower : s.map Char.toLower = hyphenated digits) :
    ∃ own, s = hyphenated own ∧ own.length = 32 ∧ own.map Char.toLower = digits := by
  obtain ⟨s, e, rfl, lower, isLast⟩ := exists_append_hyphen lower
  obtain ⟨s, d, rfl, lower, isFourth⟩ := exists_append_hyphen lower
  obtain ⟨s, c, rfl, lower, isThird⟩ := exists_append_hyphen lower
  obtain ⟨a, b, rfl, isFirst, isSecond⟩ := exists_append_hyphen lower
  have lengths {own part : List Char} (same : own.map Char.toLower = part) :
      own.length = part.length := by
    rw [← same, List.length_map]
  have own : (a ++ (b ++ (c ++ (d ++ e)))).map Char.toLower = digits := by
    simp only [List.map_append, isFirst, isSecond, isThird, isFourth, isLast, groups_append]
  refine ⟨a ++ (b ++ (c ++ (d ++ e))), ?_, (lengths own).trans length, own⟩
  rw [hyphenated_append e (by simp [lengths isFirst, length]) (by simp [lengths isSecond, length])
    (by simp [lengths isThird, length]) (by simp [lengths isFourth, length])]

theorem ofDigits?_map_toLower (s : List Char) : ofDigits? (s.map Char.toLower) = ofDigits? s := by
  unfold ofDigits?
  rw [List.length_map, Text.Hex.number?_map_toLower]

theorem read?_of_map_toLower {p : String} {id : Identity}
    (lower : p.toList.map Char.toLower = id.text.toList) : read? p = some id := by
  have chars : id.text.toList = hyphenated id.digits := String.toList_ofList
  rw [chars] at lower
  obtain ⟨own, isOwn, length, same⟩ := exists_hyphenated (Text.Hex.length_digits 32 _) lower
  have reads : ofHyphenated? p.toList = some id := by
    rw [isOwn, ofHyphenated?_hyphenated length, ← ofDigits?_map_toLower, same]
    exact id.ofDigits?_digits
  have size : p.toList.length = 36 := by
    rw [isOwn]
    simp [hyphenated, length]
  unfold read?
  simp only [size, Nat.reduceEqDiff, if_false, if_true, reads]

theorem length_text (id : Identity) : id.text.toList.length = 36 := by
  rw [show id.text.toList = hyphenated id.digits from String.toList_ofList]
  rfl

/-- Nothing shorter than the whole text is read: from the ninth character on it holds a hyphen. -/
theorem read?_of_shorter {p : String} {id : Identity} (begins : Abbreviates id p)
    (shorter : p.toList.length < 36) : read? p = none := by
  have noDigits (length : p.toList.length = 32) : ofDigits? p.toList = none := by
    have hyphen : id.digits.take 8 ++ ['-'] <+: p.toList.map Char.toLower := by
      apply List.prefix_of_prefix_length_le _ begins
      · simp [length, digits, Text.Hex.length_digits]
      · rw [show id.text.toList = hyphenated id.digits from String.toList_ofList]
        simp [hyphenated]
    have member : '-' ∈ p.toList.map Char.toLower := hyphen.subset (by simp)
    obtain ⟨c, isChar, lower⟩ := List.mem_map.mp member
    rw [Text.Hex.eq_hyphen_of_toLower lower] at isChar
    unfold ofDigits?
    rw [if_pos length, Option.map_eq_none_iff]
    cases isNumber : Text.Hex.number? p.toList with
    | none => rfl
    | some n => exact absurd (Text.Hex.mem_alphabet_of_number? isNumber '-' isChar) (by decide)
  -- Of the lengths that are read only that of plain digits is below 36.
  unfold read?
  simp only
  split
  · rename_i length
    exact noDigits length
  · rw [if_neg (by omega), if_neg (by omega), if_neg (by omega)]

/-- A beginning is read as the identity if it is the whole text, and not at all otherwise. -/
theorem Abbreviates.read?_eq {p : String} {id : Identity} (begins : Abbreviates id p) :
    read? p = if p.toList.length = 36 then some id else none := by
  have size : p.toList.length ≤ 36 := by
    have fits := begins.length_le
    rwa [List.length_map, length_text] at fits
  by_cases whole : p.toList.length = 36
  · rw [if_pos whole]
    apply read?_of_map_toLower
    apply begins.eq_of_length
    rw [List.length_map, length_text, whole]
  · rw [if_neg whole]
    exact read?_of_shorter begins (by omega)

end Identity

namespace Timeline

variable {α : Type} {t : Timeline α} {p : String} {id : Identity}

/-! ## Looking up -/

theorem isSome_element?_iff (t : Timeline α) (id : Identity) :
    (t.element? id).isSome = true ↔ id ∈ t.ids := by
  have isClip : (t.clip? id).isSome = true ↔ id ∈ t.clips.map (·.id) := by
    simp [clip?]
  have isOverlay : (t.overlay? id).isSome = true ↔ id ∈ t.overlays.map (·.id) := by
    simp [overlay?]
  rw [ids, List.mem_append, ← isClip, ← isOverlay, element?]
  cases t.clip? id <;> simp

/-- The identities that begin with a text in some letter case. -/
def candidates (t : Timeline α) (p : String) : List Identity :=
  t.ids.filter fun id => (Text.lowercase p).toList.isPrefixOf id.text.toList

theorem mem_candidates_iff : id ∈ t.candidates p ↔ id ∈ t.ids ∧ id.Abbreviates p := by
  unfold candidates Identity.Abbreviates Text.lowercase
  rw [List.mem_filter, String.toList_ofList, List.isPrefixOf_iff_prefix]

/-- What is no whole identity is resolved to the only candidate. -/
theorem resolve_of_unread (unread : Identity.read? p = none) :
    t.resolve p = some id ↔ t.candidates p = [id] := by
  unfold resolve candidates
  simp only [unread]
  split <;> simp_all

theorem resolve_of_read (isWhole : Identity.read? p = some id) (member : id ∈ t.ids) :
    t.resolve p = some id := by
  obtain ⟨element, found⟩ := Option.isSome_iff_exists.mp ((t.isSome_element?_iff id).mpr member)
  unfold resolve
  simp only [isWhole, found, Option.map_some]

theorem mem_ids_of_resolve (resolved : t.resolve p = some id) : id ∈ t.ids := by
  cases isWhole : Identity.read? p with
  | some whole =>
      unfold resolve at resolved
      simp only [isWhole, Option.map_eq_some_iff] at resolved
      obtain ⟨element, found, rfl⟩ := resolved
      exact (t.isSome_element?_iff whole).mp (Option.isSome_of_mem found)
  | none =>
      rw [resolve_of_unread isWhole] at resolved
      have isCandidate : id ∈ t.candidates p := by
        rw [resolved]
        exact List.mem_singleton_self id
      exact (mem_candidates_iff.mp isCandidate).1

/-! ## Beginnings -/

/-- An element that a beginning may mean is the only one it is resolved to. -/
theorem eq_of_resolve (member : id ∈ t.ids) (begins : id.Abbreviates p) {found : Identity}
    (resolved : t.resolve p = some found) : found = id := by
  by_cases whole : p.toList.length = 36
  · have isWhole := begins.read?_eq
    rw [if_pos whole] at isWhole
    exact Option.some.inj (resolved.symm.trans (resolve_of_read isWhole member))
  · have unread := begins.read?_eq
    rw [if_neg whole] at unread
    have isCandidate := mem_candidates_iff.mpr ⟨member, begins⟩
    rw [(resolve_of_unread unread).mp resolved] at isCandidate
    exact (List.mem_singleton.mp isCandidate).symm

/-- A beginning is resolved to an element exactly if it is one of this element alone. -/
theorem resolve_eq_some_iff (distinct : t.ids.Nodup) (member : id ∈ t.ids)
    (begins : id.Abbreviates p) :
    t.resolve p = some id ↔ ∀ other ∈ t.ids, other.Abbreviates p → other = id := by
  by_cases whole : p.toList.length = 36
  · have isWhole := begins.read?_eq
    rw [if_pos whole] at isWhole
    refine iff_of_true (resolve_of_read isWhole member) fun other _ same => ?_
    have isOther := same.read?_eq
    rw [if_pos whole, isWhole] at isOther
    exact (Option.some.inj isOther).symm
  · have unread := begins.read?_eq
    rw [if_neg whole] at unread
    -- The candidates are distinct, so to be the only one is a matter of membership.
    have isCandidate := mem_candidates_iff.mpr ⟨member, begins⟩
    have once : (t.candidates p).Nodup := distinct.filter _
    rw [resolve_of_unread unread, ← not_iff_not, ← ne_eq, once.ne_singleton_iff,
      or_iff_right (List.ne_nil_of_mem isCandidate)]
    simp only [mem_candidates_iff, ne_eq, not_forall, and_assoc, exists_prop]

/-- Texts are resolved to elements only. A beginning of an element's identity is resolved to the element as
long as no other one's begins so, to nothing where another one's does, and to no other element when it is
continued. -/
structure ResolvesSafely (t : Timeline α) : Prop where
  known : ∀ p id, t.resolve p = some id → id ∈ t.ids
  unique : ∀ id ∈ t.ids, ∀ p, id.Abbreviates p →
    (t.resolve p = some id ↔ ∀ other ∈ t.ids, other ≠ id → ¬ other.Abbreviates p)
  ambiguous : ∀ id ∈ t.ids, ∀ p, id.Abbreviates p →
    (∃ other ∈ t.ids, other ≠ id ∧ other.Abbreviates p) → t.resolve p = none
  continued : ∀ p q id, id.Abbreviates p → id.Abbreviates q → p.length ≤ q.length →
    t.resolve p = some id → t.resolve q = some id

/-- Beginnings of identities are resolved safely where no two elements have the same one. -/
theorem resolvesSafely_of_nodup (t : Timeline α) (distinct : t.ids.Nodup) : t.ResolvesSafely := by
  constructor
  case known => exact fun p id resolved => mem_ids_of_resolve resolved
  case unique =>
    intro id member p begins
    rw [resolve_eq_some_iff distinct member begins]
    simp only [not_imp_not, ne_eq]
  case ambiguous =>
    intro id member p begins another
    obtain ⟨other, isElement, apart, beginsOther⟩ := another
    cases resolved : t.resolve p with
    | none => rfl
    | some found =>
        have isFirst := eq_of_resolve member begins resolved
        exact absurd ((eq_of_resolve isElement beginsOther resolved).symm.trans isFirst) apart
  case continued =>
    intro p q id begins beginsLonger longer resolved
    have member := mem_ids_of_resolve resolved
    rw [resolve_eq_some_iff distinct member begins] at resolved
    rw [resolve_eq_some_iff distinct member beginsLonger]
    intro other isElement beginsOther
    have start : p.toList.map Char.toLower <+: q.toList.map Char.toLower := by
      apply List.prefix_of_prefix_length_le begins beginsLonger
      rwa [List.length_map, List.length_map, String.length_toList, String.length_toList]
    exact resolved other isElement (start.trans beginsOther)

def elder : Identity := ⟨0xabc00000000000000000000000000001⟩

def younger : Identity := ⟨0xabd00000000000000000000000000001⟩

/-- Two texts whose identities begin with the same two digits. -/
def twins : Timeline Extended :=
  { empty with overlays := [.ofText elder "first" 0, .ofText younger "second" 0] }

/-- The third digit tells them apart, in capitals too. -/
theorem twins_resolvesSafely :
    twins.ids.Nodup ∧ twins.resolve "AB" = none ∧ twins.resolve "ABD" = some younger := by
  have distinct : twins.ids.Nodup := by decide +kernel
  have isElder : elder ∈ twins.ids := by decide +kernel
  have isYounger : younger ∈ twins.ids := by decide +kernel
  have shared : ∀ id ∈ twins.ids, id.Abbreviates "AB" := by decide +kernel
  have own : younger.Abbreviates "ABD" := by decide +kernel
  have alone : ∀ id ∈ twins.ids, id ≠ younger → ¬ id.Abbreviates "ABD" := by decide +kernel
  have safely := resolvesSafely_of_nodup twins distinct
  constructor
  · exact distinct
  constructor
  · exact safely.ambiguous elder isElder "AB" (shared elder isElder)
      ⟨younger, isYounger, by decide, shared younger isYounger⟩
  · exact (safely.unique younger isYounger "ABD" own).mpr alone

end Timeline

end Montage

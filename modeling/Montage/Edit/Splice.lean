/-!
Contract: replacing one element of a list by several.

Owns: `spliceFirst`, the one list operation that every edit is made of.
-/

set_option autoImplicit false

namespace Montage.Edit

variable {β : Type}

/-- Puts `parts x` in the place of the first element `x` that is meant; none if no element is. -/
def spliceFirst (isMeant : β → Bool) (parts : β → List β) : List β → Option (List β)
  | [] => none
  | x :: rest =>
    if isMeant x then some (parts x ++ rest)
    else (spliceFirst isMeant parts rest).map (x :: ·)

theorem spliceFirst_isSome (isMeant : β → Bool) (parts : β → List β) :
    ∀ list : List β, (spliceFirst isMeant parts list).isSome = list.any isMeant
  | [] => rfl
  | x :: rest => by
    by_cases meant : isMeant x
    · simp [spliceFirst, meant]
    · simp [spliceFirst, meant, spliceFirst_isSome isMeant parts rest]

/-- The list around the first element that is meant, with its parts in between. -/
theorem spliceFirst_append (isMeant : β → Bool) (parts : β → List β) (x : β) (after : List β)
    (meant : isMeant x = true) :
    ∀ before : List β, (∀ y ∈ before, isMeant y = false) →
      spliceFirst isMeant parts (before ++ x :: after) = some (before ++ parts x ++ after)
  | [], _ => by simp [spliceFirst, meant]
  | y :: before, others => by
    have notMeant : isMeant y = false := others y (by simp)
    have rest := spliceFirst_append isMeant parts x after meant before
      fun z member => others z (by simp [member])
    simp [spliceFirst, notMeant, rest]

end Montage.Edit

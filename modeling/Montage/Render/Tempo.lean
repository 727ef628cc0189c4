import Montage.Number.Scalar

/-!
Contract: changing the tempo of sound in steps.

Owns: the factors, each within the range of a single step, whose product is a given speed.

A step may at most double or halve the tempo, so factors of two or of one half are taken from a speed
until the rest is in range. From an infinite speed, a zero or a negative number they can be taken for
ever; `none` stands for a loop that does not end.
-/

set_option autoImplicit false

namespace Montage.Render.Tempo

variable {α : Type} [Scalar α]

/-- A loop that takes a factor again and again while the rest is out of range. -/
structure Loop (α : Type) where
  isBeyond : α → Bool
  factor : α

def Loop.run (loop : Loop α) (rest : α) : Option (List α × α) :=
  if loop.isBeyond rest then do
    let (steps, last) ← loop |>.run (rest / loop.factor)
    some (loop.factor :: steps, last)
  else some ([], rest)
partial_fixpoint

/-- Takes factors of two while the rest is above two. -/
def doubling : Loop α := ⟨fun rest => decide (2 < rest), 2⟩

/-- Takes factors of one half while the rest is below one half. -/
def halving : Loop α := ⟨fun rest => decide (rest < 0.5), 0.5⟩

/-- How far a factor may be from one and still be left out. -/
def tolerance : α := 1e-9

/-- The factors of a speed, if both loops end; one that makes no difference is left out. -/
def steps? (speed : α) : Option (List α) := do
  let (doublings, rest) ← doubling.run speed
  let (halvings, rest) ← halving.run rest
  let last := if tolerance < Scalar.abs (rest - 1) then [rest] else []
  some (doublings ++ halvings ++ last)

end Montage.Render.Tempo

/-!
Contract: limiting the rate of a stream of values without losing the newest.

Owns: the throttle, its two operations, and what it still holds.

Times are nanoseconds below `2 ^ 64`; the end of the waiting time stays below that bound.
-/

set_option autoImplicit false

namespace Montage

/-- The largest time. -/
def lastInstant : Nat := 0xFFFFFFFFFFFFFFFF

/-- A throttle: the waiting time after a release, when it last released a value, and what it holds. -/
structure Throttle (β : Type) where
  interval : Nat
  lastRelease : Option Nat
  pending : Option β

namespace Throttle

variable {β : Type}

/-- A throttle for a number of values per second; zero lets every value pass. -/
def ofRate (rate : Nat) : Throttle β :=
  { interval := if rate = 0 then 0 else 1000000000 / rate, lastRelease := none, pending := none }

/-- Whether a value arriving now passes. -/
def isReady (t : Throttle β) (now : Nat) : Bool :=
  match t.lastRelease with
  | none => true
  | some last => Nat.min (last + t.interval) lastInstant ≤ now

/-- Offers a value: it passes, or it takes the place of the value held. -/
def offer (t : Throttle β) (value : β) (now : Nat) : Option β × Throttle β :=
  if t.isReady now then (some value, { t with lastRelease := some now, pending := none })
  else (none, { t with pending := some value })

/-- Takes the value held, whatever the time. -/
def flush (t : Throttle β) : Option β × Throttle β :=
  (t.pending, { t with pending := none })

end Throttle

end Montage

/-!
Contract: numbers computed exactly, with the three values that are not numbers.

Owns: the carrier `Extended` (a rational, an infinity of either sign, or no number at all), its
arithmetic and its order.

Does **not** own: rounding to a machine format (`Montage.Number.Binary64`) and the interface that the
editing rules are written against (`Montage.Number.Scalar`).

Arithmetic follows the usual conventions: whatever touches `nan` is `nan`, opposite infinities cancel
to `nan`, and a division by zero gives the infinity of the dividend's sign. There is one zero.
-/

set_option autoImplicit false

namespace Montage

/-- A rational, an infinity, or the absence of a number. -/
inductive Extended where
  | nan
  | negInf
  | posInf
  | fin (q : Rat)
  deriving DecidableEq, Repr

namespace Extended

/-- The infinity whose sign is that of `q`; a zero has none. -/
def infinityLike (q : Rat) : Extended :=
  if 0 < q then .posInf else if q < 0 then .negInf else .nan

def neg : Extended → Extended
  | .nan => .nan
  | .negInf => .posInf
  | .posInf => .negInf
  | .fin q => .fin (-q)

def add : Extended → Extended → Extended
  | .nan, _ => .nan
  | _, .nan => .nan
  | .fin p, .fin q => .fin (p + q)
  | .fin _, infinite => infinite
  | infinite, .fin _ => infinite
  | .posInf, .posInf => .posInf
  | .negInf, .negInf => .negInf
  | .posInf, .negInf => .nan
  | .negInf, .posInf => .nan

def sub (a b : Extended) : Extended := add a (neg b)

def mul : Extended → Extended → Extended
  | .nan, _ => .nan
  | _, .nan => .nan
  | .fin p, .fin q => .fin (p * q)
  | .fin p, .posInf => infinityLike p
  | .fin p, .negInf => infinityLike (-p)
  | .posInf, .fin q => infinityLike q
  | .negInf, .fin q => infinityLike (-q)
  | .posInf, .posInf => .posInf
  | .negInf, .negInf => .posInf
  | .posInf, .negInf => .negInf
  | .negInf, .posInf => .negInf

def div : Extended → Extended → Extended
  | .nan, _ => .nan
  | _, .nan => .nan
  | .fin p, .fin q => if q = 0 then infinityLike p else .fin (p / q)
  | .fin _, _ => .fin 0
  | .posInf, .fin q => if q < 0 then .negInf else .posInf
  | .negInf, .fin q => if q < 0 then .posInf else .negInf
  | _, _ => .nan

instance : Add Extended := ⟨add⟩
instance : Sub Extended := ⟨sub⟩
instance : Mul Extended := ⟨mul⟩
instance : Div Extended := ⟨div⟩

/-- Strict order; `nan` is below nothing and above nothing. -/
def less : Extended → Extended → Bool
  | .fin p, .fin q => p < q
  | .fin _, .posInf => true
  | .negInf, .fin _ => true
  | .negInf, .posInf => true
  | _, _ => false

/-- Order; `nan` is not even related to itself. -/
def atMost : Extended → Extended → Bool
  | .fin p, .fin q => p ≤ q
  | .fin _, .posInf => true
  | .negInf, .fin _ => true
  | .negInf, .posInf => true
  | .posInf, .posInf => true
  | .negInf, .negInf => true
  | _, _ => false

instance : LT Extended := ⟨fun a b => less a b = true⟩
instance : LE Extended := ⟨fun a b => atMost a b = true⟩
instance : DecidableLT Extended := fun a b => inferInstanceAs (Decidable (less a b = true))
instance : DecidableLE Extended := fun a b => inferInstanceAs (Decidable (atMost a b = true))

@[simp] theorem fin_lt_fin (p q : Rat) : (Extended.fin p < .fin q) ↔ p < q := by
  show less _ _ = true ↔ _
  simp [less]

@[simp] theorem fin_le_fin (p q : Rat) : (Extended.fin p ≤ .fin q) ↔ p ≤ q := by
  show atMost _ _ = true ↔ _
  simp [atMost]

@[simp] theorem fin_add_fin (p q : Rat) : Extended.fin p + .fin q = .fin (p + q) := rfl

@[simp] theorem fin_sub_fin (p q : Rat) : Extended.fin p - .fin q = .fin (p - q) := by
  show Extended.fin (p + -q) = _
  rw [Rat.sub_eq_add_neg]

@[simp] theorem fin_mul_fin (p q : Rat) : Extended.fin p * .fin q = .fin (p * q) := rfl

theorem fin_div_fin (p q : Rat) (nonzero : q ≠ 0) :
    Extended.fin p / .fin q = .fin (p / q) := by
  show (if q = 0 then _ else _) = _
  rw [if_neg nonzero]

end Extended

end Montage

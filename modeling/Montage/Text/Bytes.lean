/-!
Contract: bytes, and the texts they may stand for.

Owns:
- the comparison of byte sequences and the reading of bytes as text;
- the characters of a sequence of bytes of which not all need be UTF-8, and the text that is shown of it
  (`Text.Utf8`);
- texts whose characters stand for bytes (`Text.Octets`).

UTF-8 is read byte by byte. The walk knows how many bytes a character still owes and between which bounds the
next of them lies. Bytes that begin a character and do not go on with it are broken together; the byte that
breaks them begins anew. Where bytes are worked on one by one, each is a character below 256.
-/

set_option autoImplicit false

namespace Montage

instance decidableEqBytes : DecidableEq ByteArray := fun a b =>
  if h : a.data = b.data then .isTrue (ByteArray.ext h)
  else .isFalse fun same => h (congrArg ByteArray.data same)

def textOf? (bytes : ByteArray) : Option String := String.fromUTF8? bytes

end Montage

/-! ## Bytes of which not all need be UTF-8 -/

namespace Montage.Text.Utf8

/-- A character that is not complete: the bytes it owes, the bounds of the next one, and its value so
far. -/
structure Part where
  owed : Nat
  low : Nat
  high : Nat
  value : Nat
  deriving DecidableEq, Repr

/-- What was read, last first, and the character that is not complete. What is broken is nothing. -/
structure State where
  done : List (Option Char)
  part : Option Part

def begin (done : List (Option Char)) (byte : Nat) : State :=
  if byte < 0x80 then ⟨some (Char.ofNat byte) :: done, none⟩
  else if byte < 0xC2 then ⟨none :: done, none⟩
  else if byte < 0xE0 then ⟨done, some ⟨1, 0x80, 0xBF, byte - 0xC0⟩⟩
  else if byte < 0xF0 then
    let low := if byte = 0xE0 then 0xA0 else 0x80
    let high := if byte = 0xED then 0x9F else 0xBF
    ⟨done, some ⟨2, low, high, byte - 0xE0⟩⟩
  else if byte < 0xF5 then
    let low := if byte = 0xF0 then 0x90 else 0x80
    let high := if byte = 0xF4 then 0x8F else 0xBF
    ⟨done, some ⟨3, low, high, byte - 0xF0⟩⟩
  else ⟨none :: done, none⟩

def step (state : State) (byte : Nat) : State :=
  match state.part with
  | none => begin state.done byte
  | some part =>
    if part.low ≤ byte ∧ byte ≤ part.high then
      let value := part.value * 0x40 + (byte - 0x80)
      if part.owed ≤ 1 then ⟨some (Char.ofNat value) :: state.done, none⟩
      else ⟨state.done, some ⟨part.owed - 1, 0x80, 0xBF, value⟩⟩
    else begin (none :: state.done) byte

/-- The characters of bytes; nothing stands for those that are broken. -/
def characters (bytes : ByteArray) : List (Option Char) :=
  let state := bytes.data.toList.foldl (fun state byte => step state byte.toNat) ⟨[], none⟩
  (if state.part.isSome then none :: state.done else state.done).reverse

/-- What is shown of bytes: a mark in place of what is broken. -/
def shown (bytes : ByteArray) : String :=
  String.ofList ((characters bytes).map fun c => c.getD '\ufffd')

end Montage.Text.Utf8

/-! ## Texts whose characters stand for bytes -/

namespace Montage.Text.Octets

def ofBytes (bytes : ByteArray) : String :=
  String.ofList (bytes.toList.map fun byte => Char.ofNat byte.toNat)

def bytes (text : String) : ByteArray :=
  ⟨(text.toList.map fun c => UInt8.ofNat c.toNat).toArray⟩

def ofText (text : String) : String := ofBytes text.toUTF8

/-- The text of characters that bytes show. -/
def shown (text : String) : String := Utf8.shown (bytes text)

end Montage.Text.Octets

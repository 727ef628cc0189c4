import Montage.Text.Hex

/-!
Contract: the identities of timeline elements and of projects.

Owns: 128-bit identities, their hyphenated text, the four spellings that are read, and the supply from
which fresh identities are drawn.

Does **not** own: randomness. A supply is a sequence chosen by whoever runs the program, so that an
edit is a function of its arguments.
-/

set_option autoImplicit false

namespace Montage

/-- A 128-bit identity. -/
structure Identity where
  bits : BitVec 128
  deriving DecidableEq, Repr

namespace Identity

def digits (id : Identity) : List Char :=
  Text.Hex.digits 32 id.bits.toNat

/-- Digits in groups of 8, 4, 4, 4 and the rest, with hyphens between. -/
def hyphenated (digits : List Char) : List Char :=
  digits.take 8 ++ '-' :: (digits.drop 8).take 4 ++ '-' :: (digits.drop 12).take 4
    ++ '-' :: (digits.drop 16).take 4 ++ '-' :: digits.drop 20

/-- The text of an identity: lower-case digits with hyphens. -/
def text (id : Identity) : String :=
  String.ofList (hyphenated id.digits)

/-- The first eight digits, for listings. -/
def short (id : Identity) : String :=
  String.ofList (id.digits.take 8)

def ofDigits? (digits : List Char) : Option Identity :=
  if digits.length = 32 then
    (Text.Hex.number? digits).map fun n => ⟨BitVec.ofNat 128 n⟩
  else none

/-- Reads 32 digits with hyphens after the 8th, 12th, 16th and 20th. -/
def ofHyphenated? (s : List Char) : Option Identity :=
  let digits := s.take 8 ++ (s.drop 9).take 4 ++ (s.drop 14).take 4 ++ (s.drop 19).take 4 ++ s.drop 24
  if s.length = 36 ∧ s = hyphenated digits then ofDigits? digits else none

/-- Reads an identity: plain digits, the hyphenated text, or the latter in braces or as a URN, whose
scheme may be in any letter case. -/
def read? (text : String) : Option Identity :=
  let s := text.toList
  if s.length = 32 then ofDigits? s
  else if s.length = 36 then ofHyphenated? s
  else if s.length = 38 then
    if s.head? = some '\x7b' ∧ s.getLast? = some '\x7d' then ofHyphenated? (s.tail.take 36) else none
  else if s.length = 45 then
    if (s.take 9).map Char.toLower = "urn:uuid:".toList then ofHyphenated? (s.drop 9) else none
  else none

/-- The identity with 122 chosen bits, the other six marking it as a random one. -/
def ofFreeBits (free : BitVec 122) : Identity :=
  ⟨free.extractLsb' 74 48 ++ 4#4 ++ free.extractLsb' 62 12 ++ 2#2 ++ free.extractLsb' 0 62⟩

end Identity

/-- A sequence of identities not used before, and how many of it are taken. -/
structure IdSupply where
  sequence : Nat → Identity
  taken : Nat

namespace IdSupply

/-- An odd stride that reaches all 122 free bits. -/
def stride : BitVec 122 := 0x278dde6e5fd29e05478e8de1f2a3b75#122

/-- A sequence that starts from a seed and repeats none of its identities before all are used. -/
def ofSeed (seed : Nat) : IdSupply :=
  { sequence := fun n => .ofFreeBits (BitVec.ofNat 122 seed + stride * BitVec.ofNat 122 n)
    taken := 0 }

def next (supply : IdSupply) : Identity :=
  supply.sequence supply.taken

/-- The supply after `count` more identities are taken. -/
def advance (supply : IdSupply) (count : Nat) : IdSupply :=
  { supply with taken := supply.taken + count }

def draw (supply : IdSupply) : Identity × IdSupply :=
  (supply.next, supply.advance 1)

end IdSupply

end Montage

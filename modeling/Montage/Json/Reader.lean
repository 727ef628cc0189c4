import Montage.Json.Number
import Montage.Text.Bytes
import Montage.Text.Hex

/-!
Contract: JSON values from text.

Owns: the tokens of a text, as a walk over its characters, and the value of a list of tokens, as a walk
over them with a stack of open containers. Both are folds, so nesting costs no recursion.

The text is read strictly: one value, no trailing text, no trailing comma, no comment, no byte order
mark, no control character inside a string. Containers nested more than 127 deep are checked for form
and stand for no value. A string with bytes that are no UTF-8 stands for no value either, as long as they
stand in a string.
-/

set_option autoImplicit false

namespace Montage.Json

/-- The smallest units of a JSON text. -/
inductive Token where
  | openObject
  | closeObject
  | openArray
  | closeArray
  | colon
  | comma
  | null
  | bool (b : Bool)
  | number (literal : Number.Literal)
  /-- The content of a string, if it is Unicode text. -/
  | string (content : Option String)
  deriving DecidableEq, Repr

namespace Lexer

/-- Where the walk stands: between tokens, in a bare word, or in a string and possibly an escape.
Collected characters and code points are in reverse order. -/
inductive Mode where
  | between
  | word (seen : List Char)
  | string (seen : List Nat)
  | escape (seen : List Nat)
  | unicode (seen : List Nat) (digits : Nat) (value : Nat)
  deriving DecidableEq, Repr

/-- The tokens found so far, last first, and the mode. -/
structure State where
  tokens : List Token
  mode : Mode

def wordToken? (word : List Char) : Option Token :=
  if word = "null".toList then some .null
  else if word = "true".toList then some (.bool true)
  else if word = "false".toList then some (.bool false)
  else (Number.literal? word).map .number

def mark? : Char → Option Token
  | '\x7b' => some .openObject
  | '\x7d' => some .closeObject
  | '[' => some .openArray
  | ']' => some .closeArray
  | ':' => some .colon
  | ',' => some .comma
  | _ => none

def isSpace (c : Char) : Bool :=
  c = ' ' || c = '\n' || c = '\t' || c = '\r'

def isWordChar (c : Char) : Bool :=
  c.isAlphanum || c = '-' || c = '+' || c = '.'

/-- The code point of a one-letter escape. -/
def escaped? : Char → Option Nat
  | '"' => some 0x22
  | '\\' => some 0x5C
  | '/' => some 0x2F
  | 'b' => some 0x08
  | 'f' => some 0x0C
  | 'n' => some 0x0A
  | 'r' => some 0x0D
  | 't' => some 0x09
  | _ => none

/-- What stands in a string for bytes that are no character; it is no code point. -/
def brokenPoint : Nat := 0x110000

/-- Joins surrogate pairs; a half without its partner makes the text unreadable, and so does what is no
code point. -/
def assemble : List Nat → Option (List Char)
  | [] => some []
  | [point] =>
    if (0xD800 ≤ point ∧ point < 0xE000) ∨ brokenPoint ≤ point then none
    else some [Char.ofNat point]
  | high :: low :: rest =>
    if 0xD800 ≤ high ∧ high < 0xDC00 then
      if 0xDC00 ≤ low ∧ low < 0xE000 then
        (assemble rest).map (Char.ofNat (0x10000 + (high - 0xD800) * 0x400 + (low - 0xDC00)) :: ·)
      else none
    else if (0xDC00 ≤ high ∧ high < 0xE000) ∨ brokenPoint ≤ high then none
    else (assemble (low :: rest)).map (Char.ofNat high :: ·)

def stringToken (seen : List Nat) : Token :=
  .string ((assemble seen.reverse).map String.ofList)

/-- A character outside strings, once any word before it is finished. -/
def stepBetween (tokens : List Token) (c : Char) : Option State :=
  if isSpace c then some ⟨tokens, .between⟩
  else if c = '"' then some ⟨tokens, .string []⟩
  else if isWordChar c then some ⟨tokens, .word [c]⟩
  else (mark? c).map fun token => ⟨token :: tokens, .between⟩

def step (state : State) (c : Char) : Option State :=
  match state.mode with
  | .between => stepBetween state.tokens c
  | .word seen =>
    if isWordChar c then some ⟨state.tokens, .word (c :: seen)⟩
    else (wordToken? seen.reverse).bind fun token => stepBetween (token :: state.tokens) c
  | .string seen =>
    if c = '"' then some ⟨stringToken seen :: state.tokens, .between⟩
    else if c = '\\' then some ⟨state.tokens, .escape seen⟩
    else if c.toNat < 0x20 then none
    else some ⟨state.tokens, .string (c.toNat :: seen)⟩
  | .escape seen =>
    if c = 'u' then some ⟨state.tokens, .unicode seen 0 0⟩
    else (escaped? c).map fun point => ⟨state.tokens, .string (point :: seen)⟩
  | .unicode seen digits value =>
    (Text.Hex.value? c).map fun digit =>
      let value := value * 16 + digit
      if digits = 3 then ⟨state.tokens, .string (value :: seen)⟩
      else ⟨state.tokens, .unicode seen (digits + 1) value⟩

/-- One character of the walk, or bytes that are none, which only a string can hold. -/
def stepBytes (state : State) : Option Char → Option State
  | some c => step state c
  | none =>
    match state.mode with
    | .string seen => some ⟨state.tokens, .string (brokenPoint :: seen)⟩
    | _ => none

/-- The tokens of a text, in which there may be bytes that are no character. -/
def tokens? (s : List (Option Char)) : Option (List Token) := do
  let state ← s.foldlM stepBytes ⟨[], .between⟩
  match state.mode with
  | .between => some state.tokens.reverse
  | .word seen => (wordToken? seen.reverse).map fun token => (token :: state.tokens).reverse
  | _ => none

end Lexer

namespace Reader

/-- An open container with its complete parts, last first. A container that stands for no value is
void. -/
inductive Frame where
  | array (void : Bool) (items : List (Json Float))
  | object (void : Bool) (members : List (String × Json Float)) (key : String)

/-- What may come next. -/
inductive Expectation where
  | value
  | valueOrClose
  | key
  | keyOrClose
  | colon
  | commaOrClose
  | finish (value : Json Float)

structure State where
  stack : List Frame
  expecting : Expectation

/-- The deepest nesting that stands for a value. -/
def depthLimit : Nat := 127

/-- Puts a complete value where it belongs. -/
def place (stack : List Frame) (value : Json Float) : State :=
  match stack with
  | [] => ⟨[], .finish value⟩
  | .array void items :: rest => ⟨.array void (value :: items) :: rest, .commaOrClose⟩
  | .object void members key :: rest =>
    ⟨.object void ((key, value) :: members) key :: rest, .commaOrClose⟩

/-- Opens a container; beyond the depth limit it is void. -/
def openFrame (stack : List Frame) (isObject : Bool) : State :=
  let void := depthLimit ≤ stack.length
  if isObject then ⟨.object void [] "" :: stack, .keyOrClose⟩
  else ⟨.array void [] :: stack, .valueOrClose⟩

/-- Closes the innermost container if it is of the right kind. -/
def closeFrame (stack : List Frame) (isObject : Bool) : Option State :=
  match stack, isObject with
  | .array void items :: rest, false =>
    some (place rest (if void then .unreadable else .array items.reverse))
  | .object void members _ :: rest, true =>
    some (place rest (if void then .unreadable else .object members.reverse))
  | _, _ => none

def stepValue (stack : List Frame) : Token → Option State
  | .null => some (place stack .null)
  | .bool b => some (place stack (.bool b))
  | .number literal => some (place stack (Number.value literal))
  | .string (some s) => some (place stack (.string s))
  | .string none => some (place stack .unreadable)
  | .openArray => some (openFrame stack false)
  | .openObject => some (openFrame stack true)
  | _ => none

def stepKey (stack : List Frame) : Token → Option State
  | .string content =>
    match stack with
    | .object void members _ :: rest =>
      some ⟨.object (void || content.isNone) members (content.getD "") :: rest, .colon⟩
    | _ => none
  | _ => none

def stepAfterPart (stack : List Frame) : Token → Option State
  | .comma =>
    match stack with
    | .array _ _ :: _ => some ⟨stack, .value⟩
    | .object _ _ _ :: _ => some ⟨stack, .key⟩
    | [] => none
  | .closeArray => closeFrame stack false
  | .closeObject => closeFrame stack true
  | _ => none

def step (state : State) (token : Token) : Option State :=
  match state.expecting with
  | .value => stepValue state.stack token
  | .valueOrClose =>
    if token = .closeArray then closeFrame state.stack false else stepValue state.stack token
  | .key => stepKey state.stack token
  | .keyOrClose =>
    if token = .closeObject then closeFrame state.stack true else stepKey state.stack token
  | .colon => if token = .colon then some ⟨state.stack, .value⟩ else none
  | .commaOrClose => stepAfterPart state.stack token
  | .finish _ => none

def value? (tokens : List Token) : Option (Json Float) := do
  let state ← tokens.foldlM step ⟨[], .value⟩
  match state.expecting with
  | .finish value => some value
  | _ => none

end Reader

/-- Reads the one value that a text holds. -/
def read? (text : String) : Option (Json Float) := do
  Reader.value? (← Lexer.tokens? (text.toList.map some))

def readBytes? (bytes : ByteArray) : Option (Json Float) := do
  Reader.value? (← Lexer.tokens? (Text.Utf8.characters bytes))

end Montage.Json

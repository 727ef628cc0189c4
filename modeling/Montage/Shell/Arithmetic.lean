import Montage.Shell.Integer
import Montage.Shell.Piece
import Montage.Shell.Syntax

/-!
Contract: expressions of whole numbers.

Owns: the tokens of an expression, its value, and what can be wrong with it.

The value is computed while the expression is read, so that the first thing that is wrong decides. What
does not decide the value of a choice is read and not computed.
-/

set_option autoImplicit false

namespace Montage.Shell.Arithmetic

/-- Why an expression has no value. -/
inductive Fault where
  | missingOperand
  | missingParenthesis
  | missingColon
  | excess
  | divisionByZero
  /-- A quotient that is too large, which no machine can compute. -/
  | beyondBounds
  deriving DecidableEq, Repr

def Fault.message : Fault → String
  | .missingOperand => "expecting primary"
  | .missingParenthesis => "expecting ')'"
  | .missingColon => "expecting ':'"
  | .excess => "expecting EOF"
  | .divisionByZero => "division by zero"
  | .beyondBounds => "division by zero"

/-! ## Tokens -/

inductive Token where
  | number (n : Int)
  | name (text : String)
  | operator (text : String)
  /-- A character that has no meaning. -/
  | unknown
  deriving DecidableEq, Repr

def operators : List String :=
  ["<<=", ">>=", "<<", ">>", "<=", ">=", "==", "!=", "&&", "||", "+=", "-=", "*=", "/=", "%=", "&=",
   "|=", "^=", "+", "-", "*", "/", "%", "<", ">", "=", "&", "|", "^", "~", "!", "?", ":", "(", ")"]

def tokens : Nat → List Char → List Token
  | 0, _ => []
  | _, [] => []
  | fuel + 1, c :: rest =>
    if isBlank c then tokens fuel rest
    else if c.isDigit then
      let found := Integer.scanUnsigned true (c :: rest)
      .number found.signed :: tokens fuel found.rest
    else if beginsName c then
      let name := (c :: rest).takeWhile isInName
      .name (String.ofList name) :: tokens fuel ((c :: rest).drop name.length)
    else
      match operators.find? fun text => text.toList.isPrefixOf (c :: rest) with
      | some text => .operator text :: tokens fuel ((c :: rest).drop text.length)
      | none => .unknown :: tokens fuel rest

/-! ## Operations -/

def rank? : Token → Option Nat
  | .operator text =>
    ([("*", 0), ("/", 0), ("%", 0), ("+", 1), ("-", 1), ("<<", 2), (">>", 2), ("<", 3), ("<=", 3),
      (">", 3), (">=", 3), ("==", 4), ("!=", 4), ("&", 5), ("^", 6), ("|", 7)] :
      List (String × Nat)).lookup text
  | _ => none

def ofBool (holds : Bool) : Int := if holds then 1 else 0

def bitwise (operation : Nat → Nat → Nat) (left right : Int) : Int :=
  let bits (n : Int) : Nat := (n.emod 0x10000000000000000).toNat
  Integer.wrap (operation (bits left) (bits right))

def divide (left right result : Int) : Except Fault Int :=
  if right == 0 then .error .divisionByZero
  else if left == Integer.least && right == -1 then .error .beyondBounds
  else .ok result

def apply (operator : String) (left right : Int) : Except Fault Int :=
  match operator with
  | "*" => .ok (Integer.wrap (left * right))
  | "/" => divide left right (left.tdiv right)
  | "%" => divide left right (left.tmod right)
  | "+" => .ok (Integer.wrap (left + right))
  | "-" => .ok (Integer.wrap (left - right))
  | "<<" => .ok (Integer.wrap (left * (Nat.shiftLeft 1 (right.emod 64).toNat : Int)))
  | ">>" => .ok (left.shiftRight (right.emod 64).toNat)
  | "<" => .ok (ofBool (decide (left < right)))
  | "<=" => .ok (ofBool (decide (left ≤ right)))
  | ">" => .ok (ofBool (decide (right < left)))
  | ">=" => .ok (ofBool (decide (right ≤ left)))
  | "==" => .ok (ofBool (left == right))
  | "!=" => .ok (ofBool (left != right))
  | "&" => .ok (bitwise (· &&& ·) left right)
  | "^" => .ok (bitwise (· ^^^ ·) left right)
  | _ => .ok (bitwise (· ||| ·) left right)

def assignment? : Token → Option (Option String)
  | .operator "=" => some none
  | .operator text =>
    let short := String.ofList text.toList.dropLast
    if text.endsWith "=" && !(["<=", ">=", "==", "!="].contains text) then some (some short) else none
  | _ => none

/-! ## Values -/

/-- Where the variables of expressions are kept. -/
structure Cells (n : Type → Type) where
  read : String → n Int
  write : String → Int → n Unit

abbrev Computing (n : Type → Type) := StateT (List Token) (ExceptT Fault n)

variable {n : Type → Type} [Monad n]

def onCells {β : Type} (activity : n β) : Computing n β :=
  liftM (liftM activity : ExceptT Fault n β)

def take : Computing n (Option Token) := do
  let left ← get
  set (left.drop 1)
  pure left.head?

def accept (text : String) : Computing n Bool := do
  if (← get).head? == some (.operator text) then
    let _ ← take
    pure true
  else pure false

def operate (computes : Bool) (operator : String) (left right : Int) : Computing n Int :=
  if computes then liftM (MonadExcept.ofExcept (apply operator left right) : ExceptT Fault n Int)
  else pure right

mutual

def operand (cells : Cells n) : Nat → Bool → Computing n Int
  | 0, _ => throw .missingOperand
  | fuel + 1, computes => do
    match ← take with
    | some (.number value) => pure value
    | some (.name text) => if computes then onCells (cells.read text) else pure 0
    | some (.operator "(") =>
      let value ← assignment cells fuel computes
      if ← accept ")" then pure value else throw .missingParenthesis
    | some (.operator "+") => operand cells fuel computes
    | some (.operator "-") =>
      let value ← operand cells fuel computes
      pure (Integer.wrap (-value))
    | some (.operator "!") =>
      let value ← operand cells fuel computes
      pure (ofBool (value == 0))
    | some (.operator "~") =>
      let value ← operand cells fuel computes
      pure (-value - 1)
    | _ => throw .missingOperand

def operations (cells : Cells n) : Nat → Nat → Bool → Int → Computing n Int
  | 0, _, _, left => pure left
  | fuel + 1, limit, computes, left => do
    match (← get).head? with
    | some (.operator text) =>
      match (rank? (.operator text)).filter (· < limit) with
      | none => pure left
      | some rank =>
        let _ ← take
        let first ← operand cells fuel computes
        let right ← operations cells fuel rank computes first
        let total ← operate computes text left right
        operations cells fuel limit computes total
    | _ => pure left

/-- Whether all, or one, of several values are not zero, as a number; a single value as it is. -/
def connection (cells : Cells n) : Nat → Bool → Bool → Computing n Int
  | 0, _, _ => throw .missingOperand
  | fuel + 1, isAnd, computes => do
    let first ←
      if isAnd then
        let value ← operand cells fuel computes
        operations cells fuel 8 computes value
      else connection cells fuel true computes
    if ← accept (if isAnd then "&&" else "||") then
      let isOpen := if isAnd then first != 0 else first == 0
      let second ← connection cells fuel isAnd (computes && isOpen)
      pure (ofBool (if isAnd then first != 0 && second != 0 else first != 0 || second != 0))
    else pure first

def choice (cells : Cells n) : Nat → Bool → Computing n Int
  | 0, _ => throw .missingOperand
  | fuel + 1, computes => do
    let test ← connection cells fuel false computes
    if ← accept "?" then
      let whenTrue ← assignment cells fuel (computes && test != 0)
      if !(← accept ":") then throw .missingColon
      let whenFalse ← choice cells fuel (computes && test == 0)
      pure (if test != 0 then whenTrue else whenFalse)
    else pure test

def assignment (cells : Cells n) : Nat → Bool → Computing n Int
  | 0, _ => throw .missingOperand
  | fuel + 1, computes => do
    match ← get with
    | .name text :: sign :: rest =>
      match assignment? sign with
      | none => choice cells fuel computes
      | some operator? =>
        set rest
        let given ← assignment cells fuel computes
        if !computes then pure given
        else
          let value ←
            match operator? with
            | none => pure given
            | some operator =>
              let before ← onCells (cells.read text)
              operate true operator before given
          onCells (cells.write text value)
          pure value
    | _ => choice cells fuel computes

end

def value (cells : Cells n) (expression : List Char) : n (Except Fault Int) := do
  let all := tokens (expression.length + 1) expression
  let activity : Computing n Int := do
    let total ← assignment cells (8 * all.length + 16) true
    if (← get).isEmpty then pure total else throw .excess
  match ← (activity.run all).run with
  | .ok (total, _) => pure (.ok total)
  | .error fault => pure (.error fault)

end Montage.Shell.Arithmetic

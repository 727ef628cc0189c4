import Montage.Shell.State

/-!
Contract: conditions, which are given word by word.

Owns: the operators, their answers, and how words are taken together.

A word that looks like an operator is an operand where an operator cannot stand. With three words, and
with four, the form of the whole is looked at first.
-/

set_option autoImplicit false

namespace Montage.Shell.Condition

variable {m : Type → Type} [Monad m] [Ground m]

/-! ## Operators -/

/-- What an operator stands between. -/
inductive Arity where
  | unary
  | binary
  /-- It joins or negates conditions, or it is a parenthesis. -/
  | joining
  deriving DecidableEq, Repr

def unaryOperators : List String :=
  ["-r", "-w", "-x", "-e", "-f", "-d", "-c", "-b", "-p", "-u", "-g", "-k", "-s", "-t", "-z", "-n", "-h",
   "-O", "-G", "-L", "-S"]

def textComparisons : List (String × (String → String → Bool)) :=
  [("=", fun a b => a == b), ("!=", fun a b => a != b), ("<", fun a b => decide (a < b)),
   (">", fun a b => decide (b < a))]

def numberComparisons : List (String × (Int → Int → Bool)) :=
  [("-eq", fun a b => a == b), ("-ne", fun a b => a != b), ("-ge", fun a b => decide (b ≤ a)),
   ("-gt", fun a b => decide (b < a)), ("-le", fun a b => decide (a ≤ b)),
   ("-lt", fun a b => decide (a < b))]

def fileComparisons : List String := ["-nt", "-ot", "-ef"]

def arity? (word : String) : Option Arity :=
  if unaryOperators.contains word then some .unary
  else if (textComparisons.lookup word).isSome || (numberComparisons.lookup word).isSome
      || fileComparisons.contains word then some .binary
  else if ["!", "-a", "-o", "(", ")"].contains word then some .joining
  else none

/-- What a word is where it stands. -/
inductive Sign where
  | nothing
  | operand
  | operator (text : String) (arity : Arity)
  deriving DecidableEq, Repr

def isOperand : List String → Bool
  | [] => true
  | [_] => false
  | next :: _ => arity? next == some .binary

def signOf : List String → Sign
  | [] => .nothing
  | word :: rest =>
    match arity? word with
    | none => .operand
    | some arity =>
      if (arity == .unary && isOperand rest) || (word == "(" && rest.isEmpty) then .operand
      else .operator word arity

/-! ## Answers -/

/-- The number that a word means; a word that is none is complained about. -/
def numberOf (word : String) : Act m Int :=
  match Integer.ofDecimal? word with
  | some n => pure n
  | none => fail ("Illegal number: " ++ word)

def ofOne (operator word : String) : Act m Bool := do
  match operator with
  | "-n" => pure (!word.isEmpty)
  | "-z" => pure word.isEmpty
  | "-t" => do
    let _ ← numberOf word
    pure false
  | _ =>
    match ← kindOf? word with
    | none => pure false
    | some kind =>
      let isFile := kind == .file && word != "/dev/null"
      match operator with
      | "-e" | "-r" | "-w" | "-O" | "-G" => pure true
      | "-f" => pure isFile
      | "-d" => pure (kind == .directory)
      | "-c" => pure (word == "/dev/null")
      | "-x" =>
        if kind == .directory then pure true
        else do ask (Ground.isProgram (← pathOf (if word.contains '/' then word else "./" ++ word)))
      | "-s" => do pure (kind == .directory || !((← contentOf? word).getD "").isEmpty)
      | _ => pure false

def straightened (text : String) : List String :=
  (text.splitOn "/").foldl
    (fun names name =>
      if name.isEmpty || name == "." then names
      else if name == ".." then names.dropLast
      else names ++ [name])
    []

def ofTwo (operator left right : String) : Act m Bool := do
  match textComparisons.lookup operator, numberComparisons.lookup operator with
  | some compare, _ => pure (compare left right)
  | none, some compare =>
    let a ← numberOf left
    let b ← numberOf right
    pure (compare a b)
  | none, none =>
    if operator == "-ef" then
      let isThere := (← kindOf? left).isSome && (← kindOf? right).isSome
      let a ← pathOf left
      let b ← pathOf right
      pure (isThere && straightened a.text == straightened b.text)
    else pure false

/-! ## Words taken together -/

/-- An activity over the words that are left, of which the first is the one at hand. -/
abbrev Asking (m : Type → Type) := StateT (List String) (Act m)

def nextSign : Asking m Sign := do pure (signOf ((← get).drop 1))

def step (count : Nat) : Asking m Unit := modify fun words => words.drop count

def Sign.isOperator (sign : Sign) (text : String) : Bool :=
  match sign with
  | .operator other _ => other == text
  | _ => false

def refuse {β : Type} (message : String) : Asking m β := liftM (fail message : Act m β)

/-- The operand behind the word at hand, which becomes the one at hand. -/
def argumentOf (operator : String) : Asking m String := do
  step 1
  match (← get).head? with
  | some word => pure word
  | none => refuse (operator ++ ": argument expected")

mutual

def anyOf : Nat → Sign → Asking m Bool
  | 0, _ => pure false
  | fuel + 1, sign => do
    let first ← allOf fuel sign
    if (← nextSign).isOperator "-o" then
      step 2
      let rest ← anyOf fuel (signOf (← get))
      pure (first || rest)
    else pure first

def allOf : Nat → Sign → Asking m Bool
  | 0, _ => pure false
  | fuel + 1, sign => do
    let first ← negatable fuel sign
    if (← nextSign).isOperator "-a" then
      step 2
      let rest ← allOf fuel (signOf (← get))
      pure (first && rest)
    else pure first

def negatable : Nat → Sign → Asking m Bool
  | 0, _ => pure false
  | fuel + 1, sign => do
    if sign.isOperator "!" then
      let next ← nextSign
      if next != .nothing then step 1
      let holds ← negatable fuel next
      pure (!holds)
    else single fuel sign

def single : Nat → Sign → Asking m Bool
  | 0, _ => pure false
  | fuel + 1, sign => do
    match sign with
    | .nothing => pure false
    | .operator "(" _ =>
      step 1
      let first := signOf (← get)
      if first.isOperator ")" then pure false
      else
        let holds ← anyOf fuel first
        step 1
        if (signOf (← get)).isOperator ")" then pure holds else refuse "closing paren expected"
    | .operator operator .unary =>
      let word ← argumentOf operator
      liftM (ofOne operator word : Act m Bool)
    | _ =>
      let left := (← get).headD ""
      match ← nextSign with
      | .operator operator .binary =>
        step 1
        let right ← argumentOf operator
        liftM (ofTwo operator left right : Act m Bool)
      | _ => pure (!left.isEmpty)

end

def holds (sign : Sign) (words : List String) : Act m Bool := do
  let (answer, rest) ← (anyOf (8 * (words.length + 2)) sign).run words
  match rest with
  | word :: _ :: _ =>
    fail (if word.isEmpty then "unexpected operator" else word ++ ": unexpected operator")
  | _ => pure answer

def status : Nat → Bool → List String → Act m Nat
  | 0, _, _ => pure 1
  | fuel + 1, isNegated, words => do
    let ask (sign : Sign) (words : List String) : Act m Nat := do
      let answer ← holds sign words
      pure (if answer == isNegated then 1 else 0)
    let isWrapped := words.head? == some "(" && words.getLast? == some ")"
    match words with
    | [] => pure (if isNegated then 0 else 1)
    | [left, operator, right] =>
      if arity? operator == some .binary then ask .operand words
      else if isWrapped then ask (signOf [operator]) [operator]
      else if left == "!" then status fuel true [operator, right]
      else ask (signOf words) words
    | [first, second, third, fourth] =>
      if isWrapped then ask (signOf [second, third]) [second, third]
      else if first == "!" then status fuel true [second, third, fourth]
      else ask (signOf words) words
    | _ => ask (signOf words) words

/-- The status of a condition that is written as a command of a certain name. -/
def run (name : String) (arguments : List String) : Act m Nat := do
  if name == "[" then
    if (arguments.getLast?.getD name).startsWith "]" then
      status (arguments.length + 1) false arguments.dropLast
    else fail "missing ]"
  else status (arguments.length + 1) false arguments

end Montage.Shell.Condition

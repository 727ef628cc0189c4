import Montage.Graph.Escape
import Montage.Text.Blank

/-!
Contract: filter graphs.

Owns: pads, stages, chains and graphs, and the text of each.

Does **not** own: the check of the wiring (`Montage.Graph.Wiring`).

A graph is a list of chains. A chain reads some pads, runs its stages in order, and writes labelled pads.
A label is a word of ASCII letters, digits and underscores by construction, so that no label can be
mistaken for another part of the text.
-/

set_option autoImplicit false

namespace Montage

def isLabelText (s : String) : Bool :=
  !s.toList.isEmpty && s.toList.all fun c => c.isAlphanum || c = '_'

/-- The name of a link between two chains. -/
structure PadLabel where
  name : String
  valid : isLabelText name = true
  deriving DecidableEq

namespace PadLabel

def ofName? (name : String) : Option PadLabel :=
  if valid : isLabelText name = true then some ⟨name, valid⟩ else none

def text (l : PadLabel) : String := "[" ++ l.name ++ "]"

theorem toDigits_all_isDigit (n : Nat) : ((Nat.toDigits 10 n).all fun c => c.isDigit) = true := by
  rw [List.all_eq_true]
  intro c member
  exact Nat.isDigit_of_mem_toDigits (by decide) (by decide) member

theorem isLabelText_numbered (stem : String) (n : Nat) (valid : isLabelText stem = true) :
    isLabelText (stem ++ String.ofList (Nat.toDigits 10 n)) = true := by
  have digits := toDigits_all_isDigit n
  simp only [isLabelText, Bool.and_eq_true, Bool.not_eq_true', List.isEmpty_eq_false_iff,
    List.all_eq_true] at valid digits ⊢
  refine ⟨by simp [valid.1], ?_⟩
  intro c member
  rw [String.toList_append, List.mem_append, String.toList_ofList] at member
  rcases member with member | member
  · exact valid.2 c member
  · simp [Char.isAlphanum, digits c member]

def numbered (stem : String) (valid : isLabelText stem = true) (n : Nat) : PadLabel :=
  ⟨stem ++ String.ofList (Nat.toDigits 10 n), isLabelText_numbered stem n valid⟩

end PadLabel

/-- The streams of an input. -/
inductive StreamKind where
  | video
  | audio
  deriving DecidableEq, Repr

/-- What a chain reads: a stream of a numbered input, or what another chain writes. -/
inductive Pad where
  | input (index : Nat) (stream : StreamKind)
  | label (l : PadLabel)
  deriving DecidableEq

namespace Pad

def streamLetter : StreamKind → String
  | .video => "v"
  | .audio => "a"

def text : Pad → String
  | .input index stream => "[" ++ toString index ++ ":" ++ streamLetter stream ++ "]"
  | .label l => l.text

def label? : Pad → Option PadLabel
  | .label l => some l
  | .input _ _ => none

end Pad

/-- The value of an option. -/
inductive ArgValue where
  /-- Any text, escaped when written. -/
  | plain (s : String)
  /-- An expression, written between single quotes. -/
  | expression (s : String)
  deriving DecidableEq, Repr

namespace ArgValue

def content : ArgValue → String
  | .plain s => s
  | .expression s => s

def text : ArgValue → String
  | .plain s => Graph.Escape.graphValue s
  | .expression s => "'" ++ s ++ "'"

end ArgValue

/-- An option of a filter, named or by position. -/
structure Arg where
  key : Option String
  value : ArgValue
  deriving DecidableEq, Repr

namespace Arg

def text (a : Arg) : String :=
  match a.key with
  | some key => key ++ "=" ++ a.value.text
  | none => a.value.text

end Arg

/-- A filter with its options. -/
structure Stage where
  name : String
  args : List Arg
  deriving DecidableEq, Repr

namespace Stage

/-- A filter without options. -/
def ofName (name : String) : Stage := ⟨name, []⟩

/-- Adds a named option. -/
def arg (s : Stage) (key value : String) : Stage :=
  { s with args := s.args ++ [⟨some key, .plain value⟩] }

/-- Adds a named option with an expression. -/
def expression (s : Stage) (key value : String) : Stage :=
  { s with args := s.args ++ [⟨some key, .expression value⟩] }

def positional (s : Stage) (value : String) : Stage :=
  { s with args := s.args ++ [⟨none, .plain value⟩] }

def get? (s : Stage) (key : String) : Option String :=
  (s.args.find? fun arg => arg.key == some key).map fun arg => arg.value.content

def text (s : Stage) : String :=
  if s.args.isEmpty then s.name else s.name ++ "=" ++ Text.join ":" (s.args.map Arg.text)

end Stage

/-- Stages in a row, from the pads they read to the pads they write. -/
structure Chain where
  inputs : List Pad
  stages : List Stage
  outputs : List PadLabel
  deriving DecidableEq

namespace Chain

def text (c : Chain) : String :=
  String.join (c.inputs.map Pad.text) ++ Text.join "," (c.stages.map Stage.text)
    ++ String.join (c.outputs.map PadLabel.text)

def stageNames (c : Chain) : List String := c.stages.map (·.name)

def inputLabels (c : Chain) : List PadLabel := c.inputs.filterMap Pad.label?

end Chain

/-- A filter graph. -/
structure FilterGraph where
  chains : List Chain
  deriving DecidableEq

namespace FilterGraph

def producer? (g : FilterGraph) (l : PadLabel) : Option Chain :=
  g.chains.find? fun chain => chain.outputs.contains l

def stagesNamed (g : FilterGraph) (name : String) : List Stage :=
  (g.chains.flatMap (·.stages)).filter fun stage => stage.name == name

def text (g : FilterGraph) : String := Text.join ";" (g.chains.map Chain.text)

end FilterGraph

end Montage

import Montage.Graph.Basic

/-!
Contract: the check that a graph is wired up.

Owns: the faults a graph can have and `FilterGraph.check`.

Faults are looked for in a fixed order: chains without stages and labels written twice, chain by chain;
inputs out of range; labels read but not written or read twice, in the order in which they are read, the
output file reading first; labels written but not read.
-/

set_option autoImplicit false

namespace Montage

/-- A fault in the wiring of a graph. -/
inductive GraphFault where
  | invalidLabel (name : String)
  | duplicateLabel (l : PadLabel)
  | danglingPad (l : PadLabel)
  | padConsumedTwice (l : PadLabel)
  | unconsumedOutput (l : PadLabel)
  | inputOutOfRange (index count : Nat)
  | emptyChain (output : Option PadLabel)
  deriving DecidableEq

def GraphFault.message : GraphFault → String
  | .invalidLabel name => "invalid pad label '" ++ name ++ "'"
  | .duplicateLabel l => "pad " ++ l.text ++ " is produced more than once"
  | .danglingPad l => "pad " ++ l.text ++ " is consumed but never produced"
  | .padConsumedTwice l => "pad " ++ l.text ++ " is consumed more than once"
  | .unconsumedOutput l => "pad " ++ l.text ++ " is produced but never consumed"
  | .inputOutOfRange index count =>
    "input index " ++ toString index ++ " out of range (" ++ toString count ++ " inputs)"
  | .emptyChain output =>
    "chain producing " ++ (output.map PadLabel.text).getD "" ++ " has no filter stages"

namespace FilterGraph

def produced (g : FilterGraph) : List PadLabel := g.chains.flatMap (·.outputs)

/-- The labels that are read, by the output file and by the chains. -/
def consumed (g : FilterGraph) (terminals : List PadLabel) : List PadLabel :=
  terminals ++ g.chains.flatMap Chain.inputLabels

def inputIndices (g : FilterGraph) : List Nat :=
  (g.chains.flatMap (·.inputs)).filterMap fun pad =>
    match pad with
    | .input index _ => some index
    | .label _ => none

/-- The first label that occurred before, given the labels seen so far. -/
def firstRepeated (seen : List PadLabel) : List PadLabel → Option PadLabel
  | [] => none
  | l :: rest => if seen.contains l then some l else firstRepeated (l :: seen) rest

/-- The first chain without stages or label written twice, given the labels written so far. -/
def chainFault (seen : List PadLabel) : List Chain → Option GraphFault
  | [] => none
  | chain :: rest =>
    if chain.stages.isEmpty then some (.emptyChain chain.outputs.head?)
    else
      match firstRepeated seen chain.outputs with
      | some l => some (.duplicateLabel l)
      | none => chainFault (seen ++ chain.outputs) rest

def inputFault (g : FilterGraph) (count : Nat) : Option GraphFault :=
  (g.inputIndices.find? fun index => count ≤ index).map fun index => .inputOutOfRange index count

def readFault (produced consumed : List PadLabel) (l : PadLabel) : Option GraphFault :=
  if !produced.contains l then some (.danglingPad l)
  else if 1 < consumed.count l then some (.padConsumedTwice l)
  else none

def writeFault (produced consumed : List PadLabel) : Option GraphFault :=
  (produced.find? fun l => !consumed.contains l).map .unconsumedOutput

/-- The first fault of a graph with a number of inputs, of which the output file reads the terminals. -/
def fault? (g : FilterGraph) (inputCount : Nat) (terminals : List PadLabel) : Option GraphFault :=
  (chainFault [] g.chains).or <| (g.inputFault inputCount).or <|
    ((g.consumed terminals).findSome? (readFault g.produced (g.consumed terminals))).or <|
      writeFault g.produced (g.consumed terminals)

/-- Accepts a graph without faults. -/
def check (g : FilterGraph) (inputCount : Nat) (terminals : List PadLabel) :
    Except GraphFault Unit :=
  match g.fault? inputCount terminals with
  | some fault => .error fault
  | none => .ok ()

end FilterGraph

end Montage

import Montage.Proofs.Graph.Wiring

/-!
Contract: the faults that the check of a graph's wiring reports.

Owns:
- what a fault says about its graph (`FilterGraph.Has`);
- the check with its labels visited in any order (`FilterGraph.checkVisiting`);
- that every order accepts the same graphs and reports only faults that are there.

Does **not** own: the graphs without faults (`Montage.Proofs.Graph.Wiring`).

The last two passes of the check go through the labels that are read and the labels that are written.
Which of several faults is reported depends on the order in which they do so, and nothing else does.
-/

set_option autoImplicit false

namespace Montage.FilterGraph

/-! ## Faults -/

/-- What a fault says about a graph with a number of inputs, of which the output file reads the
terminals. -/
def Has (g : FilterGraph) (inputCount : Nat) (terminals : List PadLabel) : GraphFault → Prop
  | .invalidLabel _ => False
  | .duplicateLabel l => 1 < g.produced.count l
  | .danglingPad l => l ∈ g.consumed terminals ∧ l ∉ g.produced
  | .padConsumedTwice l => 1 < (g.consumed terminals).count l
  | .unconsumedOutput l => l ∈ g.produced ∧ l ∉ g.consumed terminals
  | .inputOutOfRange index count =>
      count = inputCount ∧ inputCount ≤ index ∧
        ∃ chain ∈ g.chains, ∃ stream, Pad.input index stream ∈ chain.inputs
  | .emptyChain output => ∃ chain ∈ g.chains, chain.stages = [] ∧ chain.outputs.head? = output

/-- A label that occurred before occurs twice. -/
theorem firstRepeated_eq_some
    {labels seen : List PadLabel}
    {l : PadLabel}
    (repeated : firstRepeated seen labels = some l) :
    1 < (seen ++ labels).count l := by
  induction labels generalizing seen with
  | nil => cases repeated
  | cons head rest inductionHypothesis =>
      unfold firstRepeated at repeated
      by_cases member : head ∈ seen
      · rw [if_pos (by simpa using member)] at repeated
        obtain rfl := Option.some.inj repeated
        have before : 0 < seen.count head := List.count_pos_iff.mpr member
        rw [List.count_append, List.count_cons_self]
        omega
      · rw [if_neg (by simpa using member)] at repeated
        have later := inductionHypothesis repeated
        simp only [List.count_append, List.count_cons] at later ⊢
        omega

/-- The first pass reports a chain without stages or a label that is written twice. -/
theorem chainFault_eq_some
    {chains : List Chain}
    {seen : List PadLabel}
    {fault : GraphFault}
    (found : chainFault seen chains = some fault) :
    (∃ chain ∈ chains, chain.stages = [] ∧ fault = .emptyChain chain.outputs.head?) ∨
      ∃ l, 1 < (seen ++ chains.flatMap (·.outputs)).count l ∧ fault = .duplicateLabel l := by
  induction chains generalizing seen with
  | nil => cases found
  | cons chain rest inductionHypothesis =>
      unfold chainFault at found
      by_cases empty : chain.stages = []
      · rw [if_pos (by simpa using empty)] at found
        exact Or.inl ⟨chain, List.mem_cons_self, empty, (Option.some.inj found).symm⟩
      · rw [if_neg (by simpa using empty)] at found
        rw [List.flatMap_cons, ← List.append_assoc]
        cases repeated : firstRepeated seen chain.outputs with
        | some l =>
            simp only [repeated, Option.some.injEq] at found
            have twice := firstRepeated_eq_some repeated
            refine Or.inr ⟨l, ?_, found.symm⟩
            rw [List.count_append]
            omega
        | none =>
            simp only [repeated] at found
            rcases inductionHypothesis found with ⟨other, member, bare, isFault⟩ | twice
            · exact Or.inl ⟨other, List.mem_cons_of_mem _ member, bare, isFault⟩
            · exact Or.inr twice

section Passes

variable {g : FilterGraph} {inputCount : Nat} {terminals : List PadLabel} {fault : GraphFault}

theorem has_of_chainFault (found : chainFault [] g.chains = some fault) :
    g.Has inputCount terminals fault := by
  rcases chainFault_eq_some found with ⟨chain, member, empty, rfl⟩ | ⟨l, twice, rfl⟩
  · exact ⟨chain, member, empty, rfl⟩
  · exact twice

theorem has_of_inputFault (found : g.inputFault inputCount = some fault) :
    g.Has inputCount terminals fault := by
  obtain ⟨index, first, rfl⟩ := Option.map_eq_some_iff.mp found
  have beyond : inputCount ≤ index := by simpa using List.find?_some first
  exact ⟨rfl, beyond, (mem_inputIndices g index).mp (List.mem_of_find?_eq_some first)⟩

/-- What is wrong with a label that is read is so. -/
theorem has_of_readFault
    {l : PadLabel}
    (read : l ∈ g.consumed terminals)
    (found : readFault g.produced (g.consumed terminals) l = some fault) :
    g.Has inputCount terminals fault := by
  unfold readFault at found
  by_cases written : l ∈ g.produced
  · rw [if_neg (by simpa using written)] at found
    by_cases twice : 1 < (g.consumed terminals).count l
    · rw [if_pos twice] at found
      obtain rfl := Option.some.inj found
      exact twice
    · rw [if_neg twice] at found
      cases found
  · rw [if_pos (by simpa using written)] at found
    obtain rfl := Option.some.inj found
    exact ⟨read, written⟩

end Passes

/-! ## Visits in any order -/

/-- An order in which labels are visited, each of them at least once. -/
structure Visit (labels : List PadLabel) where
  order : List PadLabel
  mem_order : ∀ l, l ∈ order ↔ l ∈ labels

def Visit.inOrder (labels : List PadLabel) : Visit labels := ⟨labels, fun _ => Iff.rfl⟩

section Visiting

variable (g : FilterGraph) (inputCount : Nat) (terminals : List PadLabel)
  (reads : Visit (g.consumed terminals)) (writes : Visit g.produced)

/-- The first fault of a graph whose labels are visited in given orders. -/
def faultVisiting : Option GraphFault :=
  (chainFault [] g.chains).or <| (g.inputFault inputCount).or <|
    (reads.order.findSome? (readFault g.produced (g.consumed terminals))).or <|
      writeFault writes.order (g.consumed terminals)

/-- Accepts a graph without faults, visiting its labels in given orders. -/
def checkVisiting : Except GraphFault Unit :=
  match g.faultVisiting inputCount terminals reads writes with
  | some fault => .error fault
  | none => .ok ()

/-- The check visits the labels as they stand in the graph. -/
theorem check_eq_checkVisiting :
    g.check inputCount terminals =
      g.checkVisiting inputCount terminals (.inOrder _) (.inOrder _) := rfl

/-- Whether there is a fault does not depend on the order. -/
theorem faultVisiting_eq_none_iff :
    g.faultVisiting inputCount terminals reads writes = none ↔ g.IsWired inputCount terminals := by
  rw [← fault?_eq_none_iff]
  simp only [faultVisiting, fault?, Option.or_eq_none_iff, writeFault_eq_none_iff,
    List.findSome?_eq_none_iff, reads.mem_order, writes.mem_order]

/-- Whatever fault is found first is one that the graph has. -/
theorem has_of_faultVisiting
    {fault : GraphFault}
    (found : g.faultVisiting inputCount terminals reads writes = some fault) :
    g.Has inputCount terminals fault := by
  simp only [faultVisiting, Option.or_eq_some_iff] at found
  rcases found with ofChain | ⟨-, ofInput | ⟨-, ofRead | ⟨-, ofWrite⟩⟩⟩
  · exact has_of_chainFault ofChain
  · exact has_of_inputFault ofInput
  · obtain ⟨l, visited, wrong⟩ := List.exists_of_findSome?_eq_some ofRead
    exact has_of_readFault ((reads.mem_order l).mp visited) wrong
  · obtain ⟨l, first, rfl⟩ := Option.map_eq_some_iff.mp ofWrite
    have unread : l ∉ g.consumed terminals := by simpa using List.find?_some first
    exact ⟨(writes.mem_order l).mp (List.mem_of_find?_eq_some first), unread⟩

/-- A verdict on a graph is right: it accepts the graph exactly if it is wired up, and any fault that it
names is one that the graph has. -/
structure IsRight (verdict : Except GraphFault Unit) : Prop where
  accepts : verdict = .ok () ↔ g.IsWired inputCount terminals
  names : ∀ fault, verdict = .error fault → g.Has inputCount terminals fault

theorem checkVisiting_isRight :
    g.IsRight inputCount terminals (g.checkVisiting inputCount terminals reads writes) := by
  constructor
  · rw [← faultVisiting_eq_none_iff g inputCount terminals reads writes]
    unfold checkVisiting
    cases g.faultVisiting inputCount terminals reads writes <;> simp
  · intro fault failed
    apply has_of_faultVisiting g inputCount terminals reads writes
    unfold checkVisiting at failed
    split at failed
    · rename_i other found
      rw [found, Except.error.inj failed]
    · cases failed

end Visiting

/-- The check is right, and it would be in whatever order it visited the labels. -/
theorem check_isRight (g : FilterGraph) (inputCount : Nat) (terminals : List PadLabel) :
    g.IsRight inputCount terminals (g.check inputCount terminals) ∧
      ∀ reads writes,
        g.IsRight inputCount terminals (g.checkVisiting inputCount terminals reads writes) := by
  refine ⟨?_, checkVisiting_isRight g inputCount terminals⟩
  rw [check_eq_checkVisiting]
  exact checkVisiting_isRight g inputCount terminals _ _

end Montage.FilterGraph

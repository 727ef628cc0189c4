import Mathlib.Data.List.Nodup
import Montage.Graph.Wiring

/-!
Contract: what the check of a graph's wiring accepts, and the order in which chains can run.

Owns: the predicate `FilterGraph.IsWired` with its agreement with `FilterGraph.check`, and the predicate
`FilterGraph.IsOrdered` with the recursion `FeedsForward` that establishes it; runs of chains that take over
one label and hand on another (`Relays`), and their composition.

Does **not** own: the graphs that a compilation builds (`Montage.Proofs.Render.Wiring`).

The check walks the chains with an accumulator and reports the first fault of four passes. The
predicate says the same of the graph as a whole: the labels read and the labels written are the same
ones, none of them twice.

A picture is composed by handing a running label from chain to chain. Seen from outside, such a run
reads one label it does not write and writes one it does not read; runs that meet at a label make one
longer run.
-/

set_option autoImplicit false

namespace Montage.FilterGraph

/-- A graph without faults: every chain works, every input exists, and what is written is exactly what
is read, each label once. -/
structure IsWired (g : FilterGraph) (inputCount : Nat) (terminals : List PadLabel) : Prop where
  staged : ∀ chain ∈ g.chains, chain.stages ≠ []
  writtenOnce : g.produced.Nodup
  inputsExist : ∀ index ∈ g.inputIndices, index < inputCount
  readOnce : (g.consumed terminals).Nodup
  read_iff_written : ∀ l, l ∈ g.consumed terminals ↔ l ∈ g.produced

/-! ## The passes of the check -/

theorem firstRepeated_eq_none_iff (labels : List PadLabel) (seen : List PadLabel) :
    firstRepeated seen labels = none ↔ labels.Nodup ∧ ∀ l ∈ labels, l ∉ seen := by
  induction labels generalizing seen with
  | nil => simp [firstRepeated]
  | cons l rest inductionHypothesis =>
      by_cases member : l ∈ seen
      · simp [firstRepeated, member]
      · simp only [firstRepeated, List.contains_eq_mem, member, decide_false, Bool.false_eq_true,
          if_false, inductionHypothesis, List.nodup_cons, List.mem_cons, not_or, forall_eq_or_imp,
          not_false_eq_true, true_and]
        constructor
        · rintro ⟨nodup, apart⟩
          exact ⟨⟨fun again => (apart l again).1 rfl, nodup⟩, fun other inRest =>
            (apart other inRest).2⟩
        · rintro ⟨⟨fresh, nodup⟩, apart⟩
          refine ⟨nodup, fun other inRest => ⟨?_, apart other inRest⟩⟩
          rintro rfl
          exact fresh inRest

theorem chainFault_eq_none_iff (chains : List Chain) (seen : List PadLabel) :
    chainFault seen chains = none ↔
      (∀ chain ∈ chains, chain.stages ≠ []) ∧ (chains.flatMap (·.outputs)).Nodup ∧
        ∀ l ∈ chains.flatMap (·.outputs), l ∉ seen := by
  induction chains generalizing seen with
  | nil => simp [chainFault]
  | cons chain rest inductionHypothesis =>
      unfold chainFault
      by_cases empty : chain.stages = []
      · simp [empty]
      · rw [if_neg (by simpa using empty)]
        cases repeated : firstRepeated seen chain.outputs with
        | some l =>
            have clash : ¬ (chain.outputs.Nodup ∧ ∀ l ∈ chain.outputs, l ∉ seen) := by
              rw [← firstRepeated_eq_none_iff, repeated]
              simp
            simp only [reduceCtorEq, false_iff]
            rintro ⟨-, nodup, apart⟩
            rw [List.flatMap_cons] at nodup apart
            exact clash ⟨(List.nodup_append.mp nodup).1, fun l member =>
              apart l (List.mem_append_left _ member)⟩
        | none =>
            have clear := (firstRepeated_eq_none_iff chain.outputs seen).mp repeated
            simp only [inductionHypothesis, List.forall_mem_cons, List.flatMap_cons,
              List.nodup_append, List.mem_append, not_or]
            constructor
            · rintro ⟨staged, nodup, apart⟩
              refine ⟨⟨empty, staged⟩, ⟨clear.1, nodup, fun l here other there same => ?_⟩, ?_⟩
              · exact (apart other there).2 (same ▸ here)
              · rintro l (here | there)
                · exact clear.2 l here
                · exact (apart l there).1
            · rintro ⟨⟨-, staged⟩, ⟨-, nodup, disjoint⟩, apart⟩
              exact ⟨staged, nodup, fun l there =>
                ⟨apart l (Or.inr there), fun here => disjoint l here l there rfl⟩⟩

theorem inputFault_eq_none_iff (g : FilterGraph) (inputCount : Nat) :
    g.inputFault inputCount = none ↔ ∀ index ∈ g.inputIndices, index < inputCount := by
  simp [inputFault]

theorem readFault_eq_none_iff (produced consumed : List PadLabel) (l : PadLabel) :
    readFault produced consumed l = none ↔ l ∈ produced ∧ consumed.count l ≤ 1 := by
  unfold readFault
  by_cases written : l ∈ produced
  · by_cases twice : 1 < consumed.count l
    · simp [written, twice]
    · simp only [List.contains_eq_mem, written, decide_true, Bool.not_true, Bool.false_eq_true,
        if_false, if_neg twice, true_and, true_iff]
      omega
  · simp [written]

theorem writeFault_eq_none_iff (produced consumed : List PadLabel) :
    writeFault produced consumed = none ↔ ∀ l ∈ produced, l ∈ consumed := by
  simp [writeFault]

/-! ## The check -/

theorem fault?_eq_none_iff (g : FilterGraph) (inputCount : Nat) (terminals : List PadLabel) :
    g.fault? inputCount terminals = none ↔ g.IsWired inputCount terminals := by
  unfold fault?
  simp only [Option.or_eq_none_iff, chainFault_eq_none_iff, inputFault_eq_none_iff,
    writeFault_eq_none_iff, List.findSome?_eq_none_iff, readFault_eq_none_iff]
  constructor
  · rintro ⟨⟨staged, writtenOnce, -⟩, inputsExist, read, written⟩
    refine ⟨staged, writtenOnce, inputsExist, ?_, fun l => ⟨fun member => (read l member).1,
      written l⟩⟩
    rw [List.nodup_iff_count_le_one]
    intro l
    by_cases member : l ∈ g.consumed terminals
    · exact (read l member).2
    · rw [List.count_eq_zero_of_not_mem member]
      omega
  · rintro ⟨staged, writtenOnce, inputsExist, readOnce, read_iff_written⟩
    refine ⟨⟨staged, writtenOnce, by simp⟩, inputsExist, fun l member => ?_, fun l member => ?_⟩
    · exact ⟨(read_iff_written l).mp member, List.nodup_iff_count_le_one.mp readOnce l⟩
    · exact (read_iff_written l).mpr member

/-- The check accepts exactly the graphs without faults. -/
theorem check_eq_ok_iff (g : FilterGraph) (inputCount : Nat) (terminals : List PadLabel) :
    g.check inputCount terminals = .ok () ↔ g.IsWired inputCount terminals := by
  rw [← fault?_eq_none_iff]
  unfold check
  cases g.fault? inputCount terminals <;> simp

/-- Where the labels read are the labels written in another order, reading is settled by writing. -/
theorem IsWired.ofPerm {g : FilterGraph} {inputCount : Nat} {terminals : List PadLabel}
    (staged : ∀ chain ∈ g.chains, chain.stages ≠ []) (writtenOnce : g.produced.Nodup)
    (inputsExist : ∀ index ∈ g.inputIndices, index < inputCount)
    (balanced : (g.consumed terminals).Perm g.produced) :
    g.IsWired inputCount terminals where
  staged := staged
  writtenOnce := writtenOnce
  inputsExist := inputsExist
  readOnce := balanced.nodup_iff.mpr writtenOnce
  read_iff_written := fun _ => balanced.mem_iff

theorem mem_inputIndices (g : FilterGraph) (index : Nat) :
    index ∈ g.inputIndices ↔ ∃ chain ∈ g.chains, ∃ stream, Pad.input index stream ∈ chain.inputs := by
  simp only [inputIndices, List.mem_filterMap, List.mem_flatMap]
  constructor
  · rintro ⟨pad, ⟨chain, inGraph, read⟩, found⟩
    cases pad with
    | input other stream =>
        obtain rfl : other = index := Option.some.inj found
        exact ⟨chain, inGraph, stream, read⟩
    | label l => cases found
  · rintro ⟨chain, inGraph, stream, read⟩
    exact ⟨.input index stream, ⟨chain, inGraph, read⟩, rfl⟩

/-! ## The order of the chains -/

/-- Every label that a chain reads is written by a chain before it, so that the chains can run one
after the other and none depends on itself. -/
def IsOrdered (g : FilterGraph) : Prop :=
  ∀ before chain after, g.chains = before ++ chain :: after →
    ∀ l ∈ chain.inputLabels, l ∈ before.flatMap (·.outputs)

/-- Chains that read only labels written before, some of them written already. -/
def FeedsForward (known : List PadLabel) : List Chain → Prop
  | [] => True
  | chain :: rest =>
      (∀ l ∈ chain.inputLabels, l ∈ known) ∧ FeedsForward (known ++ chain.outputs) rest

theorem feedsForward_append (known : List PadLabel) (first second : List Chain) :
    FeedsForward known (first ++ second) ↔
      FeedsForward known first ∧ FeedsForward (known ++ first.flatMap (·.outputs)) second := by
  induction first generalizing known with
  | nil => simp [FeedsForward]
  | cons chain rest inductionHypothesis =>
      simp [FeedsForward, inductionHypothesis, and_assoc]

theorem FeedsForward.isOrdered {g : FilterGraph} (forward : FeedsForward [] g.chains) :
    g.IsOrdered := by
  intro before chain after split l read
  rw [split, feedsForward_append] at forward
  simpa using forward.2.1 l read

/-! ## Runs from one label to another -/

open scoped List

/-- Chains that read `below` from outside, leave `top` to be read, and settle everything else among
themselves in the order they stand in. -/
structure Relays (below top : PadLabel) (chains : List Chain) : Prop where
  staged : ∀ chain ∈ chains, chain.stages ≠ []
  balanced :
    (below :: chains.flatMap (·.outputs)).Perm (top :: chains.flatMap Chain.inputLabels)
  forward : ∀ known, below ∈ known → FeedsForward known chains

namespace Relays

variable {below middle top : PadLabel} {first second : List Chain}

theorem refl (below : PadLabel) : Relays below below [] where
  staged := by simp
  balanced := by simp
  forward := fun _ _ => trivial

/-- After the chains of a run, the label it hands on is written. -/
theorem top_mem (run : Relays below top first) {known : List PadLabel} (started : below ∈ known) :
    top ∈ known ++ first.flatMap (·.outputs) := by
  have written : top ∈ below :: first.flatMap (·.outputs) :=
    run.balanced.mem_iff.mpr List.mem_cons_self
  rcases List.mem_cons.mp written with same | member
  · rw [same]
    exact List.mem_append_left _ started
  · exact List.mem_append_right _ member

theorem trans (lower : Relays below middle first) (upper : Relays middle top second) :
    Relays below top (first ++ second) where
  staged := by
    intro chain member
    rcases List.mem_append.mp member with inFirst | inSecond
    · exact lower.staged chain inFirst
    · exact upper.staged chain inSecond
  balanced := by
    rw [List.flatMap_append, List.flatMap_append]
    calc below :: (first.flatMap (·.outputs) ++ second.flatMap (·.outputs))
      _ = (below :: first.flatMap (·.outputs)) ++ second.flatMap (·.outputs) := rfl
      _ ~ (middle :: first.flatMap Chain.inputLabels) ++ second.flatMap (·.outputs) :=
        lower.balanced.append_right _
      _ ~ first.flatMap Chain.inputLabels ++ (middle :: second.flatMap (·.outputs)) :=
        List.perm_middle.symm
      _ ~ first.flatMap Chain.inputLabels ++ (top :: second.flatMap Chain.inputLabels) :=
        upper.balanced.append_left _
      _ ~ top :: (first.flatMap Chain.inputLabels ++ second.flatMap Chain.inputLabels) :=
        List.perm_middle
  forward := by
    intro known started
    rw [feedsForward_append]
    exact ⟨lower.forward known started, upper.forward _ (lower.top_mem started)⟩

end Relays

end Montage.FilterGraph

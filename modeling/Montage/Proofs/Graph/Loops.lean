import Mathlib.Data.Finset.Card
import Mathlib.Logic.Relation
import Montage.Proofs.Graph.Trail

/-!
Contract: which graphs without wiring faults can run at all.

Owns:
- the graphs whose chains can be put in an order in which they run (`FilterGraph.IsOrderable`);
- the graphs in which no chain feeds itself (`FilterGraph.IsAcyclic`);
- that the two are the same among the graphs that the check accepts, and that the check accepts others.

Does **not** own: the graphs that a compilation builds, which are stored in such an order
(`Montage.Proofs.Render.Wiring`).

The check counts how often each label is written and read. A loop of chains writes and reads each of its
labels once, like any other chains, so no count can tell.
-/

set_option autoImplicit false

namespace Montage.FilterGraph

/-- A chain writes a label that another one reads. -/
def Feeds (g : FilterGraph) (first second : Chain) : Prop :=
  first ∈ g.chains ∧ second ∈ g.chains ∧ ∃ l ∈ first.outputs, l ∈ second.inputLabels

/-- No chain feeds itself, be it directly or through others. -/
def IsAcyclic (g : FilterGraph) : Prop :=
  ∀ chain, ¬ Relation.TransGen g.Feeds chain chain

/-- The chains can be put in an order in which each reads only what those before it write. -/
def IsOrderable (g : FilterGraph) : Prop :=
  ∃ order : List Chain, order.Perm g.chains ∧ (⟨order⟩ : FilterGraph).IsOrdered

/-! ## From an order to the absence of loops -/

section Ordered

variable {g : FilterGraph} {inputCount : Nat} {terminals : List PadLabel} {order : List Chain}

/-- In such an order a chain stands before those that it feeds. -/
theorem IsWired.idxOf_lt
    (wired : g.IsWired inputCount terminals)
    (same : order.Perm g.chains)
    (ordered : (⟨order⟩ : FilterGraph).IsOrdered)
    {first second : Chain}
    (feeds : g.Feeds first second) :
    order.idxOf first < order.idxOf second := by
  obtain ⟨inGraph, fedInGraph, l, written, read⟩ := feeds
  obtain ⟨before, after, split, fresh⟩ := List.eq_append_cons_of_mem (same.mem_iff.mpr fedInGraph)
  obtain ⟨writer, isBefore, writes⟩ := List.mem_flatMap.mp (ordered before second after split l read)
  -- The label has one writer only, so the one that stands before is the one that feeds.
  have writerInGraph : writer ∈ g.chains := by
    apply same.mem_iff.mp
    rw [split]
    exact List.mem_append_left _ isBefore
  have alone := (wired.writers_eq inGraph written).symm.trans (wired.writers_eq writerInGraph writes)
  obtain rfl : first = writer := List.singleton_inj.mp alone
  have firstPlace : order.idxOf first = before.idxOf first := by
    rw [split, List.idxOf_append_of_mem isBefore]
  have secondPlace : order.idxOf second = before.length := by
    rw [split, List.idxOf_append_of_notMem fresh, List.idxOf_cons_self, Nat.add_zero]
  rw [firstPlace, secondPlace]
  exact List.idxOf_lt_length_of_mem isBefore

theorem IsWired.isAcyclic_of_isOrderable
    (wired : g.IsWired inputCount terminals)
    (orderable : g.IsOrderable) :
    g.IsAcyclic := by
  obtain ⟨order, same, ordered⟩ := orderable
  intro chain loop
  have later {first second : Chain} (way : Relation.TransGen g.Feeds first second) :
      order.idxOf first < order.idxOf second := by
    induction way with
    | single feeds => exact wired.idxOf_lt same ordered feeds
    | tail _ feeds inductionHypothesis =>
        exact inductionHypothesis.trans (wired.idxOf_lt same ordered feeds)
  exact (later loop).false

end Ordered

/-! ## From the absence of loops to an order -/

section Depth

open Classical in
/-- The chains on whose work a chain depends. -/
noncomputable def feeders (g : FilterGraph) (chain : Chain) : Finset Chain :=
  {other ∈ g.chains.toFinset | Relation.TransGen g.Feeds other chain}

/-- The number of chains on whose work a chain depends. -/
noncomputable def depth (g : FilterGraph) (chain : Chain) : Nat := (g.feeders chain).card

variable {g : FilterGraph}

open Classical in
theorem mem_feeders {other chain : Chain} :
    other ∈ g.feeders chain ↔ Relation.TransGen g.Feeds other chain := by
  unfold feeders
  rw [Finset.mem_filter, List.mem_toFinset, and_iff_right_iff_imp]
  intro way
  obtain ⟨_, feeds, _⟩ := Relation.TransGen.head'_iff.mp way
  exact feeds.1

/-- A chain depends on those that feed it and on all that these depend on. -/
theorem IsAcyclic.depth_lt (acyclic : g.IsAcyclic) {first second : Chain}
    (feeds : g.Feeds first second) : g.depth first < g.depth second := by
  apply Finset.card_lt_card
  rw [Finset.ssubset_iff_of_subset]
  · refine ⟨first, mem_feeders.mpr (.single feeds), ?_⟩
    intro member
    exact acyclic first (mem_feeders.mp member)
  · intro other member
    exact mem_feeders.mpr ((mem_feeders.mp member).tail feeds)

/-- The chains from those that depend on the fewest to those that depend on the most. -/
noncomputable def byDepth (g : FilterGraph) : List Chain :=
  g.chains.mergeSort fun a b => decide (g.depth a ≤ g.depth b)

theorem byDepth_sorted (g : FilterGraph) :
    g.byDepth.Pairwise fun a b => g.depth a ≤ g.depth b := by
  have sorted : g.byDepth.Pairwise fun a b => decide (g.depth a ≤ g.depth b) := by
    apply List.pairwise_mergeSort
    · intro a b c
      simpa using le_trans
    · intro a b
      simpa using le_total (g.depth a) (g.depth b)
  exact sorted.imp of_decide_eq_true

variable {inputCount : Nat} {terminals : List PadLabel}

theorem IsWired.isOrderable_of_isAcyclic
    (wired : g.IsWired inputCount terminals)
    (acyclic : g.IsAcyclic) :
    g.IsOrderable := by
  have same : g.byDepth.Perm g.chains := List.mergeSort_perm _ _
  refine ⟨g.byDepth, same, ?_⟩
  intro before chain after split l read
  have place : g.byDepth = before ++ chain :: after := split
  have inGraph : chain ∈ g.chains := by
    rw [← same.mem_iff, place]
    exact List.mem_append_cons_self
  have consumed : l ∈ g.consumed terminals :=
    List.mem_append_right _ (List.mem_flatMap.mpr ⟨chain, inGraph, read⟩)
  obtain ⟨writer, writerInGraph, written⟩ :=
    List.mem_flatMap.mp ((wired.read_iff_written l).mp consumed)
  have less : g.depth writer < g.depth chain :=
    acyclic.depth_lt ⟨writerInGraph, inGraph, l, written, read⟩
  refine List.mem_flatMap.mpr ⟨writer, ?_, written⟩
  -- What stands at the chain or behind it depends on no fewer chains.
  have sorted := g.byDepth_sorted
  rw [place, List.pairwise_append, List.pairwise_cons] at sorted
  have listed : writer ∈ before ++ chain :: after := by
    rwa [← place, same.mem_iff]
  rcases List.mem_append.mp listed with isBefore | isBehind
  · exact isBefore
  · rcases List.mem_cons.mp isBehind with rfl | isAfter
    · exact less.false.elim
    · exact (sorted.2.1.1 writer isAfter).not_gt less |>.elim

end Depth

/-! ## Accepted graphs -/

/-- A graph that the check accepts can run in some order exactly if no chain feeds itself, be it directly
or through others. -/
theorem isOrderable_iff_isAcyclic
    {g : FilterGraph}
    {inputCount : Nat}
    {terminals : List PadLabel}
    (accepted : g.check inputCount terminals = .ok ()) :
    g.IsOrderable ↔ g.IsAcyclic := by
  have wired := (check_eq_ok_iff g inputCount terminals).mp accepted
  exact ⟨wired.isAcyclic_of_isOrderable, wired.isOrderable_of_isAcyclic⟩

/-- A picture from the first input, scaled and then shown; the chains are stored back to front. -/
def backward : FilterGraph :=
  let scaled : PadLabel := ⟨"scaled", by decide⟩
  let shown : PadLabel := ⟨"shown", by decide⟩
  ⟨[{ inputs := [.label scaled], stages := [.ofName "format"], outputs := [shown] },
    { inputs := [.input 0 .video], stages := [.ofName "scale"], outputs := [scaled] }]⟩

/-- Chains that are stored back to front are accepted, and none of them feeds itself. -/
theorem backward_isAcyclic :
    backward.check 1 [⟨"shown", by decide⟩] = .ok () ∧ backward.IsAcyclic := by
  have accepted : backward.check 1 [⟨"shown", by decide⟩] = .ok () := by decide
  refine ⟨accepted, (isOrderable_iff_isAcyclic accepted).mp ?_⟩
  refine ⟨backward.chains.reverse, List.reverse_perm _, ?_⟩
  apply FeedsForward.isOrdered
  simp only [backward, List.reverse_cons, List.reverse_nil, List.nil_append, List.cons_append,
    FeedsForward, Chain.inputLabels]
  decide

/-- A chain that reads what it writes. -/
def selfFed : FilterGraph :=
  let loop : PadLabel := ⟨"loop", by decide⟩
  ⟨[{ inputs := [.label loop], stages := [.ofName "null"], outputs := [loop] }]⟩

/-- The check accepts a chain that feeds itself, which can stand in no order. -/
theorem selfFed_not_isOrderable : selfFed.check 0 [] = .ok () ∧ ¬ selfFed.IsOrderable := by
  refine ⟨by decide, ?_⟩
  rintro ⟨order, same, ordered⟩
  obtain rfl : order = selfFed.chains := List.perm_singleton.mp same
  have written := ordered [] _ [] rfl ⟨"loop", by decide⟩ (by decide)
  exact List.not_mem_nil written

end Montage.FilterGraph

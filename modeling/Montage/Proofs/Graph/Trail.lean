import Mathlib.Data.List.Induction
import Montage.Proofs.Graph.Wiring

/-!
Contract: the chains of a wired graph that stand at one link, and the way back along the links.

Owns:
- the chains that write or read a label or a stream, one of each in a wired graph;
- the way from a label back along what each chain reads first (`FilterGraph.Trail`).

Does **not** own: the ways through the graphs that a compilation builds
(`Montage.Proofs.Render.Composition`).
-/

set_option autoImplicit false

namespace Montage

def Pad.stream? : Pad → Option (Nat × StreamKind)
  | .input index stream => some (index, stream)
  | .label _ => none

def Chain.streams (c : Chain) : List (Nat × StreamKind) := c.inputs.filterMap Pad.stream?

namespace FilterGraph

/-- The streams that the chains read, in order. -/
def streams (g : FilterGraph) : List (Nat × StreamKind) := g.chains.flatMap Chain.streams

def writers (g : FilterGraph) (l : PadLabel) : List Chain :=
  g.chains.filter fun chain => chain.outputs.contains l

def readers (g : FilterGraph) (l : PadLabel) : List Chain :=
  g.chains.filter fun chain => chain.inputLabels.contains l

def streamReaders (g : FilterGraph) (index : Nat) (stream : StreamKind) : List Chain :=
  g.chains.filter fun chain => chain.streams.contains (index, stream)

/-! ## One chain at each end of a link -/

/-- Where nothing occurs twice in what chains have, the chain that has a thing is the only one. -/
theorem filter_contains_eq_singleton
    {β : Type}
    [BEq β]
    [LawfulBEq β]
    {has : Chain → List β}
    {x : β}
    {chain : Chain}
    (contains : x ∈ has chain)
    {chains : List Chain}
    (once : (chains.flatMap has).Nodup)
    (member : chain ∈ chains) :
    chains.filter (fun other => (has other).contains x) = [chain] := by
  induction chains with
  | nil => cases member
  | cons head rest inductionHypothesis =>
      rw [List.flatMap_cons, List.nodup_append] at once
      obtain ⟨-, restOnce, apart⟩ := once
      rcases List.mem_cons.mp member with rfl | inRest
      · have others : rest.filter (fun other => (has other).contains x) = [] := by
          rw [List.filter_eq_nil_iff]
          intro other inRest again
          have inOthers := List.mem_flatMap.mpr ⟨other, inRest, by simpa using again⟩
          exact apart x contains x inOthers rfl
        rw [List.filter_cons_of_pos (by simpa using contains), others]
      · have elsewhere : x ∉ has head := fun here =>
          apart x here x (List.mem_flatMap.mpr ⟨chain, inRest, contains⟩) rfl
        rw [List.filter_cons_of_neg (by simpa using elsewhere)]
        exact inductionHypothesis restOnce inRest

section Wired

variable {g : FilterGraph} {inputCount : Nat} {terminals : List PadLabel} {chain : Chain}

theorem IsWired.writers_eq (wired : g.IsWired inputCount terminals) (member : chain ∈ g.chains)
    {l : PadLabel} (written : l ∈ chain.outputs) : g.writers l = [chain] :=
  filter_contains_eq_singleton written wired.writtenOnce member

theorem IsWired.readers_eq (wired : g.IsWired inputCount terminals) (member : chain ∈ g.chains)
    {l : PadLabel} (read : l ∈ chain.inputLabels) : g.readers l = [chain] :=
  filter_contains_eq_singleton read (List.nodup_append.mp wired.readOnce).2.1 member

theorem streamReaders_eq (once : g.streams.Nodup) (member : chain ∈ g.chains) {index : Nat}
    {stream : StreamKind} (read : (index, stream) ∈ chain.streams) :
    g.streamReaders index stream = [chain] :=
  filter_contains_eq_singleton read once member

end Wired

/-! ## The way back -/

/-- The chains on the way from a label back to a chain that reads nothing: each is the only one to write
the label that the one before it reads first. -/
inductive Trail (g : FilterGraph) : PadLabel → List Chain → Prop
  | source {l : PadLabel} {chain : Chain} (written : g.writers l = [chain])
      (reads : chain.inputs = []) : Trail g l [chain]
  | step {l below : PadLabel} {chain : Chain} {others : List Pad} {rest : List Chain}
      (written : g.writers l = [chain]) (reads : chain.inputs = .label below :: others)
      (onward : Trail g below rest) : Trail g l (chain :: rest)

/-- Chains of which each reads first what the one before it alone writes are on the way in reverse. -/
theorem Trail.climb
    {g : FilterGraph}
    {below : Nat → PadLabel}
    {ground chains : List Chain}
    (start : g.Trail (below 0) ground)
    (climbs :
      ∀ n chain, chains[n]? = some chain →
        g.writers (below (n + 1)) = [chain] ∧ ∃ others, chain.inputs = .label (below n) :: others) :
    g.Trail (below chains.length) (chains.reverse ++ ground) := by
  induction chains using List.reverseRecOn with
  | nil => exact start
  | append_singleton chains chain inductionHypothesis =>
      obtain ⟨written, others, reads⟩ := climbs chains.length chain (by simp)
      have onward := inductionHypothesis fun n other isOther =>
        climbs n other (List.getElem?_append_left (List.getElem?_eq_some_iff.mp isOther).1 ▸ isOther)
      rw [List.length_append, List.reverse_append]
      exact .step written reads onward

end FilterGraph

end Montage

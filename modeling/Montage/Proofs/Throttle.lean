import Mathlib.Data.List.ReduceOption
import Montage.Throttle

/-!
Contract: a throttle limits the rate of a stream and never loses its newest value.

Owns:
- the calls of a throttle, and what a run of them gives (`Throttle.run`);
- what one call does to the newest value, the order and the distances of the values that come out;
- that every run keeps all of it (`Throttle.Regulates`).

Does **not** own: which commands a drag makes of the values (`Montage.Proofs.Edit.Drag`).

A throttle may be in any state when a run begins, so each law speaks of the value that it holds and of the
last one that it let out before. For a new throttle there is neither.
-/

set_option autoImplicit false

namespace Montage.Throttle

variable {β : Type}

/-! ## Runs -/

/-- A use of a throttle: a value offered at an instant, or a flush. -/
inductive Call (β : Type) where
  | offer (value : β) (now : Nat)
  | flush
  deriving DecidableEq, Repr

namespace Call

def value? : Call β → Option β
  | .offer value _ => some value
  | .flush => none

def instant? : Call β → Option Nat
  | .offer _ now => some now
  | .flush => none

/-- The instant of an offer that is answered with a value. -/
def passedAt? (use : Call β) (answer : Option β) : Option Nat := answer.bind fun _ => use.instant?

end Call

def offered (calls : List (Call β)) : List β := (calls.map Call.value?).reduceOption

def instants (calls : List (Call β)) : List Nat := (calls.map Call.instant?).reduceOption

def call (t : Throttle β) : Call β → Option β × Throttle β
  | .offer value now => t.offer value now
  | .flush => t.flush

def run (t : Throttle β) : List (Call β) → List (Option β) × Throttle β
  | [] => ([], t)
  | use :: rest =>
      let answered := t.call use
      let others := run answered.2 rest
      (answered.1 :: others.1, others.2)

/-- The values that a run lets out. -/
def released (t : Throttle β) (calls : List (Call β)) : List β := (t.run calls).1.reduceOption

/-- The instants of the offers that a run answers with a value. -/
def passes (t : Throttle β) (calls : List (Call β)) : List Nat :=
  (calls.zipWith Call.passedAt? (t.run calls).1).reduceOption

theorem reduceOption_cons {γ : Type} (first : Option γ) (rest : List (Option γ)) :
    (first :: rest).reduceOption = first.toList ++ rest.reduceOption := by
  cases first with
  | none => rw [List.reduceOption_cons_of_none]; rfl
  | some value => rw [List.reduceOption_cons_of_some]; rfl

theorem offered_cons (use : Call β) (rest : List (Call β)) :
    offered (use :: rest) = use.value?.toList ++ offered rest :=
  reduceOption_cons _ _

theorem instants_cons (use : Call β) (rest : List (Call β)) :
    instants (use :: rest) = use.instant?.toList ++ instants rest :=
  reduceOption_cons _ _

theorem released_cons (t : Throttle β) (use : Call β) (rest : List (Call β)) :
    t.released (use :: rest) = (t.call use).1.toList ++ (t.call use).2.released rest :=
  reduceOption_cons _ _

theorem passes_cons (t : Throttle β) (use : Call β) (rest : List (Call β)) :
    t.passes (use :: rest) =
      (use.passedAt? (t.call use).1).toList ++ (t.call use).2.passes rest :=
  reduceOption_cons _ _

/-! ## Single calls -/

section Calls

variable {t : Throttle β} {now : Nat}

/-- Below the last instant the waiting time counts in full. -/
theorem isReady_iff (below : now < lastInstant) :
    t.isReady now = true ↔ ∀ last ∈ t.lastRelease, last + t.interval ≤ now := by
  unfold isReady
  cases t.lastRelease with
  | none => simp
  | some last =>
      simp only [decide_eq_true_eq, Option.mem_some_iff, forall_eq']
      -- A sum that saturates is the last instant, and no offer comes as late as that.
      show min (last + t.interval) lastInstant ≤ now ↔ _
      omega

theorem call_of_isReady (ready : t.isReady now = true) (value : β) :
    t.call (.offer value now) = (some value, { t with lastRelease := some now, pending := none }) :=
  if_pos ready

theorem call_of_not_isReady (early : ¬ t.isReady now = true) (value : β) :
    t.call (.offer value now) = (none, { t with pending := some value }) :=
  if_neg early

theorem call_interval (t : Throttle β) (use : Call β) : (t.call use).2.interval = t.interval := by
  cases use with
  | offer value now =>
      by_cases ready : t.isReady now = true
      · rw [call_of_isReady ready]
      · rw [call_of_not_isReady ready]
  | flush => rfl

/-- What comes out of a call is the newest value there is, and it is held no longer. -/
theorem call_newest (t : Throttle β) (use : Call β) (before : Option β) :
    (t.call use).2.pending.or ((t.call use).1.or before) = use.value?.or (t.pending.or before) := by
  cases use with
  | offer value now =>
      by_cases ready : t.isReady now = true
      · rw [call_of_isReady ready]
        rfl
      · rw [call_of_not_isReady ready]
        rfl
  | flush => rfl

/-- A call lets out at most what was held or is offered, and what stays held is newer than that. -/
theorem call_sublist (t : Throttle β) (use : Call β) :
    ((t.call use).1.toList ++ (t.call use).2.pending.toList).Sublist
      (t.pending.toList ++ use.value?.toList) := by
  cases use with
  | offer value now =>
      by_cases ready : t.isReady now = true
      · rw [call_of_isReady ready]
        exact List.sublist_append_right _ _
      · rw [call_of_not_isReady ready]
        exact List.sublist_append_right _ _
  | flush =>
      show (t.pending.toList ++ []).Sublist (t.pending.toList ++ [])
      exact List.Sublist.refl _

/-- An offer that passes starts the waiting time anew; no other call does. -/
theorem call_passedAt (t : Throttle β) (use : Call β) :
    (∃ now, use.instant? = some now ∧ use.passedAt? (t.call use).1 = some now ∧
        t.isReady now = true ∧ (t.call use).2.lastRelease = some now) ∨
      (use.passedAt? (t.call use).1 = none ∧ (t.call use).2.lastRelease = t.lastRelease) := by
  cases use with
  | offer value now =>
      by_cases ready : t.isReady now = true
      · rw [call_of_isReady ready]
        exact Or.inl ⟨now, rfl, rfl, ready, rfl⟩
      · rw [call_of_not_isReady ready]
        exact Or.inr ⟨rfl, rfl⟩
  | flush => exact Or.inr ⟨Option.bind_fun_none _, rfl⟩

end Calls

/-! ## Whole runs -/

/-- The values of a run come out in the order in which they were offered, the one held before first. -/
theorem released_sublist (t : Throttle β) (calls : List (Call β)) :
    (t.released calls).Sublist (t.pending.toList ++ offered calls) := by
  induction calls generalizing t with
  | nil => exact List.nil_sublist _
  | cons use rest inductionHypothesis =>
      have later := inductionHypothesis (t.call use).2
      rw [released_cons, offered_cons, ← List.append_assoc]
      refine (later.append_left (t.call use).1.toList).trans ?_
      rw [← List.append_assoc]
      exact (call_sublist t use).append_right (offered rest)

theorem getLast?_toList_append (first : Option β) (rest : List β) (before : Option β) :
    (first.toList ++ rest).getLast?.or before = rest.getLast?.or (first.or before) := by
  cases first with
  | none => rfl
  | some value => cases isLast : rest.getLast? <;> simp [List.getLast?_cons, isLast]

/-- The newest value is the one held, or else the last one that came out. -/
theorem newest_eq (t : Throttle β) (calls : List (Call β)) (before : Option β) :
    (t.run calls).2.pending.or ((t.released calls).getLast?.or before) =
      (offered calls).getLast?.or (t.pending.or before) := by
  induction calls generalizing t before with
  | nil => rfl
  | cons use rest inductionHypothesis =>
      -- To the rest of the run, what comes out now is the value that came out last before it.
      have later := inductionHypothesis (t.call use).2 ((t.call use).1.or before)
      rw [released_cons, offered_cons, getLast?_toList_append, getLast?_toList_append]
      rw [call_newest] at later
      exact later

theorem run_append (t : Throttle β) (calls more : List (Call β)) :
    t.run (calls ++ more) =
      ((t.run calls).1 ++ ((t.run calls).2.run more).1, ((t.run calls).2.run more).2) := by
  induction calls generalizing t with
  | nil => rfl
  | cons use rest inductionHypothesis =>
      simp only [List.cons_append, run, inductionHypothesis]

theorem released_flush (t : Throttle β) (calls : List (Call β)) :
    t.released (calls ++ [.flush]) = t.released calls ++ (t.run calls).2.pending.toList := by
  unfold released
  rw [run_append, List.reduceOption_append]
  exact congrArg _ (List.reduceOption_singleton _)

/-- The offers that pass keep the waiting time from each other and from the last one that passed before. -/
theorem passes_spaced {calls : List (Call β)} (below : ∀ now ∈ instants calls, now < lastInstant)
    (t : Throttle β) :
    (∀ last ∈ t.lastRelease, ∀ now ∈ t.passes calls, last + t.interval ≤ now) ∧
      (t.passes calls).Pairwise fun earlier later => earlier + t.interval ≤ later := by
  induction calls generalizing t with
  | nil => exact ⟨fun _ _ => List.forall_mem_nil _, List.Pairwise.nil⟩
  | cons use rest inductionHypothesis =>
      rw [instants_cons, List.forall_mem_append] at below
      obtain ⟨first, others⟩ := below
      obtain ⟨apart, spaced⟩ := inductionHypothesis others (t.call use).2
      rw [call_interval] at apart spaced
      rw [passes_cons]
      rcases t.call_passedAt use with ⟨now, offeredAt, passed, ready, restarts⟩ | ⟨held, same⟩
      · have small : now < lastInstant := first now (by rw [offeredAt]; exact List.mem_singleton_self now)
        have waited := (isReady_iff small).mp ready
        -- The rest of the run keeps its distance from this offer, and so from all that passed before it.
        have ahead := apart now restarts
        rw [passed]
        refine ⟨fun last wasLast => List.forall_mem_cons.mpr ⟨waited last wasLast, ?_⟩,
          List.pairwise_cons.mpr ⟨ahead, spaced⟩⟩
        intro later member
        have := waited last wasLast
        have := ahead later member
        omega
      · rw [held]
        rw [same] at apart
        exact ⟨apart, spaced⟩

/-- Without a waiting time every offer passes as it comes. -/
theorem run_unlimited {calls : List (Call β)} (below : ∀ now ∈ instants calls, now < lastInstant)
    (ordered : (instants calls).Pairwise (· ≤ ·)) {t : Throttle β} (unlimited : t.interval = 0)
    (empty : t.pending = none)
    (begun : ∀ last ∈ t.lastRelease, ∀ now ∈ instants calls, last ≤ now) :
    (t.run calls).1 = calls.map Call.value? := by
  induction calls generalizing t with
  | nil => rfl
  | cons use rest inductionHypothesis =>
      rw [instants_cons, List.forall_mem_append] at below
      rw [instants_cons, List.pairwise_append] at ordered
      cases use with
      | offer value now =>
          have ready : t.isReady now = true := by
            rw [isReady_iff (below.1 now List.mem_cons_self), unlimited]
            exact fun last wasLast => begun last wasLast now List.mem_cons_self
          have later := inductionHypothesis below.2 ordered.2.1
            (t := { t with lastRelease := some now, pending := none }) unlimited rfl
            fun last isLast => by
              cases isLast
              exact ordered.2.2 now List.mem_cons_self
          simp only [run, call_of_isReady ready, later]
          rfl
      | flush =>
          have later := inductionHypothesis below.2 ordered.2.1 (t := { t with pending := none })
            unlimited rfl begun
          show t.pending :: _ = none :: _
          rw [empty]
          exact congrArg (none :: ·) later

/-- What a throttle for a number of values per second owes to calls: the values that pass when they are
offered keep their distance; what comes out was offered, once and in that order; at any time the newest
value is held or came out last, so that a flush at the end leaves it last; and the rate zero holds nothing
back. -/
structure Regulates (rate : Nat) (calls : List (Call β)) : Prop where
  spaced : ((ofRate rate : Throttle β).passes calls).Pairwise fun earlier later =>
    earlier + 1000000000 / rate ≤ later
  ordered : ((ofRate rate).released calls).Sublist (offered calls)
  once : (offered calls).Nodup → ((ofRate rate).released calls).Nodup
  newest : ∀ done, done <+: calls →
    (offered done).getLast? =
      ((ofRate rate).run done).2.pending.or ((ofRate rate).released done).getLast?
  flushed : ((ofRate rate).released (calls ++ [.flush])).getLast? = (offered calls).getLast?
  unlimited : rate = 0 → ((ofRate rate).run calls).1 = calls.map Call.value?

/-- A throttle regulates all calls whose instants do not go back and lie below the last one. -/
theorem ofRate_regulates {calls : List (Call β)} (ordered : (instants calls).Pairwise (· ≤ ·))
    (below : ∀ now ∈ instants calls, now < lastInstant) (rate : Nat) : Regulates rate calls := by
  have newest (done : List (Call β)) : (offered done).getLast? =
      ((ofRate rate).run done).2.pending.or ((ofRate rate).released done).getLast? := by
    have same := newest_eq (ofRate rate) done none
    have empty : (ofRate rate : Throttle β).pending = none := rfl
    rw [empty, Option.or_none, Option.or_none, Option.or_none] at same
    exact same.symm
  have inOrder : ((ofRate rate).released calls).Sublist (offered calls) :=
    released_sublist (ofRate rate) calls
  refine ⟨?_, inOrder, inOrder.nodup, fun done _ => newest done, ?_, ?_⟩
  · have spaced := (passes_spaced below (ofRate rate)).2
    have interval : (ofRate rate : Throttle β).interval = 1000000000 / rate := by
      unfold ofRate
      split
      · rename_i zero
        rw [zero, Nat.div_zero]
      · rfl
    rwa [interval] at spaced
  · rw [released_flush, newest]
    cases ((ofRate rate).run calls).2.pending with
    | none => simp
    | some value => simp
  · rintro rfl
    exact run_unlimited below ordered rfl rfl nofun

/-- Five values and a flush in between, at sixty values per second. -/
def burst : List (Call Nat) :=
  [.offer 1 0, .offer 2 1000000, .flush, .offer 3 16666665, .offer 4 16666666, .offer 5 20000000]

theorem burst_regulated :
    (instants burst).Pairwise (· ≤ ·) ∧ (∀ now ∈ instants burst, now < lastInstant) ∧
      Regulates 60 burst :=
  ⟨by decide, by decide, ofRate_regulates (by decide) (by decide) 60⟩

end Montage.Throttle

/-
**Where cloning fails.**

An iterator can be cloned unless something inside it refuses, at whatever depth. The error is that
of the first part that refuses, when the parts are read from left to right and each before what it
holds. Whoever asks for a clone is told just this error: the questions that are answered on a clone
return it, and an evaluation reports it once and makes a failure of it.

* `NodeIterator.refusal?`, `NodeIterator.firstRefusal?`: the refusal of a list, and the first inside
  an iterator;
* `Decided`: a computation that succeeds or has the error of a refusal, with the rule for two in a
  row;
* `decided_clone`: cloning is decided by the first refusal;
* `exists_clone_iff`: so it succeeds if there is none;
* `clone_fails_at_first_refusal`: what everyone who asks for a clone gets to see. The size of the
  whole sequence and the node at any position of it are answered with the error of the first part
  that refuses. An evaluation has this error reported to its reporter, once and nothing else, and
  its caller gets the failure of cloning with the displayed form of the error. Where cloning
  succeeds nothing is reported.
-/

import XPathWalk.Evaluation
import XPathWalk.Proofs.Parts

namespace XPathWalk

/-- A computation that succeeds if there is no refusal and has the error of the refusal if there is
one. -/
inductive Decided {α : Type} : Option Refusal → Except IterationError α → Prop
  | copied (copy : α) : Decided none (.ok copy)
  | refused (refusal : Refusal) : Decided (some refusal) (.error refusal.error)

namespace Decided

variable {α β : Type} {first second : Option Refusal} {here : Except IterationError α}

/-- Two computations in a row are decided by the first refusal of the two. -/
theorem bind {later : α → Except IterationError β} (decided : Decided first here)
    (next : ∀ copy, Decided second (later copy)) :
    Decided (first.or second) (here >>= later) := by
  cases decided with
  | copied copy => exact next copy
  | refused refusal => exact .refused refusal

/-- What is made of a copy cannot be refused. -/
theorem map (decided : Decided first here) (hold : α → β) :
    Decided first (here >>= fun copy => pure (hold copy)) := by
  have whole := decided.bind fun copy => .copied (hold copy)
  rwa [Option.or_none] at whole

theorem exists_ok_iff (decided : Decided first here) :
    (∃ copy, here = .ok copy) ↔ first = none := by
  cases decided with
  | copied copy => simp
  | refused refusal => simp

theorem error_iff (decided : Decided first here) (error : IterationError) :
    here = .error error ↔ ∃ refusal, first = some refusal ∧ error = refusal.error := by
  cases decided with
  | copied copy => simp
  | refused refusal => simp [eq_comm]

end Decided

namespace NodeIterator

/-! ### Cloning -/

/-- The refusal of a list that cannot be cloned. Nothing else refuses for itself. -/
def refusal? : NodeIterator → Option Refusal
  | .fixed list => list.refusal
  | .axis _ | .union _ _ | .nodeSet _ _ => none

/-- The first refusal inside an iterator. -/
def firstRefusal? (iterator : NodeIterator) : Option Refusal := iterator.parts.findSome? refusal?

theorem decided_cloneAll {branches : List NodeIterator}
    (each : ∀ branch ∈ branches, Decided branch.firstRefusal? branch.clone) :
    Decided ((partsAll branches).findSome? refusal?) (cloneAll branches) := by
  induction branches with
  | nil => exact .copied []
  | cons branch rest ih =>
    obtain ⟨here, others⟩ := List.forall_mem_cons.mp each
    rw [partsAll, List.findSome?_append, cloneAll]
    exact here.bind fun copy => (ih others).map (copy :: ·)

/-- **Cloning is decided by the first refusal inside an iterator.** -/
theorem decided_clone (iterator : NodeIterator) :
    Decided iterator.firstRefusal? iterator.clone := by
  induction iterator with
  | axis walk => exact .copied _
  | fixed list =>
    have own : firstRefusal? (.fixed list) = list.refusal := by
      rw [firstRefusal?, parts, List.findSome?_singleton, refusal?]
    rw [own, clone, FixedList.clone]
    cases list.refusal with
    | none => exact .copied _
    | some refusal => exact .refused refusal
  | union branches place ih =>
    rw [firstRefusal?, parts, List.findSome?_cons, refusal?, clone]
    exact (decided_cloneAll ih).map fun copies => NodeIterator.union copies place.frozen
  | nodeSet source replay ih =>
    rw [firstRefusal?, parts, List.findSome?_cons, refusal?, clone]
    exact ih.map fun copy => NodeIterator.nodeSet copy replay.frozen

/-- An iterator can be cloned exactly if nothing inside it refuses. -/
theorem exists_clone_iff (iterator : NodeIterator) :
    (∃ copy, iterator.clone = .ok copy) ↔ ∀ part ∈ iterator.parts, part.refusal? = none := by
  rw [iterator.decided_clone.exists_ok_iff, firstRefusal?, List.findSome?_eq_none_iff]

/-- Whether an iterator can be cloned can be told from its bare form. -/
theorem exists_clone_bare_iff (iterator : NodeIterator) :
    (∃ copy, iterator.bare.clone = .ok copy) ↔ ∃ copy, iterator.clone = .ok copy := by
  have own : ∀ part : NodeIterator, part.bare.refusal? = part.refusal? := by
    intro part
    cases part <;> rfl
  rw [exists_clone_iff, exists_clone_iff, parts_bare, List.forall_mem_map]
  simp only [own]

/-! ### Asking for a clone -/

variable {iterator : NodeIterator} {error : IterationError}

/-- The size of the whole sequence cannot be told where cloning fails. -/
theorem last_of_refused (failed : iterator.clone = .error error) :
    iterator.last = .ok (.error error) := by
  rw [last, failed]

/-- Nor can any node of it. -/
theorem nodeAt_of_refused (failed : iterator.clone = .error error) (index : Nat) :
    iterator.nodeAt (index + 1) = .ok (.error error) := by
  rw [nodeAt, failed]

end NodeIterator

open NodeIterator

/-- An evaluation reports an error as it came and returns a failure in its place. -/
theorem Evaluation.clone_of_refused {σ : Type} (evaluation : Evaluation σ)
    {iterator : NodeIterator} {error : IterationError} (failed : iterator.clone = .error error)
    (seen : σ) :
    evaluation.clone iterator seen = (.error error.toFailure, evaluation.report error seen) := by
  rw [clone, failed]

/-- **Cloning fails exactly at the first refusal, and loudly**: the questions that are answered on a
clone return its error, and an evaluation reports it once and makes a failure of it. -/
theorem clone_fails_at_first_refusal (iterator : NodeIterator) :
    ((∃ copy, iterator.clone = .ok copy) ↔ ∀ part ∈ iterator.parts, part.refusal? = none) ∧
    (∀ error, iterator.clone = .error error ↔
      ∃ before part after refusal, iterator.parts = before ++ part :: after ∧
        (∀ earlier ∈ before, earlier.refusal? = none) ∧ part.refusal? = some refusal ∧
        error = refusal.error) ∧
    (∀ error, iterator.clone = .error error →
      iterator.last = .ok (.error error) ∧
      (∀ position, 1 ≤ position → iterator.nodeAt position = .ok (.error error)) ∧
      ∀ (σ : Type) (evaluation : Evaluation σ) (seen : σ),
        evaluation.clone iterator seen =
          (.error (.failure .iteratorClone error.message), evaluation.report error seen)) ∧
    ∀ copy, iterator.clone = .ok copy → ∀ (σ : Type) (evaluation : Evaluation σ) (seen : σ),
      evaluation.clone iterator seen = (.ok copy, seen) := by
  have decided := iterator.decided_clone
  refine ⟨iterator.exists_clone_iff, fun error => ?_,
    fun error failed => ⟨last_of_refused failed, ?_, ?_⟩, ?_⟩
  · rw [decided.error_iff]
    constructor
    · rintro ⟨refusal, first, rfl⟩
      obtain ⟨before, part, after, split, here, earlier⟩ := List.findSome?_eq_some_iff.mp first
      exact ⟨before, part, after, refusal, split, earlier, here, rfl⟩
    · rintro ⟨before, part, after, refusal, split, earlier, here, same⟩
      exact ⟨refusal, List.findSome?_eq_some_iff.mpr ⟨before, part, after, split, here, earlier⟩,
        same⟩
  · rintro (_ | index) positive
    · exact absurd positive (Nat.not_succ_le_zero 0)
    · exact nodeAt_of_refused failed index
  · intro σ evaluation seen
    obtain ⟨refusal, _, rfl⟩ := (decided.error_iff error).mp failed
    exact evaluation.clone_of_refused failed seen
  · intro copy cloned σ evaluation seen
    rw [Evaluation.clone, cloned]

/-- Two lists refuse, one of them inside a node set over a union. The one further left decides, and
a reporter that keeps a list is told once. -/
theorem clone_fails_at_first_refusal_nested :
    let left : Refusal := ⟨"stream", "read once"⟩
    let set : NodeIterator :=
      .nodeSet (ofBranches [ofList [1], ofUncloneable [2] left]) {}
    let iterator := ofBranches [set, ofUncloneable [3] ⟨"socket", "closed"⟩]
    iterator.clone = .error left.error ∧ iterator.last = .ok (.error left.error) ∧
      iterator.nodeAt 2 = .ok (.error left.error) ∧
      Evaluation.clone { report := fun error seen => seen ++ [error] } iterator [] =
        (.error (.failure .iteratorClone "cannot clone stream iterator: read once"),
          [left.error]) := by
  intro left set iterator
  obtain ⟨_, fails, loud, _⟩ := clone_fails_at_first_refusal iterator
  have failed : iterator.clone = .error left.error := by
    refine (fails _).mpr ⟨[_, _, _, _], ofUncloneable [2] left, _, left, rfl, ?_, rfl, rfl⟩
    simp only [List.forall_mem_cons, List.not_mem_nil, false_imp_iff, implies_true, and_true]
    exact ⟨rfl, rfl, rfl, rfl⟩
  obtain ⟨last, nodeAt, reported⟩ := loud _ failed
  exact ⟨failed, last, nodeAt 2 (by decide), reported _ _ _⟩

end XPathWalk

/-
**Services of an evaluation.**

An evaluation knows to whom errors are reported and whether the nodes it hands out are traced. Both
act on an observer's state, whose type is left open: a log, a list of recorded events, or anything
else.

* `Evaluation.clone`: cloning with the error reported and turned into an evaluation failure;
* `Evaluation.forEach`: handing every node that is left to a consumer, between two trace events;
* `Evaluation.collect`: the nodes that are left.
-/

import XPathWalk.NodeIterator.Basic
import XPathWalk.LogEvent

namespace XPathWalk

/-- What happens before and after a node is handed to a consumer. By default nothing does. -/
structure Tracer (σ : Type) where
  started : Handle → σ → σ := fun _ seen => seen
  ended : Handle → σ → σ := fun _ seen => seen

/-- The services of one evaluation, acting on observers of state `σ`. -/
structure Evaluation (σ : Type) where
  /-- Receives an error before it is turned into an evaluation failure. -/
  report : IterationError → σ → σ
  tracer : Option (Tracer σ) := none
  /-- Whether the tracer, if there is one, is called. -/
  tracing : Bool := true

namespace Evaluation

variable {σ : Type}

/-- The default services: errors go to the log and nothing is traced. -/
def logging (write : LogEvent → σ → σ) : Evaluation σ :=
  { report := fun error => write (.errorReported error) }

/-- Whether nodes are traced. -/
def traces (evaluation : Evaluation σ) : Bool :=
  evaluation.tracing && evaluation.tracer.isSome

/-- The tracer that is called, if any. -/
def activeTracer (evaluation : Evaluation σ) : Option (Tracer σ) :=
  if evaluation.tracing then evaluation.tracer else none

/-- What a developer is shown of an evaluation. -/
def describe (evaluation : Evaluation σ) : String :=
  "EvalContext \x7b trace: " ++ toString evaluation.tracer.isSome ++ ", trace_enabled: " ++
    toString evaluation.tracing ++ ", .. \x7d"

/-- What a developer is shown of an evaluation that is still being set up. -/
def describeSetup (evaluation : Evaluation σ) : String :=
  "EvalContextBuilder \x7b ctx: " ++ evaluation.describe ++ " \x7d"

/-- Clones an iterator. An error is reported as it came and returned as an evaluation failure. -/
def clone (evaluation : Evaluation σ) (iterator : NodeIterator) (seen : σ) :
    Except IterationError NodeIterator × σ :=
  match iterator.clone with
  | .ok copy => (.ok copy, seen)
  | .error error => (.error error.toFailure, evaluation.report error seen)

/-- Notes the start of a node if nodes are traced. -/
def started (evaluation : Evaluation σ) (node : Handle) (seen : σ) : σ :=
  evaluation.activeTracer.elim seen fun tracer => tracer.started node seen

/-- Notes the end of a node if nodes are traced. -/
def ended (evaluation : Evaluation σ) (node : Handle) (seen : σ) : σ :=
  evaluation.activeTracer.elim seen fun tracer => tracer.ended node seen

/-- Hands one node to a consumer between its two trace events, of which the second comes also when
the consumer fails. -/
def visit (evaluation : Evaluation σ) (consume : Handle → σ → Except IterationError Unit × σ)
    (node : Handle) (seen : σ) : Except IterationError Unit × σ :=
  let (result, seen) := consume node (evaluation.started node seen)
  (result, evaluation.ended node seen)

/-- Hands up to `count` nodes to a consumer, stopping at its first error. -/
def forEachOf (evaluation : Evaluation σ)
    (consume : Handle → σ → Except IterationError Unit × σ) :
    (count : Nat) → NodeIterator → σ →
      Except Fault (Except IterationError Unit × NodeIterator × σ)
  | 0, iterator, seen => .ok (.ok (), iterator, seen)
  | count + 1, iterator, seen => do
    match ← iterator.next with
    | (none, iterator) => return (.ok (), iterator, seen)
    | (some node, iterator) =>
      match evaluation.visit consume node seen with
      | (.error error, seen) => return (.error error, iterator, seen)
      | (.ok (), seen) => forEachOf evaluation consume count iterator seen

/-- Hands every node that is left to a consumer, stopping at its first error. -/
def forEach (evaluation : Evaluation σ) (consume : Handle → σ → Except IterationError Unit × σ)
    (iterator : NodeIterator) (seen : σ) :
    Except Fault (Except IterationError Unit × NodeIterator × σ) :=
  evaluation.forEachOf consume (iterator.reach + 1) iterator seen

/-- The same services for an observer that keeps something else besides. -/
def widen (evaluation : Evaluation σ) (τ : Type) : Evaluation (σ × τ) where
  report error := Prod.map (evaluation.report error) id
  tracer := evaluation.tracer.map fun tracer =>
    { started := fun node => Prod.map (tracer.started node) id
      ended := fun node => Prod.map (tracer.ended node) id }
  tracing := evaluation.tracing

/-- The nodes that are left, traced as they come. -/
def collect (evaluation : Evaluation σ) (iterator : NodeIterator) (seen : σ) :
    Except Fault (Except IterationError (List Handle) × NodeIterator × σ) := do
  let (result, iterator, seen, nodes) ← (evaluation.widen (Array Handle)).forEach
    (fun node (seen, nodes) => (.ok (), seen, nodes.push node)) iterator (seen, #[])
  return (result.map fun _ => nodes.toList, iterator, seen)

end Evaluation

end XPathWalk

/-
**What the library writes to the log.**

Operations that log return their events beside their result, in the order of emission, so a log is
an ordinary value.

* `LogEvent.line`: the written form of an event;
* `Logged`: a result with the events of computing it.
-/

import XPathWalk.Handle
import XPathWalk.IterationError

namespace XPathWalk

/-- Why a node-set filter kept its start node when it was told a new one. -/
inductive IgnoredStart where
  | notRestartable
  | contextIndependent
  | alreadyBound
  deriving DecidableEq, Repr

/-- The reason as it is logged. -/
def IgnoredStart.text : IgnoredStart → String
  | notRestartable => "iterator is not restartable"
  | contextIndependent => "source is context independent"
  | alreadyBound => "already bound"

/-- An event worth logging. -/
inductive LogEvent where
  /-- A tree of this many nodes was built. -/
  | treeBuilt (nodes : Nat)
  /-- A key table with this many distinct values was read off a tree. -/
  | keyTableBuilt (name : String) (values : Nat)
  /-- A node-set filter drained its source relative to `start`. -/
  | materialized (start : Handle) (total distinct : Nat)
  /-- A node-set filter kept its start node. -/
  | startIgnored (reason : IgnoredStart) (start : Handle)
  /-- An error passed through the default reporter. -/
  | errorReported (error : IterationError)
  deriving DecidableEq, Repr

/-- The written form of an event: level, message, then the fields in order. -/
def LogEvent.line : LogEvent → String
  | treeBuilt nodes => s!"TRACE tree built nodes={nodes}"
  | keyTableBuilt name values => s!"DEBUG key index built key={name} values={values}"
  | materialized start total distinct =>
    s!"DEBUG node set materialized start={start} materialized={total} distinct={distinct}"
  | startIgnored reason start => s!"TRACE start node ignored: {reason.text} start={start}"
  | errorReported error =>
    s!"ERROR iterator runtime error code={error.code.text} error={error.message}"

/-- A result together with the events of computing it, earliest first. -/
structure Logged (α : Type) where
  value : α
  log : List LogEvent := []
  deriving DecidableEq, Repr

end XPathWalk

/-
**Replaying a fixed list of handles.**

A fixed list yields the same handles whatever its start node is, also with none. It serves
materialized variables and result fragments, the matches of a key lookup, and sources that cannot be
cloned.

* `FixedList.next`: the next handle of the list;
* `FixedList.clone`: a copy, or the error of a list that refuses to be cloned.
-/

import XPathWalk.IterationError
import XPathWalk.Place

namespace XPathWalk

/-- Whether the nodes of an iterator hang on its start node. -/
inductive Dependence where
  /-- They are, or may be, derived from the start node. -/
  | startNode
  /-- They are the same for every start node. -/
  | independent
  deriving DecidableEq, Repr

/-- Why, and in the name of which kind of iterator, cloning is refused. -/
structure Refusal where
  iterator : String
  reason : String
  deriving DecidableEq, Repr

/-- The error that a refusal gives. -/
def Refusal.error (refusal : Refusal) : IterationError :=
  .notCloneable refusal.iterator refusal.reason

/-- An iterator over a list that never changes. -/
structure FixedList where
  nodes : Array Handle
  dependence : Dependence := .startNode
  /-- Set on a list that cannot be cloned. -/
  refusal : Option Refusal := none
  place : Place := {}
  deriving DecidableEq, Repr

namespace FixedList

/-- Takes a start node, unless it is to be ignored, and begins the list again. -/
def bind (list : FixedList) (node : Handle) : FixedList :=
  if list.place.progress.accepts node then { list with place := list.place.bind node } else list

/-- The next handle of the list. -/
def next (list : FixedList) : Option Handle × FixedList :=
  match list.nodes[list.place.current]? with
  | none => (none, list)
  | some node =>
    (some node, { list with place := list.place.move (some node) (list.place.current + 1) })

/-- Begins the list again. -/
def rewind (list : FixedList) : FixedList := { list with place := list.place.rewind }

/-- Saves the present place in the list. -/
def setMark (list : FixedList) : FixedList := { list with place := list.place.setMark }

/-- Goes back to the saved place, or to the first handle if none was saved. -/
def restore (list : FixedList) : FixedList := { list with place := list.place.restore }

/-- Allows or forbids taking further start nodes. -/
def setRestartable (list : FixedList) (restartable : Bool) : FixedList :=
  { list with place := list.place.setRestartable restartable }

/-- A copy that takes no further start node. -/
def clone (list : FixedList) : Except IterationError FixedList :=
  match list.refusal with
  | some refusal => .error refusal.error
  | none => .ok { list with place := list.place.frozen }

/-- The number of handles left. -/
def reach (list : FixedList) : Nat := list.nodes.size - list.place.current

end FixedList

end XPathWalk

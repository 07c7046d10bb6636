/-
**The bookkeeping of an iterator.**

Every iterator knows the start node it is bound to, whether it may be bound anew, and how many
nodes it has yielded since it was last rewound. That count is the 1-based position of the node
yielded last.

* `Progress.accepts`: the rule by which a new start node is taken or ignored;
* `Progress.bind`, `Progress.frozen`: taking a start node, and the bookkeeping of a clone.
-/

import XPathWalk.Handle

namespace XPathWalk

/-- Start node, permission to restart, and number of nodes yielded. -/
structure Progress where
  start : Option Handle := none
  restartable : Bool := true
  position : Nat := 0
  deriving DecidableEq, Repr

namespace Progress

/-- A start node is taken when the iterator may restart and is not bound to that very node. -/
def accepts (progress : Progress) (node : Handle) : Bool :=
  progress.restartable && progress.start != some node

/-- Takes a start node and counts from the beginning. -/
def bind (progress : Progress) (node : Handle) : Progress :=
  { progress with start := some node, position := 0 }

/-- Allows or forbids taking further start nodes. -/
def setRestartable (progress : Progress) (restartable : Bool) : Progress :=
  { progress with restartable }

/-- Counts from the given position. -/
def restore (progress : Progress) (position : Nat) : Progress := { progress with position }

/-- Counts from the beginning. -/
def rewind (progress : Progress) : Progress := progress.restore 0

/-- Counts one more node. -/
def advance (progress : Progress) : Progress := progress.restore (progress.position + 1)

/-- Counts a node if there is one. -/
def count (progress : Progress) : Option Handle → Progress
  | none => progress
  | some _ => progress.advance

/-- The bookkeeping of a clone: all is kept, and no further start node is taken. -/
def frozen (progress : Progress) : Progress := progress.setRestartable false

/-- A clone takes no start node. -/
@[simp] theorem accepts_frozen (progress : Progress) (node : Handle) :
    progress.frozen.accepts node = false := rfl

/-- The node that was just taken is not taken again. -/
@[simp] theorem accepts_bind_self (progress : Progress) (node : Handle) :
    (progress.bind node).accepts node = false := by
  simp [accepts, bind]

@[simp] theorem restore_count (progress : Progress) (found : Option Handle) (position : Nat) :
    (progress.count found).restore position = progress.restore position := by
  cases found <;> rfl

@[simp] theorem rewind_count (progress : Progress) (found : Option Handle) :
    (progress.count found).rewind = progress.rewind := by
  cases found <;> rfl

/-- Counting nodes leaves the start node alone. -/
@[simp] theorem start_count (progress : Progress) (found : Option Handle) :
    (progress.count found).start = progress.start := by
  cases found <;> rfl

end Progress

end XPathWalk

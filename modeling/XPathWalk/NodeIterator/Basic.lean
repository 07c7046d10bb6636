/-
**Iterators over nodes.**

An iterator walks an axis, replays a fixed list, strings branches together, or turns a source into
a node set. The last two hold further iterators, to any depth. Every operation is one recursion over
that structure, with a companion for the branches of a union.

* `NodeIterator.next`: the next node;
* `NodeIterator.rewind`, `setMark`, `restore`: beginning again, saving a place, going back to it;
* `NodeIterator.clone`: a copy that takes no further start node, or the error of the first part that
  refuses to be cloned;
* `NodeIterator.drain`: all nodes that are left.
-/

import XPathWalk.AxisWalk
import XPathWalk.FixedList
import XPathWalk.Replay

namespace XPathWalk

/-- A sequence of nodes relative to a start node, read one node at a time. -/
inductive NodeIterator where
  /-- The nodes of one axis. -/
  | axis (walk : AxisWalk)
  /-- The handles of a list. -/
  | fixed (list : FixedList)
  /-- The nodes of every branch, one branch after another. -/
  | union (branches : List NodeIterator) (place : Place)
  /-- The nodes of a source in document order without repeats, replayed from a buffer. -/
  | nodeSet (source : NodeIterator) (replay : Replay)

namespace NodeIterator

/-! ### Making iterators -/

/-- The iterator over an axis of a tree, not yet bound to a start node. -/
def ofAxis (tree : Tree) (axis : Axis) : NodeIterator := .axis { tree, axis }

/-- The iterator over a list of handles. -/
def ofList (nodes : List Handle) : NodeIterator := .fixed { nodes := nodes.toArray }

/-- A list of handles that do not hang on the start node. -/
def ofMatches (nodes : List Handle) : NodeIterator :=
  .fixed { nodes := nodes.toArray, dependence := .independent }

/-- A list of handles that refuses to be cloned. -/
def ofUncloneable (nodes : List Handle) (refusal : Refusal) : NodeIterator :=
  .fixed { nodes := nodes.toArray, refusal := some refusal }

/-- The union of the given branches. -/
def ofBranches (branches : List NodeIterator) : NodeIterator := .union branches {}

/-- Appends a branch to a union. Nothing else has branches. -/
def withBranch? (iterator branch : NodeIterator) : Option NodeIterator :=
  match iterator with
  | .union branches place => some (.union (branches ++ [branch]) place)
  | _ => none

/-! ### What an iterator tells about itself -/

/-- The bookkeeping of the outermost level. -/
def progress : NodeIterator → Progress
  | .axis walk => walk.progress
  | .fixed list => list.place.progress
  | .union _ place => place.progress
  | .nodeSet _ replay => replay.progress

/-- Only a walk along a reverse axis counts against document order. -/
def isReverse : NodeIterator → Bool
  | .axis walk => walk.axis.isReverse
  | _ => false

mutual

/-- A union is independent of the start node if it has branches and all of them are. A node set is
if its source is. -/
def dependence : NodeIterator → Dependence
  | .axis _ => .startNode
  | .fixed list => list.dependence
  | .union branches _ =>
    if !branches.isEmpty && allIndependent branches then .independent else .startNode
  | .nodeSet source _ => source.dependence

/-- Whether no branch hangs on the start node. -/
def allIndependent : List NodeIterator → Bool
  | [] => true
  | branch :: rest => branch.dependence == .independent && allIndependent rest

end

mutual

/-- No more nodes than this are left. -/
def reach : NodeIterator → Nat
  | .axis walk => walk.reach
  | .fixed list => list.reach
  | .union branches _ => reachAll branches
  | .nodeSet _ replay => replay.reach

/-- The branches together have no more nodes left than this. -/
def reachAll : List NodeIterator → Nat
  | [] => 0
  | branch :: rest => branch.reach + reachAll rest

end

/-! ### Reading -/

mutual

/-- The next node, or `none` at the end. -/
def next : NodeIterator → Except Fault (Option Handle × NodeIterator)
  | .axis walk => do
    let (found, walk) ← walk.next
    return (found, .axis walk)
  | .fixed list =>
    let (found, list) := list.next
    .ok (found, .fixed list)
  | .union branches place => do
    let (found, branches, current) ← nextFrom branches place.current
    return (found, .union branches (place.move found current))
  | .nodeSet source replay => do
    let (found, replay) ← replay.next
    return (found, .nodeSet source replay)

/-- The next node of the branches from number `current` on, and the number of the branch that
yielded it. At the end that is the number of branches. -/
def nextFrom : List NodeIterator → (current : Nat) →
    Except Fault (Option Handle × List NodeIterator × Nat)
  | [], current => .ok (none, [], current)
  | branch :: rest, current + 1 => do
    let (found, rest, current) ← nextFrom rest current
    return (found, branch :: rest, current + 1)
  | branch :: rest, 0 => do
    match ← branch.next with
    | (some node, branch) => return (some node, branch :: rest, 0)
    | (none, branch) =>
      let (found, rest, current) ← nextFrom rest 0
      return (found, branch :: rest, current + 1)

end

/-- The next nodes, `count` of them or fewer at the end. -/
def take : (count : Nat) → NodeIterator → Except Fault (List Handle × NodeIterator)
  | 0, iterator => .ok ([], iterator)
  | count + 1, iterator => do
    match ← iterator.next with
    | (none, iterator) => return ([], iterator)
    | (some node, iterator) =>
      let (nodes, iterator) ← take count iterator
      return (node :: nodes, iterator)

/-- All nodes that are left. The iterator is advanced until it says that it has no more. -/
def drain (iterator : NodeIterator) : Except Fault (List Handle × NodeIterator) :=
  iterator.take (iterator.reach + 1)

/-! ### Moving -/

mutual

/-- Begins again at the same start node. -/
def rewind : NodeIterator → Except Fault NodeIterator
  | .axis walk => return .axis (← walk.rewind)
  | .fixed list => .ok (.fixed list.rewind)
  | .union branches place => return .union (← rewindAll branches) place.rewind
  | .nodeSet source replay => .ok (.nodeSet source replay.rewind)

/-- Begins every branch again. -/
def rewindAll : List NodeIterator → Except Fault (List NodeIterator)
  | [] => .ok []
  | branch :: rest => return (← branch.rewind) :: (← rewindAll rest)

end

mutual

/-- Saves the present place. -/
def setMark : NodeIterator → NodeIterator
  | .axis walk => .axis walk.setMark
  | .fixed list => .fixed list.setMark
  | .union branches place => .union (setMarkAll branches) place.setMark
  | .nodeSet source replay => .nodeSet source replay.setMark

/-- Saves the place of every branch. -/
def setMarkAll : List NodeIterator → List NodeIterator
  | [] => []
  | branch :: rest => branch.setMark :: setMarkAll rest

end

mutual

/-- Goes back to the saved place. -/
def restore : NodeIterator → NodeIterator
  | .axis walk => .axis walk.restore
  | .fixed list => .fixed list.restore
  | .union branches place => .union (restoreAll branches) place.restore
  | .nodeSet source replay => .nodeSet source replay.restore

/-- Takes every branch back to its saved place. -/
def restoreAll : List NodeIterator → List NodeIterator
  | [] => []
  | branch :: rest => branch.restore :: restoreAll rest

end

mutual

/-- Allows or forbids taking further start nodes, at every level. -/
def setRestartable (restartable : Bool) : NodeIterator → NodeIterator
  | .axis walk => .axis (walk.setRestartable restartable)
  | .fixed list => .fixed (list.setRestartable restartable)
  | .union branches place =>
    .union (setRestartableAll restartable branches) (place.setRestartable restartable)
  | .nodeSet source replay =>
    .nodeSet (source.setRestartable restartable) (replay.setRestartable restartable)

/-- Allows or forbids taking further start nodes in every branch. -/
def setRestartableAll (restartable : Bool) : List NodeIterator → List NodeIterator
  | [] => []
  | branch :: rest => branch.setRestartable restartable :: setRestartableAll restartable rest

end

/-! ### Cloning -/

mutual

/-- An independent copy that takes no further start node. Axes, lists and unions keep their place,
node sets begin again. -/
def clone : NodeIterator → Except IterationError NodeIterator
  | .axis walk => .ok (.axis walk.frozen)
  | .fixed list => return .fixed (← list.clone)
  | .union branches place => return .union (← cloneAll branches) place.frozen
  | .nodeSet source replay => return .nodeSet (← source.clone) replay.frozen

/-- Copies of all branches, or the error of the first that refuses. -/
def cloneAll : List NodeIterator → Except IterationError (List NodeIterator)
  | [] => .ok []
  | branch :: rest => return (← branch.clone) :: (← cloneAll rest)

end

end NodeIterator

end XPathWalk

/-
**Walking one axis.**

An axis walk is bound to a start node, advances the cursor of its axis there, and can save and
restore that cursor.

* `AxisWalk.bind`, `AxisWalk.rewind`: setting up the cursor of a start node;
* `AxisWalk.next`: the next node of the axis.
-/

import XPathWalk.Cursor
import XPathWalk.Progress

namespace XPathWalk

/-- An iterator over one axis of a tree. -/
structure AxisWalk where
  tree : Tree
  axis : Axis
  progress : Progress := {}
  cursor : Cursor := .unbound
  /-- The saved cursor and position, if any were saved. -/
  mark : Option (Cursor × Nat) := none
  deriving DecidableEq, Repr

namespace AxisWalk

/-- Takes a start node, unless it is to be ignored, and begins the axis there. -/
def bind (walk : AxisWalk) (node : Handle) : Except Fault AxisWalk := do
  if walk.progress.accepts node then
    let cursor ← Cursor.start walk.tree walk.axis node
    return { walk with progress := walk.progress.bind node, cursor }
  else
    return walk

/-- The next node of the axis. -/
def next (walk : AxisWalk) : Except Fault (Option Handle × AxisWalk) := do
  let (found, cursor) ← walk.cursor.advance walk.tree walk.axis
  return (found, { walk with progress := walk.progress.count found, cursor })

/-- Begins the axis again at the same start node. Without a start node nothing happens. -/
def rewind (walk : AxisWalk) : Except Fault AxisWalk := do
  match walk.progress.start with
  | none => return walk
  | some node =>
    let cursor ← Cursor.start walk.tree walk.axis node
    return { walk with progress := walk.progress.rewind, cursor }

/-- Saves the cursor and the position. -/
def setMark (walk : AxisWalk) : AxisWalk :=
  { walk with mark := some (walk.cursor, walk.progress.position) }

/-- Goes back to what was saved, if anything was. -/
def restore (walk : AxisWalk) : AxisWalk :=
  match walk.mark with
  | none => walk
  | some (cursor, position) =>
    { walk with cursor, progress := walk.progress.restore position }

/-- Allows or forbids taking further start nodes. -/
def setRestartable (walk : AxisWalk) (restartable : Bool) : AxisWalk :=
  { walk with progress := walk.progress.setRestartable restartable }

/-- A copy that takes no further start node. -/
def frozen (walk : AxisWalk) : AxisWalk := { walk with progress := walk.progress.frozen }

/-- No more nodes than this are left. -/
def reach (walk : AxisWalk) : Nat := walk.cursor.reach walk.tree

end AxisWalk

end XPathWalk

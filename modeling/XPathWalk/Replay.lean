/-
**Replaying a sorted buffer without its repeats.**

A replay reads a sorted buffer from front to back and skips a handle that equals the one yielded
just before. Equal handles are neighbours in a sorted buffer, so every handle comes out once.

* `Replay.load`: a new start node and the buffer that goes with it;
* `Replay.next`: the next handle that differs from the last one.
-/

import XPathWalk.Buffer
import XPathWalk.Progress

namespace XPathWalk

/-- What a replay saves when it is marked. -/
structure ReplayMark where
  current : Nat := 0
  last : Option Handle := none
  position : Nat := 0
  deriving DecidableEq, Repr

/-- A reading of a sorted buffer. -/
structure Replay where
  progress : Progress := {}
  buffer : Buffer := {}
  /-- The index of the next candidate. -/
  current : Nat := 0
  /-- The handle yielded last. -/
  last : Option Handle := none
  mark : ReplayMark := {}
  deriving DecidableEq, Repr

namespace Replay

/-- The first of the `left` handles from index `current` on that differs from `last`, and the index
behind it. -/
def seek (buffer : Buffer) (last : Option Handle) : (left : Nat) → (current : Nat) →
    Except Fault (Option Handle × Nat)
  | 0, current => .ok (none, current)
  | left + 1, current => do
    let node ← buffer.get current
    if some node = last then seek buffer last left (current + 1)
    else return (some node, current + 1)

/-- The next handle that differs from the one yielded last. -/
def next (replay : Replay) : Except Fault (Option Handle × Replay) :=
  if replay.progress.start.isNone then .error .unboundFilter
  else do
    let (found, current) ←
      seek replay.buffer replay.last (replay.buffer.size - replay.current) replay.current
    return (found,
      { replay with
        progress := replay.progress.count found
        current
        last := found <|> replay.last })

/-- Takes a start node together with the handles that belong to it. -/
def load (replay : Replay) (node : Handle) (handles : List Handle) : Replay :=
  { replay with
    progress := replay.progress.bind node
    buffer := (replay.buffer.clear.extend handles).sort
    current := 0
    last := none }

/-- Begins the buffer again. -/
def rewind (replay : Replay) : Replay :=
  { replay with progress := replay.progress.rewind, current := 0, last := none }

/-- Saves the index, the handle yielded last and the position. -/
def setMark (replay : Replay) : Replay :=
  { replay with mark := ⟨replay.current, replay.last, replay.progress.position⟩ }

/-- Goes back to what was saved, or to the first handle if nothing was. -/
def restore (replay : Replay) : Replay :=
  { replay with
    progress := replay.progress.restore replay.mark.position
    current := replay.mark.current
    last := replay.mark.last }

/-- Allows or forbids taking further start nodes. -/
def setRestartable (replay : Replay) (restartable : Bool) : Replay :=
  { replay with progress := replay.progress.setRestartable restartable }

/-- A copy at the first handle that takes no further start node. What was saved is kept. -/
def frozen (replay : Replay) : Replay :=
  { replay.rewind with progress := replay.progress.frozen.rewind }

/-- No more handles than this are left. -/
def reach (replay : Replay) : Nat := replay.buffer.size - replay.current

/-- What was loaded is held in ascending order, repeats kept. -/
@[simp] theorem toList_load (replay : Replay) (node : Handle) (handles : List Handle) :
    (replay.load node handles).buffer.toList = handles.mergeSort (· ≤ ·) := by
  rw [load, Buffer.toList_sort, Buffer.toList_extend, Buffer.toList_clear, List.nil_append]

end Replay

end XPathWalk

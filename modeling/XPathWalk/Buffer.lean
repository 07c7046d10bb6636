/-
**Buffers of materialized handles.**

A buffer is a growing list of handles that keeps repeats. Its contents are all that its readers
see, apart from the room it has before it must grow.

* `Buffer.toList`: the contents, with one equation per operation;
* `Buffer.sort`: document order, with every repeat kept;
* `Buffer.distinct`: how many different handles a sorted buffer holds.
-/

import XPathWalk.Fault
import XPathWalk.Handle

namespace XPathWalk

/-- A growing list of handles. -/
structure Buffer where
  nodes : Array Handle := #[]
  /-- How many handles fit before the buffer must grow. -/
  room : Nat := 16
  deriving DecidableEq, Repr

namespace Buffer

/-- The contents in order. -/
def toList (buffer : Buffer) : List Handle := buffer.nodes.toList

/-- The number of stored handles, repeats included. -/
def size (buffer : Buffer) : Nat := buffer.nodes.size

/-- Whether no handle is stored. -/
def isEmpty (buffer : Buffer) : Bool := buffer.nodes.isEmpty

/-- An empty buffer into which `room` handles fit; sixteen always do. -/
def withRoom (room : Nat) : Buffer := { room := max 16 room }

/-- The room of a buffer that is to take `more` further handles: it grows, if it must, to the next
power of two. -/
def grown (buffer : Buffer) (more : Nat) : Nat :=
  if buffer.size + more ≤ buffer.room then buffer.room else (buffer.size + more).nextPowerOfTwo

/-- Appends one handle. -/
def push (buffer : Buffer) (node : Handle) : Buffer :=
  { nodes := buffer.nodes.push node, room := buffer.grown 1 }

/-- Appends handles in order. -/
def extend (buffer : Buffer) (nodes : List Handle) : Buffer :=
  { nodes := buffer.nodes ++ nodes, room := buffer.grown nodes.length }

/-- The buffer of the given handles. -/
def ofList (nodes : List Handle) : Buffer := extend {} nodes

/-- An independent buffer of the same contents, as large as they need. -/
def copy (buffer : Buffer) : Buffer := ofList buffer.toList

/-- Removes the contents and keeps the room. -/
def clear (buffer : Buffer) : Buffer := { buffer with nodes := #[] }

/-- Sorts the contents into document order, repeats kept. -/
def sort (buffer : Buffer) : Buffer :=
  { buffer with nodes := (buffer.toList.mergeSort (· ≤ ·)).toArray }

/-- The handle at an index of the buffer. -/
def get (buffer : Buffer) (index : Nat) : Except Fault Handle :=
  match buffer.nodes[index]? with
  | some node => .ok node
  | none => .error .outOfRange

/-- The number of neighbours that differ, plus one unless there is no handle at all. In a sorted
list equal handles are neighbours, so this counts the different ones. -/
def changes : List Handle → Nat
  | [] => 0
  | [_] => 1
  | first :: second :: rest =>
    (if first = second then 0 else 1) + changes (second :: rest)

/-- How many different handles a sorted buffer holds. -/
def distinct (buffer : Buffer) : Nat := changes buffer.toList

/-! ### The contents after each operation -/

@[simp] theorem toList_withRoom (room : Nat) : (withRoom room).toList = [] := rfl

@[simp] theorem toList_push (buffer : Buffer) (node : Handle) :
    (buffer.push node).toList = buffer.toList ++ [node] := by
  simp [push, toList]

@[simp] theorem toList_extend (buffer : Buffer) (nodes : List Handle) :
    (buffer.extend nodes).toList = buffer.toList ++ nodes := by
  simp [extend, toList]

@[simp] theorem toList_ofList (nodes : List Handle) : (ofList nodes).toList = nodes := by
  rw [ofList, toList_extend]
  rfl

@[simp] theorem toList_copy (buffer : Buffer) : buffer.copy.toList = buffer.toList :=
  toList_ofList buffer.toList

@[simp] theorem toList_clear (buffer : Buffer) : buffer.clear.toList = [] := rfl

@[simp] theorem toList_sort (buffer : Buffer) :
    buffer.sort.toList = buffer.toList.mergeSort (· ≤ ·) := rfl

@[simp] theorem length_toList (buffer : Buffer) : buffer.toList.length = buffer.size := rfl

/-- Sorting neither loses nor repeats a handle. -/
theorem sort_perm (buffer : Buffer) : buffer.sort.toList.Perm buffer.toList :=
  List.mergeSort_perm _ _

/-- A sorted buffer ascends. -/
theorem sort_ascending (buffer : Buffer) : buffer.sort.toList.Pairwise (· ≤ ·) := by
  have sorted := @List.pairwise_mergeSort Handle (fun first second => decide (first ≤ second))
    (fun first second third => by simpa using Nat.le_trans)
    (fun first second => by simpa using Nat.le_total first second) buffer.toList
  simpa using sorted

end Buffer

end XPathWalk

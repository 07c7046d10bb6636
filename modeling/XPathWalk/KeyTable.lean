/-
**Tables of keyed nodes.**

A key table maps a value to the nodes that carry it, in the order in which they were added. A lookup
does not hang on any start node.

* `KeyTable.ofTree`: the elements of a tree, keyed by an attribute of theirs;
* `KeyTable.matching`: the nodes of several values, in the order of the values;
* `KeyTable.lookup`, `KeyTable.lookupRefs`: iterators over them, for a list of values or a text of
  values separated by white space;
* `KeyTable.nodesOf_new`, `KeyTable.nodesOf_add`: a table without nodes, and what an addition
  changes.
-/

import Std.Data.HashMap
import XPathWalk.LogEvent
import XPathWalk.NodeIterator.Basic
import XPathWalk.Text.Words
import XPathWalk.Tree

namespace XPathWalk

/-- A named table from values to nodes. -/
structure KeyTable where
  name : String
  /-- The nodes of each value, the one added last in front. -/
  entries : Std.HashMap String (List Handle) := ∅

namespace KeyTable

/-- The nodes of one value, in the order in which they were added. -/
def nodesOf (table : KeyTable) (value : String) : List Handle :=
  (table.entries.getD value []).reverse

/-- Adds a node under a value. -/
def add (table : KeyTable) (value : String) (node : Handle) : KeyTable :=
  { table with entries := table.entries.insert value (node :: table.entries.getD value []) }

/-- The number of different values. -/
def size (table : KeyTable) : Nat := table.entries.size

/-- Whether no node was ever added. -/
def isEmpty (table : KeyTable) : Bool := table.entries.isEmpty

/-- The pattern that every element name matches. -/
def anyElement : String := "*"

/-- Whether a node is an element whose name matches a pattern. -/
def selects (pattern : String) (node : Node) : Bool :=
  node.content.isElement && (pattern == anyElement || node.content.name? == some pattern)

/-- The value under which a node is entered: that of its first attribute of the given name, provided
that the node is an element whose name matches the pattern. -/
def keyOf? (tree : Tree) (pattern attr : String) (handle : Handle) : Option String := do
  let node ← tree.node? handle
  guard (selects pattern node)
  tree.value? (← tree.attributeOf node attr)

/-- Enters a node under its value if it has one. -/
def enter (tree : Tree) (pattern attr : String) (table : KeyTable) (handle : Handle) : KeyTable :=
  match keyOf? tree pattern attr handle with
  | some value => table.add value handle
  | none => table

/-- The table of the elements of a tree that match a pattern, keyed by an attribute. -/
def ofTree (tree : Tree) (name pattern attr : String) : Logged KeyTable :=
  let table := (List.range tree.size).foldl (enter tree pattern attr) { name }
  { value := table, log := [.keyTableBuilt name table.size] }

/-- Every element keyed by its `id` attribute. -/
def ids (tree : Tree) : Logged KeyTable := ofTree tree "id" anyElement "id"

/-- The nodes of each value in turn, neither sorted nor free of repeats. -/
def matching (table : KeyTable) (values : List String) : List Handle :=
  values.flatMap table.nodesOf

/-- The iterator over the nodes of each value in turn, taken from the table as it is now. -/
def lookup (table : KeyTable) (values : List String) : NodeIterator :=
  .ofMatches (table.matching values)

/-- The lookup of a text in which white space separates the values. -/
def lookupRefs (table : KeyTable) (refs : String) : NodeIterator :=
  table.lookup (Text.words refs)

/-! ### The matches after an addition -/

/-- A new table has no nodes. -/
@[simp] theorem nodesOf_new (name value : String) : ({ name } : KeyTable).nodesOf value = [] := by
  simp [nodesOf]

/-- An added node comes behind the earlier nodes of its value and touches no other value. -/
theorem nodesOf_add (table : KeyTable) (value other : String) (node : Handle) :
    (table.add value node).nodesOf other =
      if other = value then table.nodesOf other ++ [node] else table.nodesOf other := by
  by_cases same : other = value
  · subst same
    simp [add, nodesOf]
  · have different : ¬ value = other := fun equal => same equal.symm
    simp [add, nodesOf, Std.HashMap.getD_insert, same, different]

/-- The first node of a table is the one match of its value. -/
theorem matching_add_new (name value : String) (node : Handle) :
    (KeyTable.add { name } value node).matching [value] = [node] := by
  rw [matching, List.flatMap_singleton, nodesOf_add, if_pos rfl, nodesOf_new, List.nil_append]

/-- Looking up two lists of values in a row is looking up their concatenation. -/
theorem matching_append (table : KeyTable) (first second : List String) :
    table.matching (first ++ second) = table.matching first ++ table.matching second :=
  List.flatMap_append

end KeyTable

end XPathWalk

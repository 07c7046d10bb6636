/-
**Node handles.**

A document numbers its nodes in document order, and a handle is such a number. Comparing handles
is therefore comparing document positions, and sorting handles sorts nodes into document order.

Handles are unbounded. A numbering by 32 bits has room for 2^32 nodes, and a builder refuses to add
the node beyond them. This limit is left out: no document is too large to be built.

* `Handle.root`: the document node is handle 0;
* `Handle.label`: the form in which a handle is shown to a developer.
-/

namespace XPathWalk

/-- The number of a node in document order. -/
abbrev Handle := Nat

namespace Handle

/-- The document node. -/
def root : Handle := 0

/-- Only handle 0 is the document node. -/
def isRoot (node : Handle) : Bool := node == root

/-- The developer's form of a handle, a number sign before its digits. -/
def label (node : Handle) : String := "#" ++ toString node

end Handle

end XPathWalk

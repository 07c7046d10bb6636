/-
**Contract violations.**

A `Fault` is a misuse of the library by its caller, as against an `IterationError`, which a correct
caller may meet. Operations that can be misused answer in `Except Fault`.

* `Fault.message`: the text of each fault that has one.
-/

import XPathWalk.Axis

namespace XPathWalk

/-- What a caller did wrong. -/
inductive Fault where
  /-- A handle outside the tree, or an index outside a buffer. -/
  | outOfRange
  /-- An attribute was added while the innermost open node was no element. -/
  | attributeOutsideElement
  /-- An attribute was added to an element that already has a child. -/
  | attributeAfterChild
  /-- An element was ended while none was open. -/
  | nothingToEnd
  /-- An axis iterator was advanced while no cursor had been set up for a start node. -/
  | unboundAxis (axis : Axis)
  /-- A node-set filter was advanced before it had a start node. -/
  | unboundFilter
  deriving DecidableEq, Repr

/-- The text of a fault. A handle or index out of range says nothing more than that. -/
def Fault.message : Fault → Option String
  | outOfRange => none
  | attributeOutsideElement => some "attributes can only be added to elements"
  | attributeAfterChild => some "attributes must precede the element's children"
  | nothingToEnd => some "no open element to end"
  | unboundAxis axis =>
    some (axis.name ++ " axis iterator advanced before a start node was bound")
  | unboundFilter => some "dup filter iterator advanced before a start node was bound"

end XPathWalk

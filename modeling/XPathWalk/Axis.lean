/-
**The twelve structural axes.**

An axis names a direction in which nodes are reached from a start node.

* `Axis.name`: the name used in path expressions and in messages;
* `Axis.isReverse`: the axes that count positions outward from the start node;
* `Axis.ofName?`: reading a name back.
-/

namespace XPathWalk

/-- A direction in which nodes are reached from a start node. -/
inductive Axis where
  | self
  | child
  | parent
  | ancestor
  | ancestorOrSelf
  | descendant
  | descendantOrSelf
  | followingSibling
  | precedingSibling
  | following
  | preceding
  | attr
  deriving DecidableEq, Repr

namespace Axis

/-- Every axis once. -/
def all : List Axis :=
  [self, child, parent, ancestor, ancestorOrSelf, descendant, descendantOrSelf,
    followingSibling, precedingSibling, following, preceding, attr]

/-- The name of an axis in a path expression. -/
def name : Axis → String
  | self => "self"
  | child => "child"
  | parent => "parent"
  | ancestor => "ancestor"
  | ancestorOrSelf => "ancestor-or-self"
  | descendant => "descendant"
  | descendantOrSelf => "descendant-or-self"
  | followingSibling => "following-sibling"
  | precedingSibling => "preceding-sibling"
  | following => "following"
  | preceding => "preceding"
  | attr => "attribute"

/-- Reverse axes yield nodes against document order, nearest to the start node first. -/
def isReverse : Axis → Bool
  | ancestor | ancestorOrSelf | precedingSibling | preceding => true
  | _ => false

/-- The axis of a given name. -/
def ofName? (name : String) : Option Axis := all.find? fun axis => axis.name == name

/-- No axis is missing from the list. -/
theorem mem_all (axis : Axis) : axis ∈ all := by cases axis <;> decide

/-- Reading the name of an axis gives that axis back. -/
theorem ofName?_name (axis : Axis) : ofName? axis.name = some axis := by cases axis <;> decide

end Axis

end XPathWalk

/-
**Cursors on the axes of a tree.**

A cursor is what is left of an axis: it holds enough to find the next node and is advanced one node
at a time. Child, sibling and ancestor axes follow links. The descendant and following axes scan a
range of handles and the preceding axis scans downward, which is right because handles count in
document order and every subtree fills a range of them.

* `Cursor.start`: the cursor of an axis at a start node, before its first node;
* `Cursor.advance`: the next node and the cursor behind it;
* `Cursor.reach`: a bound on the number of nodes that are left.
-/

import XPathWalk.Tree

namespace XPathWalk

/-- What is left of an axis. -/
inductive Cursor where
  /-- No start node has been given. -/
  | unbound
  /-- At most one node. -/
  | single (next : Option Handle)
  /-- A node and the siblings after it. -/
  | siblings (next : Option Handle)
  /-- A node and the siblings before it, nearest first. -/
  | earlierSiblings (next : Option Handle)
  /-- A node and its ancestors, innermost first. -/
  | ancestors (next : Option Handle)
  /-- The pending start node, if any, then the `left` handles from `next` on except attributes. -/
  | range (own : Option Handle) (next : Handle) (left : Nat)
  /-- The handles below `below`, counting down, except attributes and the chain of ancestors that
  begins with `ancestor`. -/
  | backward (below : Handle) (ancestor : Option Handle)
  /-- The attributes of `owner` from an index on. -/
  | attributes (owner : Handle) (index : Nat)
  deriving DecidableEq, Repr

namespace Cursor

/-- The range of handles from `first` up to `stop`. -/
def span (own : Option Handle) (first stop : Handle) : Cursor := range own first (stop - first)

/-- The cursor of an axis at a start node. -/
def start (tree : Tree) (axis : Axis) (origin : Handle) : Except Fault Cursor := do
  let node ← tree.node origin
  return match axis with
    | .self => single (some origin)
    | .parent => single node.parent
    | .child => siblings node.firstChild
    | .followingSibling => siblings (if node.content.isAttr then none else node.nextSibling)
    | .precedingSibling =>
      earlierSiblings (if node.content.isAttr then none else node.previousSibling)
    | .ancestor => ancestors node.parent
    | .ancestorOrSelf => ancestors (some origin)
    | .descendant => span none (origin + 1) node.stop
    | .descendantOrSelf => span (some origin) (origin + 1) node.stop
    | .following => span none node.stop tree.size
    | .preceding => backward origin node.parent
    | .attr => attributes origin 0

/-- The first of the `left` handles from `next` on that is no attribute, with the handle behind it
and the number of handles left there. -/
def scan (tree : Tree) : (left : Nat) → (next : Handle) →
    Except Fault (Option Handle × Handle × Nat)
  | 0, next => .ok (none, next, 0)
  | left + 1, next => do
    if ← tree.isAttr next then scan tree left (next + 1)
    else return (some next, next + 1, left)

/-- The last handle below `below` that is neither an attribute nor the awaited ancestor, with the
bound and the ancestor awaited after it. Passing an ancestor makes its parent the awaited one. -/
def scanBack (tree : Tree) : (below : Handle) → (ancestor : Option Handle) →
    Except Fault (Option Handle × Handle × Option Handle)
  | 0, ancestor => .ok (none, 0, ancestor)
  | handle + 1, ancestor => do
    if some handle = ancestor then scanBack tree handle (← tree.node handle).parent
    else if ← tree.isAttr handle then scanBack tree handle ancestor
    else return (some handle, handle, ancestor)

/-- The next node of an axis and the cursor behind it. A cursor that has no next node stays that
way. -/
def advance (tree : Tree) (axis : Axis) : Cursor → Except Fault (Option Handle × Cursor)
  | unbound => .error (.unboundAxis axis)
  | single next => .ok (next, single none)
  | siblings none => .ok (none, siblings none)
  | siblings (some handle) => do
    return (some handle, siblings (← tree.node handle).nextSibling)
  | earlierSiblings none => .ok (none, earlierSiblings none)
  | earlierSiblings (some handle) => do
    return (some handle, earlierSiblings (← tree.node handle).previousSibling)
  | ancestors none => .ok (none, ancestors none)
  | ancestors (some handle) => do
    return (some handle, ancestors (← tree.node handle).parent)
  | range (some own) next left => .ok (some own, range none next left)
  | range none next left => do
    let (found, next, left) ← scan tree left next
    return (found, range none next left)
  | backward below ancestor => do
    let (found, below, ancestor) ← scanBack tree below ancestor
    return (found, backward below ancestor)
  | attributes owner index => do
    match (← tree.node owner).attributes[index]? with
    | none => return (none, attributes owner index)
    | some handle => return (some handle, attributes owner (index + 1))

/-- No more nodes than this are left: sibling links lead on through the tree, and links to earlier
siblings and to parents lead back toward its root. -/
def reach (tree : Tree) : Cursor → Nat
  | unbound | single none | siblings none | earlierSiblings none | ancestors none => 0
  | single (some _) => 1
  | siblings (some handle) => tree.size - handle
  | earlierSiblings (some handle) | ancestors (some handle) => handle + 1
  | range own _ left => own.toList.length + left
  | backward below _ => below
  | attributes owner index =>
    ((tree.node? owner).map fun node => node.attributes.size).getD 0 - index

end Cursor

end XPathWalk

/-
**Documents as numbered nodes.**

A tree keeps its nodes in one table in document order: a node comes before its attributes, the
attributes before the children, and every subtree fills the handles from its top node up to the
node's `stop`. Beside its content a node carries the links along which axes walk.

* `Tree.node`: the node of a handle, or the fault of a handle outside the tree;
* `Tree.children`, `Tree.documentElement`: following the links;
* `Tree.attributeNamed`: the first attribute of a given name;
* `Tree.stringValue`: the text that a node stands for.
-/

import XPathWalk.Fault
import XPathWalk.Handle

namespace XPathWalk

/-- What a node is, with its own name and value. -/
inductive Content where
  | document
  | element (name : String)
  | attr (name value : String)
  | text (value : String)
  | comment (value : String)
  deriving DecidableEq, Repr

namespace Content

/-- Elements and attributes have names. -/
def name? : Content → Option String
  | element name | attr name _ => some name
  | document | text _ | comment _ => none

/-- A node's own value, empty for documents and elements. -/
def value : Content → String
  | attr _ value | text value | comment value => value
  | document | element _ => ""

/-- Whether this is an element. -/
def isElement : Content → Bool
  | element _ => true
  | _ => false

/-- Whether this is an attribute. -/
def isAttr : Content → Bool
  | attr _ _ => true
  | _ => false

/-- The text of a text node. -/
def text? : Content → Option String
  | text value => some value
  | _ => none

end Content

/-- One row of the table of nodes. -/
structure Node where
  content : Content
  parent : Option Handle := none
  firstChild : Option Handle := none
  lastChild : Option Handle := none
  nextSibling : Option Handle := none
  previousSibling : Option Handle := none
  attributes : Array Handle := #[]
  /-- The first handle after the node's subtree. -/
  stop : Handle := 0
  deriving DecidableEq, Repr

/-- A document. -/
structure Tree where
  nodes : Array Node
  deriving DecidableEq, Repr

namespace Tree

/-- The number of nodes. -/
def size (tree : Tree) : Nat := tree.nodes.size

/-- Whether there is no node, which no document admits: its root is a node. -/
def isEmpty (tree : Tree) : Bool := tree.nodes.isEmpty

/-- Whether a handle denotes a node of the tree. -/
def contains (tree : Tree) (handle : Handle) : Bool := handle < tree.size

/-- The node of a handle, if the tree has one. -/
def node? (tree : Tree) (handle : Handle) : Option Node := tree.nodes[handle]?

/-- The node of a handle that is to be in the tree. -/
def node (tree : Tree) (handle : Handle) : Except Fault Node :=
  match tree.node? handle with
  | some node => .ok node
  | none => .error .outOfRange

/-- Whether the handle denotes an attribute. -/
def isAttr (tree : Tree) (handle : Handle) : Except Fault Bool :=
  return (← tree.node handle).content.isAttr

/-- The nodes met from `next` on along the sibling links, at most `left` of them. -/
def siblingsFrom (tree : Tree) : (left : Nat) → (next : Option Handle) → List Handle
  | 0, _ => []
  | _ + 1, none => []
  | left + 1, some handle =>
    handle :: siblingsFrom tree left ((tree.node? handle).bind Node.nextSibling)

/-- The children of a node, first to last. A tree cannot hold more of them than it has nodes. -/
def children (tree : Tree) (handle : Handle) : List Handle :=
  tree.siblingsFrom tree.size ((tree.node? handle).bind Node.firstChild)

/-- Whether the handle denotes an element. -/
def isElement (tree : Tree) (handle : Handle) : Bool :=
  (tree.node? handle).any fun node => node.content.isElement

/-- The name of the node of a handle. -/
def name? (tree : Tree) (handle : Handle) : Option String :=
  (tree.node? handle).bind fun node => node.content.name?

/-- The document's first child that is an element. -/
def documentElement (tree : Tree) : Option Handle :=
  (tree.children Handle.root).find? tree.isElement

/-- The value of the node of a handle. -/
def value? (tree : Tree) (handle : Handle) : Option String :=
  (tree.node? handle).map fun node => node.content.value

/-- The first attribute of the given name that a node has. -/
def attributeOf (tree : Tree) (node : Node) (name : String) : Option Handle :=
  node.attributes.toList.find? fun attr => tree.name? attr == some name

/-- The first attribute of the given name at a handle that is to be in the tree. -/
def attributeNamed (tree : Tree) (handle : Handle) (name : String) :
    Except Fault (Option Handle) :=
  return tree.attributeOf (← tree.node handle) name

/-- The values of the text nodes among the handles from `first` up to `stop`. -/
def textsWithin (tree : Tree) (first stop : Handle) : List String :=
  (List.range' first (stop - first)).filterMap fun handle =>
    (tree.node? handle).bind fun node => node.content.text?

/-- The text of all text nodes below a document or an element, and any other node's own value. -/
def stringValue (tree : Tree) (handle : Handle) : Except Fault String := do
  let node ← tree.node handle
  return match node.content with
    | .document | .element _ => String.join (tree.textsWithin (handle + 1) node.stop)
    | .attr _ value | .text value | .comment value => value

end Tree

end XPathWalk

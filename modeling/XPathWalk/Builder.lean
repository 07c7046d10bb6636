/-
**Building a document in document order.**

A builder takes one call after another, each adding a node to the innermost open element or ending
that element. A new node gets the next free handle, so handles count in document order.

* `Builder.perform`: the effect of one call, or the fault of a call that is out of place;
* `Builder.build`: closing what is still open and giving the tree;
* `Tree.ofCalls`: the tree of a whole list of calls.
-/

import XPathWalk.LogEvent
import XPathWalk.Tree

namespace XPathWalk

/-- A step in writing down a document. -/
inductive BuildCall where
  /-- Opens an element. -/
  | element (name : String)
  /-- Adds an attribute to the innermost open element, which must not have a child yet. -/
  | attr (name value : String)
  | text (value : String)
  | comment (value : String)
  /-- Ends the innermost open element. -/
  | finish
  deriving DecidableEq, Repr

/-- A document under construction: the nodes so far and the open elements, innermost first. The
document node is open throughout and is not listed. -/
structure Builder where
  nodes : Array Node := #[{ content := .document }]
  opened : List Handle := []
  deriving DecidableEq, Repr

namespace Builder

/-- The innermost open node. -/
def current (builder : Builder) : Handle := builder.opened.headD Handle.root

/-- Adds a child to `parent` behind its last child and sets the links of both and of the sibling
before it. -/
def appendTo (nodes : Array Node) (parent : Handle) (content : Content) : Array Node :=
  let fresh := nodes.size
  let previous := nodes[parent]?.bind Node.lastChild
  let linked := match previous with
    | some sibling => nodes.modify sibling fun node => { node with nextSibling := some fresh }
    | none => nodes.modify parent fun node => { node with firstChild := some fresh }
  (linked.modify parent fun node => { node with lastChild := some fresh }).push
    { content, parent := some parent, previousSibling := previous, stop := fresh + 1 }

/-- Adds a child to the innermost open node. -/
def append (builder : Builder) (content : Content) : Builder :=
  let parent := builder.current
  let ⟨nodes, opened⟩ := builder
  { nodes := appendTo nodes parent content, opened }

/-- Adds an element and opens it. The node added last has the last handle. -/
def element (builder : Builder) (name : String) : Builder :=
  let ⟨nodes, opened⟩ := builder.append (.element name)
  { nodes, opened := (nodes.size - 1) :: opened }

/-- Adds an attribute to the innermost open node, provided that this is an element without
children. -/
def attr (builder : Builder) (name value : String) : Except Fault Builder :=
  let owner := builder.current
  match builder.nodes[owner]? with
  | none => .error .outOfRange
  | some node =>
    if !node.content.isElement then .error .attributeOutsideElement
    else if node.firstChild.isSome then .error .attributeAfterChild
    else
      let ⟨nodes, opened⟩ := builder
      let fresh := nodes.size
      .ok
        { nodes :=
            (nodes.modify owner fun node =>
              { node with attributes := node.attributes.push fresh }).push
              { content := .attr name value, parent := some owner, stop := fresh + 1 }
          opened }

/-- The subtree of a node that is being closed ends with the nodes so far. -/
def close (nodes : Array Node) (handle : Handle) : Array Node :=
  let stop := nodes.size
  nodes.modify handle fun node => { node with stop }

/-- Ends the innermost open element. -/
def finish : Builder → Except Fault Builder
  | ⟨_, []⟩ => .error .nothingToEnd
  | ⟨nodes, handle :: opened⟩ => .ok { nodes := close nodes handle, opened }

/-- The effect of one call. -/
def perform (builder : Builder) : BuildCall → Except Fault Builder
  | .element name => .ok (builder.element name)
  | .attr name value => builder.attr name value
  | .text value => .ok (builder.append (.text value))
  | .comment value => .ok (builder.append (.comment value))
  | .finish => builder.finish

/-- The effect of calls in a row, up to the first that is out of place. -/
def run (builder : Builder) (calls : List BuildCall) : Except Fault Builder :=
  calls.foldlM perform builder

/-- Closes the open elements and the document, and gives the tree. -/
def build (builder : Builder) : Logged Tree :=
  let ⟨nodes, opened⟩ := builder
  let closed := close (opened.foldl close nodes) Handle.root
  { value := ⟨closed⟩, log := [.treeBuilt closed.size] }

end Builder

/-- The tree that a list of calls writes down. -/
def Tree.ofCalls (calls : List BuildCall) : Except Fault (Logged Tree) :=
  return (← Builder.run {} calls).build

end XPathWalk

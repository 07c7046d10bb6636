/-
**Documents as nested lists, and the table of nodes that each stands for.**

A document is a list of nodes in which an element holds a list of its own. Two things are read off
it by recursion: the calls that write it down, depth first, and the rows of its table of nodes. The
rows are given outright, with every link in place, and are no effect of the calls.

* `Document.calls`: element, its attributes, its children, end;
* `Document.rows`: the rows of a list of siblings, from the handle of the first on;
* `Frame.rows`: the rows of one container, which may still be open for a further child;
* `Tree.ofDocument`: the tree of a document.
-/

import XPathWalk.Builder

namespace XPathWalk

/-- A list of nodes: it is empty, or a first node is followed by the others. -/
inductive Document where
  | empty
  | element (name : String) (attributes : List (String × String)) (children rest : Document)
  | text (value : String) (rest : Document)
  | comment (value : String) (rest : Document)
  deriving DecidableEq, Repr

namespace Document

/-- The nodes of one list and then those of another. -/
def append : Document → Document → Document
  | empty, second => second
  | element name attributes children rest, second =>
    element name attributes children (rest.append second)
  | text value rest, second => text value (rest.append second)
  | comment value rest, second => comment value (rest.append second)

instance : Append Document := ⟨append⟩

/-- The calls that write a list of nodes down. -/
def calls : Document → List BuildCall
  | empty => []
  | element name attributes children rest =>
    .element name :: (attributes.map fun pair => .attr pair.1 pair.2) ++
      (children.calls ++ .finish :: rest.calls)
  | text value rest => .text value :: rest.calls
  | comment value rest => .comment value :: rest.calls

/-- The number of nodes at any depth, attributes included. -/
def size : Document → Nat
  | empty => 0
  | element _ attributes children rest => 1 + attributes.length + children.size + rest.size
  | text _ rest | comment _ rest => 1 + rest.size

/-- The handle of the first node, or of what comes next if there is none. -/
def headOf (first : Handle) (next : Option Handle) : Document → Option Handle
  | empty => next
  | _ => some first

/-- The handle of the last node, or of what comes before if there is none. -/
def lastOf (first : Handle) (previous : Option Handle) : Document → Option Handle
  | empty => previous
  | element _ attributes children rest =>
    rest.lastOf (first + 1 + attributes.length + children.size) (some first)
  | text _ rest | comment _ rest => rest.lastOf (first + 1) (some first)

end Document

/-- An element or the document node, with the children that it has so far. -/
structure Frame where
  content : Content
  attributes : List (String × String) := []
  children : Document := .empty
  deriving DecidableEq, Repr

/-- The rows of attributes from a handle on. -/
def attributeRows (owner first : Handle) : List (String × String) → List Node
  | [] => []
  | (name, value) :: rest =>
    { content := .attr name value, parent := some owner, stop := first + 1 } ::
      attributeRows owner (first + 1) rest

namespace Frame

/-- The number of nodes of a container and below it. -/
def size (frame : Frame) : Nat := 1 + frame.attributes.length + frame.children.size

/-- The handle of a container's first child if it has one. -/
def start (frame : Frame) (handle : Handle) : Handle := handle + 1 + frame.attributes.length

/-- The handle of a container's last child so far. -/
def lastChild (frame : Frame) (handle : Handle) : Option Handle :=
  frame.children.lastOf (frame.start handle) none

/-- The row of a container. A further child that is still being written has the handle `opened`. -/
def row (frame : Frame) (handle : Handle) (parent previous next opened : Option Handle)
    (stop : Handle) : Node where
  content := frame.content
  parent := parent
  firstChild := frame.children.headOf (frame.start handle) opened
  lastChild := opened.or (frame.lastChild handle)
  nextSibling := next
  previousSibling := previous
  attributes := (List.range' (handle + 1) frame.attributes.length).toArray
  stop := stop

end Frame

/-- The row of a node without attributes and children. -/
def leafRow (content : Content) (handle parent : Handle) (previous next : Option Handle) : Node where
  content := content
  parent := some parent
  nextSibling := next
  previousSibling := previous
  stop := handle + 1

/-- The rows of a list of siblings and of everything below them. -/
def Document.rows (first parent : Handle) (previous next : Option Handle) : Document → List Node
  | empty => []
  | element name attributes children rest =>
    let frame : Frame := { content := .element name, attributes, children }
    let stop := first + frame.size
    frame.row first (some parent) previous (rest.headOf stop next) none stop ::
      (attributeRows first (first + 1) attributes ++
        children.rows (frame.start first) first none none) ++
      rest.rows stop parent (some first) next
  | text value rest =>
    leafRow (.text value) first parent previous (rest.headOf (first + 1) next) ::
      rest.rows (first + 1) parent (some first) next
  | comment value rest =>
    leafRow (.comment value) first parent previous (rest.headOf (first + 1) next) ::
      rest.rows (first + 1) parent (some first) next

/-- The rows of a container, its attributes and its children so far. -/
def Frame.rows (frame : Frame) (handle : Handle) (parent previous next opened : Option Handle)
    (stop : Handle) : List Node :=
  frame.row handle parent previous next opened stop ::
    (attributeRows handle (handle + 1) frame.attributes ++
      frame.children.rows (frame.start handle) handle none opened)

/-- The document node with a document below it. -/
def Document.frame (document : Document) : Frame := { content := .document, children := document }

/-- The tree of a document. -/
def Tree.ofDocument (document : Document) : Tree where
  nodes := (document.frame.rows Handle.root none none none none document.frame.size).toArray

/-! ### Appending -/

namespace Document

@[simp] theorem empty_append (second : Document) : empty ++ second = second := rfl

@[simp] theorem element_append (name : String) (attributes : List (String × String))
    (children rest second : Document) :
    element name attributes children rest ++ second =
      element name attributes children (rest ++ second) := rfl

@[simp] theorem text_append (value : String) (rest second : Document) :
    text value rest ++ second = text value (rest ++ second) := rfl

@[simp] theorem comment_append (value : String) (rest second : Document) :
    comment value rest ++ second = comment value (rest ++ second) := rfl

@[simp] theorem append_empty (document : Document) : document ++ empty = document := by
  induction document with
  | empty => rfl
  | element name attributes children rest _ ih => rw [element_append, ih]
  | text value rest ih => rw [text_append, ih]
  | comment value rest ih => rw [comment_append, ih]

theorem append_assoc (first second third : Document) :
    first ++ second ++ third = first ++ (second ++ third) := by
  induction first with
  | empty => rfl
  | element name attributes children rest _ ih => simp only [element_append, ih]
  | text value rest ih => simp only [text_append, ih]
  | comment value rest ih => simp only [comment_append, ih]

/-- Writing two lists in a row is writing one and then the other. -/
@[simp] theorem calls_append (first second : Document) :
    (first ++ second).calls = first.calls ++ second.calls := by
  induction first with
  | empty => rfl
  | element name attributes children rest _ ih => simp [calls, ih]
  | text value rest ih => simp [calls, ih]
  | comment value rest ih => simp [calls, ih]

theorem headOf_append (first : Handle) (next : Option Handle) (before after : Document) :
    (before ++ after).headOf first next =
      before.headOf first (after.headOf (first + before.size) next) := by
  cases before <;> rfl

theorem headOf_of_nonempty {document : Document} (nonempty : document ≠ .empty) (first : Handle)
    (next : Option Handle) : document.headOf first next = some first := by
  cases document with
  | empty => exact absurd rfl nonempty
  | element name attributes children rest => rfl
  | text value rest => rfl
  | comment value rest => rfl

theorem lastOf_append (before after : Document) (first : Handle) (previous : Option Handle) :
    (before ++ after).lastOf first previous =
      after.lastOf (first + before.size) (before.lastOf first previous) := by
  induction before generalizing first previous with
  | empty => rfl
  | element name attributes children rest _ ih =>
    simp only [element_append, lastOf, ih, size, Nat.add_assoc]
  | text value rest ih => simp only [text_append, lastOf, ih, size, Nat.add_assoc]
  | comment value rest ih => simp only [comment_append, lastOf, ih, size, Nat.add_assoc]

end Document

/-! ### The rows of a container -/

/-- An element's rows are those of a container, followed by those of the further siblings. -/
theorem Document.rows_element (first parent : Handle) (previous next : Option Handle)
    (name : String) (attributes : List (String × String)) (children rest : Document) :
    (element name attributes children rest).rows first parent previous next =
      let frame : Frame := { content := .element name, attributes, children }
      frame.rows first (some parent) previous (rest.headOf (first + frame.size) next) none
          (first + frame.size) ++
        rest.rows (first + frame.size) parent (some first) next := rfl

@[simp] theorem length_attributeRows (owner first : Handle) (attributes : List (String × String)) :
    (attributeRows owner first attributes).length = attributes.length := by
  induction attributes generalizing first with
  | nil => rfl
  | cons pair rest ih => simp [attributeRows, ih]

theorem attributeRows_append (owner first : Handle) (before after : List (String × String)) :
    attributeRows owner first (before ++ after) =
      attributeRows owner first before ++ attributeRows owner (first + before.length) after := by
  induction before generalizing first with
  | nil => rfl
  | cons pair rest ih =>
    simp only [List.cons_append, attributeRows, ih, List.length_cons, Nat.add_right_comm first 1,
      Nat.add_assoc]

/-- A document has a row for each of its nodes. -/
@[simp] theorem Document.length_rows (document : Document) (first parent : Handle)
    (previous next : Option Handle) :
    (document.rows first parent previous next).length = document.size := by
  induction document generalizing first parent previous next with
  | empty => rfl
  | element name attributes children rest ihChildren ihRest =>
    simp only [rows, List.length_append, List.length_cons, length_attributeRows, ihChildren, ihRest,
      size]
    omega
  | text value rest ih => simp [rows, ih, size, Nat.add_comm]
  | comment value rest ih => simp [rows, ih, size, Nat.add_comm]

@[simp] theorem Frame.length_rows (frame : Frame) (handle : Handle)
    (parent previous next opened : Option Handle) (stop : Handle) :
    (frame.rows handle parent previous next opened stop).length = frame.size := by
  simp only [rows, List.length_cons, List.length_append, length_attributeRows,
    Document.length_rows, size]
  omega

/-- **Rows of siblings in a row**: the siblings that come first know of those that follow. -/
theorem Document.rows_append (before after : Document) (first parent : Handle)
    (previous next : Option Handle) :
    (before ++ after).rows first parent previous next =
      before.rows first parent previous (after.headOf (first + before.size) next) ++
        after.rows (first + before.size) parent (before.lastOf first previous) next := by
  induction before generalizing first previous with
  | empty => rfl
  | element name attributes children rest _ ih =>
    simp only [element_append, rows_element, ih, headOf_append, List.append_assoc, lastOf, size,
      Frame.size, Nat.add_assoc]
  | text value rest ih =>
    simp only [text_append, rows, ih, headOf_append, List.cons_append, lastOf, size, Nat.add_assoc]
  | comment value rest ih =>
    simp only [comment_append, rows, ih, headOf_append, List.cons_append, lastOf, size,
      Nat.add_assoc]

@[simp] theorem Tree.size_ofDocument (document : Document) :
    (ofDocument document).size = 1 + document.size := by
  simp [ofDocument, size, Document.frame, Frame.size]

/-- The tree of an element that holds an attribute and a text, row by row. -/
example :
    (Tree.ofDocument (.element "a" [("k", "v")] (.text "t" .empty) .empty)).nodes =
      #[{ content := .document, firstChild := some 1, lastChild := some 1, stop := 4 },
        { content := .element "a", parent := some 0, firstChild := some 3, lastChild := some 3,
          attributes := #[2], stop := 4 },
        { content := .attr "k" "v", parent := some 1, stop := 3 },
        { content := .text "t", parent := some 1, stop := 4 }] := by
  decide

end XPathWalk

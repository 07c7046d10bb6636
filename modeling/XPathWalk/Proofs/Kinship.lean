/-
**The place of every node among its relatives.**

Every node of a built tree is its root, an attribute, or a child, and its row agrees with the rows
of its relatives. Attributes lie right behind their owner and the first child right behind these.
Every further child lies where the subtree of the one before it ends, and the subtree of the last
child ends where that of the parent ends.

* `Tree.Holds`: what a row says of the attributes and of the first child of its node;
* `Tree.Stands`: what it says of the owner, or of the parent and the siblings;
* `laidOut_rows`: the rows of a document agree with each other;
* `Tree.Built.laidOut`: so do those of every built tree.
-/

import XPathWalk.Proofs.AxisNodes
import XPathWalk.Proofs.ReadBack

namespace XPathWalk

/-- The row of an attribute. -/
def attributeRow (owner handle : Handle) (pair : String × String) : Node where
  content := .attr pair.1 pair.2
  parent := some owner
  stop := handle + 1

theorem Document.eq_empty_of_headOf {document : Document} {first : Handle}
    (nothing : document.headOf first none = none) : document = .empty := by
  cases document with
  | empty => rfl
  | element name attributes children rest => cases nothing
  | text value rest => cases nothing
  | comment value rest => cases nothing

/-- The row of a child, which is no attribute, of a given parent. -/
structure Node.IsChild (node : Node) (parent : Handle) : Prop where
  plain : node.content.isAttr = false
  parent : node.parent = some parent

namespace Tree

/-- The attributes of a node lie right behind it, and its first child right behind these. -/
structure Holds (tree : Tree) (handle : Handle) (node : Node) : Prop where
  attributes : node.attributes.toList = List.range' (handle + 1) node.attributes.size
  attr : ∀ attr, handle < attr → attr ≤ handle + node.attributes.size →
    ∃ pair, tree.node? attr = some (attributeRow handle attr pair)
  room : handle + node.attributes.size < node.stop
  childless : node.firstChild = none →
    node.lastChild = none ∧ node.stop = handle + node.attributes.size + 1
  firstChild : ∀ child, node.firstChild = some child → child = handle + node.attributes.size + 1 ∧
    ∃ row, tree.node? child = some row ∧ row.IsChild handle ∧ row.previousSibling = none

/-- A child lies behind the attributes of its parent, between its siblings. -/
structure ChildAt (tree : Tree) (parent : Handle) (owner : Node) (handle : Handle) (node : Node) :
    Prop where
  child : node.IsChild parent
  above : parent + owner.attributes.size < handle
  stop : node.stop ≤ owner.stop
  first : node.previousSibling = none → owner.firstChild = some handle
  previous : ∀ sibling, node.previousSibling = some sibling →
    ∃ row, tree.node? sibling = some row ∧ row.IsChild parent ∧ row.nextSibling = some handle ∧
      row.stop = handle
  last : node.nextSibling = none → owner.lastChild = some handle ∧ node.stop = owner.stop
  next : ∀ sibling, node.nextSibling = some sibling → sibling = node.stop ∧
    ∃ row, tree.node? sibling = some row ∧ row.IsChild parent ∧ row.previousSibling = some handle

/-- A node is the root, an attribute of its owner, or a child of its parent. -/
inductive Stands (tree : Tree) (handle : Handle) (node : Node) : Prop
  | root : handle = Handle.root → node.content = .document → node.parent = none →
    node.previousSibling = none → node.nextSibling = none → node.stop = tree.size →
    Stands tree handle node
  | attr {owner : Handle} {row : Node} {pair : String × String} :
    tree.node? owner = some row → owner < handle → handle ≤ owner + row.attributes.size →
    node = attributeRow owner handle pair → Stands tree handle node
  | child {parent : Handle} {owner : Node} : tree.node? parent = some owner →
    tree.ChildAt parent owner handle node → Stands tree handle node

/-- The row of a handle agrees with the rows around it. -/
structure LaidAt (tree : Tree) (handle : Handle) (node : Node) : Prop where
  holds : tree.Holds handle node
  stands : tree.Stands handle node

/-- A tree in which all rows agree with the rows around them. -/
structure LaidOut (tree : Tree) : Prop where
  linked : tree.Linked
  row : ∀ handle node, tree.node? handle = some node → tree.LaidAt handle node

/-- The rows around a list of siblings that is laid out from `first` on: their parent's, whose
subtree ends with them, and that of the sibling before them. -/
structure Around (tree : Tree) (first parent : Handle) (owner : Node) (previous : Option Handle)
    (document : Document) : Prop where
  found : tree.node? parent = some owner
  above : parent + owner.attributes.size < first
  stop : owner.stop = first + document.size
  last : owner.lastChild = document.lastOf first previous
  head : previous = none → owner.firstChild = document.headOf first none
  before : ∀ sibling, previous = some sibling →
    ∃ row, tree.node? sibling = some row ∧ row.IsChild parent ∧
      row.nextSibling = document.headOf first none ∧ row.stop = first

variable {tree : Tree} {first : Nat}

/-! ### Single rows -/

/-- The first of some siblings is a child of their parent. -/
theorem exists_head {document : Document} {parent : Handle} {previous : Option Handle}
    (has : tree.HasRows first (document.rows first parent previous none)) :
    ∀ child, document.headOf first none = some child → child = first ∧
      ∃ row, tree.node? child = some row ∧ row.IsChild parent ∧ row.previousSibling = previous := by
  intro child found
  cases document with
  | empty => cases found
  | element name attributes children rest =>
    cases found
    exact ⟨rfl, _, has.head, ⟨rfl, rfl⟩, rfl⟩
  | text value rest =>
    cases found
    exact ⟨rfl, _, has.head, ⟨rfl, rfl⟩, rfl⟩
  | comment value rest =>
    cases found
    exact ⟨rfl, _, has.head, ⟨rfl, rfl⟩, rfl⟩

/-- Each of some attributes in a row has the row of an attribute. -/
theorem exists_attributeRow {owner : Handle} {attributes : List (String × String)}
    (has : tree.HasRows first (attributeRows owner first attributes)) (attr : Nat)
    (from_first : first ≤ attr) (below : attr < first + attributes.length) :
    ∃ pair, tree.node? attr = some (attributeRow owner attr pair) := by
  induction attributes generalizing first with
  | nil => exact absurd below (Nat.not_lt_of_le from_first)
  | cons pair rest ih =>
    rcases Nat.eq_or_lt_of_le from_first with rfl | later
    · exact ⟨pair, has.head⟩
    · refine ih has.tail later ?_
      rw [List.length_cons] at below
      omega

/-- A row without attributes and children holds nothing. -/
theorem holds_of_leaf {handle : Handle} {node : Node} (bare : node.attributes = #[])
    (childless : node.firstChild = none) (last : node.lastChild = none)
    (stop : node.stop = handle + 1) : tree.Holds handle node := by
  refine ⟨?_, ?_, ?_, fun _ => ⟨last, ?_⟩, ?_⟩
  · rw [bare]
    rfl
  · intro attr behind within
    rw [bare, Array.size_empty, Nat.add_zero] at within
    exact absurd within (Nat.not_le_of_lt behind)
  · rw [bare, stop]
    exact Nat.lt_succ_self handle
  · rw [bare, stop]
    rfl
  · intro child some_child
    rw [childless] at some_child
    cases some_child

/-- The child at the head of a list of siblings stands where the rows around the list say. -/
theorem Around.childAt {parent : Handle} {owner node : Node} {previous : Option Handle}
    {document rest : Document} {stop : Nat}
    (around : tree.Around first parent owner previous document)
    (head : document.headOf first none = some first) (ends : node.stop = stop)
    (whole : first + document.size = stop + rest.size)
    (last : document.lastOf first previous = rest.lastOf stop (some first))
    (child : node.IsChild parent) (before : node.previousSibling = previous)
    (behind : node.nextSibling = rest.headOf stop none)
    (has : tree.HasRows stop (rest.rows stop parent (some first) none)) :
    tree.ChildAt parent owner first node where
  child := child
  above := around.above
  stop := by
    rw [around.stop, whole, ends]
    exact Nat.le_add_right _ _
  first alone := (around.head (before ▸ alone)).trans head
  previous sibling link := by
    obtain ⟨row, found, isChild, next, stop⟩ := around.before sibling (before ▸ link)
    exact ⟨row, found, isChild, next.trans head, stop⟩
  last alone := by
    obtain rfl := Document.eq_empty_of_headOf (behind.symm.trans alone)
    exact ⟨around.last.trans last, ends.trans (around.stop.trans whole).symm⟩
  next sibling link := by
    rw [ends]
    exact exists_head has sibling (behind ▸ link)

/-- Behind the head of a list of siblings lie the others. -/
theorem Around.tail {parent : Handle} {owner node : Node} {previous : Option Handle}
    {document rest : Document} {stop : Nat}
    (around : tree.Around first parent owner previous document)
    (found : tree.node? first = some node) (ends : node.stop = stop) (later : first < stop)
    (whole : first + document.size = stop + rest.size)
    (last : document.lastOf first previous = rest.lastOf stop (some first))
    (child : node.IsChild parent) (behind : node.nextSibling = rest.headOf stop none) :
    tree.Around stop parent owner (some first) rest where
  found := around.found
  above := Nat.lt_trans around.above later
  stop := around.stop.trans whole
  last := around.last.trans last
  head := by rintro ⟨⟩
  before := by
    rintro sibling ⟨⟩
    exact ⟨node, found, child, behind, ends⟩

/-- The leaf at the head of a list of siblings agrees with the rows around it, and the others lie
behind it. -/
theorem Around.leaf {content : Content} {parent : Handle} {owner : Node}
    {previous : Option Handle} {document rest : Document}
    (around : tree.Around first parent owner previous document)
    (head : document.headOf first none = some first) (counted : document.size = 1 + rest.size)
    (last : document.lastOf first previous = rest.lastOf (first + 1) (some first))
    (plain : content.isAttr = false)
    (has : tree.HasRows first (leafRow content first parent previous
      (rest.headOf (first + 1) none) :: rest.rows (first + 1) parent (some first) none)) :
    (∀ node, tree.node? first = some node → tree.LaidAt first node) ∧
      tree.Around (first + 1) parent owner (some first) rest := by
  have whole : first + document.size = first + 1 + rest.size := by rw [counted, Nat.add_assoc]
  refine ⟨fun node found => ?_,
    around.tail has.head rfl (Nat.lt_succ_self first) whole last ⟨plain, rfl⟩ rfl⟩
  have row := has.head
  rw [found] at row
  cases row
  exact ⟨holds_of_leaf rfl rfl rfl rfl,
    .child around.found (around.childAt head rfl whole last ⟨plain, rfl⟩ rfl rfl has.tail)⟩

/-! ### Containers -/

section Frame

variable {frame : Frame} {parent previous next : Option Handle} {stop : Nat}

@[simp] theorem size_attributes_row :
    (frame.row first parent previous next none stop).attributes.size = frame.attributes.length := by
  rw [Frame.row, List.size_toArray, List.length_range']

/-- A container holds its attributes and its children. -/
theorem holds_frame (whole : stop = first + frame.size)
    (has : tree.HasRows first (frame.rows first parent previous next none stop)) :
    tree.Holds first (frame.row first parent previous next none stop) := by
  have attributes := has.tail.append.1
  have children := has.tail.append.2
  rw [length_attributeRows] at children
  have filled : frame.size = 1 + frame.attributes.length + frame.children.size := rfl
  have place : first + frame.attributes.length + 1 = frame.start first := Nat.add_right_comm ..
  refine ⟨?_, ?_, ?_, ?_, ?_⟩
  · rw [size_attributes_row, Frame.row]
  · intro attr behind within
    rw [size_attributes_row] at within
    exact exists_attributeRow attributes attr behind
      (by rwa [Nat.add_right_comm, Nat.lt_succ_iff])
  · rw [size_attributes_row]
    show first + frame.attributes.length < stop
    omega
  · intro alone
    have nothing : frame.children = .empty := Document.eq_empty_of_headOf alone
    rw [nothing, Document.size] at filled
    rw [size_attributes_row]
    refine ⟨?_, ?_⟩
    · rw [Frame.row, Frame.lastChild, nothing]
      rfl
    · show stop = first + frame.attributes.length + 1
      omega
  · intro child link
    rw [size_attributes_row, place]
    exact exists_head children child link

/-- The rows around the children of a container. -/
theorem around_children (whole : stop = first + frame.size)
    (has : tree.HasRows first (frame.rows first parent previous next none stop)) :
    tree.Around (frame.start first) first (frame.row first parent previous next none stop) none
      frame.children where
  found := has.head
  above := by
    rw [size_attributes_row]
    show first + frame.attributes.length < first + 1 + frame.attributes.length
    omega
  stop := by
    show stop = first + 1 + frame.attributes.length + frame.children.size
    rw [whole, Frame.size]
    omega
  last := rfl
  head _ := rfl
  before := by rintro sibling ⟨⟩

/-- The attributes of a container lie behind it. -/
theorem laidAt_attribute
    (has : tree.HasRows first (frame.rows first parent previous next none stop)) (attr : Nat)
    (behind : first < attr) (within : attr ≤ first + frame.attributes.length) (node : Node)
    (found : tree.node? attr = some node) : tree.LaidAt attr node := by
  obtain ⟨pair, row⟩ := exists_attributeRow has.tail.append.1 attr behind
    (by rwa [Nat.add_right_comm, Nat.lt_succ_iff])
  rw [found] at row
  cases row
  refine ⟨holds_of_leaf rfl rfl rfl rfl, .attr has.head behind ?_ rfl⟩
  rwa [size_attributes_row]

end Frame

/-! ### Documents -/

/-- **The rows of a document agree with each other** if they agree with the rows around them. -/
theorem laidOut_rows (document : Document) {parent : Handle} {owner : Node}
    {previous : Option Handle} (around : tree.Around first parent owner previous document)
    (has : tree.HasRows first (document.rows first parent previous none)) (handle : Nat)
    (from_first : first ≤ handle) (below : handle < first + document.size) (node : Node)
    (found : tree.node? handle = some node) : tree.LaidAt handle node := by
  induction document generalizing first parent owner previous with
  | empty => exact absurd below (Nat.not_lt_of_le from_first)
  | element name attributes children rest ihChildren ihRest =>
    rw [Document.rows_element] at has
    obtain ⟨hasFrame, hasRest⟩ := has.append
    rw [Frame.length_rows] at hasRest
    have filled : Frame.size { content := .element name, attributes, children } =
        1 + attributes.length + children.size := rfl
    have whole : first + (Document.element name attributes children rest).size =
        first + Frame.size { content := .element name, attributes, children } + rest.size := by
      rw [Document.size, filled, Nat.add_assoc first]
    have last : (Document.element name attributes children rest).lastOf first previous =
        rest.lastOf (first + Frame.size { content := .element name, attributes, children })
          (some first) := by
      rw [Document.lastOf, filled, ← Nat.add_assoc, ← Nat.add_assoc]
    -- The handle is that of the element or of an attribute, or lies among the children or the rest.
    rcases Nat.eq_or_lt_of_le from_first with rfl | later
    · have head := hasFrame.head
      rw [found] at head
      cases head
      exact ⟨holds_frame rfl hasFrame,
        .child around.found (around.childAt rfl rfl whole last ⟨rfl, rfl⟩ rfl rfl hasRest)⟩
    · rcases Nat.lt_or_ge (first + attributes.length) handle with behind | within
      · rcases Nat.lt_or_ge handle (first + 1 + attributes.length + children.size) with
          inner | outer
        · have hasChildren := hasFrame.tail.append.2
          rw [length_attributeRows] at hasChildren
          refine ihChildren (around_children rfl hasFrame) hasChildren ?_ inner
          rwa [Frame.start, Nat.add_right_comm]
        · have above : first <
              first + Frame.size { content := .element name, attributes, children } := by omega
          have past := around.tail hasFrame.head rfl above whole last ⟨rfl, rfl⟩ rfl
          refine ihRest past hasRest ?_ (whole ▸ below)
          rwa [filled, ← Nat.add_assoc, ← Nat.add_assoc]
      · exact laidAt_attribute hasFrame handle later within node found
  | text value rest ih =>
    obtain ⟨here, past⟩ := around.leaf rfl rfl rfl rfl has
    rcases Nat.eq_or_lt_of_le from_first with rfl | later
    · exact here node found
    · exact ih past has.tail later (by rwa [Document.size, ← Nat.add_assoc] at below)
  | comment value rest ih =>
    obtain ⟨here, past⟩ := around.leaf rfl rfl rfl rfl has
    rcases Nat.eq_or_lt_of_le from_first with rfl | later
    · exact here node found
    · exact ih past has.tail later (by rwa [Document.size, ← Nat.add_assoc] at below)

/-- The tree of a document is laid out. -/
theorem laidOut_ofDocument (document : Document) : (ofDocument document).LaidOut := by
  have has := hasRows_ofDocument document
  have counted := size_ofDocument document
  have whole : document.frame.size = Handle.root + document.frame.size := (Nat.zero_add _).symm
  have holds := holds_frame whole has
  refine ⟨linked_ofDocument document, fun handle node found => ?_⟩
  rcases Nat.eq_zero_or_pos handle with rfl | inner
  · have head := has.head
    rw [Handle.root, found] at head
    cases head
    exact ⟨holds, .root rfl rfl rfl rfl rfl counted.symm⟩
  · refine laidOut_rows document (around_children whole has) has.tail.append.2 handle inner ?_ node
      found
    have member := lt_size_of_node found
    rwa [counted] at member

/-- **Every built tree is laid out.** -/
theorem Built.laidOut {tree : Tree} (built : tree.Built) : tree.LaidOut := by
  obtain ⟨document, rfl⟩ := built.exists_document
  exact laidOut_ofDocument document

end Tree

end XPathWalk

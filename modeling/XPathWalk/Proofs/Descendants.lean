/-
**What lies below a node, by its range and by links.**

The descendant axis takes the handles of a range and leaves the attributes out. The same list comes
from the children, each followed by what lies below it, and from the walk that goes down to a first
child before it goes on to the next sibling: the subtrees of the children tile the range of their
parent behind its attributes.

* `Content.isContainer`: documents and elements, which alone have anything below them;
* `Tree.preorder`: the walk along first children and next siblings;
* `childless_of_leaf`: a node of a built tree that is no container has no children;
* `LaidOut.descendant_eq_range`: the range of a node from its first child on;
* `LaidOut.descendant_eq_flatMap`: the children with what lies below them;
* `LaidOut.preorder_eq_range`, `LaidOut.descendant_eq_preorder`: the walk yields the range;
* `descendants_of_built`: the same for what the walks of a built tree yield. With the node itself in
  front, what lies below it is the descendant-or-self axis. No attribute is ever among it, and there
  is nothing below attributes, texts and comments.
-/

import XPathWalk.Proofs.Siblings

namespace XPathWalk

/-- Documents and elements hold other nodes. -/
def Content.isContainer : Content → Bool
  | document | element _ => true
  | attr _ _ | text _ | comment _ => false

/-- A row without children, unless it is that of a container. -/
def Node.ChildlessLeaf (node : Node) : Prop :=
  node.content.isContainer = false → node.firstChild = none

/-! ### Nodes without children -/

theorem childlessLeaf_attributeRows (owner first : Handle) (attributes : List (String × String)) :
    ∀ row ∈ attributeRows owner first attributes, row.ChildlessLeaf := by
  induction attributes generalizing first with
  | nil => exact fun _ member => absurd member List.not_mem_nil
  | cons pair rest ih => exact List.forall_mem_cons.mpr ⟨fun _ => rfl, ih (first + 1)⟩

/-- A container has the rows of its children behind those of its attributes. -/
theorem childlessLeaf_frame {frame : Frame} (container : frame.content.isContainer)
    {handle : Handle} (parent previous next : Option Handle) (stop : Handle)
    (below : ∀ row ∈ frame.children.rows (frame.start handle) handle none none,
      row.ChildlessLeaf) :
    ∀ row ∈ frame.rows handle parent previous next none stop, row.ChildlessLeaf := by
  refine List.forall_mem_cons.mpr ⟨fun leaf => ?_, List.forall_mem_append.mpr ⟨?_, below⟩⟩
  · exact absurd (leaf.symm.trans container) Bool.false_ne_true
  · exact childlessLeaf_attributeRows handle (handle + 1) frame.attributes

theorem childlessLeaf_rows (document : Document) (first parent : Handle)
    (previous next : Option Handle) :
    ∀ row ∈ document.rows first parent previous next, row.ChildlessLeaf := by
  induction document generalizing first parent previous next with
  | empty => exact fun _ member => absurd member List.not_mem_nil
  | element name attributes children rest ihChildren ihRest =>
    rw [Document.rows_element]
    refine List.forall_mem_append.mpr ⟨?_, ihRest _ _ _ _⟩
    exact childlessLeaf_frame rfl _ _ _ _ (ihChildren _ _ _ _)
  | text value rest ih => exact List.forall_mem_cons.mpr ⟨fun _ => rfl, ih _ _ _ _⟩
  | comment value rest ih => exact List.forall_mem_cons.mpr ⟨fun _ => rfl, ih _ _ _ _⟩

namespace Tree

/-- The nodes met from `next` on by going down to the first child before going on to the next
sibling, over at most `left` links in a row. -/
def preorder (tree : Tree) : (left : Nat) → (next : Option Handle) → List Handle
  | 0, _ => []
  | _ + 1, none => []
  | left + 1, some handle =>
    handle :: (preorder tree left ((tree.node? handle).bind Node.firstChild) ++
      preorder tree left ((tree.node? handle).bind Node.nextSibling))

variable {tree : Tree} {handle parent : Nat} {node owner : Node}

/-- **A node that is no container has no children**, in every built tree. -/
theorem Built.childless_of_leaf (built : tree.Built) (found : tree.node? handle = some node)
    (leaf : node.content.isContainer = false) : node.firstChild = none := by
  obtain ⟨document, rfl⟩ := built.exists_document
  rw [node?, ofDocument, List.getElem?_toArray] at found
  exact childlessLeaf_frame rfl none none none document.frame.size
    (childlessLeaf_rows document _ _ _ _) node (List.mem_of_getElem? found) leaf

@[simp] theorem preorder_none (left : Nat) : tree.preorder left none = [] := by cases left <;> rfl

/-- Reading a node and what lies below it begins with the node. -/
theorem axisNodes_descendantOrSelf (found : tree.node? handle = some node) :
    tree.axisNodes .descendantOrSelf handle = handle :: tree.axisNodes .descendant handle := by
  rw [axisNodes, axisNodes, found, Option.elim_some, Option.elim_some]

namespace LaidOut

/-! ### The range behind the attributes -/

/-- What lies below a node begins with its first child. -/
theorem descendant_eq_range (laid : tree.LaidOut) (top : tree.node? parent = some owner) :
    tree.axisNodes .descendant parent =
      owner.firstChild.elim [] fun first => tree.plainFrom first (owner.stop - first) := by
  have holds := (laid.row parent owner top).holds
  rw [axisNodes, top, Option.elim_some,
    plainFrom_split (Nat.succ_le_succ (Nat.le_add_right parent owner.attributes.size)) holds.room,
    plainFrom_of_attributes (laid.attributes_between top), List.nil_append]
  cases link : owner.firstChild with
  | none => rw [(holds.childless link).2, Nat.sub_self, plainFrom_zero, Option.elim_none]
  | some first => rw [(holds.firstChild first link).1, Option.elim_some]

/-- A child with what lies below it comes before the rest of the range of its parent. -/
theorem range_eq_cons (laid : tree.LaidOut) (top : tree.node? parent = some owner)
    (found : tree.node? handle = some node) (child : node.IsChild parent) :
    tree.plainFrom handle (owner.stop - handle) =
      tree.axisNodes .descendantOrSelf handle ++
        tree.plainFrom node.stop (owner.stop - node.stop) := by
  have place := laid.childAt found top child
  rw [laid.descendantOrSelf_eq found child.plain]
  exact plainFrom_split (Nat.le_of_lt (laid.lt_stop found)) place.stop

/-! ### By the children -/

/-- **The subtrees of the children tile the range of their parent.** -/
theorem descendant_eq_flatMap (laid : tree.LaidOut) (top : tree.node? parent = some owner) :
    tree.axisNodes .descendant parent =
      (tree.axisNodes .child parent).flatMap fun child =>
        child :: tree.axisNodes .descendant child := by
  have subtrees : ∀ child ∈ tree.axisNodes .child parent,
      tree.axisNodes .descendantOrSelf child = child :: tree.axisNodes .descendant child := by
    intro child member
    obtain ⟨row, there, _⟩ := laid.mem_child_iff.mp member
    exact axisNodes_descendantOrSelf there.found
  rw [← List.flatMap_congr subtrees, laid.descendant_eq_range top, axisNodes_child top]
  cases link : owner.firstChild with
  | none => rw [trail_none, Option.elim_none, List.flatMap_nil]
  | some first =>
    obtain ⟨_, row, entry, child, _⟩ := (laid.row parent owner top).holds.firstChild first link
    rw [Option.elim_some, laid.range_eq_cons top entry child,
      laid.laterSiblings entry top (laid.childAt entry top child),
      trail_some laid.linked.ranks_next entry, List.flatMap_cons]

/-! ### By the links -/

/-- **The walk from a child on reads the rest of the range of its parent.** Both links lead to
higher handles, so a walk of as many links as there are handles left is not cut short. -/
theorem preorder_eq_range (laid : tree.LaidOut) (left : Nat)
    (top : tree.node? parent = some owner) (found : tree.node? handle = some node)
    (child : node.IsChild parent) (enough : tree.size ≤ handle + left) :
    tree.preorder left (some handle) = tree.plainFrom handle (owner.stop - handle) := by
  induction left generalizing handle parent node owner with
  | zero => exact absurd (lt_size_of_node found) (Nat.not_lt_of_le enough)
  | succ left ih =>
    have below : tree.preorder left node.firstChild = tree.axisNodes .descendant handle := by
      rw [laid.descendant_eq_range found]
      cases link : node.firstChild with
      | none => rw [preorder_none, Option.elim_none]
      | some first =>
        obtain ⟨_, row, entry, inner, _⟩ :=
          (laid.row handle node found).holds.firstChild first link
        have deeper := ((laid.linked.row handle node found).child first link).1
        exact ih found entry inner (by omega)
    have behind : tree.preorder left node.nextSibling =
        tree.plainFrom node.stop (owner.stop - node.stop) := by
      have place := laid.childAt found top child
      cases link : node.nextSibling with
      | none => rw [preorder_none, (place.last link).2, Nat.sub_self, plainFrom_zero]
      | some sibling =>
        obtain ⟨rfl, row, entry, next, _⟩ := place.next sibling link
        have later := laid.lt_stop found
        exact ih top entry next (by omega)
    rw [preorder, found, Option.bind_some, Option.bind_some, below, behind,
      laid.range_eq_cons top found child, axisNodes_descendantOrSelf found, List.cons_append]

/-- **What lies below a node is what the walk from its first child reads.** -/
theorem descendant_eq_preorder (laid : tree.LaidOut) (top : tree.node? parent = some owner) :
    tree.axisNodes .descendant parent = tree.preorder tree.size owner.firstChild := by
  rw [laid.descendant_eq_range top]
  cases link : owner.firstChild with
  | none => rw [preorder_none, Option.elim_none]
  | some first =>
    obtain ⟨_, row, entry, child, _⟩ := (laid.row parent owner top).holds.firstChild first link
    exact (laid.preorder_eq_range tree.size top entry child (Nat.le_add_left _ _)).symm

end LaidOut

/-! ### Built trees -/

/-- **The range scan of the descendant axis is the pre-order walk over the links**: the children,
each followed by what lies below it. No attribute is among it. -/
theorem descendants_of_built (built : tree.Built) :
    (∀ axis origin, origin < tree.size →
      tree.walkNodes axis origin = .ok (tree.axisNodes axis origin)) ∧
    ∀ origin node, tree.node? origin = some node →
      tree.axisNodes .descendant origin =
          ((tree.axisNodes .child origin).flatMap fun child =>
            child :: tree.axisNodes .descendant child) ∧
        tree.axisNodes .descendant origin = tree.preorder tree.size node.firstChild ∧
        tree.axisNodes .descendantOrSelf origin = origin :: tree.axisNodes .descendant origin ∧
        (∀ handle ∈ tree.axisNodes .descendant origin, ∃ row, tree.PlainAt handle row) ∧
        (node.content.isContainer = false → tree.axisNodes .descendant origin = []) := by
  have laid := built.laidOut
  refine ⟨?_, fun origin node found => ⟨?_, ?_, ?_, ?_, ?_⟩⟩
  · intro axis origin member
    exact walkNodes_of_lt_size built.linked axis member
  · exact laid.descendant_eq_flatMap found
  · exact laid.descendant_eq_preorder found
  · exact axisNodes_descendantOrSelf found
  · intro handle member
    rw [axisNodes, found, Option.elim_some] at member
    exact exists_plainAt_of_mem_plainFrom (laid.linked.row origin node found).stop member
  · intro leaf
    rw [laid.descendant_eq_preorder found, built.childless_of_leaf found leaf, preorder_none]

/-- Below an element with an attribute lie an element, whose own attribute is left out, a text in
that element, and a comment. -/
theorem descendants_of_built_element :
    ∃ tree : Tree, tree.Built ∧ tree.walkNodes .descendant 1 = .ok [3, 5, 6] ∧
      tree.axisNodes .descendant 1 =
        ((tree.axisNodes .child 1).flatMap fun child => child :: tree.axisNodes .descendant child) ∧
      tree.axisNodes .child 1 = [3, 6] ∧ tree.preorder tree.size (some 3) = [3, 5, 6] ∧
      tree.axisNodes .descendantOrSelf 4 = [4] ∧ tree.axisNodes .descendant 5 = [] := by
  have built := built_ofDocument (.element "a" [("k", "v")]
    (.element "b" [("l", "w")] (.text "t" .empty) (.comment "c" .empty)) .empty)
  obtain ⟨each, below⟩ := descendants_of_built built
  exact ⟨_, built, each .descendant 1 (by decide), (below 1 _ rfl).1, rfl,
    (below 1 _ rfl).2.1.symm, (below 4 _ rfl).2.2.1, (below 5 _ rfl).2.2.2.2 rfl⟩

end Tree

end XPathWalk

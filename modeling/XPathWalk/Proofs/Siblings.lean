/-
**The children of a node as one doubly linked list.**

A child can be reached from its parent along the links to later siblings, and from there the links
to earlier siblings lead back the same way. Every node that names a parent and is no attribute is
met on this way, no other node is, and nothing but such a way has sibling links at all.

* `Tree.Adjacent`: one node directly before another among the children of a third;
* `LaidOut.siblings_split`: what precedes a child, the child, and what follows it are all children;
* `LaidOut.mem_child_iff`: the children of a node are the nodes that name it as their parent;
* `LaidOut.firstChild_eq`, `LaidOut.lastChild_eq`: the two ends of the list;
* `LaidOut.nextSibling_iff`, `LaidOut.previousSibling_iff`: sibling links join neighbours, and only
  these;
* `siblings_of_built`: the same for what the walks of a built tree yield. The children ascend, the
  links to a first and to a last child lead to the ends of their list, and a sibling link leads from
  one node to another exactly if these are neighbours in such a list. So the earlier siblings of a
  child read backward, the child, and its later siblings are the children of its parent. Attributes
  have neither sibling links nor siblings.
-/

import XPathWalk.Proofs.Regions

namespace XPathWalk

namespace Tree

/-- The first of two nodes comes directly before the second among the children of some node. -/
def Adjacent (tree : Tree) (first second : Handle) : Prop :=
  ∃ parent, [first, second] <:+: tree.axisNodes .child parent

variable {tree : Tree} {handle parent : Nat} {node owner : Node}

/-- The children are met from the first one on. -/
theorem axisNodes_child (top : tree.node? parent = some owner) :
    tree.axisNodes .child parent = tree.trail Node.nextSibling owner.firstChild := by
  rw [axisNodes, top, Option.elim_some, children_eq_trail top]

/-- Only nodes of the tree have children. -/
theorem exists_node_of_mem_axisNodes {axis : Axis} (member : handle ∈ tree.axisNodes axis parent) :
    ∃ owner, tree.node? parent = some owner := by
  cases top : tree.node? parent with
  | none =>
    rw [axisNodes, top] at member
    cases member
  | some owner => exact ⟨owner, rfl⟩

namespace LaidOut

/-! ### From one child to the others -/

/-- What is met from a child on are children of the same node. -/
theorem plainAt_of_mem_later (laid : tree.LaidOut) (top : tree.node? parent = some owner)
    (found : tree.node? handle = some node) (child : node.IsChild parent) :
    ∀ other ∈ tree.trail Node.nextSibling (some handle),
      ∃ row, tree.PlainAt other row ∧ row.parent = some parent := by
  induction counted : tree.size - handle using Nat.strongRecOn generalizing handle node with
  | ind left ih =>
    rw [trail_some laid.linked.ranks_next found]
    refine List.forall_mem_cons.mpr ⟨⟨node, ⟨found, child.plain⟩, child.parent⟩, ?_⟩
    cases link : node.nextSibling with
    | none =>
      rw [trail_none]
      exact fun _ met => absurd met List.not_mem_nil
    | some sibling =>
      obtain ⟨_, row, entry, next, _⟩ := (laid.childAt found top child).next sibling link
      have falls := laid.linked.ranks_next.falls handle node sibling found link
      exact ih _ (counted ▸ falls.2) entry next rfl

/-- **From the first child on, every child is met**, behind those to which the links to earlier
siblings lead back. -/
theorem siblings_split (laid : tree.LaidOut) (top : tree.node? parent = some owner)
    (found : tree.node? handle = some node) (child : node.IsChild parent) :
    tree.axisNodes .child parent =
      (tree.trail Node.previousSibling node.previousSibling).reverse ++
        tree.trail Node.nextSibling (some handle) := by
  induction handle using Nat.strongRecOn generalizing node with
  | ind handle ih =>
    have place := laid.childAt found top child
    cases link : node.previousSibling with
    | none => rw [axisNodes_child top, place.first link, trail_none, List.reverse_nil,
        List.nil_append]
    | some sibling =>
      obtain ⟨row, entry, before, next, _⟩ := place.previous sibling link
      have sooner := (laid.linked.row handle node found).previous sibling link
      rw [ih sibling sooner entry before, trail_some laid.linked.ranks_next entry, next,
        trail_some laid.linked.ranks_previous entry, List.reverse_cons, List.append_assoc,
        List.singleton_append]

/-- **The children of a node are the nodes that name it as their parent** and are no attributes. -/
theorem mem_child_iff (laid : tree.LaidOut) :
    handle ∈ tree.axisNodes .child parent ↔
      ∃ row, tree.PlainAt handle row ∧ row.parent = some parent := by
  constructor
  · intro member
    obtain ⟨owner, top⟩ := exists_node_of_mem_axisNodes member
    rw [axisNodes_child top] at member
    cases link : owner.firstChild with
    | none =>
      rw [link, trail_none] at member
      cases member
    | some first =>
      obtain ⟨_, row, entry, child, _⟩ := (laid.row parent owner top).holds.firstChild first link
      rw [link] at member
      exact laid.plainAt_of_mem_later top entry child handle member
  · rintro ⟨row, there, above⟩
    obtain ⟨owner, top, _⟩ := laid.exists_parent_row there.found above
    rw [laid.siblings_split top there.found ⟨there.plain, above⟩,
      trail_some laid.linked.ranks_next there.found]
    exact List.mem_append_right _ List.mem_cons_self

/-- The children of a node have ascending handles. -/
theorem pairwise_child (laid : tree.LaidOut) (parent : Handle) :
    (tree.axisNodes .child parent).Pairwise (· < ·) := by
  cases top : tree.node? parent with
  | none =>
    rw [axisNodes, top]
    exact List.Pairwise.nil
  | some owner =>
    rw [axisNodes_child top]
    exact laid.linked.pairwise_next owner.firstChild

/-! ### The two ends -/

/-- The first child is the first of the children, if there is any. -/
theorem firstChild_eq (laid : tree.LaidOut) (top : tree.node? parent = some owner) :
    owner.firstChild = (tree.axisNodes .child parent).head? := by
  rw [axisNodes_child top]
  cases link : owner.firstChild with
  | none => rw [trail_none, List.head?_nil]
  | some first =>
    obtain ⟨_, row, entry, _⟩ := (laid.row parent owner top).holds.firstChild first link
    rw [trail_some laid.linked.ranks_next entry, List.head?_cons]

/-- What is met from a child on ends with the last child. -/
theorem getLast_later (laid : tree.LaidOut) (top : tree.node? parent = some owner)
    (found : tree.node? handle = some node) (child : node.IsChild parent) :
    (tree.trail Node.nextSibling (some handle)).getLast? = owner.lastChild := by
  induction counted : tree.size - handle using Nat.strongRecOn generalizing handle node with
  | ind left ih =>
    have place := laid.childAt found top child
    rw [trail_some laid.linked.ranks_next found]
    cases link : node.nextSibling with
    | none => rw [trail_none, List.getLast?_singleton, (place.last link).1]
    | some sibling =>
      obtain ⟨_, row, entry, next, _⟩ := place.next sibling link
      have falls := laid.linked.ranks_next.falls handle node sibling found link
      rw [← ih _ (counted ▸ falls.2) entry next rfl, trail_some laid.linked.ranks_next entry,
        List.getLast?_cons_cons]

/-- The last child is the last of the children, if there is any. -/
theorem lastChild_eq (laid : tree.LaidOut) (top : tree.node? parent = some owner) :
    owner.lastChild = (tree.axisNodes .child parent).getLast? := by
  have holds := (laid.row parent owner top).holds
  rw [axisNodes_child top]
  cases link : owner.firstChild with
  | none => rw [trail_none, List.getLast?_nil, (holds.childless link).1]
  | some first =>
    obtain ⟨_, row, entry, child, _⟩ := holds.firstChild first link
    rw [laid.getLast_later top entry child]

/-! ### Neighbours -/

/-- A node with a sibling link is a child. -/
theorem exists_parent_of_sibling (laid : tree.LaidOut) (found : tree.node? handle = some node)
    (linked : node.nextSibling ≠ none ∨ node.previousSibling ≠ none) :
    ∃ parent owner, tree.node? parent = some owner ∧ tree.ChildAt parent owner handle node := by
  cases (laid.row handle node found).stands with
  | root _ _ _ before behind =>
    rcases linked with later | earlier
    · exact absurd behind later
    · exact absurd before earlier
  | attr _ _ _ same =>
    subst same
    rcases linked with later | earlier
    · exact absurd rfl later
    · exact absurd rfl earlier
  | @child parent owner top place => exact ⟨parent, owner, top, place⟩

/-- **A link to a later sibling leads to the neighbour among the children**, and there is one
wherever there is a neighbour. -/
theorem nextSibling_iff (laid : tree.LaidOut) (found : tree.node? handle = some node)
    (other : Handle) : node.nextSibling = some other ↔ tree.Adjacent handle other := by
  constructor
  · intro link
    obtain ⟨parent, owner, top, place⟩ :=
      laid.exists_parent_of_sibling found (.inl (link ▸ Option.some_ne_none other))
    obtain ⟨_, row, entry, _⟩ := place.next other link
    refine ⟨parent, (tree.trail Node.previousSibling node.previousSibling).reverse,
      tree.trail Node.nextSibling row.nextSibling, ?_⟩
    rw [laid.siblings_split top found place.child, trail_some laid.linked.ranks_next found, link,
      trail_some laid.linked.ranks_next entry, List.append_assoc]
    rfl
  · rintro ⟨parent, neighbours⟩
    obtain ⟨owner, top⟩ :=
      exists_node_of_mem_axisNodes (neighbours.subset List.mem_cons_self)
    rw [axisNodes_child top] at neighbours
    have pair := List.IsChain.infix (isChain_chain tree.size owner.firstChild) neighbours
    obtain ⟨row, entry, link⟩ := List.isChain_pair.mp pair
    rw [found] at entry
    cases entry
    exact link

/-- **A link to an earlier sibling leads back** from a neighbour to the one before it. -/
theorem previousSibling_iff (laid : tree.LaidOut) (found : tree.node? handle = some node)
    (other : Handle) : node.previousSibling = some other ↔ tree.Adjacent other handle := by
  constructor
  · intro link
    obtain ⟨parent, owner, top, place⟩ :=
      laid.exists_parent_of_sibling found (.inr (link ▸ Option.some_ne_none other))
    obtain ⟨row, entry, _, next, _⟩ := place.previous other link
    exact (laid.nextSibling_iff entry handle).mp next
  · intro neighbours
    have member : other < tree.size := by
      obtain ⟨parent, within⟩ := neighbours
      obtain ⟨row, there, _⟩ := laid.mem_child_iff.mp (within.subset List.mem_cons_self)
      exact lt_size_of_node there.found
    obtain ⟨row, entry⟩ := exists_node member
    have next := (laid.nextSibling_iff entry handle).mpr neighbours
    obtain ⟨parent, owner, top, place⟩ :=
      laid.exists_parent_of_sibling entry (.inl (next ▸ Option.some_ne_none handle))
    obtain ⟨_, back, there, _, previous⟩ := place.next handle next
    rw [found] at there
    cases there
    exact previous

/-- Around a child, the sibling axes and the child itself make up the children of its parent. -/
theorem siblings_around (laid : tree.LaidOut) (here : tree.PlainAt handle node)
    (above : node.parent = some parent) :
    (tree.axisNodes .precedingSibling handle).reverse ++
        handle :: tree.axisNodes .followingSibling handle = tree.axisNodes .child parent := by
  obtain ⟨owner, top, _⟩ := laid.exists_parent_row here.found above
  obtain ⟨later, earlier⟩ := axisNodes_siblings here.found here.plain
  rw [later, earlier, laid.siblings_split top here.found ⟨here.plain, above⟩,
    trail_some laid.linked.ranks_next here.found]

/-- An attribute has no siblings. -/
theorem siblings_of_attr (laid : tree.LaidOut) (found : tree.node? handle = some node)
    (isAttr : node.content.isAttr) :
    node.nextSibling = none ∧ node.previousSibling = none ∧
      tree.axisNodes .followingSibling handle = [] ∧
        tree.axisNodes .precedingSibling handle = [] := by
  rw [axisNodes, axisNodes, found, Option.elim_some, Option.elim_some, if_pos isAttr,
    if_pos isAttr]
  cases (laid.row handle node found).stands with
  | root _ _ _ before behind => exact ⟨behind, before, rfl, rfl⟩
  | attr _ _ _ same =>
    subst same
    exact ⟨rfl, rfl, rfl, rfl⟩
  | child _ place =>
    rw [place.child.plain] at isAttr
    cases isAttr

end LaidOut

/-! ### Built trees -/

/-- **Sibling links make one doubly linked list of the children of every node**, which are the nodes
that name it as their parent and are no attributes. Attributes have no part in it. -/
theorem siblings_of_built (built : tree.Built) :
    (∀ axis origin, origin < tree.size →
      tree.walkNodes axis origin = .ok (tree.axisNodes axis origin)) ∧
    (∀ parent owner, tree.node? parent = some owner →
      (tree.axisNodes .child parent).Pairwise (· < ·) ∧
        (∀ handle, handle ∈ tree.axisNodes .child parent ↔
          ∃ row, tree.PlainAt handle row ∧ row.parent = some parent) ∧
        owner.firstChild = (tree.axisNodes .child parent).head? ∧
        owner.lastChild = (tree.axisNodes .child parent).getLast?) ∧
    (∀ handle node, tree.node? handle = some node → ∀ other,
      (node.nextSibling = some other ↔ tree.Adjacent handle other) ∧
        (node.previousSibling = some other ↔ tree.Adjacent other handle)) ∧
    (∀ child node parent, tree.PlainAt child node → node.parent = some parent →
      (tree.axisNodes .precedingSibling child).reverse ++
          child :: tree.axisNodes .followingSibling child = tree.axisNodes .child parent) ∧
    ∀ attr row, tree.node? attr = some row → row.content.isAttr →
      row.nextSibling = none ∧ row.previousSibling = none ∧
        tree.axisNodes .followingSibling attr = [] ∧
          tree.axisNodes .precedingSibling attr = [] := by
  have laid := built.laidOut
  refine ⟨?_, ?_, ?_, ?_, ?_⟩
  · intro axis origin member
    exact walkNodes_of_lt_size built.linked axis member
  · intro parent owner top
    exact ⟨laid.pairwise_child parent, fun handle => laid.mem_child_iff, laid.firstChild_eq top,
      laid.lastChild_eq top⟩
  · intro handle node found other
    exact ⟨laid.nextSibling_iff found other, laid.previousSibling_iff found other⟩
  · intro child node parent here above
    exact laid.siblings_around here above
  · intro attr row found isAttr
    exact laid.siblings_of_attr found isAttr

/-- An element with an attribute has a text, an element around another text, and a comment as its
children. -/
theorem siblings_of_built_element :
    ∃ tree : Tree, tree.Built ∧ tree.walkNodes .child 1 = .ok [3, 4, 6] ∧
      (∀ handle, handle ∈ [3, 4, 6] ↔ ∃ row, tree.PlainAt handle row ∧ row.parent = some 1) ∧
      tree.Adjacent 4 6 ∧
      (tree.axisNodes .precedingSibling 4).reverse ++ 4 :: tree.axisNodes .followingSibling 4 =
        [3, 4, 6] ∧
      tree.axisNodes .followingSibling 2 = [] := by
  have built := built_ofDocument (.element "a" [("k", "v")]
    (.text "t" (.element "b" [] (.text "u" .empty) (.comment "c" .empty))) .empty)
  obtain ⟨each, children, links, around, attributes⟩ := siblings_of_built built
  exact ⟨_, built, each .child 1 (by decide), (children 1 _ rfl).2.1,
    (links 4 _ rfl 6).1.mp rfl, around 4 _ 1 ⟨rfl, rfl⟩ rfl, (attributes 2 _ rfl rfl).2.2.1⟩

end Tree

end XPathWalk

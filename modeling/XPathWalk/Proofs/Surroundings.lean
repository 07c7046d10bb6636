/-
**What surrounds a node, by ranges and by links.**

The following axis takes all handles behind the subtree of its start node and the preceding axis
scans downward from it, skipping ancestors. Both yield the subtrees of the later or earlier siblings
of the node, then those of the siblings of its parent, and so on up to the root: between the stop of
a child and that of its parent there is nothing but the subtrees of later siblings, and between the
parent and a child nothing but attributes and the subtrees of earlier siblings.

* `Tree.walkNodes`: what a fresh walk along an axis yields from a start node;
* `plainFrom_split`, `plainBelow_split`: ranges cut in two;
* `LaidOut.laterSiblings`, `LaidOut.earlierSiblings`: the range beside a child within its parent;
* `LaidOut.following_eq`, `LaidOut.preceding_eq`: the two axes by links;
* `surroundings_of_built`: the same for what the walks of a built tree yield. Behind a node that is
  no attribute come the subtrees of the later siblings of the node and of its ancestors, innermost
  first, and before it, read backward, those of the earlier siblings.
-/

import XPathWalk.NodeIterator.Bind
import XPathWalk.Proofs.Ahead
import XPathWalk.Proofs.Subtrees

namespace XPathWalk

namespace Tree

/-- The nodes that a fresh walk along an axis yields from a start node. -/
def walkNodes (tree : Tree) (axis : Axis) (origin : Handle) : Except Fault (List Handle) := do
  let bound ← (NodeIterator.ofAxis tree axis).bind origin
  let (nodes, _) ← bound.value.drain
  return nodes

variable {tree : Tree} {handle : Nat}

/-- **A walk yields the nodes of its axis.** -/
theorem walkNodes_of_lt_size (linked : tree.Linked) (axis : Axis) (member : handle < tree.size) :
    tree.walkNodes axis handle = .ok (tree.axisNodes axis handle) := by
  obtain ⟨cursor, begun, seen⟩ := Cursor.start_of_lt_size linked axis member
  let bound : AxisWalk := { tree, axis, progress := Progress.bind {} handle, cursor }
  have sound : bound.Sound := by
    refine ⟨linked, seen.within, by rintro saved ⟨⟩, ?_, by rintro ⟨⟩⟩
    rintro origin ⟨⟩
    exact member
  have sees : (NodeIterator.axis bound).Sees ⟨tree.axisNodes axis handle, none⟩ :=
    ⟨.axis sound, seen.ahead⟩
  obtain ⟨rest, drained, _⟩ := NodeIterator.drain_complete sees
  have taken : (NodeIterator.ofAxis tree axis).bind handle =
      .ok { value := NodeIterator.axis bound } := by
    show ((Cursor.start tree axis handle >>= fun cursor => _) >>= fun walk => _) = _
    rw [begun]
    rfl
  rw [walkNodes, taken]
  show (NodeIterator.drain _ >>= fun answer => _) = _
  rw [drained]
  rfl

/-! ### Ranges cut in two -/

theorem isPlain_of_node? {node : Node} (found : tree.node? handle = some node) :
    tree.isPlain handle = !node.content.isAttr := by
  rw [isPlain, found, Option.any_some]

theorem plainFrom_split {first middle stop : Nat} (behind : first ≤ middle)
    (before : middle ≤ stop) :
    tree.plainFrom first (stop - first) =
      tree.plainFrom first (middle - first) ++ tree.plainFrom middle (stop - middle) := by
  have parts : stop - first = middle - first + (stop - middle) := by omega
  have onward : middle = first + (middle - first) := by omega
  rw [plainFrom, parts, ← List.range'_append_1, List.filter_append, ← onward]
  rfl

/-- Nothing is left of a range that holds attributes alone. -/
theorem plainFrom_of_attributes {first stop : Nat}
    (attributes : ∀ handle, first ≤ handle → handle < stop → tree.isPlain handle = false) :
    tree.plainFrom first (stop - first) = [] := by
  refine List.filter_eq_nil_iff.mpr fun handle within => ?_
  obtain ⟨from_first, below⟩ := List.mem_range'_1.mp within
  rw [attributes handle from_first (by omega)]
  exact Bool.false_ne_true

/-- Above all that is to be skipped, scanning backward is scanning onward in reverse. -/
theorem plainBelow_split {first below : Nat} {skipped : List Handle} (behind : first ≤ below)
    (lower : ∀ handle ∈ skipped, handle < first) :
    tree.plainBelow below skipped =
      (tree.plainFrom first (below - first)).reverse ++ tree.plainBelow first skipped := by
  have whole : List.range below = List.range first ++ List.range' first (below - first) := by
    have parts : List.range' 0 first ++ List.range' (0 + first) (below - first) = _ :=
      List.range'_append_1
    rw [Nat.zero_add, Nat.add_sub_cancel' behind] at parts
    rw [List.range_eq_range', List.range_eq_range', parts]
  rw [plainBelow, whole, List.reverse_append, List.filter_append, plainFrom, ← List.filter_reverse]
  refine congrArg (· ++ _) (List.filter_congr fun handle within => ?_)
  have from_first := (List.mem_range'_1.mp (List.mem_reverse.mp within)).1
  have unskipped : skipped.contains handle = false := by
    rw [List.contains_eq_mem, decide_eq_false_iff_not]
    exact fun member => absurd (lower handle member) (Nat.not_lt_of_le from_first)
  rw [unskipped, Bool.not_false, Bool.and_true]

namespace LaidOut

variable {parent : Nat} {node owner : Node}

/-! ### Axes at a node that is no attribute -/

/-- The subtree of a node that is no attribute is its range without attributes. -/
theorem descendantOrSelf_eq (laid : tree.LaidOut) (found : tree.node? handle = some node)
    (plain : node.content.isAttr = false) :
    tree.axisNodes .descendantOrSelf handle = tree.plainFrom handle (node.stop - handle) := by
  have stop := laid.lt_stop found
  have count : node.stop - handle = node.stop - (handle + 1) + 1 := by grind
  rw [count, plainFrom_succ, isPlain_of_node? found, plain, axisNodes, found]
  rfl

/-- Siblings of a node that is no attribute are met along its links. -/
theorem axisNodes_siblings (found : tree.node? handle = some node)
    (plain : node.content.isAttr = false) :
    tree.axisNodes .followingSibling handle = tree.trail Node.nextSibling node.nextSibling ∧
      tree.axisNodes .precedingSibling handle =
        tree.trail Node.previousSibling node.previousSibling := by
  rw [axisNodes, axisNodes, found, Option.elim_some, Option.elim_some, plain]
  exact ⟨rfl, rfl⟩

/-- A parent is no attribute: the subtree of an attribute has no room for another node. -/
theorem plain_of_parent (laid : tree.LaidOut) (found : tree.node? handle = some node)
    (top : tree.node? parent = some owner) (above : node.parent = some parent) :
    owner.content.isAttr = false := by
  cases (laid.row parent owner top).stands with
  | root _ document =>
    rw [document]
    rfl
  | attr _ _ _ same =>
    obtain ⟨_, entry, before, ends⟩ := laid.exists_parent_row found above
    rw [top] at entry
    cases entry
    subst same
    have within := Nat.lt_of_lt_of_le (laid.lt_stop found) ends
    exact absurd before (Nat.not_lt_of_le (Nat.le_of_lt_succ within))
  | child _ place => exact place.child.plain

/-- Right behind a node there is nothing but its attributes. -/
theorem attributes_between (laid : tree.LaidOut) (top : tree.node? parent = some owner)
    (between : Nat) (behind : parent + 1 ≤ between)
    (below : between < parent + owner.attributes.size + 1) : tree.isPlain between = false := by
  obtain ⟨_, entry⟩ := (laid.row parent owner top).holds.attr between behind
    (Nat.le_of_lt_succ below)
  rw [isPlain_of_node? entry]
  rfl

/-! ### Beside a child -/

/-- **Behind a child come the subtrees of its later siblings**, up to the stop of its parent. -/
theorem laterSiblings (laid : tree.LaidOut) (found : tree.node? handle = some node)
    (top : tree.node? parent = some owner) (place : tree.ChildAt parent owner handle node) :
    tree.plainFrom node.stop (owner.stop - node.stop) =
      (tree.trail Node.nextSibling node.nextSibling).flatMap
        (tree.axisNodes .descendantOrSelf) := by
  induction counted : tree.size - handle using Nat.strongRecOn generalizing handle node with
  | ind left ih =>
    cases link : node.nextSibling with
    | none => rw [(place.last link).2, Nat.sub_self, plainFrom_zero, trail_none, List.flatMap_nil]
    | some sibling =>
      obtain ⟨rfl, row, entry, child, _⟩ := place.next sibling link
      have placeNext := laid.childAt entry top child
      have later := laid.lt_stop found
      have fewer : tree.size - node.stop < left :=
        counted ▸ Nat.sub_lt_sub_left (Nat.lt_trans later (lt_size_of_node entry)) later
      rw [trail_some laid.linked.ranks_next entry, List.flatMap_cons,
        ← ih _ fewer entry placeNext rfl, laid.descendantOrSelf_eq entry child.plain]
      exact plainFrom_split (Nat.le_of_lt (laid.lt_stop entry)) placeNext.stop

/-- **Before a child come the subtrees of its earlier siblings**, down to its parent, whatever is to
be skipped from there on. -/
theorem earlierSiblings (laid : tree.LaidOut) (found : tree.node? handle = some node)
    (top : tree.node? parent = some owner) (place : tree.ChildAt parent owner handle node)
    {skipped : List Handle} (lower : ∀ ancestor ∈ skipped, ancestor < parent + 1) :
    tree.plainBelow handle skipped =
      (tree.trail Node.previousSibling node.previousSibling).flatMap
          (fun sibling => (tree.axisNodes .descendantOrSelf sibling).reverse) ++
        tree.plainBelow (parent + 1) skipped := by
  induction handle using Nat.strongRecOn generalizing node with
  | ind handle ih =>
    cases link : node.previousSibling with
    | none =>
      obtain ⟨rfl, _⟩ := (laid.row parent owner top).holds.firstChild handle (place.first link)
      rw [trail_none, List.flatMap_nil, plainBelow_split _ lower,
        plainFrom_of_attributes (laid.attributes_between top)]
      · rfl
      · exact Nat.succ_le_succ (Nat.le_add_right _ _)
    | some sibling =>
      obtain ⟨row, entry, child, _, stop⟩ := place.previous sibling link
      have sooner : sibling < handle := stop ▸ laid.lt_stop entry
      have placeBefore := laid.childAt entry top child
      have above : parent < sibling :=
        Nat.lt_of_le_of_lt (Nat.le_add_right _ _) placeBefore.above
      rw [trail_some laid.linked.ranks_previous entry, List.flatMap_cons, List.append_assoc,
        ← ih sibling sooner entry placeBefore, laid.descendantOrSelf_eq entry child.plain, stop]
      refine plainBelow_split (Nat.le_of_lt sooner) fun ancestor member => ?_
      exact Nat.lt_of_lt_of_le (lower ancestor member) above

/-! ### Up to the root -/

/-- Ancestors of a node and the node itself. -/
theorem axisNodes_ancestorOrSelf (laid : tree.LaidOut) (found : tree.node? handle = some node)
    (top : tree.node? parent = some owner) (above : node.parent = some parent) :
    tree.axisNodes .ancestorOrSelf handle = handle :: tree.axisNodes .ancestorOrSelf parent := by
  rw [axisNodes, axisNodes, found, top, Option.elim_some, Option.elim_some, above,
    trail_some laid.linked.ranks_parent top]

/-- A node and its ancestors lie below the handle right behind the node. -/
theorem ancestors_lt_succ (laid : tree.LaidOut) (top : tree.node? parent = some owner) :
    ∀ ancestor ∈ tree.trail Node.parent (some parent), ancestor < parent + 1 :=
  fun ancestor member => Nat.lt_succ_of_le
    (laid.linked.le_of_mem_ancestors (lt_size_of_node top) ancestor member)

/-- Scanning backward from behind a node skips the node if it is an awaited ancestor. -/
theorem plainBelow_ancestor (laid : tree.LaidOut) (top : tree.node? parent = some owner) :
    tree.plainBelow (parent + 1) (tree.trail Node.parent (some parent)) =
      tree.axisNodes .preceding parent := by
  rw [trail_some laid.linked.ranks_parent top, plainBelow_succ, List.contains_cons,
    beq_self_eq_true, Bool.true_or, Bool.not_true, Bool.and_false, if_neg Bool.false_ne_true,
    plainBelow_cons parent _ (Nat.le_refl parent), axisNodes, top]
  rfl

/-- **What follows a node** are the subtrees of the later siblings of the node and of its ancestors,
innermost first. -/
theorem following_eq (laid : tree.LaidOut) (found : tree.node? handle = some node)
    (plain : node.content.isAttr = false) :
    tree.axisNodes .following handle =
      (tree.axisNodes .ancestorOrSelf handle).flatMap fun ancestor =>
        (tree.axisNodes .followingSibling ancestor).flatMap
          (tree.axisNodes .descendantOrSelf) := by
  induction handle using Nat.strongRecOn generalizing node with
  | ind handle ih =>
    cases (laid.row handle node found).stands with
    | root _ _ orphan _ nothing stop =>
      rw [axisNodes, axisNodes, found, Option.elim_some, Option.elim_some, orphan, trail_none,
        List.flatMap_singleton, (axisNodes_siblings found plain).1, nothing, trail_none, stop]
      show tree.plainFrom tree.size (tree.size - tree.size) = _
      rw [Nat.sub_self]
      rfl
    | attr _ _ _ same =>
      subst same
      cases plain
    | @child parent owner top place =>
      have lower : parent < handle := Nat.lt_of_le_of_lt (Nat.le_add_right _ _) place.above
      rw [laid.axisNodes_ancestorOrSelf found top place.child.parent, List.flatMap_cons,
        ← ih parent lower top (laid.plain_of_parent found top place.child.parent),
        (axisNodes_siblings found plain).1, ← laid.laterSiblings found top place, axisNodes,
        axisNodes, found, top]
      exact plainFrom_split place.stop (laid.linked.row parent owner top).stop

/-- **What precedes a node** are the subtrees of the earlier siblings of the node and of its
ancestors, innermost first and each read backward. -/
theorem preceding_eq (laid : tree.LaidOut) (found : tree.node? handle = some node)
    (plain : node.content.isAttr = false) :
    tree.axisNodes .preceding handle =
      (tree.axisNodes .ancestorOrSelf handle).flatMap fun ancestor =>
        (tree.axisNodes .precedingSibling ancestor).flatMap fun sibling =>
          (tree.axisNodes .descendantOrSelf sibling).reverse := by
  induction handle using Nat.strongRecOn generalizing node with
  | ind handle ih =>
    cases (laid.row handle node found).stands with
    | root root _ orphan nothing =>
      subst root
      rw [axisNodes, axisNodes, found, Option.elim_some, Option.elim_some, orphan, trail_none,
        List.flatMap_singleton, (axisNodes_siblings found plain).2, nothing, trail_none]
      rfl
    | attr _ _ _ same =>
      subst same
      cases plain
    | @child parent owner top place =>
      have lower : parent < handle := Nat.lt_of_le_of_lt (Nat.le_add_right _ _) place.above
      rw [laid.axisNodes_ancestorOrSelf found top place.child.parent, List.flatMap_cons,
        ← ih parent lower top (laid.plain_of_parent found top place.child.parent),
        (axisNodes_siblings found plain).2, ← laid.plainBelow_ancestor top,
        ← laid.earlierSiblings found top place, axisNodes, found, Option.elim_some,
        place.child.parent]
      exact laid.ancestors_lt_succ top

/-! ### Beside an attribute -/

/-- **What surrounds an attribute** is what precedes its owner, and then what is below its owner and
what follows it. -/
theorem surroundings_of_attr (laid : tree.LaidOut) (found : tree.node? handle = some node)
    (isAttr : node.content.isAttr) (above : node.parent = some parent) :
    tree.axisNodes .preceding handle = tree.axisNodes .preceding parent ∧
      tree.axisNodes .following handle =
        tree.axisNodes .descendant parent ++ tree.axisNodes .following parent := by
  obtain ⟨owner, pair, top, behind, within, rfl⟩ := laid.attrAt found isAttr above
  have nothing : ∀ stop, stop ≤ parent + owner.attributes.size + 1 →
      tree.plainFrom (parent + 1) (stop - (parent + 1)) = [] := by
    refine fun stop bound => plainFrom_of_attributes fun between from_first below => ?_
    exact laid.attributes_between top between from_first (Nat.lt_of_lt_of_le below bound)
  constructor
  · rw [← laid.plainBelow_ancestor top, axisNodes, found]
    refine (plainBelow_split behind (laid.ancestors_lt_succ top)).trans ?_
    rw [nothing handle (Nat.le_succ_of_le within)]
    rfl
  · have room := laid.lt_stop top
    have ends := (laid.linked.row parent owner top).stop
    rw [axisNodes, axisNodes, axisNodes, found, top]
    refine Eq.trans ?_ (plainFrom_split room ends)
    rw [plainFrom_split (Nat.succ_le_succ (Nat.le_of_lt behind)) (lt_size_of_node found),
      nothing (handle + 1) (Nat.succ_le_succ within)]
    rfl

end LaidOut

/-! ### Built trees -/

/-- **The following and the preceding axis agree with the axes along links.** An attribute has
before it what its owner has, and behind it what is below its owner and what follows that. -/
theorem surroundings_of_built (built : tree.Built) :
    (∀ axis origin, origin < tree.size →
      tree.walkNodes axis origin = .ok (tree.axisNodes axis origin)) ∧
    (∀ origin node, tree.node? origin = some node → node.content.isAttr = false →
      tree.axisNodes .following origin =
          ((tree.axisNodes .ancestorOrSelf origin).flatMap fun ancestor =>
            (tree.axisNodes .followingSibling ancestor).flatMap fun sibling =>
              tree.axisNodes .descendantOrSelf sibling) ∧
        tree.axisNodes .preceding origin =
          (tree.axisNodes .ancestorOrSelf origin).flatMap fun ancestor =>
            (tree.axisNodes .precedingSibling ancestor).flatMap fun sibling =>
              (tree.axisNodes .descendantOrSelf sibling).reverse) ∧
    ∀ attr row owner, tree.node? attr = some row → row.content.isAttr → row.parent = some owner →
      tree.axisNodes .preceding attr = tree.axisNodes .preceding owner ∧
        tree.axisNodes .following attr =
          tree.axisNodes .descendant owner ++ tree.axisNodes .following owner := by
  have laid := built.laidOut
  refine ⟨?_, ?_, ?_⟩
  · intro axis origin member
    exact walkNodes_of_lt_size built.linked axis member
  · intro origin node found plain
    exact ⟨laid.following_eq found plain, laid.preceding_eq found plain⟩
  · intro attr row owner found isAttr above
    exact laid.surroundings_of_attr found isAttr above

/-- An element with an attribute holds a text, an element around another text, and a comment. -/
theorem surroundings_of_built_element :
    ∃ tree : Tree, tree.Built ∧
      tree.walkNodes .following 2 =
        .ok (tree.axisNodes .descendant 1 ++ tree.axisNodes .following 1) ∧
      tree.axisNodes .preceding 6 =
        ((tree.axisNodes .ancestorOrSelf 6).flatMap fun ancestor =>
          (tree.axisNodes .precedingSibling ancestor).flatMap fun sibling =>
            (tree.axisNodes .descendantOrSelf sibling).reverse) ∧
      tree.walkNodes .preceding 6 = .ok [5, 4, 3] := by
  have built := built_ofDocument (.element "a" [("k", "v")]
    (.text "t" (.element "b" [] (.text "u" .empty) (.comment "c" .empty))) .empty)
  obtain ⟨each, plain, attributes⟩ := surroundings_of_built built
  have behind := (attributes 2 _ 1 rfl rfl rfl).2
  refine ⟨_, built, ?_, (plain 6 _ rfl rfl).2, each .preceding 6 (by decide)⟩
  rw [each .following 2 (by decide), behind]

end Tree

end XPathWalk

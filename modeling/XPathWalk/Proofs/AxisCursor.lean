/-
**A cursor yields what is left of its axis.**

What a cursor has left is a list that can be read off the tree. Advancing the cursor takes the first
node off that list, and a cursor just set up at a start node has the whole axis left.

* `Cursor.ahead`: what is left, or the fault of a cursor without a start node;
* `Cursor.Within`: the cursor only refers to nodes of the tree;
* `advance_foresees`: advancing goes as `Cursor.ahead` says and stays within the tree;
* `start_of_lt_size`, `start_ok`: setting up a cursor succeeds at the nodes of the tree alone.
-/

import XPathWalk.Cursor
import XPathWalk.Proofs.AxisNodes
import XPathWalk.Proofs.Outlook

namespace XPathWalk

namespace Cursor

/-- The nodes that are left. -/
def nodes (tree : Tree) : Cursor → List Handle
  | unbound => []
  | single next => next.toList
  | siblings next => tree.trail Node.nextSibling next
  | earlierSiblings next => tree.trail Node.previousSibling next
  | ancestors next => tree.trail Node.parent next
  | range own next left => own.toList ++ tree.plainFrom next left
  | backward below ancestor => tree.plainBelow below (tree.trail Node.parent ancestor)
  | attributes owner index =>
    (tree.node? owner).elim [] fun node => node.attributes.toList.drop index

/-- What advancing yields from here on. -/
def ahead (tree : Tree) (axis : Axis) : Cursor → Outlook
  | unbound => .failed (.unboundAxis axis)
  | cursor => ⟨cursor.nodes tree, none⟩

/-- A cursor refers to nodes of the tree alone, and an ancestor that is awaited lies below the bound
that is scanned from. -/
def Within (tree : Tree) : Cursor → Prop
  | unbound | single _ => True
  | siblings next | earlierSiblings next | ancestors next =>
    ∀ handle, next = some handle → handle < tree.size
  | range _ next left => next + left ≤ tree.size
  | backward below ancestor =>
    below ≤ tree.size ∧ ∀ handle, ancestor = some handle → handle < below
  | attributes owner _ => owner < tree.size

/-- A cursor within the tree that has this ahead of it. -/
structure Sees (tree : Tree) (axis : Axis) (cursor : Cursor) (outlook : Outlook) : Prop where
  within : cursor.Within tree
  ahead : cursor.ahead tree axis = outlook

variable {tree : Tree} {axis : Axis}

@[simp] theorem nodes_ahead (cursor : Cursor) :
    (cursor.ahead tree axis).nodes = cursor.nodes tree := by
  cases cursor <;> rfl

/-! ### Scanning -/

/-- Scanning onward finds the first plain handle of a range. -/
theorem scan_foresees (left next : Nat) (room : next + left ≤ tree.size) :
    Outlook.Foresees
      (fun (rest : Handle × Nat) outlook =>
        rest.1 + rest.2 ≤ tree.size ∧ ⟨tree.plainFrom rest.1 rest.2, none⟩ = outlook)
      ⟨tree.plainFrom next left, none⟩ (scan tree left next) := by
  induction left generalizing next with
  | zero => exact .done ⟨room, rfl⟩
  | succ left ih =>
    have behind : next + 1 + left ≤ tree.size := by omega
    rw [scan, Tree.isAttr_of_lt_size (by omega), Tree.plainFrom_succ]
    cases plain : tree.isPlain next with
    | true => exact .node ⟨behind, rfl⟩
    | false => exact ih (next + 1) behind

/-- Scanning backward finds the highest plain handle below a bound that is no awaited ancestor. -/
theorem scanBack_foresees (linked : tree.Linked) (below : Nat) (ancestor : Option Handle)
    (room : below ≤ tree.size) (awaited : ∀ handle, ancestor = some handle → handle < below) :
    Outlook.Foresees
      (fun (rest : Handle × Option Handle) outlook =>
        (rest.1 ≤ tree.size ∧ ∀ handle, rest.2 = some handle → handle < rest.1) ∧
          ⟨tree.plainBelow rest.1 (tree.trail Node.parent rest.2), none⟩ = outlook)
      ⟨tree.plainBelow below (tree.trail Node.parent ancestor), none⟩
      (scanBack tree below ancestor) := by
  induction below generalizing ancestor with
  | zero => exact .done ⟨⟨room, awaited⟩, rfl⟩
  | succ below ih =>
    rw [scanBack]
    by_cases met : some below = ancestor
    · -- The awaited ancestor is passed, and its own ancestors all lie below it.
      subst met
      obtain ⟨node, found⟩ := Tree.exists_node room
      rw [if_pos rfl, Tree.node_of_node? found, Tree.trail_some linked.ranks_parent found,
        Tree.plainBelow_succ, List.contains_cons, beq_self_eq_true, Bool.true_or, Bool.not_true,
        Bool.and_false, if_neg Bool.false_ne_true, Tree.plainBelow_cons below _ (Nat.le_refl below)]
      exact ih node.parent (Nat.le_of_succ_le room) (linked.row below node found).parent
    · have lower : ∀ handle, ancestor = some handle → handle < below := by
        intro handle same
        have bound := awaited handle same
        have other : handle ≠ below := fun equal => met (equal ▸ same.symm)
        grind
      have unskipped : (tree.trail Node.parent ancestor).contains below = false := by
        rw [List.contains_eq_mem, decide_eq_false_iff_not]
        intro member
        cases same : ancestor with
        | none => rw [same, Tree.trail_none] at member; cases member
        | some handle =>
          have bound := lower handle same
          rw [same] at member
          have reached := linked.le_of_mem_ancestors (Nat.lt_trans bound room) below member
          exact absurd reached (Nat.not_le_of_lt bound)
      rw [if_neg met, Tree.isAttr_of_lt_size room, Tree.plainBelow_succ, unskipped, Bool.not_false,
        Bool.and_true]
      cases plain : tree.isPlain below with
      | true => exact .node ⟨⟨Nat.le_of_succ_le room, lower⟩, rfl⟩
      | false => exact ih ancestor (Nat.le_of_succ_le room) lower

/-! ### Advancing -/

/-- A cursor that follows links passes the node it stands at. -/
theorem follow_foresees {link : Node → Option Handle} {rank : Nat → Nat} {handle : Nat}
    (ranks : tree.Ranks link rank) (follow : Option Handle → Cursor)
    (nodes_follow : ∀ next, (follow next).ahead tree axis = ⟨tree.trail link next, none⟩)
    (within_follow : ∀ next, (∀ onward, next = some onward → onward < tree.size) →
      (follow next).Within tree)
    (member : handle < tree.size) :
    Outlook.Foresees (Sees tree axis) ⟨tree.trail link (some handle), none⟩ (do
      return (some handle, follow (link (← tree.node handle)))) := by
  obtain ⟨node, found⟩ := Tree.exists_node member
  rw [Tree.node_of_node? found, Tree.trail_some ranks found]
  refine .node ⟨within_follow _ fun onward leads => ?_, nodes_follow _⟩
  exact (ranks.falls handle node onward found leads).1

/-- A cursor with nothing left stays as it is. -/
theorem stay_foresees {cursor : Cursor} (within : cursor.Within tree)
    (nothing : cursor.ahead tree axis = .ended) :
    Outlook.Foresees (Sees tree axis) (cursor.ahead tree axis) (.ok (none, cursor)) := by
  rw [nothing]
  exact .done ⟨within, nothing⟩

/-- **Advancing a cursor goes as what is left of its axis says**, and the cursor stays within the
tree. -/
theorem advance_foresees (linked : tree.Linked) {cursor : Cursor} (within : cursor.Within tree) :
    Outlook.Foresees (Sees tree axis) (cursor.ahead tree axis) (cursor.advance tree axis) := by
  cases cursor with
  | unbound => exact .fault
  | single next =>
    cases next with
    | none => exact .done ⟨trivial, rfl⟩
    | some handle => exact .node ⟨trivial, rfl⟩
  | siblings next =>
    cases next with
    | none => exact stay_foresees within (congrArg (Outlook.mk · none) Tree.trail_none)
    | some handle =>
      exact follow_foresees linked.ranks_next siblings (fun _ => rfl) (fun _ kept => kept)
        (within handle rfl)
  | earlierSiblings next =>
    cases next with
    | none => exact stay_foresees within (congrArg (Outlook.mk · none) Tree.trail_none)
    | some handle =>
      exact follow_foresees linked.ranks_previous earlierSiblings (fun _ => rfl)
        (fun _ kept => kept) (within handle rfl)
  | ancestors next =>
    cases next with
    | none => exact stay_foresees within (congrArg (Outlook.mk · none) Tree.trail_none)
    | some handle =>
      exact follow_foresees linked.ranks_parent ancestors (fun _ => rfl) (fun _ kept => kept)
        (within handle rfl)
  | range own next left =>
    cases own with
    | some handle => exact .node ⟨within, rfl⟩
    | none =>
      refine Outlook.Foresees.lift (fun _ rest => range none rest.1 rest.2)
        (scan_foresees left next within) ?_
      exact fun _ _ _ seen => ⟨seen.1, seen.2⟩
  | backward below ancestor =>
    refine Outlook.Foresees.lift (fun _ rest => backward rest.1 rest.2)
      (scanBack_foresees linked below ancestor within.1 within.2) ?_
    exact fun _ _ _ seen => ⟨seen.1, seen.2⟩
  | attributes owner index =>
    obtain ⟨node, found⟩ := Tree.exists_node within
    have ahead_eq : ∀ index, (attributes owner index).ahead tree axis =
        ⟨node.attributes.toList.drop index, none⟩ := by
      intro index
      simp only [ahead, nodes, found, Option.elim_some]
    cases entry : node.attributes[index]? with
    | none =>
      have step : (attributes owner index).advance tree axis =
          .ok (none, attributes owner index) := by
        simp only [advance, Tree.node_of_node? found, bind, Except.bind, entry]
        rfl
      rw [step]
      refine stay_foresees within ((ahead_eq index).trans ?_)
      rw [List.drop_eq_nil_of_le (Array.getElem?_eq_none_iff.mp entry), Outlook.ended]
    | some handle =>
      have step : (attributes owner index).advance tree axis =
          .ok (some handle, attributes owner (index + 1)) := by
        simp only [advance, Tree.node_of_node? found, bind, Except.bind, entry]
        rfl
      rw [step, ahead_eq, List.drop_eq_getElem?_toList_append, Array.getElem?_toList, entry]
      exact .node ⟨within, ahead_eq (index + 1)⟩

/-- No more nodes are left than the reach of the cursor. -/
theorem length_nodes_le_reach (linked : tree.Linked) {cursor : Cursor}
    (within : cursor.Within tree) : (cursor.nodes tree).length ≤ cursor.reach tree := by
  cases cursor with
  | unbound => exact Nat.zero_le _
  | single next => cases next <;> exact Nat.le_refl _
  | siblings next =>
    cases next with
    | none => rw [nodes, Tree.trail_none]; exact Nat.zero_le _
    | some handle => exact Tree.length_trail_le linked.ranks_next (within handle rfl)
  | earlierSiblings next =>
    cases next with
    | none => rw [nodes, Tree.trail_none]; exact Nat.zero_le _
    | some handle => exact Tree.length_trail_le linked.ranks_previous (within handle rfl)
  | ancestors next =>
    cases next with
    | none => rw [nodes, Tree.trail_none]; exact Nat.zero_le _
    | some handle => exact Tree.length_trail_le linked.ranks_parent (within handle rfl)
  | range own next left =>
    rw [nodes, List.length_append]
    exact Nat.add_le_add_left (Tree.length_plainFrom_le next left) _
  | backward below ancestor => exact Tree.length_plainBelow_le below _
  | attributes owner index =>
    obtain ⟨node, found⟩ := Tree.exists_node within
    rw [nodes, reach, found]
    exact Nat.le_of_eq List.length_drop

/-! ### Setting up -/

/-- **A cursor set up at a node of the tree has the whole axis ahead of it.** -/
theorem start_of_lt_size (linked : tree.Linked) (axis : Axis) {origin : Nat}
    (member : origin < tree.size) :
    ∃ cursor, start tree axis origin = .ok cursor ∧
      Sees tree axis cursor ⟨tree.axisNodes axis origin, none⟩ := by
  obtain ⟨node, found⟩ := Tree.exists_node member
  have row := linked.row origin node found
  rw [start, Tree.node_of_node? found, Tree.axisNodes, found]
  refine ⟨_, rfl, ?_⟩
  have subtree : origin + 1 + (node.stop - (origin + 1)) ≤ tree.size := by
    have stop := row.stop
    grind
  cases axis with
  | self => exact ⟨trivial, rfl⟩
  | parent => exact ⟨trivial, rfl⟩
  | child =>
    refine ⟨fun link leads => (row.child link leads).2, ?_⟩
    exact congrArg (Outlook.mk · none) (Tree.children_eq_trail found).symm
  | followingSibling =>
    show Sees tree .followingSibling
      (siblings (if node.content.isAttr then none else node.nextSibling))
      ⟨if node.content.isAttr then [] else tree.trail Node.nextSibling node.nextSibling, none⟩
    split
    · exact ⟨by rintro link ⟨⟩, congrArg (Outlook.mk · none) Tree.trail_none⟩
    · exact ⟨fun link leads => (row.next link leads).2, rfl⟩
  | precedingSibling =>
    show Sees tree .precedingSibling
      (earlierSiblings (if node.content.isAttr then none else node.previousSibling))
      ⟨if node.content.isAttr then [] else tree.trail Node.previousSibling node.previousSibling,
        none⟩
    split
    · exact ⟨by rintro link ⟨⟩, congrArg (Outlook.mk · none) Tree.trail_none⟩
    · exact ⟨fun link leads => Nat.lt_trans (row.previous link leads) member, rfl⟩
  | ancestor =>
    exact ⟨fun link leads => Nat.lt_trans (row.parent link leads) member, rfl⟩
  | ancestorOrSelf =>
    refine ⟨?_, congrArg (Outlook.mk · none) (Tree.trail_some linked.ranks_parent found)⟩
    rintro link ⟨⟩
    exact member
  | descendant => exact ⟨subtree, rfl⟩
  | descendantOrSelf => exact ⟨subtree, rfl⟩
  | following => exact ⟨Nat.le_of_eq (Nat.add_sub_of_le row.stop), rfl⟩
  | preceding => exact ⟨⟨Nat.le_of_lt member, row.parent⟩, rfl⟩
  | attr =>
    refine ⟨member, ?_⟩
    simp only [ahead, nodes, found, Option.elim_some, List.drop_zero]

/-- A cursor cannot be set up outside the tree. -/
theorem start_of_size_le {origin : Nat} (outside : tree.size ≤ origin) :
    start tree axis origin = .error .outOfRange := by
  rw [start, Tree.node_of_size_le outside]
  rfl

/-- Wherever a cursor has been set up, it has the whole axis ahead of it. -/
theorem start_ok (linked : tree.Linked) {origin : Nat} {cursor : Cursor}
    (begun : start tree axis origin = .ok cursor) :
    origin < tree.size ∧ Sees tree axis cursor ⟨tree.axisNodes axis origin, none⟩ := by
  rcases Nat.lt_or_ge origin tree.size with member | outside
  · obtain ⟨_, same, seen⟩ := start_of_lt_size linked axis member
    rw [begun] at same
    cases same
    exact ⟨member, seen⟩
  · rw [start_of_size_le outside] at begun
    cases begun

end Cursor

end XPathWalk

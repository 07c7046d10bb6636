/-
**Subtrees are ranges of handles.**

The handles from a node up to its stop are those of the node and of everything below it. Ranges of
this kind never cross: a node that lies between a child and its parent lies in the subtree of an
earlier child, which ends before the child begins.

* `Tree.IsParent`: the relation of a node to its parent;
* `LaidOut.childAt`, `LaidOut.attrAt`: where a node stands that names a parent or an owner;
* `LaidOut.stop_le_of_between`, `LaidOut.stop_le_of_within`: ranges never cross;
* `LaidOut.within_iff_ancestor`: a range holds the node and what leads up to it;
* `LaidOut.nested_or_disjoint`: two ranges are nested or disjoint.
-/

import Mathlib.Logic.Relation
import XPathWalk.Proofs.Kinship

namespace XPathWalk

namespace Tree

/-- The parent of a node, which for an attribute is its owner. -/
def IsParent (tree : Tree) (handle parent : Handle) : Prop :=
  ∃ node, tree.node? handle = some node ∧ node.parent = some parent

namespace LaidOut

variable {tree : Tree}

/-! ### Parents -/

/-- A subtree has its top. -/
theorem lt_stop (laid : tree.LaidOut) {handle : Nat} {node : Node}
    (found : tree.node? handle = some node) : handle < node.stop :=
  Nat.lt_of_le_of_lt (Nat.le_add_right _ _) (laid.row handle node found).holds.room

/-- The attributes of a node have rows of attributes. -/
theorem stop_of_attr (laid : tree.LaidOut) {owner attr : Nat} {node row : Node}
    (found : tree.node? owner = some node) (behind : owner < attr)
    (within : attr ≤ owner + node.attributes.size) (entry : tree.node? attr = some row) :
    row.stop = attr + 1 := by
  obtain ⟨pair, same⟩ := (laid.row owner node found).holds.attr attr behind within
  rw [entry] at same
  cases same
  rfl

/-- A parent comes before the node, and its subtree does not end before that of the node. -/
theorem exists_parent_row (laid : tree.LaidOut) {handle parent : Nat} {node : Node}
    (found : tree.node? handle = some node) (above : node.parent = some parent) :
    ∃ owner, tree.node? parent = some owner ∧ parent < handle ∧ node.stop ≤ owner.stop := by
  cases (laid.row handle node found).stands with
  | root _ _ orphan =>
    rw [orphan] at above
    cases above
  | @attr _ row pair entry before within same =>
    subst same
    cases above
    have room := (laid.row parent row entry).holds.room
    exact ⟨row, entry, before, Nat.lt_of_le_of_lt within room⟩
  | @child other owner entry place =>
    rw [place.child.parent] at above
    cases above
    exact ⟨owner, entry, Nat.lt_of_le_of_lt (Nat.le_add_right _ _) place.above, place.stop⟩

/-- The root alone has no parent. -/
theorem exists_parent (laid : tree.LaidOut) {handle : Nat} {node : Node}
    (found : tree.node? handle = some node) (inner : handle ≠ Handle.root) :
    ∃ parent, node.parent = some parent := by
  cases (laid.row handle node found).stands with
  | root top => exact absurd top inner
  | @attr owner row pair entry before within same =>
    subst same
    exact ⟨owner, rfl⟩
  | @child parent owner entry place => exact ⟨parent, place.child.parent⟩

theorem parent_root (laid : tree.LaidOut) {node : Node}
    (found : tree.node? Handle.root = some node) : node.parent = none := by
  cases above : node.parent with
  | none => rfl
  | some parent =>
    obtain ⟨_, _, before, _⟩ := laid.exists_parent_row found above
    cases before

/-- A row that names a parent stands where a child of that parent stands. -/
theorem childAt (laid : tree.LaidOut) {handle parent : Nat} {node owner : Node}
    (found : tree.node? handle = some node) (top : tree.node? parent = some owner)
    (child : node.IsChild parent) :
    tree.ChildAt parent owner handle node := by
  cases (laid.row handle node found).stands with
  | root _ _ orphan =>
    rw [child.parent] at orphan
    cases orphan
  | attr _ _ _ same =>
    subst same
    cases child.plain
  | child entry place =>
    have same := place.child.parent
    rw [child.parent] at same
    cases same
    rw [top] at entry
    cases entry
    exact place

/-- An attribute that names an owner stands right behind it. -/
theorem attrAt (laid : tree.LaidOut) {attr owner : Nat} {row : Node}
    (found : tree.node? attr = some row) (isAttr : row.content.isAttr)
    (above : row.parent = some owner) :
    ∃ node pair, tree.node? owner = some node ∧ owner < attr ∧
      attr ≤ owner + node.attributes.size ∧ row = attributeRow owner attr pair := by
  cases (laid.row attr row found).stands with
  | root _ document =>
    rw [document] at isAttr
    cases isAttr
  | child _ place =>
    rw [place.child.plain] at isAttr
    cases isAttr
  | @attr _ node pair top behind within same =>
    subst same
    cases above
    exact ⟨node, pair, top, behind, within, rfl⟩

/-! ### Ranges never cross -/

/-- What lies between the parent and its child ends before the child, provided that ranges do not
cross further in front. -/
theorem stop_le_of_earlier (laid : tree.LaidOut) {handle parent between : Nat} {node row : Node}
    (found : tree.node? handle = some node) (above : node.parent = some parent)
    (behind : parent < between) (before : between < handle) (entry : tree.node? between = some row)
    (earlier : ∀ sibling other, sibling < handle → tree.node? sibling = some other →
      other.parent = some parent → between < sibling → row.stop ≤ sibling)
    (inner : ∀ top other, tree.node? top = some other → top ≤ between → between < other.stop →
      row.stop ≤ other.stop) : row.stop ≤ handle := by
  cases (laid.row handle node found).stands with
  | root _ _ orphan =>
    rw [orphan] at above
    cases above
  | @attr owner other pair entryOwner _ within same =>
    subst same
    cases above
    rw [laid.stop_of_attr entryOwner behind (Nat.le_trans (Nat.le_of_lt before) within) entry]
    exact before
  | @child owner other entryOwner place =>
    rw [place.child.parent] at above
    cases above
    cases link : node.previousSibling with
    | none =>
      obtain ⟨first, _⟩ :=
        (laid.row parent other entryOwner).holds.firstChild handle (place.first link)
      subst first
      rw [laid.stop_of_attr entryOwner behind (Nat.le_of_lt_succ before) entry]
      exact before
    | some sibling =>
      obtain ⟨rowBefore, entryBefore, isChild, _, ends⟩ := place.previous sibling link
      have sooner : sibling < handle := ends ▸ laid.lt_stop entryBefore
      rcases Nat.lt_or_ge between sibling with left | right
      · exact Nat.le_trans (earlier sibling rowBefore sooner entryBefore isChild.parent left)
          (Nat.le_of_lt sooner)
      · rw [← ends]
        exact inner sibling rowBefore entryBefore right (ends.symm ▸ before)

/-- **Ranges never cross.** What lies between a parent and its child ends before the child, and what
begins within a range ends within it. -/
theorem ranges (laid : tree.LaidOut) (handle : Nat) (node : Node)
    (found : tree.node? handle = some node) :
    (∀ parent between row, node.parent = some parent → parent < between → between < handle →
      tree.node? between = some row → row.stop ≤ handle) ∧
    ∀ top row, tree.node? top = some row → top ≤ handle → handle < row.stop →
      node.stop ≤ row.stop := by
  induction handle using Nat.strongRecOn generalizing node with
  | ind handle ih =>
    have apart : ∀ parent between row, node.parent = some parent → parent < between →
        between < handle → tree.node? between = some row → row.stop ≤ handle := by
      intro parent between row above behind before entry
      refine laid.stop_le_of_earlier found above behind before entry ?_ ?_
      · intro sibling other sooner entrySibling same left
        exact (ih sibling sooner other entrySibling).1 parent between row same behind left entry
      · intro top other entryTop from_top within
        exact (ih between before row entry).2 top other entryTop from_top within
    refine ⟨apart, fun top row entry from_top within => ?_⟩
    rcases Nat.eq_or_lt_of_le from_top with rfl | later
    · rw [found] at entry
      cases entry
      exact Nat.le_refl _
    · -- The parent lies in the range as well, or else the range would end before the node.
      obtain ⟨parent, above⟩ := laid.exists_parent found (Nat.ne_of_gt (Nat.zero_lt_of_lt later))
      obtain ⟨owner, entryOwner, before, ends⟩ := laid.exists_parent_row found above
      rcases Nat.lt_or_ge parent top with outside | inside
      · exact absurd within (Nat.not_lt_of_le (apart parent top row above outside later entry))
      · exact Nat.le_trans ends ((ih parent before owner entryOwner).2 top row entry inside
          (Nat.lt_trans before within))

theorem stop_le_of_between (laid : tree.LaidOut) {handle parent between : Nat} {node row : Node}
    (found : tree.node? handle = some node) (above : node.parent = some parent)
    (behind : parent < between) (before : between < handle)
    (entry : tree.node? between = some row) : row.stop ≤ handle :=
  (laid.ranges handle node found).1 parent between row above behind before entry

theorem stop_le_of_within (laid : tree.LaidOut) {handle top : Nat} {node row : Node}
    (found : tree.node? handle = some node) (entry : tree.node? top = some row)
    (from_top : top ≤ handle) (within : handle < row.stop) : node.stop ≤ row.stop :=
  (laid.ranges handle node found).2 top row entry from_top within

/-! ### Ranges and ancestors -/

/-- A node has every node in its range that leads up to it. -/
theorem within_of_ancestor (laid : tree.LaidOut) {handle top : Nat} {node row : Node}
    (leads : Relation.ReflTransGen tree.IsParent handle top)
    (found : tree.node? handle = some node) (entry : tree.node? top = some row) :
    top ≤ handle ∧ node.stop ≤ row.stop := by
  induction leads generalizing row with
  | refl =>
    rw [found] at entry
    cases entry
    exact ⟨Nat.le_refl _, Nat.le_refl _⟩
  | tail _ step ih =>
    obtain ⟨middle, entryMiddle, above⟩ := step
    obtain ⟨owner, entryOwner, before, ends⟩ := laid.exists_parent_row entryMiddle above
    rw [entry] at entryOwner
    cases entryOwner
    obtain ⟨below, inner⟩ := ih entryMiddle
    exact ⟨Nat.le_trans (Nat.le_of_lt before) below, Nat.le_trans inner ends⟩

/-- **A range holds the node itself and what leads up to it along parents**, and nothing else. -/
theorem within_iff_ancestor (laid : tree.LaidOut) {handle top : Nat} {node row : Node}
    (found : tree.node? handle = some node) (entry : tree.node? top = some row) :
    top ≤ handle ∧ handle < row.stop ↔ Relation.ReflTransGen tree.IsParent handle top := by
  constructor
  · rintro ⟨from_top, within⟩
    induction handle using Nat.strongRecOn generalizing node with
    | ind handle ih =>
      rcases Nat.eq_or_lt_of_le from_top with rfl | later
      · exact .refl
      · obtain ⟨parent, above⟩ := laid.exists_parent found (Nat.ne_of_gt (Nat.zero_lt_of_lt later))
        obtain ⟨owner, entryOwner, before, _⟩ := laid.exists_parent_row found above
        have inside : top ≤ parent := by
          refine Nat.le_of_not_lt fun outside => ?_
          exact absurd within
            (Nat.not_lt_of_le (laid.stop_le_of_between found above outside later entry))
        exact .head ⟨node, found, above⟩
          (ih parent before entryOwner inside (Nat.lt_trans before within))
  · intro leads
    obtain ⟨below, inner⟩ := laid.within_of_ancestor leads found entry
    exact ⟨below, Nat.lt_of_lt_of_le (laid.lt_stop found) inner⟩

/-- **Two ranges are nested or disjoint.** -/
theorem nested_or_disjoint (laid : tree.LaidOut) {first second : Nat} {node row : Node}
    (found : tree.node? first = some node) (entry : tree.node? second = some row) :
    (first ≤ second ∧ row.stop ≤ node.stop) ∨ (second ≤ first ∧ node.stop ≤ row.stop) ∨
      node.stop ≤ second ∨ row.stop ≤ first := by
  rcases Nat.le_total first second with ahead | ahead
  · rcases Nat.lt_or_ge second node.stop with within | beyond
    · exact .inl ⟨ahead, laid.stop_le_of_within entry found ahead within⟩
    · exact .inr (.inr (.inl beyond))
  · rcases Nat.lt_or_ge first row.stop with within | beyond
    · exact .inr (.inl ⟨ahead, laid.stop_le_of_within found entry ahead within⟩)
    · exact .inr (.inr (.inr beyond))

end LaidOut

end Tree

end XPathWalk

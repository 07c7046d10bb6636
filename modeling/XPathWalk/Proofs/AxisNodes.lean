/-
**The nodes of every axis as a list.**

The lists are read off the links and the range of a subtree without any cursor. In a linked tree the
bound on the length of a walk along links never cuts a walk short: two bounds give the same walk
once both cover the rank of its first node, and the rank falls with every link.

* `Tree.trail`: the nodes along links of one kind, with its two equations;
* `Tree.plainFrom`, `Tree.plainBelow`: ranges of handles without attributes;
* `Tree.axisNodes`: the list of each axis at a start node.
-/

import Mathlib.Data.List.Chain
import XPathWalk.Axis
import XPathWalk.Proofs.Links

namespace XPathWalk

namespace Tree

/-! ### Definitions -/

/-- The nodes met from `next` on along links of one kind, at most `left` of them. -/
def chain (tree : Tree) (link : Node → Option Handle) :
    (left : Nat) → (next : Option Handle) → List Handle
  | 0, _ => []
  | _ + 1, none => []
  | left + 1, some handle => handle :: chain tree link left ((tree.node? handle).bind link)

/-- All nodes met along links of one kind. There cannot be more of them than the tree has nodes. -/
def trail (tree : Tree) (link : Node → Option Handle) (next : Option Handle) : List Handle :=
  tree.chain link tree.size next

/-- Whether a handle denotes no attribute. -/
def isPlain (tree : Tree) (handle : Handle) : Bool :=
  !(tree.node? handle).any fun node => node.content.isAttr

/-- The `count` handles from `first` on, except attributes. -/
def plainFrom (tree : Tree) (first count : Nat) : List Handle :=
  (List.range' first count).filter tree.isPlain

/-- The handles below a bound, the highest first, except attributes and those to be skipped. -/
def plainBelow (tree : Tree) (below : Nat) (skipped : List Handle) : List Handle :=
  (List.range below).reverse.filter fun handle => tree.isPlain handle && !skipped.contains handle

/-- The nodes of an axis at a start node, in the order of the axis. -/
def axisNodes (tree : Tree) (axis : Axis) (origin : Handle) : List Handle :=
  (tree.node? origin).elim [] fun node =>
    match axis with
    | .self => [origin]
    | .parent => node.parent.toList
    | .child => tree.children origin
    | .followingSibling =>
      if node.content.isAttr then [] else tree.trail Node.nextSibling node.nextSibling
    | .precedingSibling =>
      if node.content.isAttr then [] else tree.trail Node.previousSibling node.previousSibling
    | .ancestor => tree.trail Node.parent node.parent
    | .ancestorOrSelf => origin :: tree.trail Node.parent node.parent
    | .descendant => tree.plainFrom (origin + 1) (node.stop - (origin + 1))
    | .descendantOrSelf => origin :: tree.plainFrom (origin + 1) (node.stop - (origin + 1))
    | .following => tree.plainFrom node.stop (tree.size - node.stop)
    | .preceding => tree.plainBelow origin (tree.trail Node.parent node.parent)
    | .attr => node.attributes.toList

/-! ### Handles and nodes -/

variable {tree : Tree} {handle : Nat}

theorem exists_node (member : handle < tree.size) : ∃ node, tree.node? handle = some node :=
  ⟨_, Array.getElem?_eq_getElem member⟩

theorem lt_size_of_node {node : Node} (found : tree.node? handle = some node) :
    handle < tree.size :=
  (Array.getElem?_eq_some_iff.mp found).1

@[simp] theorem node_of_node? {node : Node} (found : tree.node? handle = some node) :
    tree.node handle = .ok node := by
  rw [Tree.node, found]

theorem node_of_size_le (outside : tree.size ≤ handle) : tree.node handle = .error .outOfRange := by
  have missing : tree.node? handle = none := Array.getElem?_eq_none outside
  rw [Tree.node, missing]

/-- A handle of the tree is an attribute or plain, and never a fault. -/
theorem isAttr_of_lt_size (member : handle < tree.size) :
    tree.isAttr handle = .ok (!tree.isPlain handle) := by
  obtain ⟨node, found⟩ := exists_node member
  rw [isAttr, node_of_node? found, isPlain, found, Option.any_some, Bool.not_not]
  rfl

/-! ### Walks along links -/

/-- A rank that falls with every link of one kind, and that no node of the tree has above the size
of the tree. -/
structure Ranks (tree : Tree) (link : Node → Option Handle) (rank : Nat → Nat) : Prop where
  pos : ∀ handle, handle < tree.size → 0 < rank handle
  le_size : ∀ handle, handle < tree.size → rank handle ≤ tree.size
  falls : ∀ handle node onward, tree.node? handle = some node → link node = some onward →
    onward < tree.size ∧ rank onward < rank handle

section Chain

variable {link : Node → Option Handle} {rank : Nat → Nat}

@[simp] theorem chain_none (left : Nat) : tree.chain link left none = [] := by cases left <;> rfl

/-- **The bound of a walk does not matter** once it covers the rank of the first node. -/
theorem chain_eq_chain (ranks : tree.Ranks link rank) (left more : Nat) (member : handle < tree.size)
    (enough : rank handle ≤ left) (alike : rank handle ≤ more) :
    tree.chain link left (some handle) = tree.chain link more (some handle) := by
  have pos := ranks.pos handle member
  induction left generalizing handle more with
  | zero => omega
  | succ left ih =>
    obtain ⟨more, rfl⟩ : ∃ fewer, more = fewer + 1 := ⟨more - 1, by omega⟩
    obtain ⟨node, found⟩ := exists_node member
    rw [chain, chain, found, Option.bind_some]
    cases onward : link node with
    | none => rw [chain_none, chain_none]
    | some next =>
      obtain ⟨within, lower⟩ := ranks.falls handle node next found onward
      rw [ih more within (by omega) (by omega) (ranks.pos next within)]

/-- A walk passes no more nodes than the rank of its first one. -/
theorem length_chain_le (ranks : tree.Ranks link rank) (left : Nat) (member : handle < tree.size) :
    (tree.chain link left (some handle)).length ≤ rank handle := by
  have pos := ranks.pos handle member
  induction left generalizing handle with
  | zero => exact Nat.zero_le _
  | succ left ih =>
    obtain ⟨node, found⟩ := exists_node member
    rw [chain, found, Option.bind_some, List.length_cons]
    cases onward : link node with
    | none => rwa [chain_none]
    | some next =>
      obtain ⟨within, lower⟩ := ranks.falls handle node next found onward
      have behind := ih within (ranks.pos next within)
      omega

@[simp] theorem trail_none : tree.trail link none = [] := chain_none tree.size

/-- A walk passes its first node and goes on from the link there. -/
theorem trail_some (ranks : tree.Ranks link rank) {node : Node}
    (found : tree.node? handle = some node) :
    tree.trail link (some handle) = handle :: tree.trail link (link node) := by
  have member := lt_size_of_node found
  have pos := ranks.pos handle member
  have bound := ranks.le_size handle member
  rw [trail, chain_eq_chain ranks tree.size (tree.size + 1) member bound (by omega), chain, found]
  rfl

theorem length_trail_le (ranks : tree.Ranks link rank) (member : handle < tree.size) :
    (tree.trail link (some handle)).length ≤ rank handle :=
  length_chain_le ranks tree.size member

theorem lt_size_of_mem_chain (ranks : tree.Ranks link rank) (left : Nat)
    (member : handle < tree.size) :
    ∀ node ∈ tree.chain link left (some handle), node < tree.size := by
  induction left generalizing handle with
  | zero => exact fun _ met => absurd met List.not_mem_nil
  | succ left ih =>
    obtain ⟨node, found⟩ := exists_node member
    rw [chain, found, Option.bind_some]
    refine List.forall_mem_cons.mpr ⟨member, ?_⟩
    cases onward : link node with
    | none =>
      rw [chain_none]
      exact fun _ met => absurd met List.not_mem_nil
    | some next => exact ih (ranks.falls handle node next found onward).1

/-- A walk along links from a node of the tree passes nodes of the tree. -/
theorem lt_size_of_mem_trail (ranks : tree.Ranks link rank) {next : Option Handle}
    (leads : ∀ handle, next = some handle → handle < tree.size) :
    ∀ node ∈ tree.trail link next, node < tree.size := by
  cases next with
  | none =>
    rw [trail_none]
    exact fun _ met => absurd met List.not_mem_nil
  | some handle => exact lt_size_of_mem_chain ranks tree.size (leads handle rfl)

/-- A walk begins with the node that it is sent to, unless it is not to pass any. -/
theorem eq_of_mem_head_chain {left : Nat} {next : Option Handle} :
    ∀ first ∈ (tree.chain link left next).head?, next = some first := by
  cases left with
  | zero => exact fun _ met => absurd met (Option.not_mem_none _)
  | succ left =>
    cases next with
    | none => exact fun _ met => absurd met (Option.not_mem_none _)
    | some handle => exact fun _ met => met

/-- **Two nodes in a row of a walk are linked.** -/
theorem isChain_chain (left : Nat) (next : Option Handle) :
    (tree.chain link left next).IsChain fun first second =>
      ∃ node, tree.node? first = some node ∧ link node = some second := by
  induction left generalizing next with
  | zero => exact List.isChain_nil
  | succ left ih =>
    cases next with
    | none => exact List.isChain_nil
    | some handle =>
      refine List.isChain_cons.mpr ⟨fun second met => ?_, ih _⟩
      exact Option.bind_eq_some_iff.mp (eq_of_mem_head_chain second met)

/-- A walk along links that lead in one direction goes in that direction throughout. -/
theorem pairwise_trail {before : Handle → Handle → Prop} [Trans before before before]
    (leads : ∀ handle node onward, tree.node? handle = some node → link node = some onward →
      before handle onward) (next : Option Handle) :
    (tree.trail link next).Pairwise before :=
  List.isChain_iff_pairwise.mp ((isChain_chain tree.size next).imp
    fun first second ⟨node, found, linked⟩ => leads first node second found linked)

end Chain

/-- Walking along sibling links is such a walk. -/
theorem siblingsFrom_eq_chain (left : Nat) (next : Option Handle) :
    tree.siblingsFrom left next = tree.chain Node.nextSibling left next := by
  induction left generalizing next with
  | zero => rfl
  | succ left ih =>
    cases next with
    | none => rfl
    | some handle => rw [siblingsFrom, chain, ih]

theorem children_eq_trail {node : Node} (found : tree.node? handle = some node) :
    tree.children handle = tree.trail Node.nextSibling node.firstChild := by
  rw [children, siblingsFrom_eq_chain, found]
  rfl

/-! ### The ranks of the three kinds of links -/

namespace Linked

variable (linked : tree.Linked)

include linked

theorem ranks_parent : tree.Ranks Node.parent (· + 1) where
  pos handle _ := Nat.succ_pos handle
  le_size _ member := member
  falls handle node onward found leads := by
    have lower := (linked.row handle node found).parent onward leads
    have member := lt_size_of_node found
    grind

theorem ranks_previous : tree.Ranks Node.previousSibling (· + 1) where
  pos handle _ := Nat.succ_pos handle
  le_size _ member := member
  falls handle node onward found leads := by
    have lower := (linked.row handle node found).previous onward leads
    have member := lt_size_of_node found
    grind

theorem ranks_next : tree.Ranks Node.nextSibling (tree.size - ·) where
  pos _ member := Nat.sub_pos_of_lt member
  le_size handle _ := Nat.sub_le tree.size handle
  falls handle node onward found leads := by
    have higher := (linked.row handle node found).next onward leads
    grind

/-- Walking up, handles fall. -/
theorem pairwise_parent (next : Option Handle) :
    (tree.trail Node.parent next).Pairwise (· > ·) :=
  pairwise_trail (fun handle node onward found leads =>
    (linked.row handle node found).parent onward leads) next

/-- So they do along the links to earlier siblings. -/
theorem pairwise_previous (next : Option Handle) :
    (tree.trail Node.previousSibling next).Pairwise (· > ·) :=
  pairwise_trail (fun handle node onward found leads =>
    (linked.row handle node found).previous onward leads) next

/-- Along the links to later siblings, handles rise. -/
theorem pairwise_next (next : Option Handle) :
    (tree.trail Node.nextSibling next).Pairwise (· < ·) :=
  pairwise_trail (fun handle node onward found leads =>
    ((linked.row handle node found).next onward leads).1) next

/-- Ancestors have lower handles. -/
theorem le_of_mem_ancestors (member : handle < tree.size) :
    ∀ ancestor ∈ tree.trail Node.parent (some handle), ancestor ≤ handle := by
  induction handle using Nat.strongRecOn with
  | ind handle ih =>
    intro ancestor within
    obtain ⟨node, found⟩ := exists_node member
    rw [trail_some linked.ranks_parent found] at within
    rcases List.mem_cons.mp within with rfl | within
    · exact Nat.le_refl _
    · cases onward : node.parent with
      | none => rw [onward, trail_none] at within; cases within
      | some next =>
        have lower := (linked.row handle node found).parent next onward
        rw [onward] at within
        exact Nat.le_trans (ih next lower (Nat.lt_trans lower member) ancestor within)
          (Nat.le_of_lt lower)

end Linked

/-! ### Ranges without attributes -/

@[simp] theorem plainFrom_zero (first : Nat) : tree.plainFrom first 0 = [] := rfl

theorem plainFrom_succ (first count : Nat) :
    tree.plainFrom first (count + 1) =
      if tree.isPlain first then first :: tree.plainFrom (first + 1) count
      else tree.plainFrom (first + 1) count := by
  rw [plainFrom, List.range'_succ, List.filter_cons]
  rfl

/-- A range up to a handle has the plain handles before it. -/
theorem mem_plainFrom_iff {first stop : Nat} :
    handle ∈ tree.plainFrom first (stop - first) ↔
      first ≤ handle ∧ handle < stop ∧ tree.isPlain handle = true := by
  rw [plainFrom, List.mem_filter, List.mem_range'_1]
  constructor
  · rintro ⟨⟨from_first, below⟩, plain⟩
    exact ⟨from_first, by omega, plain⟩
  · rintro ⟨from_first, before, plain⟩
    exact ⟨⟨from_first, by omega⟩, plain⟩

theorem length_plainFrom_le (first count : Nat) : (tree.plainFrom first count).length ≤ count := by
  have kept := List.length_filter_le tree.isPlain (List.range' first count)
  rwa [List.length_range'] at kept

/-- Ranges are listed upward. -/
theorem pairwise_plainFrom (first count : Nat) : (tree.plainFrom first count).Pairwise (· < ·) :=
  (List.pairwise_lt_range').filter _

@[simp] theorem plainBelow_zero (skipped : List Handle) : tree.plainBelow 0 skipped = [] := rfl

theorem plainBelow_succ (below : Nat) (skipped : List Handle) :
    tree.plainBelow (below + 1) skipped =
      if tree.isPlain below && !skipped.contains below then below :: tree.plainBelow below skipped
      else tree.plainBelow below skipped := by
  rw [plainBelow, List.range_succ, List.reverse_append, List.reverse_singleton,
    List.singleton_append, List.filter_cons]
  rfl

theorem length_plainBelow_le (below : Nat) (skipped : List Handle) :
    (tree.plainBelow below skipped).length ≤ below := by
  have kept := List.length_filter_le
    (fun handle => tree.isPlain handle && !skipped.contains handle) (List.range below).reverse
  rwa [List.length_reverse, List.length_range] at kept

/-- Scans backward are listed downward. -/
theorem pairwise_plainBelow (below : Nat) (skipped : List Handle) :
    (tree.plainBelow below skipped).Pairwise (· > ·) :=
  (List.pairwise_reverse.mpr List.pairwise_lt_range).filter _

/-- Skipping a handle that is not below the bound changes nothing. -/
theorem plainBelow_cons (below : Nat) (skipped : List Handle) (outside : below ≤ handle) :
    tree.plainBelow below (handle :: skipped) = tree.plainBelow below skipped := by
  induction below with
  | zero => rfl
  | succ below ih =>
    have other : (below == handle) = false := beq_false_of_ne (by omega)
    rw [plainBelow_succ, plainBelow_succ, ih (by omega), List.contains_cons, other,
      Bool.false_or]

end Tree

end XPathWalk

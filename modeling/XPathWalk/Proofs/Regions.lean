/-
**The regions of a document around a node.**

Seen from a node that is no attribute, every such node lies in exactly one of five regions: it is
the node itself, an ancestor of it, below it, behind its subtree, or its own subtree ends before it.
Which one it is can be told from two handles and two stops, and five axes list the nodes of the five
regions, although they find them in four different ways.

* `Tree.PlainAt`: a node of the tree that is no attribute;
* `Tree.region`: the region in which a node lies;
* `LaidOut.mem_axisNodes_iff`: the axis of a region lists the nodes that lie in it;
* `region_converse`: exchanging the two nodes exchanges regions;
* `partition_of_built`: in a built tree the lists of the node itself, its ancestors, its
  descendants, what follows and what precedes it hold every node that is no attribute, and only
  these, each once: none of the lists repeats a node and no two of them share one. Of two such
  nodes, the second follows the first exactly if the first precedes the second, and is below the
  first exactly if that is an ancestor of it.
-/

import XPathWalk.Proofs.Surroundings

namespace XPathWalk

namespace Tree

/-- A node of the tree that is no attribute. -/
structure PlainAt (tree : Tree) (handle : Handle) (node : Node) : Prop where
  found : tree.node? handle = some node
  plain : node.content.isAttr = false

/-- The axes of the five regions. -/
def regions : List Axis := [.self, .ancestor, .descendant, .following, .preceding]

/-- The region around `origin` in which another node lies, named by its axis. -/
def region (origin : Nat) (node : Node) (handle : Nat) (row : Node) : Axis :=
  if handle = origin then .self
  else if handle < origin then
    if origin < row.stop then .ancestor else .preceding
  else if handle < node.stop then .descendant
  else .following

theorem forall_regions {motive : Axis → Prop} :
    (∀ axis ∈ regions, motive axis) ↔
      motive .self ∧ motive .ancestor ∧ motive .descendant ∧ motive .following ∧
        motive .preceding := by
  simp [regions]

theorem region_mem_regions (origin : Nat) (node : Node) (handle : Nat) (row : Node) :
    region origin node handle row ∈ regions := by
  unfold region regions
  split_ifs <;> simp

/-- **Exchanging the two nodes exchanges regions**: what follows is preceded, and what lies below
has an ancestor above it. -/
theorem region_converse {first second : Nat} {node row : Node} (filled : first < node.stop) :
    (region first node second row = .following ↔ region second row first node = .preceding) ∧
      (region first node second row = .descendant ↔ region second row first node = .ancestor) := by
  unfold region
  constructor <;> grind

variable {tree : Tree} {origin handle : Nat} {node row : Node}

theorem PlainAt.isPlain (here : tree.PlainAt handle row) : tree.isPlain handle = true := by
  rw [isPlain_of_node? here.found, here.plain]
  rfl

/-- A handle of the tree that is not found to be an attribute is no attribute. -/
theorem exists_plainAt (member : handle < tree.size) (plain : tree.isPlain handle = true) :
    ∃ row, tree.PlainAt handle row := by
  obtain ⟨row, found⟩ := exists_node member
  rw [isPlain_of_node? found, Bool.not_eq_true'] at plain
  exact ⟨row, found, plain⟩

/-- A range within the tree lists nodes that are no attributes. -/
theorem exists_plainAt_of_mem_plainFrom {first stop : Nat} (ends : stop ≤ tree.size)
    (member : handle ∈ tree.plainFrom first (stop - first)) : ∃ row, tree.PlainAt handle row := by
  obtain ⟨_, below, plain⟩ := mem_plainFrom_iff.mp member
  exact exists_plainAt (Nat.lt_of_lt_of_le below ends) plain

/-- So does a scan backward. -/
theorem exists_plainAt_of_mem_plainBelow {below : Nat} {skipped : List Handle}
    (ends : below ≤ tree.size) (member : handle ∈ tree.plainBelow below skipped) :
    ∃ row, tree.PlainAt handle row := by
  rw [plainBelow, List.mem_filter, List.mem_reverse, List.mem_range, Bool.and_eq_true] at member
  exact exists_plainAt (Nat.lt_of_lt_of_le member.1 ends) member.2.1

namespace LaidOut

/-! ### Ancestors -/

/-- Walking along parents meets what a node leads up to. -/
theorem mem_trail_parent_iff (laid : tree.LaidOut) (found : tree.node? handle = some node)
    (top : Handle) :
    top ∈ tree.trail Node.parent (some handle) ↔
      Relation.ReflTransGen tree.IsParent handle top := by
  induction handle using Nat.strongRecOn generalizing node with
  | ind handle ih =>
    rw [trail_some laid.linked.ranks_parent found, List.mem_cons,
      Relation.ReflTransGen.cases_head_iff, eq_comm]
    refine or_congr_right ?_
    cases above : node.parent with
    | none =>
      rw [trail_none]
      constructor
      · intro member
        exact absurd member List.not_mem_nil
      · rintro ⟨parent, ⟨other, entry, same⟩, _⟩
        rw [found] at entry
        cases entry
        rw [above] at same
        cases same
    | some parent =>
      obtain ⟨owner, entryOwner, before, _⟩ := laid.exists_parent_row found above
      rw [ih parent before entryOwner]
      constructor
      · intro leads
        exact ⟨parent, ⟨node, found, above⟩, leads⟩
      · rintro ⟨other, ⟨_, entry, same⟩, leads⟩
        rw [found] at entry
        cases entry
        rw [above] at same
        cases same
        exact leads

/-- The parent of a node is no attribute, even if the node is one. -/
theorem plainAt_parent (laid : tree.LaidOut) (found : tree.node? handle = some node) {parent : Nat}
    (above : node.parent = some parent) : ∃ owner, tree.PlainAt parent owner := by
  obtain ⟨owner, top, _⟩ := laid.exists_parent_row found above
  exact ⟨owner, top, laid.plain_of_parent found top above⟩

/-- What a node that is no attribute leads up to is none either. -/
theorem plainAt_of_leads (laid : tree.LaidOut) {top : Nat}
    (leads : Relation.ReflTransGen tree.IsParent handle top) (here : tree.PlainAt handle node) :
    ∃ row, tree.PlainAt top row := by
  induction leads with
  | refl => exact ⟨node, here⟩
  | tail _ step ih =>
    obtain ⟨row, there⟩ := ih
    obtain ⟨_, entry, above⟩ := step
    rw [there.found] at entry
    cases entry
    exact laid.plainAt_parent there.found above

/-- Ancestors are no attributes. -/
theorem exists_plainAt_of_mem_ancestor (laid : tree.LaidOut) (found : tree.node? origin = some node)
    (member : handle ∈ tree.axisNodes .ancestor origin) : ∃ row, tree.PlainAt handle row := by
  rw [axisNodes, found, Option.elim_some] at member
  cases above : node.parent with
  | none =>
    rw [above, trail_none] at member
    cases member
  | some parent =>
    obtain ⟨owner, top⟩ := laid.plainAt_parent found above
    rw [above] at member
    exact laid.plainAt_of_leads ((laid.mem_trail_parent_iff top.found handle).mp member) top

/-- The ancestors of a node, together with the node, are met by walking up from it. -/
theorem trail_parent_eq (laid : tree.LaidOut) (found : tree.node? origin = some node) :
    tree.trail Node.parent (some origin) = origin :: tree.axisNodes .ancestor origin := by
  rw [trail_some laid.linked.ranks_parent found, axisNodes, found, Option.elim_some]

/-- From a node up through its ancestors, handles fall. -/
theorem pairwise_ancestor (laid : tree.LaidOut) (found : tree.node? origin = some node) :
    (origin :: tree.axisNodes .ancestor origin).Pairwise (· > ·) :=
  laid.trail_parent_eq found ▸ laid.linked.pairwise_parent (some origin)

/-- Ancestors come before a node, and their subtrees end behind it. -/
theorem mem_ancestor_iff (laid : tree.LaidOut) (found : tree.node? origin = some node)
    (entry : tree.node? handle = some row) :
    handle ∈ tree.axisNodes .ancestor origin ↔ handle < origin ∧ origin < row.stop := by
  have whole := laid.mem_trail_parent_iff found handle
  rw [laid.trail_parent_eq found] at whole
  rw [List.mem_cons, ← laid.within_iff_ancestor found entry] at whole
  constructor
  · intro member
    have lower : handle < origin :=
      (List.pairwise_cons.mp (laid.pairwise_ancestor found)).1 handle member
    exact ⟨lower, (whole.mp (.inr member)).2⟩
  · rintro ⟨lower, within⟩
    rcases whole.mpr ⟨Nat.le_of_lt lower, within⟩ with same | member
    · exact absurd same (Nat.ne_of_lt lower)
    · exact member

/-! ### The four other axes -/

theorem mem_preceding_iff (laid : tree.LaidOut) (found : tree.node? origin = some node)
    (there : tree.PlainAt handle row) :
    handle ∈ tree.axisNodes .preceding origin ↔ row.stop ≤ origin := by
  have above := laid.mem_ancestor_iff found there.found
  have filled := laid.lt_stop there.found
  rw [axisNodes, found, Option.elim_some] at above
  rw [axisNodes, found, Option.elim_some, plainBelow, List.mem_filter, List.mem_reverse,
    List.mem_range, there.isPlain, Bool.true_and, List.contains_eq_mem, Bool.not_eq_true',
    decide_eq_false_iff_not, above]
  grind

/-- The five axes list nodes that are no attributes. -/
theorem exists_plainAt_of_mem (laid : tree.LaidOut) (here : tree.PlainAt origin node) :
    ∀ axis ∈ regions, handle ∈ tree.axisNodes axis origin → ∃ row, tree.PlainAt handle row := by
  have ends := (laid.linked.row origin node here.found).stop
  have inside := lt_size_of_node here.found
  refine forall_regions.mpr ⟨?_, ?_, ?_, ?_, ?_⟩
  all_goals intro member
  · rw [axisNodes, here.found, Option.elim_some, List.mem_singleton] at member
    subst member
    exact ⟨node, here⟩
  · exact laid.exists_plainAt_of_mem_ancestor here.found member
  · rw [axisNodes, here.found, Option.elim_some] at member
    exact exists_plainAt_of_mem_plainFrom ends member
  · rw [axisNodes, here.found, Option.elim_some] at member
    exact exists_plainAt_of_mem_plainFrom (Nat.le_refl _) member
  · rw [axisNodes, here.found, Option.elim_some] at member
    exact exists_plainAt_of_mem_plainBelow (Nat.le_of_lt inside) member

/-! ### Regions -/

/-- **The axis of a region lists the nodes that lie in it.** -/
theorem mem_axisNodes_iff (laid : tree.LaidOut) (here : tree.PlainAt origin node)
    (there : tree.PlainAt handle row) :
    ∀ axis ∈ regions,
      (handle ∈ tree.axisNodes axis origin ↔ region origin node handle row = axis) := by
  have filled := laid.lt_stop here.found
  have other := laid.lt_stop there.found
  have inside := lt_size_of_node there.found
  -- Each list is told by comparing the two handles and the two stops, and so is the region.
  unfold region
  refine forall_regions.mpr ⟨?_, ?_, ?_, ?_, ?_⟩
  · rw [axisNodes, here.found, Option.elim_some, List.mem_singleton]
    grind
  · rw [laid.mem_ancestor_iff here.found there.found]
    grind
  · rw [axisNodes, here.found, Option.elim_some, mem_plainFrom_iff, there.isPlain]
    grind
  · rw [axisNodes, here.found, Option.elim_some, mem_plainFrom_iff, there.isPlain]
    grind
  · rw [laid.mem_preceding_iff here.found there]
    grind

/-- No axis of a region lists a node twice. -/
theorem nodup_axisNodes (laid : tree.LaidOut) (found : tree.node? origin = some node) :
    ∀ axis ∈ regions, (tree.axisNodes axis origin).Nodup := by
  have above := (List.pairwise_cons.mp (laid.pairwise_ancestor found)).2
  refine forall_regions.mpr ⟨?_, above.imp Nat.ne_of_gt, ?_, ?_, ?_⟩
  all_goals rw [axisNodes, found, Option.elim_some]
  · exact List.nodup_singleton origin
  · exact (pairwise_plainFrom _ _).imp Nat.ne_of_lt
  · exact (pairwise_plainFrom _ _).imp Nat.ne_of_lt
  · exact (pairwise_plainBelow _ _).imp Nat.ne_of_gt

/-- **The five axes list no node twice**, neither one of them nor two of them together. -/
theorem nodup_regions (laid : tree.LaidOut) (here : tree.PlainAt origin node) :
    (regions.flatMap fun axis => tree.axisNodes axis origin).Nodup := by
  refine List.nodup_flatMap.mpr ⟨laid.nodup_axisNodes here.found, ?_⟩
  have distinct : regions.Nodup := by decide
  refine distinct.imp_of_mem fun {axis other} one another different => ?_
  intro handle member again
  -- A node in two of the lists would lie in two regions.
  obtain ⟨row, there⟩ := laid.exists_plainAt_of_mem here axis one member
  have lies := (laid.mem_axisNodes_iff here there axis one).mp member
  have liesAlso := (laid.mem_axisNodes_iff here there other another).mp again
  exact different (lies.symm.trans liesAlso)

/-- **The five axes list all nodes that are no attributes**, and nothing else. -/
theorem mem_regions_iff (laid : tree.LaidOut) (here : tree.PlainAt origin node) :
    handle ∈ regions.flatMap (fun axis => tree.axisNodes axis origin) ↔
      ∃ row, tree.PlainAt handle row := by
  rw [List.mem_flatMap]
  constructor
  · rintro ⟨axis, one, member⟩
    exact laid.exists_plainAt_of_mem here axis one member
  · rintro ⟨row, there⟩
    have one := region_mem_regions origin node handle row
    exact ⟨_, one, (laid.mem_axisNodes_iff here there _ one).mpr rfl⟩

/-- What follows is preceded, and what lies below has an ancestor. -/
theorem mem_converse (laid : tree.LaidOut) (here : tree.PlainAt origin node)
    (there : tree.PlainAt handle row) :
    (handle ∈ tree.axisNodes .following origin ↔ origin ∈ tree.axisNodes .preceding handle) ∧
      (handle ∈ tree.axisNodes .descendant origin ↔
        origin ∈ tree.axisNodes .ancestor handle) := by
  have each := laid.mem_axisNodes_iff here there
  have back := laid.mem_axisNodes_iff there here
  rw [each .following (by decide), each .descendant (by decide), back .preceding (by decide),
    back .ancestor (by decide)]
  exact region_converse (laid.lt_stop here.found)

end LaidOut

/-! ### Built trees -/

/-- **Five axes partition a document and are mutually converse**: they list every node that is no
attribute once, and what follows precedes, and what is below is an ancestor, the other way round. -/
theorem partition_of_built (built : tree.Built) :
    (∀ axis origin, origin < tree.size →
      tree.walkNodes axis origin = .ok (tree.axisNodes axis origin)) ∧
    (∀ origin node, tree.PlainAt origin node →
      (tree.axisNodes .self origin ++ tree.axisNodes .ancestor origin ++
          tree.axisNodes .descendant origin ++ tree.axisNodes .following origin ++
          tree.axisNodes .preceding origin).Nodup ∧
        ∀ handle, handle ∈ tree.axisNodes .self origin ++ tree.axisNodes .ancestor origin ++
            tree.axisNodes .descendant origin ++ tree.axisNodes .following origin ++
            tree.axisNodes .preceding origin ↔
          ∃ row, tree.PlainAt handle row) ∧
    ∀ first second node row, tree.PlainAt first node → tree.PlainAt second row →
      (second ∈ tree.axisNodes .following first ↔ first ∈ tree.axisNodes .preceding second) ∧
        (second ∈ tree.axisNodes .descendant first ↔
          first ∈ tree.axisNodes .ancestor second) := by
  have laid := built.laidOut
  refine ⟨?_, ?_, ?_⟩
  · intro axis origin member
    exact walkNodes_of_lt_size built.linked axis member
  · intro origin node here
    have joined : regions.flatMap (fun axis => tree.axisNodes axis origin) =
        tree.axisNodes .self origin ++ tree.axisNodes .ancestor origin ++
          tree.axisNodes .descendant origin ++ tree.axisNodes .following origin ++
          tree.axisNodes .preceding origin := by
      simp [regions]
    rw [← joined]
    exact ⟨laid.nodup_regions here, fun handle => laid.mem_regions_iff here⟩
  · intro first second node row here there
    exact laid.mem_converse here there

/-- Around the inner element of two come two ancestors, a text below it, and a comment on each
side. -/
theorem partition_of_built_element :
    ∃ tree : Tree, tree.Built ∧ (∃ node, tree.PlainAt 4 node) ∧
      (tree.axisNodes .self 4 ++ tree.axisNodes .ancestor 4 ++ tree.axisNodes .descendant 4 ++
        tree.axisNodes .following 4 ++ tree.axisNodes .preceding 4).Nodup ∧
      tree.walkNodes .ancestor 4 = .ok [1, 0] ∧ tree.walkNodes .descendant 4 = .ok [6] ∧
      tree.walkNodes .following 4 = .ok [7] ∧ tree.walkNodes .preceding 4 = .ok [3] ∧
      4 ∈ tree.axisNodes .preceding 7 := by
  have built := built_ofDocument (.element "a" [("k", "v")]
    (.comment "c" (.element "b" [("l", "w")] (.text "t" .empty) (.comment "d" .empty))) .empty)
  obtain ⟨each, parts, converse⟩ := partition_of_built built
  refine ⟨_, built, ⟨_, rfl, rfl⟩, (parts 4 _ ⟨rfl, rfl⟩).1, each .ancestor 4 (by decide),
    each .descendant 4 (by decide), each .following 4 (by decide),
    each .preceding 4 (by decide), ?_⟩
  exact (converse 4 7 _ _ ⟨rfl, rfl⟩ ⟨rfl, rfl⟩).1.mp List.mem_cons_self

end Tree

end XPathWalk

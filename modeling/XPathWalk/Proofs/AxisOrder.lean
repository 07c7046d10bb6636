/-
**Axes come out strictly ordered.**

A reverse axis lists handles that fall, every other axis handles that rise, whether it follows links
or scans a range. So a node set over a single axis has nothing to reorder but the direction, and
nothing to drop: it yields the list of the axis, read backward for a reverse axis. Attributes come
out only along the axis of attributes, or as the start node.

* `Axis.Before`: the order in which an axis lists its nodes;
* `Axis.listsOrigin`: the axes that list the start node itself;
* `LaidOut.pairwise_axisNodes`: every axis lists its nodes in its order;
* `LaidOut.plainAt_or_attr`: where attributes may be listed;
* `Axis.inDocumentOrder`, `ascending_of_before`: sorting such a list reverses it or does nothing;
* `order_of_built`: the walk along an axis of a built tree yields handles that rise, or fall if the
  axis is a reverse one. None of them is an attribute, except along the axis of attributes, and
  except for the start node on the three axes that list it. A walk in any state that heeds the start
  node, or has it, has these nodes, and a node set over it yields the same list, read backward for a
  reverse axis. Walk and node set tell the same size, whatever is called on either of them.
-/

import XPathWalk.Proofs.Materialization
import XPathWalk.Proofs.Siblings

namespace XPathWalk

namespace Axis

/-- The order in which an axis lists its nodes: reverse axes against document order. -/
def Before (axis : Axis) (first second : Handle) : Prop :=
  match axis.isReverse with
  | true => first > second
  | false => first < second

/-- The axes that list the start node itself. -/
def listsOrigin : Axis → Bool
  | self | ancestorOrSelf | descendantOrSelf => true
  | _ => false

/-- The nodes of an axis from the first of the document to the last. -/
def inDocumentOrder (axis : Axis) (nodes : List Handle) : List Handle :=
  if axis.isReverse then nodes.reverse else nodes

@[simp] theorem length_inDocumentOrder (axis : Axis) (nodes : List Handle) :
    (axis.inDocumentOrder nodes).length = nodes.length := by
  unfold inDocumentOrder
  split
  · exact List.length_reverse
  · rfl

/-- **Sorting what an axis lists** reverses it or does nothing. -/
theorem ascending_of_before {axis : Axis} {nodes : List Handle}
    (ordered : nodes.Pairwise axis.Before) : ascending nodes = axis.inDocumentOrder nodes := by
  unfold inDocumentOrder
  unfold Before at ordered
  symm
  cases reverse : axis.isReverse with
  | true =>
    rw [reverse] at ordered
    exact eq_ascending (List.pairwise_reverse.mpr ordered) fun _ => List.mem_reverse
  | false =>
    rw [reverse] at ordered
    exact eq_ascending ordered fun _ => Iff.rfl

end Axis

namespace Tree

variable {tree : Tree} {origin handle : Nat} {node : Node}

namespace LaidOut

/-! ### The order of an axis -/

/-- **Every axis lists its nodes in its order.** -/
theorem pairwise_axisNodes (laid : tree.LaidOut) (axis : Axis) (origin : Handle) :
    (tree.axisNodes axis origin).Pairwise axis.Before := by
  cases found : tree.node? origin with
  | none =>
    rw [axisNodes, found]
    exact List.Pairwise.nil
  | some node =>
    have children := laid.pairwise_child origin
    have upward := laid.pairwise_ancestor found
    have places := (laid.row origin node found).holds.attributes
    rw [axisNodes, found, Option.elim_some] at children upward ⊢
    cases axis with
    | self => exact List.pairwise_singleton _ origin
    | child => exact children
    | parent =>
      cases above : node.parent with
      | none => exact List.Pairwise.nil
      | some parent => exact List.pairwise_singleton _ parent
    | ancestor => exact (List.pairwise_cons.mp upward).2
    | ancestorOrSelf => exact upward
    | descendant => exact pairwise_plainFrom _ _
    | descendantOrSelf =>
      refine List.pairwise_cons.mpr ⟨fun handle member => ?_, pairwise_plainFrom _ _⟩
      exact (mem_plainFrom_iff.mp member).1
    | followingSibling =>
      cases isAttr : node.content.isAttr with
      | true => exact List.Pairwise.nil
      | false => exact laid.linked.pairwise_next node.nextSibling
    | precedingSibling =>
      cases isAttr : node.content.isAttr with
      | true => exact List.Pairwise.nil
      | false => exact laid.linked.pairwise_previous node.previousSibling
    | following => exact pairwise_plainFrom _ _
    | preceding => exact pairwise_plainBelow _ _
    | attr =>
      rw [places]
      exact List.pairwise_lt_range'

/-! ### Attributes -/

/-- Siblings are no attributes. -/
theorem exists_plainAt_of_mem_siblings (laid : tree.LaidOut) (found : tree.node? origin = some node)
    (member : handle ∈ tree.axisNodes .precedingSibling origin ∨
      handle ∈ tree.axisNodes .followingSibling origin) : ∃ row, tree.PlainAt handle row := by
  cases (laid.row origin node found).stands with
  | root _ document _ before behind =>
    obtain ⟨later, earlier⟩ := axisNodes_siblings found (by rw [document]; rfl)
    rw [later, earlier, before, behind, trail_none, trail_none, or_self] at member
    cases member
  | attr _ _ _ same =>
    obtain ⟨_, _, later, earlier⟩ := laid.siblings_of_attr found (by rw [same]; rfl)
    rw [later, earlier, or_self] at member
    cases member
  | child _ place =>
    have around := laid.siblings_around ⟨found, place.child.plain⟩ place.child.parent
    have among := List.mem_append.mpr
      (member.imp List.mem_reverse.mpr (List.mem_cons_of_mem origin))
    rw [around] at among
    obtain ⟨row, there, _⟩ := laid.mem_child_iff.mp among
    exact ⟨row, there⟩

/-- **Attributes are listed along their own axis**, or as the start node. -/
theorem plainAt_or_attr (laid : tree.LaidOut) (found : tree.node? origin = some node) (axis : Axis)
    (member : handle ∈ tree.axisNodes axis origin) :
    (∃ row, tree.PlainAt handle row) ∨ axis = .attr ∨ handle = origin ∧ axis.listsOrigin := by
  have ends := (laid.linked.row origin node found).stop
  have below := Nat.le_of_lt (lt_size_of_node found)
  have whole := member
  rw [axisNodes, found, Option.elim_some] at member
  cases axis with
  | self => exact .inr (.inr ⟨List.mem_singleton.mp member, rfl⟩)
  | child =>
    obtain ⟨row, there, _⟩ := laid.mem_child_iff.mp whole
    exact .inl ⟨row, there⟩
  | parent => exact .inl (laid.plainAt_parent found (Option.mem_toList.mp member))
  | ancestor => exact .inl (laid.exists_plainAt_of_mem_ancestor found whole)
  | ancestorOrSelf =>
    rcases List.mem_cons.mp member with same | above
    · exact .inr (.inr ⟨same, rfl⟩)
    · refine .inl (laid.exists_plainAt_of_mem_ancestor found ?_)
      rwa [axisNodes, found]
  | descendant => exact .inl (exists_plainAt_of_mem_plainFrom ends member)
  | descendantOrSelf =>
    rcases List.mem_cons.mp member with same | inner
    · exact .inr (.inr ⟨same, rfl⟩)
    · exact .inl (exists_plainAt_of_mem_plainFrom ends inner)
  | followingSibling => exact .inl (laid.exists_plainAt_of_mem_siblings found (.inr whole))
  | precedingSibling => exact .inl (laid.exists_plainAt_of_mem_siblings found (.inl whole))
  | following => exact .inl (exists_plainAt_of_mem_plainFrom (Nat.le_refl _) member)
  | preceding => exact .inl (exists_plainAt_of_mem_plainBelow below member)
  | attr => exact .inr (.inl rfl)

end LaidOut

end Tree

namespace Plan

variable {tree : Tree} {plan : Plan} {iterator : NodeIterator}

/-! ### Iterators that have a start node -/

/-- An iterator that is in step tells the size of its whole sequence. -/
theorem InStep.whole_last (inStep : plan.InStep tree iterator) {nodes : List Handle}
    (contents : iterator.contents = ⟨nodes, none⟩) :
    iterator.whole = .ok nodes ∧ iterator.last = .ok (.ok nodes.length) := by
  obtain ⟨copy, cloned⟩ := inStep.exists_clone
  refine ⟨(NodeIterator.whole_eq_iff inStep.sound nodes).mpr contents, ?_⟩
  rw [NodeIterator.last_of_clone inStep.sound cloned, contents]
  rfl

section Walk

variable {axis : Axis} {origin : Handle}

/-- A walk that has a start node has the nodes of its axis there. -/
theorem InStep.contents_axis (inStep : (Plan.axis axis).InStep tree iterator)
    (begun : iterator.progress.start = some origin) :
    iterator.contents = ⟨tree.axisNodes axis origin, none⟩ := by
  obtain ⟨start, restartable, stands⟩ := inStep.stands
  obtain ⟨walk, rfl, _, _, same⟩ := NodeIterator.exists_walk_of_bare stands
  have start_eq : start = some origin := (congrArg Progress.start same).symm.trans begun
  rw [← NodeIterator.contents_bare, stands, start_eq, contents_station, nodes]

/-- A walk that may restart, or that has the start node already, has it once it was told. -/
theorem start_of_heeds {walk bound : AxisWalk} (taken : walk.bind origin = .ok bound)
    (heeds : walk.progress.restartable ∨ walk.progress.start = some origin) :
    bound.progress.start = some origin := by
  rcases AxisWalk.bind_ok taken with ⟨_, cursor, _, rfl⟩ | ⟨refused, rfl⟩
  · rfl
  · refine heeds.elim (fun restartable => ?_) id
    simpa [Progress.accepts, restartable] using refused

/-- So its whole sequence then is the list of the axis there. -/
theorem InStep.bind_axis (inStep : (Plan.axis axis).InStep tree iterator) (linked : tree.Linked)
    (member : origin < tree.size)
    (heeds : iterator.progress.restartable ∨ iterator.progress.start = some origin) :
    ∃ told, iterator.bind origin = .ok told ∧
      told.value.whole = .ok (tree.axisNodes axis origin) := by
  rcases inStep.bind linked origin with ⟨told, taken, after⟩ | ⟨outside, _⟩
  · refine ⟨told, taken, (after.whole_last (after.contents_axis ?_)).1⟩
    obtain ⟨_, _, stands⟩ := inStep.stands
    obtain ⟨walk, rfl, _⟩ := NodeIterator.exists_walk_of_bare stands
    obtain ⟨bound, done, same⟩ := exists_of_bind_ok taken
    cases same
    exact start_of_heeds done heeds
  · exact absurd member (Nat.not_lt_of_le outside)

/-- A node set over such a walk yields the nodes of the axis in ascending order. -/
theorem InStep.fill_axis (inStep : (Plan.axis axis).InStep tree iterator) (linked : tree.Linked)
    (member : origin < tree.size)
    (heeds : iterator.progress.restartable ∨ iterator.progress.start = some origin) :
    ∃ told set bound rest, iterator.bind origin = .ok told ∧
      told.value.whole = .ok (tree.axisNodes axis origin) ∧ iterator.toNodeSet = .ok set ∧
      set.value.bind origin = .ok bound ∧
      bound.value.drain = .ok (ascending (tree.axisNodes axis origin), rest) := by
  obtain ⟨told, taken, whole⟩ := inStep.bind_axis linked member heeds
  have made : iterator.toNodeSet = .ok { value := .nodeSet iterator {} } := by
    obtain ⟨_, _, stands⟩ := inStep.stands
    obtain ⟨walk, rfl, _⟩ := NodeIterator.exists_walk_of_bare stands
    rfl
  have heeded := NodeIterator.ignoredStart?_eq_none_iff.mpr
    (NodeIterator.heeds_fresh iterator origin)
  rcases NodeIterator.fill_of_heeded inStep.sound heeded with
    ⟨_, handles, bound, rest, again, all, filled, drained⟩ | ⟨fault, failed, _⟩
  · rw [taken] at again
    cases again
    rw [whole] at all
    cases all
    exact ⟨told, _, bound, rest, taken, whole, made, filled, drained⟩
  · rw [taken, ok_bind, whole] at failed
    cases failed

end Walk

end Plan

/-! ### Built trees -/

namespace Tree

/-- **Every axis is strictly ordered, so a node set over one axis restores document order** and
drops nothing: it yields the list of the walk, read backward for a reverse axis. -/
theorem order_of_built {tree : Tree} (built : tree.Built) (axis : Axis) {origin : Nat}
    (member : origin < tree.size) :
    ∃ nodes, tree.walkNodes axis origin = .ok nodes ∧
      (axis.isReverse = false → nodes.Pairwise (· < ·)) ∧
      (axis.isReverse = true → nodes.Pairwise (· > ·)) ∧
      (∀ handle ∈ nodes,
        (∃ row, tree.PlainAt handle row) ∨ axis = .attr ∨ handle = origin ∧ axis.listsOrigin) ∧
      (∀ walk, (NodeIterator.ofAxis tree axis).Run walk →
        (walk.progress.restartable ∨ walk.progress.start = some origin) →
        ∃ told set bound rest, walk.bind origin = .ok told ∧ told.value.whole = .ok nodes ∧
          walk.toNodeSet = .ok set ∧ set.value.bind origin = .ok bound ∧
          bound.value.drain = .ok (axis.inDocumentOrder nodes, rest)) ∧
      ∃ fresh, (NodeIterator.ofAxis tree axis).toNodeSet = .ok fresh ∧
        ∀ walk set, (NodeIterator.ofAxis tree axis).Run walk → fresh.value.Run set →
          walk.progress.start = some origin → set.progress.start = some origin →
          walk.whole = .ok nodes ∧ set.whole = .ok (axis.inDocumentOrder nodes) ∧
          walk.last = .ok (.ok nodes.length) ∧ set.last = .ok (.ok nodes.length) := by
  have laid := built.laidOut
  obtain ⟨node, found⟩ := exists_node member
  have ordered := laid.pairwise_axisNodes axis origin
  have sorted := Axis.ascending_of_before ordered
  -- A fresh walk has all levels in step, and so has a fresh node set over it.
  have walks : (Plan.axis axis).InStep tree (NodeIterator.ofAxis tree axis) :=
    ⟨NodeIterator.sound_ofAxis laid.linked axis, none, true, rfl⟩
  have sets : (Plan.nodeSet (.axis axis)).InStep tree
      (.nodeSet (NodeIterator.ofAxis tree axis) {}) := ⟨.nodeSet walks.sound, none, true, rfl⟩
  refine ⟨_, walkNodes_of_lt_size laid.linked axis member, ?_, ?_, ?_, ?_, ?_⟩
  · intro forward
    unfold Axis.Before at ordered
    rwa [forward] at ordered
  · intro backward
    unfold Axis.Before at ordered
    rwa [backward] at ordered
  · intro handle listed
    exact laid.plainAt_or_attr found axis listed
  · intro walk run heeds
    rw [← sorted]
    exact (walks.run laid.linked run).fill_axis laid.linked member heeds
  · refine ⟨_, rfl, fun walk set runWalk runSet begun begunSet => ?_⟩
    have walkStep := walks.run laid.linked runWalk
    have setStep := sets.run laid.linked runSet
    obtain ⟨whole, last⟩ := walkStep.whole_last (walkStep.contents_axis begun)
    obtain ⟨wholeSet, lastSet⟩ := setStep.whole_last (setStep.nodeSet begunSet).1
    rw [Plan.nodes, sorted] at wholeSet lastSet
    rw [Axis.length_inDocumentOrder] at lastSet
    exact ⟨whole, wholeSet, last, lastSet⟩

/-- Upward from an attribute come the attribute, its owner and the document. A node set turns that
around. -/
theorem order_of_built_attribute :
    ∃ (tree : Tree) (set bound : Logged NodeIterator) (rest : NodeIterator), tree.Built ∧
      tree.walkNodes .ancestorOrSelf 2 = .ok [2, 1, 0] ∧ [2, 1, 0].Pairwise (· > ·) ∧
      (NodeIterator.ofAxis tree .ancestorOrSelf).toNodeSet = .ok set ∧
      set.value.bind 2 = .ok bound ∧ bound.value.drain = .ok ([0, 1, 2], rest) ∧
      bound.value.last = .ok (.ok 3) := by
  have built := built_ofDocument (.element "a" [("k", "v")] (.text "t" .empty) .empty)
  obtain ⟨nodes, each, _, falls, _, filled, fresh, made, sized⟩ :=
    order_of_built built .ancestorOrSelf (show 2 < _ by decide)
  cases (show Except.ok [2, 1, 0] = Except.ok nodes from each)
  obtain ⟨told, set, bound, rest, taken, _, again, begun, drained⟩ := filled _ .refl (.inl rfl)
  cases made.symm.trans again
  have start : bound.value.progress.start = some 2 := by
    cases made
    rcases NodeIterator.bind_nodeSet_ok begun with
      ⟨⟨_, ignored⟩, _⟩ | ⟨_, _, _, _, _, _, _, _, same⟩
    · cases ignored
    · rw [same]
      rfl
  have last := (sized told.value bound.value (.single (.bind taken)) (.single (.bind begun))
    (by cases taken; rfl) start).2.2.2
  exact ⟨_, fresh, bound, rest, built, each, falls rfl, made, begun, drained, last⟩

end Tree

end XPathWalk

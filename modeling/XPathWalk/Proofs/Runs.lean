/-
**All levels stay in step along every run.**

Whatever is called on a freshly made iterator, and whether a run goes on with an iterator or with
its clone, all levels keep one start node and one permission to restart. A node set therefore always
holds the sorted nodes of its source at its start node, and yields each of them once.

* `NodeIterator.Step`, `NodeIterator.Run`: one call and a run of calls;
* `Plan.InStep`: the invariant, which `InStep.step` carries over one call and `InStep.run` over a
  run;
* `nodeSet_of_run`: whatever is called on a node set over any source, it takes every node of the
  tree and can be cloned. Once it has a start node, its buffer holds the nodes of the source there
  in ascending order with all repeats, and after rewinding it yields every one of them once, in
  ascending order.
-/

import Mathlib.Logic.Relation
import XPathWalk.NodeIterator.Whole
import XPathWalk.Proofs.Plan
import XPathWalk.Proofs.Refusals

namespace XPathWalk

namespace NodeIterator

/-- What an iterator becomes by one call that succeeds. Asking for the size or for the node at a
position leaves it as it is, and after cloning a caller goes on with either of the two. -/
inductive Step : NodeIterator → NodeIterator → Prop
  | bind {iterator : NodeIterator} {node : Handle} {bound : Logged NodeIterator} :
    iterator.bind node = .ok bound → Step iterator bound.value
  | next {iterator rest : NodeIterator} {found : Option Handle} :
    iterator.next = .ok (found, rest) → Step iterator rest
  | rewind {iterator rewound : NodeIterator} : iterator.rewind = .ok rewound →
    Step iterator rewound
  | setMark {iterator : NodeIterator} : Step iterator iterator.setMark
  | restore {iterator : NodeIterator} : Step iterator iterator.restore
  | setRestartable {iterator : NodeIterator} (restartable : Bool) :
    Step iterator (iterator.setRestartable restartable)
  | last {iterator : NodeIterator} {answer : Except IterationError Nat} :
    iterator.last = .ok answer → Step iterator iterator
  | nodeAt {iterator : NodeIterator} {position : Nat}
    {answer : Except IterationError (Option Handle)} :
    iterator.nodeAt position = .ok answer → Step iterator iterator
  | original {iterator copy : NodeIterator} : iterator.clone = .ok copy → Step iterator iterator
  | clone {iterator copy : NodeIterator} : iterator.clone = .ok copy → Step iterator copy

/-- What an iterator becomes by calls in a row. -/
def Run : NodeIterator → NodeIterator → Prop := Relation.ReflTransGen Step

/-- One call keeps an iterator sound. -/
theorem Sound.step {iterator after : NodeIterator} (sound : iterator.Sound)
    (step : iterator.Step after) : after.Sound := by
  cases step with
  | bind taken => exact sound.bind taken
  | next advanced => exact sound.next advanced
  | rewind rewound => exact sound.rewind rewound
  | setMark => exact sound.setMark
  | restore => exact sound.restore
  | setRestartable restartable => exact sound.setRestartable restartable
  | last _ => exact sound
  | nodeAt _ => exact sound
  | original _ => exact sound
  | clone cloned => exact sound.clone cloned

/-- Calls in a row keep an iterator sound. -/
theorem Sound.run {iterator after : NodeIterator} (sound : iterator.Sound)
    (run : iterator.Run after) : after.Sound := by
  induction run with
  | refl => exact sound
  | tail _ step ih => exact ih.step step

end NodeIterator

namespace Plan

/-- An iterator of a plan whose levels are in step. -/
structure InStep (plan : Plan) (tree : Tree) (iterator : NodeIterator) : Prop where
  sound : iterator.Sound
  stands : ∃ start restartable, iterator.bare = plan.station tree start restartable

variable {tree : Tree} {plan : Plan} {iterator : NodeIterator}

/-! ### Permission to restart -/

/-- Allowing or forbidding further start nodes does so at every level. -/
theorem setRestartable_station (plan : Plan) (start : Option Handle) (before after : Bool) :
    (plan.station tree start before).setRestartable after = plan.station tree start after := by
  induction plan generalizing start with
  | axis direction => rfl
  | list nodes => rfl
  | lookup table values => rfl
  | union parts ih =>
    have each : parts.map (NodeIterator.setRestartable after ∘ fun part =>
        part.station tree start before) = parts.map fun part => part.station tree start after :=
      List.map_congr_left fun part member => ih part member start
    rw [station, NodeIterator.setRestartable, station, NodeIterator.setRestartableAll_eq_map,
      stationAll_eq_map, stationAll_eq_map, List.map_map, each]
    rfl
  | nodeSet source ih =>
    rw [station, NodeIterator.setRestartable, ih, station]
    rfl

/-- Nothing that a plan makes refuses to be cloned. -/
theorem willing_station (plan : Plan) (start : Option Handle) (restartable : Bool) :
    ∀ part ∈ (plan.station tree start restartable).parts, part.refusal? = none := by
  induction plan generalizing start with
  | axis direction => exact List.forall_mem_singleton.mpr rfl
  | list nodes => exact List.forall_mem_singleton.mpr rfl
  | lookup table values => exact List.forall_mem_singleton.mpr rfl
  | union parts ih =>
    refine NodeIterator.forall_parts_union.mpr ⟨rfl, ?_⟩
    rw [stationAll_eq_map, List.forall_mem_map]
    exact fun part member => ih part member start
  | nodeSet source ih => exact NodeIterator.forall_parts_nodeSet.mpr ⟨rfl, ih _⟩

/-- An iterator of a plan can be cloned in every state. -/
theorem clone_of_station (plan : Plan) {start : Option Handle} {restartable : Bool}
    (stands : iterator.bare = plan.station tree start restartable) :
    ∃ copy, iterator.clone = .ok copy := by
  rw [← iterator.exists_clone_bare_iff, stands, NodeIterator.exists_clone_iff]
  exact plan.willing_station start restartable

/-! ### Start nodes that are ignored -/

theorem accepts_of_refused {progress : Progress} {start : Option Handle} {restartable : Bool}
    {node : Handle} (same : progress.rewind = { start, restartable })
    (refused : restartable = false ∨ start = some node) : progress.accepts node = false := by
  obtain ⟨_, _, _⟩ := progress
  cases same
  rcases refused with rfl | rfl
  · rfl
  · simp [Progress.accepts]

/-- A start node is ignored, at every level, by an iterator that may not restart or that has that
very start node. -/
theorem bind_of_refused (plan : Plan) {start : Option Handle} {restartable : Bool} {node : Handle}
    (stands : iterator.bare = plan.station tree start restartable)
    (refused : restartable = false ∨ start = some node) :
    ∃ log, iterator.bind node = .ok ⟨iterator, log⟩ := by
  have same : iterator.progress.rewind = (plan.station tree start restartable).progress := by
    rw [← NodeIterator.progress_bare, stands]
  cases plan with
  | axis direction => exact NodeIterator.bind_of_not_accepts (accepts_of_refused same refused)
  | list nodes => exact NodeIterator.bind_of_not_accepts (accepts_of_refused same refused)
  | lookup table values => exact NodeIterator.bind_of_not_accepts (accepts_of_refused same refused)
  | union parts => exact NodeIterator.bind_of_not_accepts (accepts_of_refused same refused)
  | nodeSet source =>
    by_cases independent : source.isIndependent
    · -- Such a node set is bound to the document, which need not be the start node.
      obtain ⟨part, replay, rfl, _⟩ := NodeIterator.exists_source_of_bare stands
      obtain ⟨reason, ignored⟩ := ignored_of_independent node independent stands
      exact ⟨_, by rw [NodeIterator.bind, ignored]⟩
    · rw [station, startOf_of_dependent independent] at same
      exact NodeIterator.bind_of_not_accepts (accepts_of_refused same refused)

/-! ### The invariant -/

/-- In step, an iterator takes every node of the tree or ignores it, and is in step again. -/
theorem InStep.bind (inStep : plan.InStep tree iterator) (linked : tree.Linked) (node : Handle) :
    Takes tree node (plan.InStep tree) (iterator.bind node) := by
  obtain ⟨sound, start, restartable, stands⟩ := inStep
  by_cases refused : restartable = false ∨ start = some node
  · obtain ⟨log, ignored⟩ := bind_of_refused plan stands refused
    exact .inl ⟨_, ignored, sound, start, restartable, stands⟩
  · obtain ⟨allowed, other⟩ := not_or.mp refused
    rw [Bool.not_eq_false] at allowed
    subst allowed
    rcases bind_station linked plan sound stands other with ⟨bound, taken, after⟩ | outside
    · exact .inl ⟨bound, taken, sound.bind taken, some node, true, after⟩
    · exact .inr outside

/-- **One call keeps all levels in step.** -/
theorem InStep.step (inStep : plan.InStep tree iterator) (linked : tree.Linked)
    {after : NodeIterator} (step : iterator.Step after) : plan.InStep tree after := by
  have kept := inStep.sound.step step
  obtain ⟨sound, start, restartable, stands⟩ := inStep
  cases step with
  | @bind node bound taken =>
    exact (InStep.bind ⟨sound, start, restartable, stands⟩ linked node).of_ok taken
  | next advanced => exact ⟨kept, start, restartable, (NodeIterator.bare_next advanced).trans stands⟩
  | rewind rewound =>
    exact ⟨kept, start, restartable, (NodeIterator.bare_rewind rewound).trans stands⟩
  | setMark => exact ⟨kept, start, restartable, (NodeIterator.bare_setMark iterator).trans stands⟩
  | restore => exact ⟨kept, start, restartable, (NodeIterator.bare_restore iterator).trans stands⟩
  | setRestartable allowed =>
    refine ⟨kept, start, allowed, ?_⟩
    rw [NodeIterator.bare_setRestartable, stands, setRestartable_station]
  | last _ => exact ⟨sound, start, restartable, stands⟩
  | nodeAt _ => exact ⟨sound, start, restartable, stands⟩
  | original _ => exact ⟨sound, start, restartable, stands⟩
  | clone cloned =>
    refine ⟨kept, start, false, ?_⟩
    rw [NodeIterator.bare_clone cloned, stands, setRestartable_station]

/-- **A run keeps all levels in step.** -/
theorem InStep.run (inStep : plan.InStep tree iterator) (linked : tree.Linked)
    {after : NodeIterator} (run : iterator.Run after) : plan.InStep tree after := by
  induction run with
  | refl => exact inStep
  | tail _ step ih => exact ih.step linked step

/-- In step, an iterator can be cloned. -/
theorem InStep.exists_clone (inStep : plan.InStep tree iterator) :
    ∃ copy, iterator.clone = .ok copy := by
  obtain ⟨_, _, stands⟩ := inStep.stands
  exact clone_of_station plan stands

/-! ### Node sets -/

theorem startOf_startOf (source : Plan) (start : Option Handle) :
    source.startOf (source.startOf start) = source.startOf start := by
  by_cases independent : source.isIndependent
  · rw [startOf_of_independent independent, startOf_of_independent independent]
  · rw [startOf_of_dependent independent]

/-- A node set that is in step holds the sorted nodes of its source at its start node. -/
theorem InStep.nodeSet {source : Plan} (inStep : (Plan.nodeSet source).InStep tree iterator)
    {start : Handle} (bound : iterator.progress.start = some start) :
    iterator.contents = ⟨ascending (source.nodes tree start), none⟩ ∧
      ∃ part replay, iterator = .nodeSet part replay ∧
        replay.buffer.toList = (source.nodes tree start).mergeSort (· ≤ ·) := by
  obtain ⟨sound, first, restartable, stands⟩ := inStep
  obtain ⟨part, replay, rfl, _, same, buffer⟩ := NodeIterator.exists_source_of_bare stands
  have begun : source.startOf first = some start := (congrArg Progress.start same).symm.trans bound
  have settled : (Plan.nodeSet source).station tree first restartable =
      (Plan.nodeSet source).station tree (some start) restartable := by
    rw [station, station, ← begun, startOf_startOf]
  refine ⟨?_, part, replay, rfl, ?_⟩
  · rw [← NodeIterator.contents_bare, stands, settled, contents_station, nodes]
  · rw [buffer, begun]
    exact Buffer.toList_ofList _

/-- **The buffer and the contents of a node set**, whatever is called on it: the nodes of its source
at its start node, sorted with all repeats, and each of them once. -/
theorem nodeSet_of_run (built : tree.Built) (source : Plan) :
    ∃ fresh, (Plan.nodeSet source).make tree = .ok fresh ∧
      ∀ iterator, fresh.Run iterator →
        (∀ node, node < tree.size → ∃ bound, iterator.bind node = .ok bound) ∧
        (∃ copy, iterator.clone = .ok copy) ∧
        ∀ start, iterator.progress.start = some start →
          (∃ part replay, iterator = .nodeSet part replay ∧
            replay.buffer.toList.Pairwise (· ≤ ·) ∧
            replay.buffer.toList.Perm (source.nodes tree start)) ∧
          ∃ rewound list rest, iterator.rewind = .ok rewound ∧
            rewound.drain = .ok (list, rest) ∧ list.Pairwise (· < ·) ∧
            ∀ handle, handle ∈ list ↔ handle ∈ source.nodes tree start := by
  have linked := built.linked
  obtain ⟨fresh, made, sound, inStep⟩ := make_station linked (.nodeSet source)
  refine ⟨fresh, made, fun iterator run => ?_⟩
  have kept : (Plan.nodeSet source).InStep tree iterator :=
    InStep.run ⟨sound, none, true, inStep⟩ linked run
  refine ⟨fun node member => ?_, ?_, fun start bound => ⟨?_, ?_⟩⟩
  · rcases kept.bind linked node with ⟨bound, taken, _⟩ | ⟨outside, _⟩
    · exact ⟨bound, taken⟩
    · exact absurd member (Nat.not_lt_of_le outside)
  · obtain ⟨_, _, stands⟩ := kept.stands
    exact clone_of_station _ stands
  · obtain ⟨_, part, replay, same, buffer⟩ := kept.nodeSet bound
    refine ⟨part, replay, same, ?_, ?_⟩
    · rw [buffer]
      exact pairwise_sort _
    · rw [buffer]
      exact List.mergeSort_perm _ _
  · obtain ⟨rewound, begun, seen⟩ := NodeIterator.rewind_sees kept.sound
    rw [(kept.nodeSet bound).1] at seen
    obtain ⟨rest, drained, _⟩ := NodeIterator.drain_complete seen
    exact ⟨rewound, _, rest, begun, drained, pairwise_ascending _, fun _ => mem_ascending⟩

/-- The children of a document and a list that names them again are each yielded once. -/
theorem nodeSet_of_run_children :
    ∃ fresh bound rewound list rest,
      (Plan.nodeSet (.union [.axis .child, .list [2, 1]])).make
          (.ofDocument (.text "a" (.comment "b" .empty))) = .ok fresh ∧
        fresh.bind Handle.root = .ok bound ∧ bound.value.rewind = .ok rewound ∧
        rewound.drain = .ok (list, rest) ∧ list.Pairwise (· < ·) ∧
        ∀ handle, handle ∈ list ↔ handle ∈ [1, 2, 2, 1] := by
  obtain ⟨fresh, made, always⟩ := nodeSet_of_run
    (Tree.built_ofDocument (.text "a" (.comment "b" .empty))) (.union [.axis .child, .list [2, 1]])
  have same : (Plan.nodeSet (.union [.axis .child, .list [2, 1]])).make
      (.ofDocument (.text "a" (.comment "b" .empty))) = .ok _ := rfl
  rw [same] at made
  cases made
  have taken : NodeIterator.bind Handle.root (.nodeSet (.ofBranches
      [.ofAxis (.ofDocument (.text "a" (.comment "b" .empty))) .child, .ofList [2, 1]]) {}) =
        .ok _ := rfl
  obtain ⟨_, rewound, list, rest, begun, drained, sorted, members⟩ :=
    (always _ (.single (.bind taken))).2.2 Handle.root rfl
  exact ⟨_, _, rewound, list, rest, same, taken, begun, drained, sorted, members⟩

end Plan

end XPathWalk

/-
**What a union yields after it was bound anew.**

A union that takes a start node hands it on to its branches and does nothing else to them. Axes,
lists, unions and node sets over a source that hangs on the start node begin again when they take
it. A node set over any other source is bound to the document for good: it ignores the start node
and goes on from where it stands.

* `NodeIterator.settled`: the node sets among the branches that take no further start node;
* `Plan.resumed`: the nodes that an iterator of a plan yields after it took a start node;
* `ahead_bind`: they are what it has ahead of it then;
* `remains_resumed`: they are all nodes of the plan if every settled node set is at its beginning;
* `drain_of_rebound`: both statements for a union in every reachable state. It takes every node of
  the tree that it accepts as a start node, and draining it then yields nodes of its parts there in
  order, however far each branch had been read;
* `settled_branch_goes_on`: a lookup that was read to its end and does not come back.
-/

import XPathWalk.Proofs.Leftovers
import XPathWalk.Proofs.Runs

namespace XPathWalk

namespace NodeIterator

mutual

/-- The node sets among the branches of an iterator, to any depth, that keep their start node for
good. -/
def settled : NodeIterator → List NodeIterator
  | .axis _ | .fixed _ => []
  | .union branches _ => settledAll branches
  | .nodeSet source replay =>
    if source.dependence = .independent then [.nodeSet source replay] else []

/-- Those of some branches. -/
def settledAll : List NodeIterator → List NodeIterator
  | [] => []
  | branch :: rest => branch.settled ++ settledAll rest

end

end NodeIterator

namespace Plan

mutual

/-- What an iterator of a plan yields after it took a start node: all nodes of each part, except
that a node set which does not hang on the start node goes on from where it stands. -/
def resumed (tree : Tree) : Plan → NodeIterator → Handle → List Handle
  | .axis direction, _, node => tree.axisNodes direction node
  | .list nodes, _, _ => nodes
  | .lookup table values, _, _ => table.matching values
  | .union parts, .union branches _, node => resumedAll tree parts branches node
  | .union _, _, _ => []
  | .nodeSet source, iterator, node =>
    if source.isIndependent then iterator.ahead.nodes else ascending (source.nodes tree node)

/-- What the branches of some plans yield one after another. -/
def resumedAll (tree : Tree) : List Plan → List NodeIterator → Handle → List Handle
  | part :: parts, branch :: branches, node =>
    part.resumed tree branch node ++ resumedAll tree parts branches node
  | _, _, _ => []

end

variable {tree : Tree} {node : Handle} {start : Option Handle}

/-! ### Taking a start node -/

/-- A start node is accepted where the iterator may restart and has another one. -/
theorem other_of_accepts {progress : Progress} {restartable : Bool}
    (same : progress.rewind = { start, restartable }) (accepted : progress.accepts node) :
    restartable = true ∧ start ≠ some node := by
  obtain ⟨_, _, _⟩ := progress
  cases same
  simpa [Progress.accepts] using accepted

theorem ahead_bind_fixed {iterator : NodeIterator} {bound : Logged NodeIterator} (form : FixedList)
    (stands : iterator.bare =
      .fixed { form with place := { progress := { start, restartable := true } } })
    (other : start ≠ some node) (taken : iterator.bind node = .ok bound) :
    bound.value.ahead = ⟨form.nodes.toList, none⟩ := by
  obtain ⟨list, rfl, shape⟩ := NodeIterator.exists_list_of_bare stands
  have same : list.place.progress.rewind = { start, restartable := true } :=
    congrArg (fun list : FixedList => list.place.progress) shape
  have nodes : list.nodes = form.nodes := by injection shape
  rw [NodeIterator.bind, FixedList.bind, if_pos (accepts_of_other same other)] at taken
  cases taken
  rw [← nodes]
  rfl

theorem aheadFrom_bindAll {parts : List Plan} {branches : List NodeIterator}
    {bound : Logged (List NodeIterator)}
    (each : ∀ part ∈ parts, ∀ (iterator : NodeIterator) (bound : Logged NodeIterator),
      iterator.Sound → iterator.bare = part.station tree start true →
      iterator.bind node = .ok bound →
      bound.value.ahead = ⟨part.resumed tree iterator node, none⟩)
    (sound : ∀ branch ∈ branches, branch.Sound)
    (stands : NodeIterator.bareAll branches = stationAll tree parts start true)
    (taken : NodeIterator.bindAll node branches = .ok bound) :
    NodeIterator.aheadFrom bound.value 0 = ⟨resumedAll tree parts branches node, none⟩ := by
  induction parts generalizing branches bound with
  | nil =>
    cases branches with
    | nil =>
      cases taken
      rfl
    | cons branch rest => cases stands
  | cons part parts ih =>
    cases branches with
    | nil => cases stands
    | cons branch rest =>
      obtain ⟨here, others⟩ := List.forall_mem_cons.mp each
      obtain ⟨soundHere, soundOthers⟩ := List.forall_mem_cons.mp sound
      injection stands with first second
      obtain ⟨_, takenHere, more⟩ := exists_of_bind_ok taken
      obtain ⟨_, takenOthers, done⟩ := exists_of_bind_ok more
      cases done
      rw [NodeIterator.aheadFrom, here _ _ soundHere first takenHere,
        ih others soundOthers second takenOthers, resumedAll, Outlook.complete_append]

/-- A node set that takes a start node is at its beginning. -/
theorem ahead_of_heeded {part : NodeIterator} {replay : Replay} {bound : Logged NodeIterator}
    (heeded : NodeIterator.ignoredStart? part replay node = none)
    (taken : (NodeIterator.nodeSet part replay).bind node = .ok bound) :
    bound.value.ahead = bound.value.contents := by
  obtain ⟨_, _, _, _, _, _, _, loaded⟩ := NodeIterator.drained_of_heeded heeded taken
  rw [loaded]
  exact Replay.ahead_of_first rfl rfl

/-- **What an iterator has ahead of it after taking a start node.** -/
theorem ahead_bind (linked : tree.Linked) (plan : Plan) {iterator : NodeIterator}
    {bound : Logged NodeIterator} (sound : iterator.Sound)
    (stands : iterator.bare = plan.station tree start true) (other : start ≠ some node)
    (taken : iterator.bind node = .ok bound) :
    bound.value.ahead = ⟨plan.resumed tree iterator node, none⟩ := by
  induction plan generalizing iterator bound with
  | axis direction =>
    obtain ⟨walk, rfl, rfl, rfl, same⟩ := NodeIterator.exists_walk_of_bare stands
    obtain ⟨_, step, done⟩ := exists_of_bind_ok taken
    cases done
    rcases AxisWalk.bind_ok step with ⟨_, cursor, begun, rfl⟩ | ⟨refused, _⟩
    · exact (Cursor.start_ok linked begun).2.ahead
    · exact absurd (accepts_of_other same other) refused
  | list nodes => exact ahead_bind_fixed { nodes := nodes.toArray } stands other taken
  | lookup table values =>
    exact ahead_bind_fixed
      { nodes := (table.matching values).toArray, dependence := .independent } stands other taken
  | union parts ih =>
    obtain ⟨branches, place, rfl, inStep, same⟩ := NodeIterator.exists_branches_of_bare stands
    rcases NodeIterator.bind_union_ok taken with ⟨_, _, takenAll, rfl⟩ | ⟨refused, _⟩
    · exact aheadFrom_bindAll
        (fun part member _ _ soundBranch standsBranch takenBranch =>
          ih part member soundBranch standsBranch takenBranch)
        sound.branches inStep takenAll
    · exact absurd (accepts_of_other same other) refused
  | nodeSet source _ =>
    obtain ⟨part, replay, rfl, standsPart, same, _⟩ := NodeIterator.exists_source_of_bare stands
    by_cases independent : source.isIndependent
    · obtain ⟨reason, ignored⟩ := ignored_of_independent node independent stands
      rw [NodeIterator.bind, ignored] at taken
      cases taken
      have begun : replay.progress.start = some Handle.root :=
        (congrArg Progress.start same).trans (startOf_of_independent independent start)
      rw [resumed, if_pos independent, NodeIterator.ahead, Replay.ahead_of_start begun]
    · have dependent := startOf_of_dependent independent start
      rw [dependent] at standsPart same
      have heeded := heeded_of_dependent independent standsPart same other
      have inStep := (bind_station linked (.nodeSet source) sound stands other).of_ok taken
      rw [ahead_of_heeded heeded taken, ← NodeIterator.contents_bare, inStep, contents_station,
        resumed, if_neg independent, nodes]

/-! ### Beginning again -/

theorem remains_resumedAll {parts : List Plan} {branches : List NodeIterator} {restartable : Bool}
    (each : ∀ part ∈ parts, ∀ iterator : NodeIterator,
      iterator.bare = part.station tree start restartable →
      Remains (part.resumed tree iterator node) (part.nodes tree node) iterator.settled)
    (stands : NodeIterator.bareAll branches = stationAll tree parts start restartable) :
    Remains (resumedAll tree parts branches node) (nodesAll tree parts node)
      (NodeIterator.settledAll branches) := by
  induction parts generalizing branches with
  | nil =>
    cases branches with
    | nil => exact remains_self []
    | cons branch rest => cases stands
  | cons part parts ih =>
    cases branches with
    | nil => cases stands
    | cons branch rest =>
      obtain ⟨here, others⟩ := List.forall_mem_cons.mp each
      injection stands with first second
      exact (here branch first).append (ih others second)

/-- **An iterator begins again altogether exactly if every settled node set is at its beginning.**
In any case it yields nodes of the plan in order and no others. -/
theorem remains_resumed (plan : Plan) {iterator : NodeIterator} {restartable : Bool}
    (stands : iterator.bare = plan.station tree start restartable) :
    Remains (plan.resumed tree iterator node) (plan.nodes tree node) iterator.settled := by
  induction plan generalizing iterator with
  | axis direction =>
    obtain ⟨walk, rfl, _⟩ := NodeIterator.exists_walk_of_bare stands
    exact remains_self _
  | list nodes =>
    obtain ⟨list, rfl, _⟩ := NodeIterator.exists_list_of_bare stands
    exact remains_self _
  | lookup table values =>
    obtain ⟨list, rfl, _⟩ := NodeIterator.exists_list_of_bare stands
    exact remains_self _
  | union parts ih =>
    obtain ⟨branches, place, rfl, inStep, _⟩ := NodeIterator.exists_branches_of_bare stands
    exact remains_resumedAll (fun part member _ => ih part member) inStep
  | nodeSet source _ =>
    obtain ⟨part, replay, rfl, standsPart, _, _⟩ := NodeIterator.exists_source_of_bare stands
    have dependence : part.dependence =
        if source.isIndependent then .independent else .startNode := by
      rw [← NodeIterator.dependence_bare, standsPart, dependence_station]
    by_cases independent : source.isIndependent
    · have free : (Plan.nodeSet source).isIndependent := independent
      have settled : (Plan.nodeSet source).station tree start restartable =
          (Plan.nodeSet source).station tree (some Handle.root) restartable := by
        rw [station, station, startOf_of_independent independent,
          startOf_of_independent independent]
      have contents : replay.contents = ⟨(Plan.nodeSet source).nodes tree node, none⟩ := by
        have whole := NodeIterator.contents_bare (.nodeSet part replay)
        rw [stands, settled, contents_station, nodes_of_independent free Handle.root node] at whole
        exact whole.symm
      rw [resumed, if_pos independent, NodeIterator.settled, dependence, if_pos independent,
        if_pos rfl]
      exact remains_replay part contents
    · rw [resumed, if_neg independent, NodeIterator.settled, dependence, if_neg independent]
      exact remains_self _

/-! ### Unions -/

/-- **What a union yields after it was bound anew**: nodes of its parts there in order, and all of
them exactly if all settled node sets among the branches stood at their beginning. -/
theorem drain_of_rebound (built : tree.Built) (parts : List Plan) :
    ∃ fresh, (Plan.union parts).make tree = .ok fresh ∧
      ∀ iterator, fresh.Run iterator → ∀ node, iterator.progress.accepts node →
        (node < tree.size → ∃ bound, iterator.bind node = .ok bound) ∧
        ∀ bound, iterator.bind node = .ok bound →
          (∃ rest, bound.value.drain =
            .ok ((Plan.union parts).resumed tree iterator node, rest)) ∧
          ((Plan.union parts).resumed tree iterator node).Sublist (nodesAll tree parts node) ∧
          ((Plan.union parts).resumed tree iterator node = nodesAll tree parts node ↔
            ∀ set ∈ iterator.settled, set.ahead = set.contents) := by
  have linked := built.linked
  obtain ⟨fresh, made, sound, inStep⟩ := make_station linked (.union parts)
  refine ⟨fresh, made, fun iterator run node accepted => ?_⟩
  obtain ⟨sound, start, restartable, stands⟩ : (Plan.union parts).InStep tree iterator :=
    InStep.run ⟨sound, none, true, inStep⟩ linked run
  obtain ⟨rfl, other⟩ : restartable = true ∧ start ≠ some node := by
    obtain ⟨branches, place, rfl, _, same⟩ := NodeIterator.exists_branches_of_bare stands
    exact other_of_accepts same accepted
  refine ⟨fun member => ?_, fun bound taken => ⟨?_, ?_, ?_⟩⟩
  · rcases bind_station linked _ sound stands other with ⟨bound, taken, _⟩ | ⟨outside, _⟩
    · exact ⟨bound, taken⟩
    · exact absurd member (Nat.not_lt_of_le outside)
  · obtain ⟨rest, drained, _⟩ := NodeIterator.drain_complete
      ⟨sound.bind taken, ahead_bind linked _ sound stands other taken⟩
    exact ⟨rest, drained⟩
  · exact (remains_resumed _ stands).sublist
  · exact (remains_resumed _ stands).eq_iff

/-- A union is read into its list and bound to an element: the children and the list come back. -/
theorem drain_of_rebound_list :
    ∃ fresh read bound rest,
      (Plan.union [.axis .child, .list [7]]).make
          (.ofDocument (.element "a" [] (.text "x" (.comment "y" .empty)) .empty)) = .ok fresh ∧
        fresh.Run read ∧ read.progress.position = 2 ∧ read.progress.accepts 1 ∧
        read.bind 1 = .ok bound ∧ bound.value.drain = .ok ([2, 3, 7], rest) := by
  obtain ⟨fresh, made, always⟩ := drain_of_rebound
    (Tree.built_ofDocument (.element "a" [] (.text "x" (.comment "y" .empty)) .empty))
    [.axis .child, .list [7]]
  have same : (Plan.union [.axis .child, .list [7]]).make
      (.ofDocument (.element "a" [] (.text "x" (.comment "y" .empty)) .empty)) = .ok _ := rfl
  rw [same] at made
  cases made
  have taken : NodeIterator.bind Handle.root (.ofBranches [.ofAxis
      (.ofDocument (.element "a" [] (.text "x" (.comment "y" .empty)) .empty)) .child,
      .ofList [7]]) = .ok _ := rfl
  have once := (Relation.ReflTransGen.single (NodeIterator.Step.bind taken)).tail
    (NodeIterator.Step.next rfl)
  have run := once.tail (NodeIterator.Step.next rfl)
  obtain ⟨onward, again⟩ := always _ run 1 rfl
  obtain ⟨bound, rebound⟩ := onward (by decide)
  obtain ⟨⟨rest, drained⟩, _⟩ := again bound rebound
  exact ⟨_, _, bound, rest, same, run, rfl, rfl, rebound, drained⟩

/-- **A lookup that was read to its end does not come back.** A union of one node set over a lookup
is bound to the document and drained. Bound to another node, it yields nothing. -/
theorem settled_branch_goes_on :
    ∃ fresh first read second rest,
      (Plan.union [.nodeSet (.lookup (KeyTable.add { name := "k" } "v" 1) ["v"])]).make
          (.ofDocument (.element "a" [] .empty .empty)) = .ok fresh ∧
        fresh.bind Handle.root = .ok first ∧ first.value.drain = .ok ([1], read) ∧
        read.progress.accepts 1 ∧ read.bind 1 = .ok second ∧
        second.value.drain = .ok ([], rest) ∧
        nodesAll (.ofDocument (.element "a" [] .empty .empty))
          [.nodeSet (.lookup (KeyTable.add { name := "k" } "v" 1) ["v"])] 1 = [1] := by
  have found := KeyTable.matching_add_new "k" "v" 1
  have bound : (NodeIterator.nodeSet (.ofMatches [1]) {}).bind Handle.root = .ok _ :=
    NodeIterator.bind_of_single rfl rfl rfl
  have made : ∀ set, (NodeIterator.ofMatches [1]).toNodeSet = .ok set →
      (Plan.union [.nodeSet (.lookup (KeyTable.add { name := "k" } "v" 1) ["v"])]).make
        (.ofDocument (.element "a" [] .empty .empty)) = .ok (.ofBranches [set.value]) := by
    intro set done
    simp only [make, makeAll, KeyTable.lookup, found, ok_bind, done]
    rfl
  refine ⟨_, _, _, _, _, made _ bound, rfl, rfl, rfl, rfl, rfl, ?_⟩
  rw [nodesAll, nodes, nodes, found, ascending, List.mergeSort_singleton]
  rfl

end Plan

end XPathWalk

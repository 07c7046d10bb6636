/-
**Freshly made iterators and the nodes that they stand for.**

A plan says how an iterator is put together over one tree. It has a meaning of its own: the nodes
that it stands for at a start node. Every level of an iterator made by a plan decides for itself
whether it takes a start node, and yet all levels agree: the parts of a node set that does not hang
on the start node are bound to the document for good, and all other parts share one start node. So
the bare form of the iterator is told by the plan, one start node and one permission to restart.

* `Plan.nodes`: the nodes of a plan at a start node;
* `Plan.station`: the bare form of an iterator of a plan, with all levels in step;
* `Plan.bind_station`: taking a start node puts every level there, or leaves the tree;
* `Plan.make_station`: a freshly made iterator has all levels in step.
-/

import XPathWalk.Proofs.Reachable

namespace XPathWalk

/-- How an iterator is put together. -/
inductive Plan where
  | axis (axis : Axis)
  | list (nodes : List Handle)
  | lookup (table : KeyTable) (values : List String)
  | union (parts : List Plan)
  | nodeSet (source : Plan)

namespace Plan

/-- Induction over the parts of a plan. -/
@[elab_as_elim, induction_eliminator]
theorem induct {motive : Plan → Prop} (axis : ∀ axis, motive (.axis axis))
    (list : ∀ nodes, motive (.list nodes))
    (lookup : ∀ table values, motive (.lookup table values))
    (union : ∀ parts, (∀ part ∈ parts, motive part) → motive (.union parts))
    (nodeSet : ∀ source, motive source → motive (.nodeSet source)) (plan : Plan) : motive plan :=
  @Plan.rec motive (fun parts => ∀ part ∈ parts, motive part) axis list lookup union nodeSet
    (fun _ member => absurd member List.not_mem_nil)
    (fun _ _ first others => List.forall_mem_cons.mpr ⟨first, others⟩)
    plan

/-! ### Definitions -/

mutual

/-- Makes the iterator of a plan. -/
def make (tree : Tree) : Plan → Except Fault NodeIterator
  | .axis direction => .ok (.ofAxis tree direction)
  | .list nodes => .ok (.ofList nodes)
  | .lookup table values => .ok (table.lookup values)
  | .union parts => return .ofBranches (← makeAll tree parts)
  | .nodeSet source => return (← (← source.make tree).toNodeSet).value

/-- Makes the iterators of some plans. -/
def makeAll (tree : Tree) : List Plan → Except Fault (List NodeIterator)
  | [] => .ok []
  | part :: rest => return (← part.make tree) :: (← makeAll tree rest)

end

mutual

/-- The nodes that a plan stands for at a start node, in the order in which they come. -/
def nodes (tree : Tree) : Plan → Handle → List Handle
  | .axis direction, start => tree.axisNodes direction start
  | .list nodes, _ => nodes
  | .lookup table values, _ => table.matching values
  | .union parts, start => nodesAll tree parts start
  | .nodeSet source, start => ascending (source.nodes tree start)

/-- The nodes of some plans one after another. -/
def nodesAll (tree : Tree) : List Plan → Handle → List Handle
  | [], _ => []
  | part :: rest, start => part.nodes tree start ++ nodesAll tree rest start

end

mutual

/-- Whether a plan stands for the same nodes at every start node by what it is made of: lookups,
unions of such parts, and node sets over them. -/
def isIndependent : Plan → Bool
  | .axis _ | .list _ => false
  | .lookup _ _ => true
  | .union parts => !parts.isEmpty && allIndependent parts
  | .nodeSet source => source.isIndependent

/-- Whether no part hangs on the start node. -/
def allIndependent : List Plan → Bool
  | [] => true
  | part :: rest => part.isIndependent && allIndependent rest

end

/-- The start node of a node set: one that does not hang on it stays with the document. -/
def startOf (source : Plan) (start : Option Handle) : Option Handle :=
  if source.isIndependent then some Handle.root else start

/-- The sorted buffer of a node set, empty before there is a start node. -/
def bufferAt (tree : Tree) (source : Plan) (start : Option Handle) : List Handle :=
  start.elim [] fun node => (source.nodes tree node).mergeSort (· ≤ ·)

mutual

/-- The bare form of an iterator of a plan whose levels are in step. -/
def station (tree : Tree) : Plan → (start : Option Handle) → (restartable : Bool) → NodeIterator
  | .axis direction, start, restartable =>
    .axis { tree, axis := direction, progress := { start, restartable } }
  | .list nodes, start, restartable =>
    .fixed { nodes := nodes.toArray, place := { progress := { start, restartable } } }
  | .lookup table values, start, restartable =>
    .fixed
      { nodes := (table.matching values).toArray
        dependence := .independent
        place := { progress := { start, restartable } } }
  | .union parts, start, restartable =>
    .union (stationAll tree parts start restartable) { progress := { start, restartable } }
  | .nodeSet source, start, restartable =>
    .nodeSet (source.station tree (source.startOf start) restartable)
      { progress := { start := source.startOf start, restartable }
        buffer := .ofList (source.bufferAt tree (source.startOf start)) }

/-- The bare forms of the branches of some plans. -/
def stationAll (tree : Tree) :
    List Plan → (start : Option Handle) → (restartable : Bool) → List NodeIterator
  | [], _, _ => []
  | part :: rest, start, restartable =>
    part.station tree start restartable :: stationAll tree rest start restartable

end

/-! ### What a station tells -/

variable {tree : Tree}

theorem allIndependent_iff {parts : List Plan} :
    allIndependent parts ↔ ∀ part ∈ parts, part.isIndependent := by
  induction parts with
  | nil => exact ⟨fun _ _ member => absurd member List.not_mem_nil, fun _ => rfl⟩
  | cons part rest ih => rw [allIndependent, Bool.and_eq_true, ih, List.forall_mem_cons]

/-- The nodes of some plans do not hang on the start node if none of them does. -/
theorem nodesAll_congr {parts : List Plan} {first second : Handle}
    (each : ∀ part ∈ parts, part.nodes tree first = part.nodes tree second) :
    nodesAll tree parts first = nodesAll tree parts second := by
  induction parts with
  | nil => rfl
  | cons part rest ih =>
    obtain ⟨here, others⟩ := List.forall_mem_cons.mp each
    rw [nodesAll, nodesAll, here, ih others]

/-- **An independent plan has the same nodes at every start node.** -/
theorem nodes_of_independent {plan : Plan} (independent : plan.isIndependent)
    (first second : Handle) : plan.nodes tree first = plan.nodes tree second := by
  induction plan with
  | axis direction => cases independent
  | list nodes => rfl
  | lookup table values => rfl
  | union parts ih =>
    rw [isIndependent, Bool.and_eq_true] at independent
    have each := allIndependent_iff.mp independent.2
    exact nodesAll_congr fun part member => ih part member (each part member)
  | nodeSet source ih => exact congrArg ascending (ih independent)

theorem stationAll_eq_map (parts : List Plan) (start : Option Handle) (restartable : Bool) :
    stationAll tree parts start restartable =
      parts.map fun part => part.station tree start restartable := by
  induction parts with
  | nil => rfl
  | cons part rest ih => rw [stationAll, ih, List.map_cons]

theorem allIndependent_stationAll (tree : Tree) {parts : List Plan} (start : Option Handle)
    (restartable : Bool)
    (each : ∀ part ∈ parts, (part.station tree start restartable).dependence =
      if part.isIndependent then .independent else .startNode) :
    NodeIterator.allIndependent (stationAll tree parts start restartable) =
      allIndependent parts := by
  induction parts with
  | nil => rfl
  | cons part rest ih =>
    obtain ⟨here, others⟩ := List.forall_mem_cons.mp each
    rw [stationAll, NodeIterator.allIndependent, allIndependent, here, ih others]
    cases part.isIndependent <;> rfl

/-- An iterator of a plan knows whether it hangs on its start node. -/
theorem dependence_station (plan : Plan) (start : Option Handle) (restartable : Bool) :
    (plan.station tree start restartable).dependence =
      if plan.isIndependent then .independent else .startNode := by
  induction plan generalizing start with
  | axis direction => rfl
  | list nodes => rfl
  | lookup table values => rfl
  | union parts ih =>
    have same := allIndependent_stationAll tree start restartable
      fun part member => ih part member start
    have filled : (stationAll tree parts start restartable).isEmpty = parts.isEmpty := by
      cases parts <;> rfl
    rw [station, NodeIterator.dependence, isIndependent, same, filled]
  | nodeSet source ih => exact ih (source.startOf start)

theorem contentsAll_stationAll {parts : List Plan} {start : Handle} {restartable : Bool}
    (each : ∀ part ∈ parts, (part.station tree (some start) restartable).contents =
      ⟨part.nodes tree start, none⟩) :
    NodeIterator.contentsAll (stationAll tree parts (some start) restartable) =
      ⟨nodesAll tree parts start, none⟩ := by
  induction parts with
  | nil => rfl
  | cons part rest ih =>
    obtain ⟨here, others⟩ := List.forall_mem_cons.mp each
    rw [stationAll, NodeIterator.contentsAll, here, ih others, nodesAll, Outlook.complete_append]

/-- **An iterator of a plan that has a start node yields the nodes of the plan there.** -/
theorem contents_station (plan : Plan) (start : Handle) (restartable : Bool) :
    (plan.station tree (some start) restartable).contents = ⟨plan.nodes tree start, none⟩ := by
  induction plan generalizing start with
  | axis direction => rfl
  | list nodes => rfl
  | lookup table values => rfl
  | union parts ih => exact contentsAll_stationAll fun part member => ih part member start
  | nodeSet source _ =>
    obtain ⟨node, bound, same⟩ : ∃ node, source.startOf (some start) = some node ∧
        source.nodes tree node = source.nodes tree start := by
      unfold startOf
      by_cases independent : source.isIndependent
      · exact ⟨Handle.root, if_pos independent, nodes_of_independent independent _ _⟩
      · exact ⟨start, if_neg independent, rfl⟩
    rw [station, NodeIterator.contents, Replay.contents, bound]
    show (⟨withoutRepeats none (Buffer.ofList (source.bufferAt tree (some node))).toList, none⟩ :
      Outlook) = _
    rw [Buffer.toList_ofList, bufferAt, Option.elim_some, withoutRepeats_sort, same, nodes]

/-! ### Taking a start node -/

/-- A start node is taken with this outcome, unless it lies outside the tree. -/
def Takes {α : Type} (tree : Tree) (node : Handle) (good : α → Prop)
    (result : Except Fault (Logged α)) : Prop :=
  (∃ bound, result = .ok bound ∧ good bound.value) ∨
    tree.size ≤ node ∧ result = .error .outOfRange

/-- The outcome of a start node that was taken. -/
theorem Takes.of_ok {α : Type} {node : Handle} {good : α → Prop}
    {result : Except Fault (Logged α)} {bound : Logged α} (takes : Takes tree node good result)
    (taken : result = .ok bound) : good bound.value := by
  rcases takes with ⟨other, same, done⟩ | ⟨_, failed⟩
  · rw [taken] at same
    cases same
    exact done
  · rw [taken] at failed
    cases failed

theorem startOf_of_independent {source : Plan} (independent : source.isIndependent)
    (start : Option Handle) : source.startOf start = some Handle.root := if_pos independent

theorem startOf_of_dependent {source : Plan} (dependent : ¬ source.isIndependent)
    (start : Option Handle) : source.startOf start = start := if_neg dependent

/-- Permission to restart and another start node are all that it takes. -/
theorem accepts_of_other {progress : Progress} {start : Option Handle} {node : Handle}
    (same : progress.rewind = { start, restartable := true }) (other : start ≠ some node) :
    progress.accepts node = true := by
  obtain ⟨_, _, _⟩ := progress
  cases same
  simp [Progress.accepts, other]

/-- The bookkeeping after a start node was taken. -/
theorem rewind_bind {progress : Progress} {start : Option Handle} {restartable : Bool}
    (same : progress.rewind = { start, restartable }) (node : Handle) :
    (progress.bind node).rewind = { start := some node, restartable } := by
  obtain ⟨_, _, _⟩ := progress
  cases same
  rfl

section Bind

variable {node : Handle} {start : Option Handle}

theorem bind_axis {walk : AxisWalk} (linked : walk.tree.Linked)
    (same : walk.progress.rewind = { start, restartable := true }) (other : start ≠ some node) :
    Takes walk.tree node
      (fun bound => bound.bare = (Plan.axis walk.axis).station walk.tree (some node) true)
      ((NodeIterator.axis walk).bind node) := by
  have accepted := accepts_of_other same other
  rcases Nat.lt_or_ge node walk.tree.size with member | outside
  · obtain ⟨cursor, begun, _⟩ := Cursor.start_of_lt_size linked walk.axis member
    left
    refine ⟨⟨.axis { walk with progress := walk.progress.bind node, cursor }, []⟩, ?_, ?_⟩
    · rw [NodeIterator.bind, AxisWalk.bind, if_pos accepted, begun]
      rfl
    · show NodeIterator.bare (.axis _) = _
      rw [NodeIterator.bare, rewind_bind same, station]
  · right
    refine ⟨outside, ?_⟩
    rw [NodeIterator.bind, AxisWalk.bind, if_pos accepted, Cursor.start_of_size_le outside]
    rfl

theorem bind_fixed {iterator : NodeIterator} (form : FixedList)
    (stands : iterator.bare =
      .fixed { form with place := { progress := { start, restartable := true } } })
    (other : start ≠ some node) :
    Takes tree node
      (fun bound => bound.bare = .fixed
        { form with place := { progress := { start := some node, restartable := true } } })
      (iterator.bind node) := by
  obtain ⟨list, rfl, shape⟩ := NodeIterator.exists_list_of_bare stands
  have same : list.place.progress.rewind = { start, restartable := true } :=
    congrArg (fun list : FixedList => list.place.progress) shape
  have after := congrArg (fun list : FixedList =>
    { list with place := { progress := { start := some node, restartable := true } } }) shape
  left
  refine ⟨⟨.fixed { list with place := list.place.bind node }, []⟩, ?_, ?_⟩
  · rw [NodeIterator.bind, FixedList.bind, if_pos (accepts_of_other same other)]
  · show NodeIterator.bare (.fixed _) = _
    rw [NodeIterator.bare, Place.bind, rewind_bind same]
    exact congrArg NodeIterator.fixed after

theorem bindAll_station {parts : List Plan} {branches : List NodeIterator}
    (each : ∀ part ∈ parts, ∀ iterator : NodeIterator, iterator.Sound →
      iterator.bare = part.station tree start true →
      Takes tree node (fun bound => bound.bare = part.station tree (some node) true)
        (iterator.bind node))
    (sound : ∀ branch ∈ branches, branch.Sound)
    (stands : NodeIterator.bareAll branches = stationAll tree parts start true) :
    Takes tree node
      (fun bound => NodeIterator.bareAll bound = stationAll tree parts (some node) true)
      (NodeIterator.bindAll node branches) := by
  induction parts generalizing branches with
  | nil =>
    cases branches with
    | nil => exact .inl ⟨_, rfl, rfl⟩
    | cons branch rest => cases stands
  | cons part parts ih =>
    cases branches with
    | nil => cases stands
    | cons branch rest =>
      obtain ⟨here, others⟩ := List.forall_mem_cons.mp each
      obtain ⟨soundHere, soundOthers⟩ := List.forall_mem_cons.mp sound
      injection stands with first second
      rw [NodeIterator.bindAll]
      rcases here branch soundHere first with ⟨bound, taken, inStep⟩ | ⟨outside, failed⟩
      · rcases ih others soundOthers second with ⟨more, takenMore, inStepMore⟩ | ⟨outside, failed⟩
        · left
          rw [taken, takenMore]
          refine ⟨_, rfl, ?_⟩
          show NodeIterator.bareAll (bound.value :: more.value) = _
          rw [NodeIterator.bareAll, inStep, inStepMore, stationAll]
        · right
          rw [taken, failed]
          exact ⟨outside, rfl⟩
      · right
        rw [failed]
        exact ⟨outside, rfl⟩

/-- A node set that hangs on its start node heeds another one. -/
theorem heeded_of_dependent {source : Plan} {part : NodeIterator} {replay : Replay}
    (dependent : ¬ source.isIndependent) (standsPart : part.bare = source.station tree start true)
    (same : replay.progress.rewind = { start, restartable := true }) (other : start ≠ some node) :
    NodeIterator.ignoredStart? part replay node = none := by
  have hangs : part.dependence = .startNode := by
    rw [← NodeIterator.dependence_bare, standsPart, dependence_station, if_neg dependent]
  have flag : replay.progress.restartable = true := congrArg Progress.restartable same
  have begun : replay.progress.start = start := congrArg Progress.start same
  refine NodeIterator.ignoredStart?_eq_none_iff.mpr ⟨flag, fun settled => ?_, begun ▸ other⟩
  cases hangs.symm.trans settled.1

/-- A node set that heeds a start node is in step again if its source is. -/
theorem bind_nodeSet {source : Plan} {part : NodeIterator} {replay : Replay}
    (sound : part.Sound) (heeded : NodeIterator.ignoredStart? part replay node = none)
    (same : replay.progress.rewind = { start, restartable := true })
    (stays : source.startOf (some node) = some node)
    (takes : Takes tree node (fun bound => bound.bare = source.station tree (some node) true)
      (part.bind node)) :
    Takes tree node
      (fun bound => bound.bare = (Plan.nodeSet source).station tree (some node) true)
      ((NodeIterator.nodeSet part replay).bind node) := by
  rcases takes with ⟨bound, taken, inStep⟩ | ⟨outside, failed⟩
  · have soundBound := sound.bind taken
    obtain ⟨rewound, begun, seen⟩ := NodeIterator.rewind_sees soundBound
    rw [← NodeIterator.contents_bare, inStep, contents_station] at seen
    obtain ⟨drained, all, _⟩ := NodeIterator.drain_complete seen
    have sameSource : drained.bare = source.station tree (some node) true := by
      rw [NodeIterator.bare_drain all, NodeIterator.bare_rewind begun, inStep]
    left
    refine ⟨_, NodeIterator.bind_of_heeded heeded taken begun all, ?_⟩
    show NodeIterator.bare (.nodeSet _ (replay.load node _)) = _
    have buffer : (replay.load node (source.nodes tree node)).buffer.toList =
        source.bufferAt tree (some node) := Replay.toList_load replay node _
    rw [NodeIterator.bare, sameSource, Buffer.copy, buffer, Replay.load, rewind_bind same, station,
      stays]
  · right
    refine ⟨outside, ?_⟩
    rw [NodeIterator.bind, heeded]
    show (part.bind node >>= _) = _
    rw [failed]
    rfl

/-- A node set that does not hang on its start node stays with the document. -/
theorem ignored_of_independent {source : Plan} {part : NodeIterator} {replay : Replay}
    {restartable : Bool} (node : Handle) (independent : source.isIndependent)
    (stands : (NodeIterator.nodeSet part replay).bare =
      (Plan.nodeSet source).station tree start restartable) :
    ∃ reason, NodeIterator.ignoredStart? part replay node = some reason := by
  obtain ⟨_, _, same, standsPart, bookkeeping, _⟩ := NodeIterator.exists_source_of_bare stands
  cases same
  have free : part.dependence = .independent := by
    rw [← NodeIterator.dependence_bare, standsPart, dependence_station, if_pos independent]
  have root : replay.progress.start = some Handle.root :=
    (congrArg Progress.start bookkeeping).trans (startOf_of_independent independent start)
  exact NodeIterator.exists_ignored_iff.mpr fun heeds => heeds.unsettled ⟨free, root⟩

/-- **Taking a start node puts every level there.** An iterator of a plan whose levels are in step
takes any node of the tree other than its start node, and its levels are in step again. -/
theorem bind_station (linked : tree.Linked) (plan : Plan) {iterator : NodeIterator}
    (sound : iterator.Sound) (stands : iterator.bare = plan.station tree start true)
    (other : start ≠ some node) :
    Takes tree node (fun bound => bound.bare = plan.station tree (some node) true)
      (iterator.bind node) := by
  induction plan generalizing iterator with
  | axis direction =>
    obtain ⟨walk, rfl, rfl, rfl, same⟩ := NodeIterator.exists_walk_of_bare stands
    exact bind_axis linked same other
  | list nodes =>
    exact bind_fixed { nodes := nodes.toArray } stands other
  | lookup table values =>
    exact bind_fixed
      { nodes := (table.matching values).toArray, dependence := .independent } stands other
  | union parts ih =>
    obtain ⟨branches, place, rfl, inStep, same⟩ := NodeIterator.exists_branches_of_bare stands
    rw [NodeIterator.bind, if_pos (accepts_of_other same other)]
    have each : ∀ part ∈ parts, ∀ branch : NodeIterator, branch.Sound →
        branch.bare = part.station tree start true →
        Takes tree node (fun bound => bound.bare = part.station tree (some node) true)
          (branch.bind node) :=
      fun part member branch soundBranch standsBranch => ih part member soundBranch standsBranch
    rcases bindAll_station each sound.branches inStep with ⟨bound, taken, after⟩ | ⟨outside, failed⟩
    · left
      rw [taken]
      refine ⟨_, rfl, ?_⟩
      show NodeIterator.bare (.union bound.value (place.bind node)) = _
      rw [NodeIterator.bare, after, Place.bind, rewind_bind same, station]
    · right
      rw [failed]
      exact ⟨outside, rfl⟩
  | nodeSet source ih =>
    obtain ⟨part, replay, rfl, standsPart, same, _⟩ := NodeIterator.exists_source_of_bare stands
    by_cases independent : source.isIndependent
    · left
      obtain ⟨reason, ignored⟩ := ignored_of_independent node independent stands
      refine ⟨_, by rw [NodeIterator.bind, ignored], stands.trans ?_⟩
      rw [station, station, startOf_of_independent independent, startOf_of_independent independent]
    · rw [startOf_of_dependent independent] at standsPart same
      have heeded := heeded_of_dependent independent standsPart same other
      exact bind_nodeSet sound.source heeded same (startOf_of_dependent independent _)
        (ih sound.source standsPart)

end Bind

/-! ### Making -/

theorem makeAll_station {parts : List Plan}
    (each : ∀ part ∈ parts, ∃ made, part.make tree = .ok made ∧ made.Sound ∧
      made.bare = part.station tree none true) :
    ∃ made, makeAll tree parts = .ok made ∧ (∀ branch ∈ made, branch.Sound) ∧
      NodeIterator.bareAll made = stationAll tree parts none true := by
  induction parts with
  | nil => exact ⟨[], rfl, fun _ member => absurd member List.not_mem_nil, rfl⟩
  | cons part rest ih =>
    obtain ⟨⟨first, made, sound, inStep⟩, others⟩ := List.forall_mem_cons.mp each
    obtain ⟨more, madeMore, soundMore, inStepMore⟩ := ih others
    refine ⟨first :: more, ?_, List.forall_mem_cons.mpr ⟨sound, soundMore⟩, ?_⟩
    · rw [makeAll, made, madeMore]
      rfl
    · rw [NodeIterator.bareAll, inStep, inStepMore, stationAll]

/-- A node set over a fresh source is made without fail. If it does not hang on its start node, it
has been bound to the document. -/
theorem toNodeSet_station (linked : tree.Linked) {source : Plan} {part : NodeIterator}
    (sound : part.Sound) (inStep : part.bare = source.station tree none true) :
    ∃ set, part.toNodeSet = .ok set ∧
      set.value.bare = (Plan.nodeSet source).station tree none true := by
  have dependence : part.dependence =
      if source.isIndependent then .independent else .startNode := by
    rw [← NodeIterator.dependence_bare, inStep, dependence_station]
  unfold NodeIterator.toNodeSet
  by_cases independent : source.isIndependent
  · rw [dependence, if_pos independent]
    have heeded := NodeIterator.heeded_fresh part Handle.root
    have takes := bind_station linked source sound inStep (Option.some_ne_none Handle.root).symm
    have same : ({} : Replay).progress.rewind = { start := none, restartable := true } := rfl
    rcases bind_nodeSet sound heeded same (startOf_of_independent independent _) takes with
      ⟨set, taken, after⟩ | ⟨outside, _⟩
    · refine ⟨set, taken, after.trans ?_⟩
      rw [station, station, startOf_of_independent independent, startOf_of_independent independent]
    · exact absurd linked.nonempty (Nat.not_lt_of_le outside)
  · rw [dependence, if_neg independent]
    refine ⟨_, rfl, ?_⟩
    show NodeIterator.bare (.nodeSet part {}) = _
    rw [NodeIterator.bare, inStep, station, startOf_of_dependent independent]
    rfl

/-- **A freshly made iterator has all levels in step.** Making one never fails. -/
theorem make_station (linked : tree.Linked) (plan : Plan) :
    ∃ made, plan.make tree = .ok made ∧ made.Sound ∧ made.bare = plan.station tree none true := by
  induction plan with
  | axis direction => exact ⟨_, rfl, NodeIterator.sound_ofAxis linked direction, rfl⟩
  | list nodes => exact ⟨_, rfl, .fixed, rfl⟩
  | lookup table values => exact ⟨_, rfl, .fixed, rfl⟩
  | union parts ih =>
    obtain ⟨made, done, sound, inStep⟩ := makeAll_station ih
    refine ⟨.ofBranches made, ?_, .union sound, ?_⟩
    · rw [make, done]
      rfl
    · rw [NodeIterator.ofBranches, NodeIterator.bare, inStep, station]
      rfl
  | nodeSet source ih =>
    obtain ⟨part, done, sound, inStep⟩ := ih
    obtain ⟨set, made, after⟩ := toNodeSet_station linked sound inStep
    refine ⟨set.value, ?_, sound.toNodeSet made, after⟩
    rw [make, done]
    simp only [ok_bind, made]
    rfl

end Plan

end XPathWalk

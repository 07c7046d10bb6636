/-
**Every iterator that a caller can hold is sound.**

A caller makes iterators over built trees, lists and key tables, puts them together, and calls the
operations on them in any order. No operation takes a cursor out of its tree.

* `Reachable`: what can be made and come to by calls that succeed;
* `NodeIterator.Heeds`: the start nodes that a node set takes, and `bind_of_heeded`,
  `bind_of_ignored`: what it does with these and with any other;
* `bind_union_ok`, `bind_nodeSet_ok`: what a union or a node set has done with a start node;
* `Sound.bind`, `Sound.clone`: the operations keep an iterator sound;
* `Reachable.sound`: so everything reachable is.
-/

import XPathWalk.KeyTable
import XPathWalk.NodeIterator.Bind
import XPathWalk.Proofs.Contents

namespace XPathWalk

/-- Binding sets the cursor up at a node of the tree or not at all. -/
theorem AxisWalk.Sound.bind {walk bound : AxisWalk} {node : Handle} (sound : walk.Sound)
    (taken : walk.bind node = .ok bound) : bound.Sound := by
  rcases AxisWalk.bind_ok taken with ⟨_, cursor, begun, rfl⟩ | ⟨_, rfl⟩
  · obtain ⟨member, seen⟩ := Cursor.start_ok sound.linked begun
    refine ⟨sound.linked, seen.within, sound.mark, ?_, ?_⟩
    · rintro origin ⟨⟩
      exact member
    · rintro ⟨⟩
  · exact sound

/-- A node of the tree is taken or ignored. -/
theorem AxisWalk.Sound.exists_bind {walk : AxisWalk} {node : Handle} (sound : walk.Sound)
    (member : node < walk.tree.size) : ∃ bound, walk.bind node = .ok bound := by
  obtain ⟨cursor, begun, _⟩ := Cursor.start_of_lt_size sound.linked walk.axis member
  unfold AxisWalk.bind
  split
  · rw [begun]
    exact ⟨_, rfl⟩
  · exact ⟨_, rfl⟩

/-- One handle needs no sorting. -/
theorem Replay.load_single (node handle : Handle) :
    ({} : Replay).load node [handle] =
      { progress := { start := some node }, buffer := { nodes := #[handle] } } := by
  have sorted : ([handle] : List Handle).mergeSort (· ≤ ·) = [handle] :=
    List.mergeSort_singleton handle
  exact congrArg (fun nodes : List Handle => ({
    progress := { start := some node }
    buffer := { nodes := nodes.toArray } } : Replay)) sorted

namespace NodeIterator

/-! ### Moving -/

theorem Sound.next {iterator rest : NodeIterator} {found : Option Handle}
    (sound : iterator.Sound) (advanced : iterator.next = .ok (found, rest)) : rest.Sound := by
  have step := next_foresees sound
  rw [advanced] at step
  generalize iterator.ahead = outlook at step
  cases step with
  | node seen => exact seen.sound
  | done seen => exact seen.sound

theorem Sound.rewind {iterator rest : NodeIterator} (sound : iterator.Sound)
    (rewound : iterator.rewind = .ok rest) : rest.Sound := by
  obtain ⟨other, same, seen⟩ := rewind_sees sound
  rw [rewound] at same
  cases same
  exact seen.sound

theorem Sound.setMark {iterator : NodeIterator} (sound : iterator.Sound) :
    iterator.setMark.Sound := by
  induction iterator with
  | axis walk =>
    obtain ⟨linked, cursor, _, start, unbound⟩ := sound.walk
    refine .axis ⟨linked, cursor, ?_, start, fun missing => ⟨(unbound missing).1, ?_⟩⟩
    · rintro saved ⟨⟩
      exact cursor
    · rintro saved ⟨⟩
      exact (unbound missing).1
  | fixed list => exact .fixed
  | union branches place ih =>
    refine .union fun branch member => ?_
    rw [setMarkAll_eq_map] at member
    obtain ⟨before, within, rfl⟩ := List.mem_map.mp member
    exact ih before within (sound.branches before within)
  | nodeSet source replay _ => exact .nodeSet sound.source

theorem Sound.restore {iterator : NodeIterator} (sound : iterator.Sound) :
    iterator.restore.Sound := by
  induction iterator with
  | axis walk =>
    obtain ⟨linked, cursor, mark, start, unbound⟩ := sound.walk
    rw [NodeIterator.restore, AxisWalk.restore]
    cases saved : walk.mark with
    | none => exact sound
    | some place =>
      rw [saved] at mark unbound
      refine .axis ⟨linked, mark place rfl, mark, start, fun missing => ?_⟩
      exact ⟨(unbound missing).2 place rfl, (unbound missing).2⟩
  | fixed list => exact .fixed
  | union branches place ih =>
    refine .union fun branch member => ?_
    rw [restoreAll_eq_map] at member
    obtain ⟨before, within, rfl⟩ := List.mem_map.mp member
    exact ih before within (sound.branches before within)
  | nodeSet source replay _ => exact .nodeSet sound.source

theorem Sound.setRestartable {iterator : NodeIterator} (sound : iterator.Sound)
    (restartable : Bool) : (iterator.setRestartable restartable).Sound := by
  induction iterator with
  | axis walk =>
    obtain ⟨linked, cursor, mark, start, unbound⟩ := sound.walk
    exact .axis ⟨linked, cursor, mark, start, unbound⟩
  | fixed list => exact .fixed
  | union branches place ih =>
    refine .union fun branch member => ?_
    rw [setRestartableAll_eq_map] at member
    obtain ⟨before, within, rfl⟩ := List.mem_map.mp member
    exact ih before within (sound.branches before within)
  | nodeSet source replay ih => exact .nodeSet (ih sound.source)

/-! ### Cloning -/

theorem Sound.clone {iterator copy : NodeIterator} (sound : iterator.Sound)
    (cloned : iterator.clone = .ok copy) : copy.Sound := by
  induction iterator generalizing copy with
  | axis walk =>
    obtain ⟨linked, cursor, mark, start, unbound⟩ := sound.walk
    cases cloned
    exact .axis ⟨linked, cursor, mark, start, unbound⟩
  | fixed list =>
    cases clones_of_clone cloned
    exact .fixed
  | union branches place ih =>
    cases clones_of_clone cloned with
    | union each =>
      refine .union fun copy member => ?_
      obtain ⟨branch, within, step⟩ := mem_cloneAll each copy member
      exact ih branch within (sound.branches branch within) step
  | nodeSet source replay ih =>
    cases clones_of_clone cloned with
    | nodeSet copied => exact .nodeSet (ih sound.source copied)

/-! ### Binding -/

/-- Every branch that was handed a start node has taken or ignored it for itself. -/
theorem mem_bindAll {branches : List NodeIterator} {node : Handle}
    {bound : Logged (List NodeIterator)} (taken : bindAll node branches = .ok bound) :
    ∀ part ∈ bound.value, ∃ branch ∈ branches, ∃ told, branch.bind node = .ok told ∧
      told.value = part := by
  induction branches generalizing bound with
  | nil =>
    cases taken
    exact fun _ member => absurd member List.not_mem_nil
  | cons branch branches ih =>
    obtain ⟨told, here, more⟩ := exists_of_bind_ok taken
    obtain ⟨_, later, done⟩ := exists_of_bind_ok more
    cases done
    refine List.forall_mem_cons.mpr
      ⟨⟨branch, List.mem_cons_self, told, here, rfl⟩, fun part member => ?_⟩
    obtain ⟨before, within, step⟩ := ih later part member
    exact ⟨before, List.mem_cons_of_mem _ within, step⟩

theorem bindAll_cons {branch : NodeIterator} {branches : List NodeIterator} {node : Handle}
    {told : Logged NodeIterator} {bound : Logged (List NodeIterator)}
    (here : branch.bind node = .ok told) (later : bindAll node branches = .ok bound) :
    bindAll node (branch :: branches) =
      .ok ⟨told.value :: bound.value, told.log ++ bound.log⟩ := by
  rw [bindAll, here, later]
  rfl

/-- A union that accepts a start node hands it on to its branches. -/
theorem bind_union {branches : List NodeIterator} {place : Place} {node : Handle}
    {bound : Logged (List NodeIterator)} (accepted : place.progress.accepts node)
    (each : bindAll node branches = .ok bound) :
    (union branches place).bind node = .ok ⟨.union bound.value (place.bind node), bound.log⟩ := by
  rw [NodeIterator.bind, if_pos accepted, each]
  rfl

/-- A union hands a start node on to its branches or ignores it. -/
theorem bind_union_ok {branches : List NodeIterator} {place : Place} {node : Handle}
    {bound : Logged NodeIterator} (taken : (union branches place).bind node = .ok bound) :
    (place.progress.accepts node ∧ ∃ all, bindAll node branches = .ok all ∧
      bound = ⟨.union all.value (place.bind node), all.log⟩) ∨
    ¬ place.progress.accepts node ∧ bound = ⟨.union branches place, []⟩ := by
  rw [NodeIterator.bind] at taken
  by_cases accepted : place.progress.accepts node
  · rw [if_pos accepted] at taken
    obtain ⟨all, each, same⟩ := exists_of_bind_ok taken
    cases same
    exact .inl ⟨accepted, all, each, rfl⟩
  · rw [if_neg accepted] at taken
    cases taken
    exact .inr ⟨accepted, rfl⟩

/-- A node set takes a start node if it may restart, is not bound to the document for good, and is
not bound to that node already. -/
structure Heeds (source : NodeIterator) (replay : Replay) (node : Handle) : Prop where
  restartable : replay.progress.restartable = true
  unsettled : ¬ (source.dependence = .independent ∧ replay.progress.start = some Handle.root)
  other : replay.progress.start ≠ some node

/-- A node set that was just made takes every start node. -/
theorem heeds_fresh (source : NodeIterator) (node : Handle) : Heeds source {} node :=
  ⟨rfl, nofun, nofun⟩

/-- **A start node is ignored unless it is heeded.** -/
theorem ignoredStart?_eq_none_iff {source : NodeIterator} {replay : Replay} {node : Handle} :
    ignoredStart? source replay node = none ↔ Heeds source replay node := by
  unfold ignoredStart?
  constructor
  · intro heeded
    split at heeded
    · cases heeded
    · rename_i restartable
      split at heeded
      · cases heeded
      · rename_i unsettled
        split at heeded
        · cases heeded
        · rename_i other
          exact ⟨by simpa using restartable, unsettled, other⟩
  · rintro ⟨restartable, unsettled, other⟩
    rw [restartable, if_neg unsettled, if_neg other]
    rfl

theorem heeded_fresh (source : NodeIterator) (node : Handle) :
    ignoredStart? source {} node = none :=
  ignoredStart?_eq_none_iff.mpr (heeds_fresh source node)

theorem exists_ignored_iff {source : NodeIterator} {replay : Replay} {node : Handle} :
    (∃ reason, ignoredStart? source replay node = some reason) ↔ ¬ Heeds source replay node := by
  rw [← Option.ne_none_iff_exists', Ne, ignoredStart?_eq_none_iff]

/-- A node set that ignores a start node stays as it is and writes one line. -/
theorem bind_of_ignored {source : NodeIterator} {replay : Replay} {node : Handle}
    (ignored : ¬ Heeds source replay node) :
    ∃ reason, (nodeSet source replay).bind node =
      .ok ⟨.nodeSet source replay, [.startIgnored reason node]⟩ := by
  obtain ⟨reason, told⟩ := exists_ignored_iff.mpr ignored
  refine ⟨reason, ?_⟩
  rw [NodeIterator.bind, told]

/-- A node set heeds no start node that it does not accept. -/
theorem Heeds.accepts {source : NodeIterator} {replay : Replay} {node : Handle}
    (heeds : Heeds source replay node) : replay.progress.accepts node = true := by
  simp [Progress.accepts, heeds.restartable, heeds.other]

/-- **A start node that is not accepted is ignored**, whatever the iterator is made of. -/
theorem bind_of_not_accepts {iterator : NodeIterator} {node : Handle}
    (refused : iterator.progress.accepts node = false) :
    ∃ log, iterator.bind node = .ok ⟨iterator, log⟩ := by
  cases iterator with
  | axis walk =>
    have refused : walk.progress.accepts node = false := refused
    refine ⟨[], ?_⟩
    rw [NodeIterator.bind, AxisWalk.bind, refused]
    rfl
  | fixed list =>
    have refused : list.place.progress.accepts node = false := refused
    refine ⟨[], ?_⟩
    rw [NodeIterator.bind, FixedList.bind, refused]
    rfl
  | union branches place =>
    have refused : place.progress.accepts node = false := refused
    refine ⟨[], ?_⟩
    rw [NodeIterator.bind, refused]
    rfl
  | nodeSet source replay =>
    have ignored : ¬ Heeds source replay node := fun heeds =>
      Bool.false_ne_true (refused.symm.trans heeds.accepts)
    obtain ⟨reason, same⟩ := bind_of_ignored ignored
    exact ⟨_, same⟩

/-- A node set that heeds a start node drains its source there. -/
theorem bind_of_heeded {source rewound drained : NodeIterator} {replay : Replay} {node : Handle}
    {bound : Logged NodeIterator} {handles : List Handle}
    (heeded : ignoredStart? source replay node = none) (taken : source.bind node = .ok bound)
    (begun : bound.value.rewind = .ok rewound) (all : rewound.drain = .ok (handles, drained)) :
    (nodeSet source replay).bind node = .ok
      { value := .nodeSet drained (replay.load node handles)
        log := bound.log ++ [(replay.load node handles).materialized node] } := by
  rw [NodeIterator.bind, heeded]
  simp only [taken, ok_bind, begun, all]
  rfl

/-- A fresh node set over a source that yields one handle holds that handle. -/
theorem bind_of_single {source rewound drained : NodeIterator} {bound : Logged NodeIterator}
    {node handle : Handle} (taken : source.bind node = .ok bound)
    (begun : bound.value.rewind = .ok rewound) (all : rewound.drain = .ok ([handle], drained)) :
    (nodeSet source {}).bind node = .ok
      { value := .nodeSet drained
          { progress := { start := some node }, buffer := { nodes := #[handle] } }
        log := bound.log ++ [.materialized node 1 1] } := by
  have loaded := bind_of_heeded (heeded_fresh source node) taken begun all
  rw [Replay.load_single] at loaded
  exact loaded

/-- A node set ignores a start node, or it drains its source there and loads what came out. -/
theorem bind_nodeSet_ok {source : NodeIterator} {replay : Replay} {node : Handle}
    {bound : Logged NodeIterator} (taken : (nodeSet source replay).bind node = .ok bound) :
    (∃ reason, ignoredStart? source replay node = some reason) ∧
        bound.value = .nodeSet source replay ∨
      ignoredStart? source replay node = none ∧ ∃ step rewound drained handles,
        source.bind node = .ok step ∧ step.value.rewind = .ok rewound ∧
        rewound.drain = .ok (handles, drained) ∧
        bound.value = .nodeSet drained (replay.load node handles) := by
  rw [NodeIterator.bind] at taken
  cases ignored : ignoredStart? source replay node with
  | some reason =>
    rw [ignored] at taken
    cases taken
    exact .inl ⟨⟨reason, rfl⟩, rfl⟩
  | none =>
    rw [ignored] at taken
    obtain ⟨step, here, more⟩ := exists_of_bind_ok taken
    obtain ⟨rewound, begun, more⟩ := exists_of_bind_ok more
    obtain ⟨⟨handles, drained⟩, all, done⟩ := exists_of_bind_ok more
    cases done
    exact .inr ⟨rfl, step, rewound, drained, handles, here, begun, all, rfl⟩

/-- A node set that heeds a start node has drained its source and loaded what came out. -/
theorem drained_of_heeded {source : NodeIterator} {replay : Replay} {node : Handle}
    {bound : Logged NodeIterator} (heeded : ignoredStart? source replay node = none)
    (taken : (nodeSet source replay).bind node = .ok bound) :
    ∃ step rewound drained handles, source.bind node = .ok step ∧
      step.value.rewind = .ok rewound ∧ rewound.drain = .ok (handles, drained) ∧
      bound.value = .nodeSet drained (replay.load node handles) := by
  rcases bind_nodeSet_ok taken with ⟨⟨reason, ignored⟩, _⟩ | ⟨_, loaded⟩
  · cases heeded.symm.trans ignored
  · exact loaded

/-- **Binding keeps an iterator sound**, also where it drains the source of a node set. -/
theorem Sound.bind {iterator : NodeIterator} {node : Handle} {bound : Logged NodeIterator}
    (sound : iterator.Sound) (taken : iterator.bind node = .ok bound) : bound.value.Sound := by
  induction iterator generalizing bound with
  | axis walk =>
    obtain ⟨_, step, done⟩ := exists_of_bind_ok taken
    cases done
    exact .axis (sound.walk.bind step)
  | fixed list =>
    cases taken
    exact .fixed
  | union branches place ih =>
    rcases bind_union_ok taken with ⟨_, _, each, rfl⟩ | ⟨_, rfl⟩
    · refine .union fun part member => ?_
      obtain ⟨branch, within, told, step, rfl⟩ := mem_bindAll each part member
      exact ih branch within (sound.branches branch within) step
    · exact sound
  | nodeSet source replay ih =>
    rcases bind_nodeSet_ok taken with
      ⟨_, same⟩ | ⟨_, _, _, _, _, here, begun, all, same⟩
    · rw [same]
      exact sound
    · rw [same]
      exact .nodeSet (ahead_of_drain ((ih sound.source here).rewind begun) all).2

/-! ### Making iterators -/

/-- A walk that was just made. -/
theorem sound_ofAxis {tree : Tree} (linked : tree.Linked) (axis : Axis) :
    (ofAxis tree axis).Sound := by
  refine .axis ⟨linked, trivial, ?_, ?_, fun _ => ⟨rfl, ?_⟩⟩
  · rintro saved ⟨⟩
  · rintro origin ⟨⟩
  · rintro saved ⟨⟩

theorem Sound.withBranch {iterator branch whole : NodeIterator} (sound : iterator.Sound)
    (more : branch.Sound) (added : iterator.withBranch? branch = some whole) : whole.Sound := by
  cases sound with
  | axis sound => cases added
  | fixed => cases added
  | nodeSet sound => cases added
  | union sound =>
    cases added
    refine .union fun part member => ?_
    rcases List.mem_append.mp member with member | member
    · exact sound part member
    · rw [List.mem_singleton.mp member]
      exact more

/-- A node set over an independent source is bound to the document when it is made, and any other
is fresh. -/
theorem toNodeSet_ok {source : NodeIterator} {set : Logged NodeIterator}
    (made : source.toNodeSet = .ok set) :
    source.dependence = .independent ∧ (nodeSet source {}).bind Handle.root = .ok set ∨
      source.dependence = .startNode ∧ set = ⟨.nodeSet source {}, []⟩ := by
  rw [NodeIterator.toNodeSet] at made
  cases hangs : source.dependence with
  | independent =>
    rw [hangs] at made
    exact .inl ⟨rfl, made⟩
  | startNode =>
    rw [hangs] at made
    cases made
    exact .inr ⟨rfl, rfl⟩

theorem Sound.toNodeSet {source : NodeIterator} {set : Logged NodeIterator} (sound : source.Sound)
    (made : source.toNodeSet = .ok set) : set.value.Sound := by
  have fresh : (NodeIterator.nodeSet source {}).Sound := .nodeSet sound
  rcases toNodeSet_ok made with ⟨_, taken⟩ | ⟨_, rfl⟩
  · exact fresh.bind taken
  · exact fresh

/-- The iterators that can be made over built trees, lists and key tables, and what they become by
calls that succeed. -/
inductive Reachable : NodeIterator → Prop
  | ofAxis {tree : Tree} : tree.Built → (axis : Axis) → Reachable (.ofAxis tree axis)
  | ofList (nodes : List Handle) : Reachable (.ofList nodes)
  | ofUncloneable (nodes : List Handle) (refusal : Refusal) :
    Reachable (.ofUncloneable nodes refusal)
  | lookup (table : KeyTable) (values : List String) : Reachable (table.lookup values)
  | ofBranches {branches : List NodeIterator} : (∀ branch ∈ branches, Reachable branch) →
    Reachable (.ofBranches branches)
  | withBranch {iterator branch whole : NodeIterator} : Reachable iterator → Reachable branch →
    iterator.withBranch? branch = some whole → Reachable whole
  | toNodeSet {source : NodeIterator} {set : Logged NodeIterator} : Reachable source →
    source.toNodeSet = .ok set → Reachable set.value
  | bind {iterator : NodeIterator} {node : Handle} {bound : Logged NodeIterator} :
    Reachable iterator → iterator.bind node = .ok bound → Reachable bound.value
  | next {iterator rest : NodeIterator} {found : Option Handle} : Reachable iterator →
    iterator.next = .ok (found, rest) → Reachable rest
  | rewind {iterator rewound : NodeIterator} : Reachable iterator →
    iterator.rewind = .ok rewound → Reachable rewound
  | setMark {iterator : NodeIterator} : Reachable iterator → Reachable iterator.setMark
  | restore {iterator : NodeIterator} : Reachable iterator → Reachable iterator.restore
  | setRestartable {iterator : NodeIterator} (restartable : Bool) : Reachable iterator →
    Reachable (iterator.setRestartable restartable)
  | clone {iterator copy : NodeIterator} : Reachable iterator → iterator.clone = .ok copy →
    Reachable copy

theorem Reachable.ofPair {first second : NodeIterator} (here : Reachable first)
    (there : Reachable second) : Reachable (.ofBranches [first, second]) :=
  .ofBranches (List.forall_mem_cons.mpr ⟨here, List.forall_mem_singleton.mpr there⟩)

/-- **Every reachable iterator is sound.** -/
theorem Reachable.sound {iterator : NodeIterator} (reachable : Reachable iterator) :
    iterator.Sound := by
  induction reachable with
  | ofAxis built axis => exact sound_ofAxis built.linked axis
  | ofList nodes => exact .fixed
  | ofUncloneable nodes refusal => exact .fixed
  | lookup table values => exact .fixed
  | ofBranches _ ih => exact .union ih
  | withBranch _ _ added ih more => exact ih.withBranch more added
  | toNodeSet _ made ih => exact ih.toNodeSet made
  | bind _ taken ih => exact ih.bind taken
  | next _ advanced ih => exact ih.next advanced
  | rewind _ rewound ih => exact ih.rewind rewound
  | setMark _ ih => exact ih.setMark
  | restore _ ih => exact ih.restore
  | setRestartable restartable _ ih => exact ih.setRestartable restartable
  | clone _ cloned ih => exact ih.clone cloned

end NodeIterator

end XPathWalk

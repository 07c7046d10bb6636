/-
**The sizes that node sets log are the true ones.**

A node set that takes a start node writes one line, behind those of the node sets inside its source:
how many handles it found and how many different ones. The second number is counted in the sorted
buffer before anything is read from it, by comparing neighbours, while reading compares each handle
with the one yielded last. Both keep the same handles, so the line tells what comes out. A node set
that ignores a start node writes one line as well, and its source hears of nothing.

* `NodeIterator.LogsSizes`: what the log of a node set says about what it was filled with and what
  it yields;
* `materialized_load`: the line of a buffer that was just loaded;
* `exists_clone_of_bind`: taking a start node does not take the way to clone away;
* `logsSizes_of_heeded`: a node set that takes a start node logs its sizes, or meets the fault of
  its source;
* `sizes_of_log`: the same for every node set. A start node that it takes adds one line behind those
  of the node sets inside its source: how many handles the source has from the beginning, once it
  was told the node, and how many nodes come out of the node set then. Only a fault of the source
  keeps it from being filled. A start node that it does not take changes nothing and adds one line
  that says so. A node set over a source that does not hang on the start node is filled when it is
  made, and logs this in the same way.
-/

import XPathWalk.Proofs.Independence
import XPathWalk.Proofs.Materialization

namespace XPathWalk

/-- The line of a buffer that was just loaded counts all handles and the different ones. -/
theorem Replay.materialized_load (replay : Replay) (node : Handle) (handles : List Handle) :
    (replay.load node handles).materialized node =
      .materialized node handles.length (ascending handles).length := by
  have size : (replay.load node handles).buffer.size = handles.length := by
    rw [← Buffer.length_toList, toList_load, List.length_mergeSort]
  have distinct : (replay.load node handles).buffer.distinct = (ascending handles).length := by
    rw [Buffer.distinct, toList_load, changes_eq_length, withoutRepeats_sort]
  rw [materialized, size, distinct]

namespace NodeIterator

/-! ### Definitions -/

/-- The log of a node set says, behind what its source logs, how many handles the source has from
the beginning and how many nodes the node set yields, which are the different ones. If the source
can be cloned, that is also the size that the node set tells. -/
def LogsSizes (source : NodeIterator) (node : Handle) (filled : Logged NodeIterator) : Prop :=
  ∃ told handles nodes rest, source.bind node = .ok told ∧ told.value.whole = .ok handles ∧
    filled.log = told.log ++ [.materialized node handles.length nodes.length] ∧
    filled.value.drain = .ok (nodes, rest) ∧ nodes = ascending handles ∧
    ((∃ copy, source.clone = .ok copy) → filled.value.last = .ok (.ok nodes.length))

variable {source iterator : NodeIterator} {replay : Replay} {node : Handle}

/-! ### Cloning behind a start node -/

/-- What nothing inside refuses before a start node is taken, nothing inside refuses behind it. -/
theorem willing_of_bind {bound : Logged NodeIterator} (taken : iterator.bind node = .ok bound)
    (willing : ∀ part ∈ iterator.parts, part.refusal? = none) :
    ∀ part ∈ bound.value.parts, part.refusal? = none := by
  induction iterator generalizing bound with
  | axis walk =>
    obtain ⟨_, _, done⟩ := exists_of_bind_ok taken
    cases done
    exact List.forall_mem_singleton.mpr rfl
  | fixed list =>
    cases taken
    have own : list.refusal = none := willing (.fixed list) List.mem_cons_self
    refine List.forall_mem_singleton.mpr ?_
    show (FixedList.bind list node).refusal = none
    unfold FixedList.bind
    split
    · exact own
    · exact own
  | union branches place ih =>
    rcases bind_union_ok taken with ⟨_, _, each, rfl⟩ | ⟨_, rfl⟩
    · refine forall_parts_union.mpr ⟨rfl, fun part member => ?_⟩
      obtain ⟨branch, within, told, step, rfl⟩ := mem_bindAll each part member
      exact ih branch within step ((forall_parts_union.mp willing).2 branch within)
    · exact willing
  | nodeSet source replay ih =>
    rcases bind_nodeSet_ok taken with
      ⟨_, same⟩ | ⟨_, step, _, drained, _, here, begun, all, same⟩
    · rw [same]
      exact willing
    · have before := ih here (forall_parts_nodeSet.mp willing).2
      rw [same]
      refine forall_parts_nodeSet.mpr ⟨rfl, ?_⟩
      rw [← exists_clone_iff, ← exists_clone_bare_iff, bare_drain all, bare_rewind begun,
        exists_clone_bare_iff, exists_clone_iff]
      exact before

/-- An iterator that can be cloned still can behind a start node. -/
theorem exists_clone_of_bind {bound : Logged NodeIterator} (taken : iterator.bind node = .ok bound)
    (cloned : ∃ copy, iterator.clone = .ok copy) : ∃ copy, bound.value.clone = .ok copy := by
  rw [exists_clone_iff] at cloned ⊢
  exact willing_of_bind taken cloned

/-- A node set can be cloned if its source can. -/
theorem exists_clone_nodeSet (cloned : ∃ copy, source.clone = .ok copy) (replay : Replay) :
    ∃ copy, (nodeSet source replay).clone = .ok copy := by
  rw [exists_clone_iff] at cloned ⊢
  exact forall_parts_nodeSet.mpr ⟨rfl, cloned⟩

/-! ### Filling -/

/-- The contents of a node set whose buffer was just loaded. -/
theorem contents_load (replay : Replay) (node : Handle) (handles : List Handle) :
    (replay.load node handles).contents = ⟨ascending handles, none⟩ :=
  (Replay.ahead_of_start rfl).symm.trans (ahead_load replay node handles)

/-- **A node set that takes a start node logs its sizes**, unless there is a fault in its source. -/
theorem logsSizes_of_heeded (sound : source.Sound) (heeds : Heeds source replay node) :
    (∃ filled, (nodeSet source replay).bind node = .ok filled ∧ LogsSizes source node filled) ∨
    ∃ fault, (source.bind node >>= fun told => told.value.whole) = .error fault ∧
      (nodeSet source replay).bind node = .error fault := by
  have heeded := ignoredStart?_eq_none_iff.mpr heeds
  rcases fill_of_heeded sound heeded with
    ⟨told, handles, filled, rest, taken, whole, bound, drained⟩ | failed
  · have before := bind_eq_refill heeded
    rw [taken, ok_bind, bound] at before
    obtain ⟨answer, refilled, done⟩ := exists_of_bind_ok before.symm
    rw [whole_eq_refill, refilled] at whole
    cases whole
    cases done
    have soundSet : (NodeIterator.nodeSet source replay).Sound := .nodeSet sound
    refine .inl ⟨_, bound, told, answer.1, ascending answer.1, rest, taken, ?_, ?_, drained,
      rfl, fun cloned => ?_⟩
    · rw [whole_eq_refill, refilled]
      rfl
    · rw [Replay.materialized_load]
    · obtain ⟨copy, copied⟩ :=
        exists_clone_of_bind bound (exists_clone_nodeSet cloned replay)
      rw [last_of_clone (soundSet.bind bound) copied]
      exact congrArg (fun outlook : Outlook => outlook.list.map fun nodes => Except.ok nodes.length)
        (contents_load replay node answer.1)
  · exact .inr failed

/-- A node set over a free source is filled when it is made, and logs its sizes. -/
theorem logsSizes_of_free (sound : source.Sound) (free : source.Free) :
    ∃ set, source.toNodeSet = .ok set ∧ LogsSizes source Handle.root set := by
  have made : source.toNodeSet = (nodeSet source {}).bind Handle.root := by
    rw [toNodeSet, free.dependence]
  rw [made]
  refine (logsSizes_of_heeded sound (heeds_fresh source Handle.root)).resolve_right ?_
  rintro ⟨fault, failed, _⟩
  obtain ⟨told, taken, freeTold, _⟩ := free.bind Handle.root
  obtain ⟨items, contents⟩ := freeTold.contents
  rw [taken, ok_bind, (whole_eq_iff (sound.bind taken) items).mpr contents] at failed
  cases failed

/-- **The sizes that node sets log are the true ones**: for every start node that a node set takes,
whatever was done to it before, and where it is filled when it is made. -/
theorem sizes_of_log (source : NodeIterator) :
    (∀ replay, Reachable (.nodeSet source replay) → ∀ node,
      (Heeds source replay node →
        (∃ filled, (nodeSet source replay).bind node = .ok filled ∧
          LogsSizes source node filled) ∨
        ∃ fault, (source.bind node >>= fun told => told.value.whole) = .error fault ∧
          (nodeSet source replay).bind node = .error fault) ∧
      (¬ Heeds source replay node → ∃ reason, (nodeSet source replay).bind node =
        .ok ⟨.nodeSet source replay, [.startIgnored reason node]⟩)) ∧
    (Reachable source → source.dependence = .independent →
      ∃ set, source.toNodeSet = .ok set ∧ LogsSizes source Handle.root set) := by
  refine ⟨fun replay reachable node => ⟨?_, bind_of_ignored⟩, fun reachable independent => ?_⟩
  · exact logsSizes_of_heeded reachable.sound.source
  · exact logsSizes_of_free reachable.sound (reachable.free independent)

/-- One node set inside another, over a list with a repeat. The inner one logs first, and the outer
one finds all of its handles different. -/
theorem sizes_of_log_nested :
    ∃ filled rest, (nodeSet (nodeSet (ofList [5, 3, 3, 7]) {}) {}).bind 2 = .ok filled ∧
      filled.log = [.materialized 2 4 3, .materialized 2 3 3] ∧
      filled.value.drain = .ok ([3, 5, 7], rest) ∧ filled.value.last = .ok (.ok 3) := by
  have sorted : ascending [5, 3, 3, 7] = [3, 5, 7] :=
    (eq_ascending (by decide) fun node => by grind).symm
  have again : ascending [3, 5, 7] = [3, 5, 7] :=
    (eq_ascending (by decide) fun _ => Iff.rfl).symm
  have within : Reachable (.nodeSet (ofList [5, 3, 3, 7]) {}) :=
    .toNodeSet (.ofList [5, 3, 3, 7]) rfl
  have outside : Reachable (.nodeSet (.nodeSet (ofList [5, 3, 3, 7]) {}) {}) := .toNodeSet within rfl
  have drained : NodeIterator.drain (.fixed
      { nodes := #[5, 3, 3, 7], place := { progress := { start := some 2 } } }) =
      .ok ([5, 3, 3, 7], .fixed
        { nodes := #[5, 3, 3, 7]
          place := { progress := { start := some 2, position := 4 }, current := 4 } }) := rfl
  have taken : (nodeSet (ofList [5, 3, 3, 7]) {}).bind 2 = .ok _ :=
    bind_of_heeded rfl rfl rfl drained
  have whole : NodeIterator.whole (.nodeSet _ (({} : Replay).load 2 [5, 3, 3, 7])) = .ok [3, 5, 7] :=
    (whole_eq_iff (within.bind taken).sound _).mpr
      ((contents_load {} 2 [5, 3, 3, 7]).trans (congrArg (Outlook.mk · none) sorted))
  obtain ⟨filled, bound, told, handles, nodes, rest, here, found, log, yielded, rfl, last⟩ |
    ⟨fault, failed, _⟩ := ((sizes_of_log _).1 {} outside 2).1 (heeds_fresh _ 2)
  · rw [taken] at here
    cases here
    rw [whole] at found
    cases found
    rw [again] at log yielded last
    refine ⟨filled, rest, bound, ?_, yielded, last ⟨_, rfl⟩⟩
    rw [log, Replay.materialized_load, sorted]
    rfl
  · rw [taken, ok_bind, whole] at failed
    cases failed

end NodeIterator

end XPathWalk

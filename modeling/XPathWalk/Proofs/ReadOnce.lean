/-
**A node set over a source that does not hang on the start node is read once.**

Such a node set is filled when it is made, relative to the document. From then on it is bound to the
document, and its source tells that it is independent, whatever it goes through. That is all that
its guard looks at. So every start node is ignored, before and after rewinding, going back, cloning
and being permitted to restart, and no call fills the buffer a second time.

* `NodeIterator.act`, `record`: the calls on an iterator, with what they are answered and log;
* `Loaded`: a node set that was filled for good, and its buffer;
* `Loaded.bind`: it ignores every start node and stays as it is;
* `Loaded.act`, `Loaded.record`: every call keeps it so, and so does a run;
* `record_of_independent`: whatever was done to the source before, the node set is filled when it is
  made, with the whole sequence of the source and relative to the document. Whatever is called on it
  and on its clones then, nothing fails. It stays bound to the document with the same buffer, and
  logs nothing but ignored start nodes. Leaving these out changes no other entry of the record:
  neither the nodes that come out, nor their positions, nor anything that is left.
-/

import XPathWalk.Proofs.LoggedSizes
import XPathWalk.Proofs.LostPlaces

namespace XPathWalk

/-! ### Definitions -/

/-- Whether an action hands over a start node. -/
def Action.isBind : Action → Bool
  | .call (.bind _) => true
  | _ => false

/-- One line of the record of a run. -/
structure Entry where
  action : Action
  /-- The answer, if the action asked for the next node. -/
  answer : Option (Option Handle)
  log : List LogEvent
  /-- What the caller goes on with. -/
  after : NodeIterator

/-- An entry that tells of no filling: all that is logged are ignored start nodes, and what the
caller goes on with is bound to the document and holds this buffer. -/
structure Entry.Quiet (buffer : List Handle) (entry : Entry) : Prop where
  start : entry.after.progress.start = some Handle.root
  buffered : entry.after.buffered = buffer
  log : ∀ event ∈ entry.log, ∃ reason node, event = .startIgnored reason node

namespace NodeIterator

/-- An action on an iterator: its answer, its log, and what the caller goes on with. After cloning
that is the clone. -/
def act (iterator : NodeIterator) (action : Action) : Except Fault Entry :=
  match action with
  | .call (.bind node) => do
    let bound ← iterator.bind node
    return { action, answer := none, log := bound.log, after := bound.value }
  | .call (.move move) => do
    let (answer, after) ← iterator.perform move
    return { action, answer, log := [], after }
  | .setRestartable restartable =>
    .ok { action, answer := none, log := [], after := iterator.setRestartable restartable }
  | .clone =>
    match iterator.clone with
    | .ok after => .ok { action, answer := none, log := [], after }
    | .error _ => .ok { action, answer := none, log := [], after := iterator }

/-- The record of actions in a row. -/
def record (iterator : NodeIterator) : List Action → Except Fault (List Entry)
  | [] => .ok []
  | action :: rest => do
    let entry ← iterator.act action
    let later ← entry.after.record rest
    return entry :: later

/-- A node set over a free source that is bound to the document and holds this buffer. -/
inductive Loaded (buffer : List Handle) : NodeIterator → Prop
  | nodeSet {source : NodeIterator} {replay : Replay} : source.Free →
    replay.progress.start = some Handle.root → replay.buffer.toList = buffer →
    Loaded buffer (.nodeSet source replay)

variable {source iterator : NodeIterator} {buffer : List Handle}

/-! ### One call -/

/-- **A node set that was filled for good ignores every start node** and stays as it is. -/
theorem Loaded.bind (loaded : iterator.Loaded buffer) (node : Handle) :
    ∃ reason, iterator.bind node = .ok ⟨iterator, [.startIgnored reason node]⟩ := by
  obtain ⟨free, bound, _⟩ := loaded
  exact bind_of_ignored fun heeds => heeds.unsettled ⟨free.dependence, bound⟩

/-- It can be advanced, and is filled as before. -/
theorem Loaded.next (loaded : iterator.Loaded buffer) :
    ∃ found rest, iterator.next = .ok (found, rest) ∧ rest.Loaded buffer := by
  obtain ⟨free, bound, held⟩ := loaded
  obtain ⟨found, after, advanced, start, same⟩ := Replay.exists_next bound
  refine ⟨found, .nodeSet _ after, ?_, .nodeSet free start (same ▸ held)⟩
  rw [NodeIterator.next, advanced]
  rfl

/-- It can be moved, and is filled as before. -/
theorem Loaded.perform (loaded : iterator.Loaded buffer) (move : Move) :
    ∃ answer after, iterator.perform move = .ok (answer, after) ∧ after.Loaded buffer := by
  cases move with
  | next =>
    obtain ⟨found, rest, advanced, still⟩ := loaded.next
    refine ⟨some found, rest, ?_, still⟩
    rw [NodeIterator.perform, advanced]
    rfl
  | rewind =>
    obtain ⟨free, bound, held⟩ := loaded
    exact ⟨none, _, rfl, .nodeSet free bound held⟩
  | mark =>
    obtain ⟨free, bound, held⟩ := loaded
    exact ⟨none, _, rfl, .nodeSet free bound held⟩
  | restore =>
    obtain ⟨free, bound, held⟩ := loaded
    exact ⟨none, _, rfl, .nodeSet free bound held⟩

theorem Loaded.setRestartable (loaded : iterator.Loaded buffer) (restartable : Bool) :
    (iterator.setRestartable restartable).Loaded buffer := by
  obtain ⟨free, bound, held⟩ := loaded
  exact .nodeSet (free.setRestartable restartable) bound held

/-- It can be cloned, and its clone is filled as it is. -/
theorem Loaded.clone (loaded : iterator.Loaded buffer) :
    ∃ copy, iterator.clone = .ok copy ∧ copy.Loaded buffer := by
  obtain ⟨free, bound, held⟩ := loaded
  obtain ⟨copy, copied⟩ := free.exists_clone
  rename_i source replay
  have still : Loaded buffer (.nodeSet copy replay.frozen) :=
    .nodeSet (free.clone copied) bound held
  refine ⟨_, ?_, still⟩
  rw [NodeIterator.clone, copied]
  rfl

theorem Loaded.start_eq (loaded : iterator.Loaded buffer) :
    iterator.progress.start = some Handle.root := by
  obtain ⟨_, bound, _⟩ := loaded
  exact bound

theorem Loaded.buffered_eq (loaded : iterator.Loaded buffer) : iterator.buffered = buffer := by
  obtain ⟨_, _, held⟩ := loaded
  exact held

/-- **Every action keeps a node set filled for good**, and a start node leaves it as it is. -/
theorem Loaded.act (loaded : iterator.Loaded buffer) (action : Action) :
    ∃ entry, iterator.act action = .ok entry ∧ entry.action = action ∧
      entry.after.Loaded buffer ∧
      (∀ event ∈ entry.log, ∃ reason node, event = .startIgnored reason node) ∧
      (action.isBind → entry.after = iterator) := by
  have silent : ∀ event ∈ ([] : List LogEvent), ∃ reason node, event = .startIgnored reason node :=
    nofun
  cases action with
  | call call =>
    cases call with
    | bind node =>
      obtain ⟨reason, ignored⟩ := loaded.bind node
      refine ⟨⟨_, none, [.startIgnored reason node], iterator⟩, ?_, rfl, loaded, ?_, fun _ => rfl⟩
      · rw [NodeIterator.act, ignored]
        rfl
      · exact List.forall_mem_singleton.mpr ⟨reason, node, rfl⟩
    | move move =>
      obtain ⟨answer, after, performed, still⟩ := loaded.perform move
      refine ⟨⟨_, answer, [], after⟩, ?_, rfl, still, silent, nofun⟩
      rw [NodeIterator.act, performed]
      rfl
  | setRestartable restartable =>
    exact ⟨_, rfl, rfl, loaded.setRestartable restartable, silent, nofun⟩
  | clone =>
    obtain ⟨copy, cloned, still⟩ := loaded.clone
    refine ⟨⟨_, none, [], copy⟩, ?_, rfl, still, silent, nofun⟩
    rw [NodeIterator.act, cloned]

/-! ### Runs -/

/-- **A run fills nothing**, and its start nodes change nothing: without them the other actions have
the same entries. -/
theorem Loaded.record (loaded : iterator.Loaded buffer) (actions : List Action) :
    ∃ entries, iterator.record actions = .ok entries ∧
      (∀ entry ∈ entries, entry.Quiet buffer) ∧
      iterator.record (actions.filter fun action => !action.isBind) =
        .ok (entries.filter fun entry => !entry.action.isBind) := by
  induction actions generalizing iterator with
  | nil => exact ⟨[], rfl, nofun, rfl⟩
  | cons action rest ih =>
    obtain ⟨entry, acted, rfl, still, log, kept⟩ := loaded.act action
    obtain ⟨later, recorded, quiet, others⟩ := ih still
    refine ⟨entry :: later, ?_, ?_, ?_⟩
    · rw [NodeIterator.record, acted, ok_bind, recorded]
      rfl
    · exact List.forall_mem_cons.mpr ⟨⟨still.start_eq, still.buffered_eq, log⟩, quiet⟩
    · cases binds : entry.action.isBind with
      | true =>
        rw [kept binds] at others
        simpa [binds] using others
      | false =>
        simp only [List.filter_cons, binds, Bool.not_false, if_true]
        rw [NodeIterator.record, acted, ok_bind, others]
        rfl

/-! ### Node sets that were just made -/

/-- A node set over a free source is filled when it is made, with the whole sequence of the
source. -/
theorem Free.exists_filled (sound : source.Sound) (free : source.Free) :
    ∃ items set drained, source.whole = .ok items ∧ source.toNodeSet = .ok set ∧ drained.Free ∧
      set.value = .nodeSet drained (({} : Replay).load Handle.root items) := by
  obtain ⟨items, contents⟩ := free.contents
  obtain ⟨told, taken, _, same⟩ := free.bind Handle.root
  have whole := (whole_eq_iff (sound.bind taken) items).mpr (same.trans contents)
  obtain ⟨set, made, _⟩ := logsSizes_of_free sound free
  obtain ⟨_, rewound, drained, handles, here, begun, all, filled⟩ :=
    filled_of_independent free.dependence made
  -- What the source was drained of is its whole sequence.
  rw [taken] at here
  cases here
  rw [NodeIterator.whole, begun, ok_bind, all] at whole
  cases whole
  have freeSet := free.toNodeSet made
  rw [filled] at freeSet
  obtain ⟨⟩ := freeSet
  rename_i freeDrained _
  exact ⟨_, set, drained, (whole_eq_iff sound _).mpr contents, made, freeDrained, filled⟩

/-- It then holds that sequence in ascending order. -/
theorem Free.exists_loaded (sound : source.Sound) (free : source.Free) :
    ∃ items set, source.whole = .ok items ∧ source.toNodeSet = .ok set ∧
      set.value.Loaded (items.mergeSort (· ≤ ·)) := by
  obtain ⟨items, set, drained, whole, made, freeDrained, filled⟩ := free.exists_filled sound
  refine ⟨items, set, whole, made, ?_⟩
  rw [filled]
  exact .nodeSet freeDrained rfl (Replay.toList_load _ _ _)

/-- **A node set over a source that does not hang on the start node is read once**, when it is made.
Leaving out all start nodes changes no other entry of the record of a run. -/
theorem record_of_independent (reachable : Reachable source)
    (independent : source.dependence = .independent) :
    ∃ items set, source.whole = .ok items ∧ source.toNodeSet = .ok set ∧
      set.value.progress.start = some Handle.root ∧
      set.value.buffered = items.mergeSort (· ≤ ·) ∧
      ∀ actions, ∃ entries, set.value.record actions = .ok entries ∧
        (∀ entry ∈ entries, entry.Quiet set.value.buffered) ∧
        set.value.record (actions.filter fun action => !action.isBind) =
          .ok (entries.filter fun entry => !entry.action.isBind) := by
  obtain ⟨items, set, whole, made, loaded⟩ :=
    Free.exists_loaded reachable.sound (reachable.free independent)
  refine ⟨items, set, whole, made, loaded.start_eq, loaded.buffered_eq, fun actions => ?_⟩
  rw [loaded.buffered_eq]
  exact loaded.record actions

/-- A lookup that finds two nodes twice. The node set over it is read, handed start nodes, cloned
and permitted to restart, and keeps its buffer. -/
theorem record_of_independent_lookup :
    ∃ set entries,
      (((KeyTable.add { name := "k" } "v" 9).add "v" 2).lookup ["v", "v"]).toNodeSet = .ok set ∧
        set.value.buffered = [2, 2, 9, 9] ∧
        set.value.record [.call (.move .next), .call (.bind 4), .clone, .setRestartable true,
          .call (.bind 7), .call (.move .next)] = .ok entries ∧
        ∀ entry ∈ entries, entry.Quiet [2, 2, 9, 9] := by
  have found : ((KeyTable.add { name := "k" } "v" 9).add "v" 2).nodesOf "v" = [9, 2] := by
    rw [KeyTable.nodesOf_add, if_pos rfl, KeyTable.nodesOf_add, if_pos rfl, KeyTable.nodesOf_new]
    rfl
  have lookup : ((KeyTable.add { name := "k" } "v" 9).add "v" 2).lookup ["v", "v"] =
      ofMatches [9, 2, 9, 2] := by
    rw [KeyTable.lookup, KeyTable.matching, List.flatMap_cons, List.flatMap_singleton, found]
    rfl
  have sorted : ([9, 2, 9, 2] : List Handle).mergeSort (· ≤ ·) = [2, 2, 9, 9] := by
    simp [List.mergeSort]
  obtain ⟨items, set, whole, made, _, buffered, runs⟩ := record_of_independent (.lookup
    ((KeyTable.add { name := "k" } "v" 9).add "v" 2) ["v", "v"]) rfl
  have read : (ofMatches [9, 2, 9, 2]).whole = .ok [9, 2, 9, 2] := rfl
  have same : items = [9, 2, 9, 2] := Except.ok.inj (whole.symm.trans (lookup ▸ read))
  rw [same, sorted] at buffered
  obtain ⟨entries, recorded, quiet, _⟩ := runs _
  exact ⟨set, entries, made, buffered, recorded, buffered ▸ quiet⟩

end NodeIterator

end XPathWalk

/-
**Node sets with the same members give the same answers.**

A node set over a source that does not hang on the start node reads one buffer for good. Another one
may hold its nodes in a buffer of another length, since the buffers keep repeats, and both then
stand at different indices. Still they have the same nodes ahead of them, yield the same from the
beginning, and go back to the same from the places that they have saved. That is all that a caller
can find out, and every call keeps it so.

* `Query`, `NodeIterator.dialogue`: all that a caller does with an iterator, and what it is
  answered;
* `Replay.Matches`: two replays that no reading tells apart, with one lemma per operation;
* `Twins.ask`: two node sets that read matching replays give the same answer and do so again;
* `Twins.dialogue`: so they do in a row, without any fault;
* `Free.exists_twins`: node sets over sources with the same members are such a pair.
-/

import XPathWalk.Proofs.ReadOnce
import XPathWalk.Proofs.SetCursor

namespace XPathWalk

/-! ### Definitions -/

/-- What a caller does with an iterator: it requests something, saves the place, or goes back to the
saved place. -/
inductive Query where
  | request (request : Request)
  | mark
  | restore
  deriving DecidableEq, Repr

namespace NodeIterator

/-- The answer to a query, and what the caller goes on with. -/
def ask (iterator : NodeIterator) : Query → Except Fault (Answer × NodeIterator)
  | .request request => iterator.respond request
  | .mark => .ok (.done, iterator.setMark)
  | .restore => .ok (.done, iterator.restore)

/-- The answers to queries in a row, and what can be looked up after each. -/
def dialogue (iterator : NodeIterator) : List Query → Except Fault (List (Answer × Status))
  | [] => .ok []
  | query :: rest => do
    let (answer, after) ← iterator.ask query
    let later ← after.dialogue rest
    return (answer, after.status) :: later

theorem dialogue_cons {iterator after : NodeIterator} {query : Query} {rest : List Query}
    {answer : Answer} {later : List (Answer × Status)}
    (asked : iterator.ask query = .ok (answer, after)) (answered : after.dialogue rest = .ok later) :
    iterator.dialogue (query :: rest) = .ok ((answer, after.status) :: later) := by
  rw [dialogue, asked]
  simp only [ok_bind, answered]
  rfl

end NodeIterator

namespace Replay

/-- Two replays with the same bookkeeping that have the same ahead of them, now, from the beginning
and from their saved places. -/
structure Matches (first second : Replay) : Prop where
  progress : first.progress = second.progress
  ahead : first.ahead = second.ahead
  contents : first.contents = second.contents
  saved : first.restore.ahead = second.restore.ahead
  position : first.mark.position = second.mark.position

variable {first second : Replay}

/-! ### Replays -/

/-- What yielding a node leaves alone: the contents and the saved place. -/
theorem kept_of_next {replay rest : Replay} {found : Option Handle}
    (advanced : replay.next = .ok (found, rest)) :
    rest.progress = replay.progress.count found ∧ rest.contents = replay.contents ∧
      rest.restore.ahead = replay.restore.ahead ∧ rest.mark = replay.mark := by
  obtain ⟨_, _, _, _, rfl⟩ := next_ok advanced
  refine ⟨rfl, ?_, ?_, rfl⟩
  · cases found <;> rfl
  · cases found <;> rfl

/-- **Matching replays yield the same node** and match again. -/
theorem Matches.next (same : first.Matches second) {start : Handle}
    (bound : first.progress.start = some start) :
    ∃ found rest other, first.next = .ok (found, rest) ∧ second.next = .ok (found, other) ∧
      rest.Matches other := by
  obtain ⟨found, rest, advanced, _⟩ := exists_next bound
  obtain ⟨foundOther, other, advancedOther, _⟩ := exists_next (same.progress ▸ bound)
  have step := next_foresees first
  have stepOther := next_foresees second
  rw [same.ahead, advanced] at step
  rw [advancedOther] at stepOther
  -- One outlook decides what is found on both sides and what is left there.
  obtain ⟨rfl, left⟩ : found = foundOther ∧ rest.ahead = other.ahead := by
    generalize second.ahead = outlook at step stepOther
    cases step with
    | node seen =>
      cases stepOther with
      | node seenOther => exact ⟨rfl, seen.trans seenOther.symm⟩
    | done seen =>
      cases stepOther with
      | done seenOther => exact ⟨rfl, seen.trans seenOther.symm⟩
  obtain ⟨progress, contents, saved, mark⟩ := kept_of_next advanced
  obtain ⟨progressOther, contentsOther, savedOther, markOther⟩ := kept_of_next advancedOther
  refine ⟨found, rest, other, advanced, advancedOther, ?_, left, ?_, ?_, ?_⟩
  · rw [progress, progressOther, same.progress]
  · rw [contents, contentsOther, same.contents]
  · rw [saved, savedOther, same.saved]
  · rw [mark, markOther, same.position]

theorem Matches.rewind (same : first.Matches second) : first.rewind.Matches second.rewind where
  progress := congrArg Progress.rewind same.progress
  ahead := by rw [ahead_rewind, ahead_rewind, same.contents]
  contents := same.contents
  saved := same.saved
  position := same.position

theorem Matches.setMark (same : first.Matches second) : first.setMark.Matches second.setMark where
  progress := same.progress
  ahead := same.ahead
  contents := same.contents
  saved := same.ahead
  position := congrArg Progress.position same.progress

theorem Matches.restore (same : first.Matches second) : first.restore.Matches second.restore where
  progress := by rw [Replay.restore, Replay.restore, same.progress, same.position]
  ahead := same.saved
  contents := same.contents
  saved := same.saved
  position := same.position

theorem Matches.setRestartable (same : first.Matches second) (restartable : Bool) :
    (first.setRestartable restartable).Matches (second.setRestartable restartable) where
  progress := congrArg (Progress.setRestartable · restartable) same.progress
  ahead := same.ahead
  contents := same.contents
  saved := same.saved
  position := same.position

theorem Matches.frozen (same : first.Matches second) : first.frozen.Matches second.frozen where
  progress := congrArg (fun progress : Progress => progress.frozen.rewind) same.progress
  ahead := by rw [ahead_frozen, ahead_frozen, same.contents]
  contents := same.contents
  saved := same.saved
  position := same.position

/-- Replays that were just made and loaded match if the same handles were loaded. -/
theorem matches_load {handles others : List Handle} (node : Handle)
    (same : ∀ handle, handle ∈ handles ↔ handle ∈ others) :
    (({} : Replay).load node handles).Matches (({} : Replay).load node others) := by
  have members : ascending handles = ascending others :=
    eq_ascending (pairwise_ascending handles) fun handle => mem_ascending.trans (same handle)
  have left : (({} : Replay).load node handles).ahead = (({} : Replay).load node others).ahead := by
    rw [NodeIterator.ahead_load, NodeIterator.ahead_load, members]
  refine ⟨rfl, left, ?_, left, rfl⟩
  rw [NodeIterator.contents_load, NodeIterator.contents_load, members]

end Replay

namespace NodeIterator

/-- Two node sets that are bound to the document for good and read matching replays. -/
inductive Twins : NodeIterator → NodeIterator → Prop
  | nodeSet {source other : NodeIterator} {replay reading : Replay} : source.Free → other.Free →
    replay.Matches reading → replay.progress.start = some Handle.root →
    Twins (.nodeSet source replay) (.nodeSet other reading)

variable {source other first second : NodeIterator}

/-! ### Pairs of node sets -/

/-- Each of the two is filled for good. -/
theorem Twins.loaded (twins : first.Twins second) :
    first.Loaded first.buffered ∧ second.Loaded second.buffered := by
  obtain ⟨free, freeOther, same, bound⟩ := twins
  exact ⟨.nodeSet free bound rfl, .nodeSet freeOther (same.progress ▸ bound) rfl⟩

theorem Twins.free (twins : first.Twins second) : first.Free ∧ second.Free := by
  obtain ⟨free, freeOther, same, bound⟩ := twins
  exact ⟨.nodeSet free bound, .nodeSet freeOther (same.progress ▸ bound)⟩

/-- The same can be looked up on both sides. -/
theorem Twins.status (twins : first.Twins second) : first.status = second.status := by
  obtain ⟨free, freeOther⟩ := twins.free
  rw [NodeIterator.status, NodeIterator.status, free.dependence, freeOther.dependence]
  obtain ⟨_, _, same, _⟩ := twins
  exact congrArg (Status.mk · Dependence.independent) same.progress

theorem Twins.contents (twins : first.Twins second) : first.contents = second.contents := by
  obtain ⟨_, _, same, _⟩ := twins
  exact same.contents

theorem Twins.sound (twins : first.Twins second) : first.Sound ∧ second.Sound :=
  ⟨twins.free.1.sound, twins.free.2.sound⟩

theorem Twins.next (twins : first.Twins second) :
    ∃ found rest other, first.next = .ok (found, rest) ∧ second.next = .ok (found, other) ∧
      rest.Twins other := by
  obtain ⟨free, freeOther, same, bound⟩ := twins
  obtain ⟨found, rest, other, advanced, advancedOther, still⟩ := same.next bound
  have start : rest.progress.start = some Handle.root := by
    rw [(Replay.kept_of_next advanced).1, Progress.start_count, bound]
  refine ⟨found, _, _, ?_, ?_, .nodeSet free freeOther still start⟩
  · rw [NodeIterator.next, advanced]
    rfl
  · rw [NodeIterator.next, advancedOther]
    rfl

theorem Twins.clone (twins : first.Twins second) :
    ∃ copy other, first.clone = .ok copy ∧ second.clone = .ok other ∧ copy.Twins other := by
  obtain ⟨free, freeOther, same, bound⟩ := twins
  obtain ⟨copy, copied⟩ := free.exists_clone
  obtain ⟨other, copiedOther⟩ := freeOther.exists_clone
  have still := Twins.nodeSet (free.clone copied) (freeOther.clone copiedOther) same.frozen bound
  refine ⟨_, _, ?_, ?_, still⟩
  · rw [NodeIterator.clone, copied]
    rfl
  · rw [NodeIterator.clone, copiedOther]
    rfl

/-! ### Queries -/

/-- **Two such node sets give the same answer** to every query, and go on as two such node sets. -/
theorem Twins.ask (twins : first.Twins second) (query : Query) :
    ∃ answer rest other, first.ask query = .ok (answer, rest) ∧
      second.ask query = .ok (answer, other) ∧ rest.Twins other := by
  obtain ⟨sound, soundOther⟩ := twins.sound
  obtain ⟨copy, copyOther, cloned, clonedOther, twinCopies⟩ := twins.clone
  obtain ⟨items, contents⟩ := twins.free.1.contents
  have contentsOther := twins.contents.symm.trans contents
  cases query with
  | mark =>
    obtain ⟨free, freeOther, same, bound⟩ := twins
    exact ⟨_, _, _, rfl, rfl, .nodeSet free freeOther same.setMark bound⟩
  | restore =>
    obtain ⟨free, freeOther, same, bound⟩ := twins
    exact ⟨_, _, _, rfl, rfl, .nodeSet free freeOther same.restore bound⟩
  | request request =>
    cases request with
    | bind node =>
      obtain ⟨_, ignored⟩ := twins.loaded.1.bind node
      obtain ⟨_, ignoredOther⟩ := twins.loaded.2.bind node
      exact ⟨_, _, _, respond_bind ignored, respond_bind ignoredOther, twins⟩
    | next =>
      obtain ⟨found, rest, other, advanced, advancedOther, still⟩ := twins.next
      refine ⟨.found found, rest, other, ?_, ?_, still⟩
      · rw [NodeIterator.ask, respond, advanced]
        rfl
      · rw [NodeIterator.ask, respond, advancedOther]
        rfl
    | rewind =>
      obtain ⟨free, freeOther, same, bound⟩ := twins
      exact ⟨_, _, _, rfl, rfl, .nodeSet free freeOther same.rewind bound⟩
    | setRestartable restartable =>
      obtain ⟨free, freeOther, same, bound⟩ := twins
      exact ⟨_, _, _, rfl, rfl, .nodeSet (free.setRestartable restartable)
        (freeOther.setRestartable restartable) (same.setRestartable restartable) bound⟩
    | last =>
      refine ⟨.size (.ok items.length), first, second, ?_, ?_, twins⟩
      · rw [NodeIterator.ask, respond, last_of_clone sound cloned, contents]
        rfl
      · rw [NodeIterator.ask, respond, last_of_clone soundOther clonedOther, contentsOther]
        rfl
    | nodeAt position =>
      cases position with
      | zero => exact ⟨_, _, _, rfl, rfl, twins⟩
      | succ index =>
        have entry : (Outlook.mk items none).entry index = .ok items[index]? := by
          unfold Outlook.entry
          cases items[index]? <;> rfl
        refine ⟨.entry (.ok items[index]?), first, second, ?_, ?_, twins⟩
        · rw [NodeIterator.ask, respond, nodeAt_of_clone sound cloned, contents, entry]
          rfl
        · rw [NodeIterator.ask, respond, nodeAt_of_clone soundOther clonedOther, contentsOther,
            entry]
          rfl
    | clone =>
      refine ⟨.done, copy, copyOther, ?_, ?_, twinCopies⟩
      · rw [NodeIterator.ask, respond, cloned]
      · rw [NodeIterator.ask, respond, clonedOther]

/-- **They give the same answers to queries in a row**, and meet no fault. -/
theorem Twins.dialogue (twins : first.Twins second) (queries : List Query) :
    ∃ answers, first.dialogue queries = .ok answers ∧ second.dialogue queries = .ok answers := by
  induction queries generalizing first second with
  | nil => exact ⟨[], rfl, rfl⟩
  | cons query rest ih =>
    obtain ⟨answer, after, other, asked, askedOther, still⟩ := twins.ask query
    obtain ⟨later, answered, answeredOther⟩ := ih still
    refine ⟨_, dialogue_cons asked answered, ?_⟩
    rw [still.status]
    exact dialogue_cons askedOther answeredOther

/-! ### Node sets that were just made -/

/-- **Node sets over free sources with the same members are such a pair.** -/
theorem Free.exists_twins (free : source.Free) (freeOther : other.Free) {items others : List Handle}
    (whole : source.whole = .ok items) (wholeOther : other.whole = .ok others)
    (same : ∀ node, node ∈ items ↔ node ∈ others) :
    ∃ set setOther, source.toNodeSet = .ok set ∧ other.toNodeSet = .ok setOther ∧
      set.value.Twins setOther.value := by
  obtain ⟨_, set, _, read, made, freeSet, filled⟩ := free.exists_filled free.sound
  obtain ⟨_, setOther, _, readOther, madeOther, freeSetOther, filledOther⟩ :=
    freeOther.exists_filled freeOther.sound
  cases read.symm.trans whole
  cases readOther.symm.trans wholeOther
  refine ⟨set, setOther, made, madeOther, ?_⟩
  rw [filled, filledOther]
  exact .nodeSet freeSet freeSetOther (Replay.matches_load Handle.root same) rfl

end NodeIterator

end XPathWalk

/-
**A node set is a cursor over a set.**

Whatever is asked of a node set, the answers hang on two things only: whether its source hangs on
the start node, and which nodes the source has at each start node. Order and repeats of the source,
the buffer that holds them and the parts that they come from are never seen. So a node set cannot be
told from a cursor that, with every start node that it takes, is given an ascending list to read.

* `Request`, `Answer`, `Status`: what a caller asks, is answered, and can look up at any time;
* `NodeFamily`: for each start node an ascending list of nodes;
* `SetCursor`: a cursor over the lists of a family;
* `Plan.Follows`: a node set and a set cursor in the same place, which `Follows.respond` carries
  over one request;
* `transcript_eq_setCursor`: whatever is requested, both give the same answers.
-/

import XPathWalk.Proofs.Independence
import XPathWalk.Proofs.Restarts

namespace XPathWalk

/-! ### Requests -/

/-- What a caller asks of an iterator. After cloning it goes on with the clone. -/
inductive Request where
  | bind (node : Handle)
  | next
  | rewind
  | setRestartable (restartable : Bool)
  | last
  | nodeAt (position : Nat)
  | clone
  deriving DecidableEq, Repr

/-- What a caller is answered. -/
inductive Answer where
  | done
  | found (node : Option Handle)
  | size (count : Except IterationError Nat)
  | entry (node : Except IterationError (Option Handle))
  | refused (error : IterationError)

/-- What a caller can look up at any time: the start node, the permission to restart, the position,
and whether the nodes hang on the start node. -/
structure Status where
  progress : Progress
  dependence : Dependence
  deriving DecidableEq, Repr

namespace NodeIterator

def status (iterator : NodeIterator) : Status := ⟨iterator.progress, iterator.dependence⟩

/-- The answer to a request, and what the caller goes on with. -/
def respond (iterator : NodeIterator) : Request → Except Fault (Answer × NodeIterator)
  | .bind node => return (.done, (← iterator.bind node).value)
  | .next => do
    let (found, rest) ← iterator.next
    return (.found found, rest)
  | .rewind => return (.done, ← iterator.rewind)
  | .setRestartable restartable => .ok (.done, iterator.setRestartable restartable)
  | .last => return (.size (← iterator.last), iterator)
  | .nodeAt position => return (.entry (← iterator.nodeAt position), iterator)
  | .clone =>
    match iterator.clone with
    | .ok copy => .ok (.done, copy)
    | .error error => .ok (.refused error, iterator)

theorem respond_bind {iterator : NodeIterator} {node : Handle} {bound : Logged NodeIterator}
    (taken : iterator.bind node = .ok bound) :
    iterator.respond (.bind node) = .ok (.done, bound.value) := by
  rw [respond, taken]
  rfl

/-- The answers to requests in a row, and what can be looked up after each. A fault ends them. -/
def transcript (iterator : NodeIterator) : List Request → List (Except Fault (Answer × Status))
  | [] => []
  | request :: rest =>
    match iterator.respond request with
    | .error fault => [.error fault]
    | .ok (answer, after) => .ok (answer, after.status) :: transcript after rest

end NodeIterator

/-! ### Cursors over sets -/

/-- For each start node an ascending list of nodes. -/
@[ext]
structure NodeFamily where
  dependence : Dependence
  nodes : Handle → List Handle
  ascends : ∀ start, (nodes start).Pairwise (· < ·)

/-- A family is told by the members of its lists. -/
theorem NodeFamily.eq_of_mem_iff {first second : NodeFamily}
    (hangs : first.dependence = second.dependence)
    (members : ∀ start node, node ∈ first.nodes start ↔ node ∈ second.nodes start) :
    first = second := by
  ext1
  · exact hangs
  · funext start
    exact (first.ascends start).eq_of_mem_iff (second.ascends start) (members start)

/-- The bookkeeping of a node set and what it has ahead of it. -/
structure SetCursor where
  progress : Progress
  left : Outlook
  deriving DecidableEq, Repr

namespace SetCursor

variable (family : NodeFamily) (cursor : SetCursor)

/-- What a cursor with this bookkeeping yields from the beginning. -/
def contentsOf (progress : Progress) : Outlook :=
  progress.start.elim (.failed .unboundFilter) fun start => ⟨family.nodes start, none⟩

/-- Goes to the beginning with this bookkeeping. -/
def begin (progress : Progress) : SetCursor := ⟨progress, contentsOf family progress⟩

/-- A cursor that was just made. It is bound to the document if its nodes do not hang on the start
node. -/
def first : SetCursor :=
  begin family { start := if family.dependence = .independent then some Handle.root else none }

/-- Takes a start node or ignores it. -/
def bind (node : Handle) : SetCursor :=
  if family.dependence = .startNode ∧ cursor.progress.accepts node then
    begin family (cursor.progress.bind node)
  else cursor

/-- The next node. -/
def next : Except Fault (Option Handle × SetCursor) :=
  match cursor.left with
  | ⟨node :: rest, fault⟩ => .ok (some node, ⟨cursor.progress.advance, ⟨rest, fault⟩⟩)
  | ⟨[], none⟩ => .ok (none, cursor)
  | ⟨[], some fault⟩ => .error fault

def status : Status := ⟨cursor.progress, family.dependence⟩

/-- The answer to a request. A clone begins again and takes no further start node. -/
def respond : Request → Except Fault (Answer × SetCursor)
  | .bind node => .ok (.done, cursor.bind family node)
  | .next => do
    let (found, cursor) ← cursor.next
    return (.found found, cursor)
  | .rewind => .ok (.done, begin family cursor.progress.rewind)
  | .setRestartable restartable =>
    .ok (.done, { cursor with progress := cursor.progress.setRestartable restartable })
  | .last => do
    let nodes ← (contentsOf family cursor.progress).list
    return (.size (.ok nodes.length), cursor)
  | .nodeAt 0 => .ok (.entry (.ok none), cursor)
  | .nodeAt (index + 1) => do
    let found ← (contentsOf family cursor.progress).entry index
    return (.entry (.ok found), cursor)
  | .clone => .ok (.done, begin family cursor.progress.frozen.rewind)

/-- The answers to requests in a row, and what can be looked up after each. -/
def transcript (cursor : SetCursor) : List Request → List (Except Fault (Answer × Status))
  | [] => []
  | request :: rest =>
    match cursor.respond family request with
    | .error fault => [.error fault]
    | .ok (answer, after) => .ok (answer, after.status family) :: transcript after rest

end SetCursor

namespace Plan

/-- What the node set of a plan stands for. -/
def family (tree : Tree) (source : Plan) : NodeFamily where
  dependence := if source.isIndependent then .independent else .startNode
  nodes start := ascending (source.nodes tree start)
  ascends _ := pairwise_ascending _

/-- A node set that is in step, and a set cursor in the same place. -/
structure Follows (source : Plan) (tree : Tree) (iterator : NodeIterator) (cursor : SetCursor) :
    Prop where
  inStep : (Plan.nodeSet source).InStep tree iterator
  progress : iterator.progress = cursor.progress
  ahead : iterator.ahead = cursor.left

variable {tree : Tree} {source : Plan} {iterator : NodeIterator} {cursor : SetCursor}

/-! ### Node sets in step -/

theorem InStep.dependence {plan : Plan} (inStep : plan.InStep tree iterator) :
    iterator.dependence = if plan.isIndependent then .independent else .startNode := by
  obtain ⟨_, start, restartable, stands⟩ := inStep
  rw [← NodeIterator.dependence_bare, stands, dependence_station]

theorem InStep.exists_replay (inStep : (Plan.nodeSet source).InStep tree iterator) :
    ∃ part replay, iterator = .nodeSet part replay := by
  obtain ⟨_, start, restartable, stands⟩ := inStep
  obtain ⟨part, replay, same, _⟩ := NodeIterator.exists_source_of_bare stands
  exact ⟨part, replay, same⟩

/-- The contents of a node set hang on its start node alone. -/
theorem InStep.contents (inStep : (Plan.nodeSet source).InStep tree iterator) :
    iterator.contents = SetCursor.contentsOf (source.family tree) iterator.progress := by
  unfold SetCursor.contentsOf
  cases bound : iterator.progress.start with
  | some start => exact (inStep.nodeSet bound).1
  | none =>
    obtain ⟨part, replay, rfl⟩ := inStep.exists_replay
    show Replay.contents replay = _
    have bound : replay.progress.start = none := bound
    rw [Replay.contents, bound]
    rfl

/-- A node set takes a start node if it hangs on it and accepts this one. -/
theorem InStep.heeds_iff {part : NodeIterator} {replay : Replay}
    (inStep : (Plan.nodeSet source).InStep tree (.nodeSet part replay)) (node : Handle) :
    NodeIterator.ignoredStart? part replay node = none ↔
      (source.family tree).dependence = .startNode ∧ replay.progress.accepts node := by
  have hangs : part.dependence = (source.family tree).dependence := inStep.dependence
  rw [NodeIterator.ignoredStart?_eq_none_iff]
  constructor
  · intro heeds
    refine ⟨if_neg fun independent => ?_, by simp [Progress.accepts, heeds.restartable, heeds.other]⟩
    obtain ⟨_, start, restartable, stands⟩ := inStep
    exact NodeIterator.exists_ignored_iff.mp (ignored_of_independent node independent stands) heeds
  · rintro ⟨dependent, accepts⟩
    obtain ⟨restartable, other⟩ :
        replay.progress.restartable = true ∧ replay.progress.start ≠ some node := by
      simpa [Progress.accepts] using accepts
    refine ⟨restartable, fun settled => ?_, other⟩
    cases (hangs.trans dependent).symm.trans settled.1

/-! ### Requests one by one -/

theorem Follows.contents (follows : source.Follows tree iterator cursor) :
    iterator.contents = SetCursor.contentsOf (source.family tree) cursor.progress := by
  rw [follows.inStep.contents, follows.progress]

/-- A node set follows a cursor that begins if it has its contents ahead of it. -/
theorem Follows.of_contents {progress : Progress}
    (inStep : (Plan.nodeSet source).InStep tree iterator) (same : iterator.progress = progress)
    (ahead : iterator.ahead = iterator.contents) :
    source.Follows tree iterator (.begin (source.family tree) progress) where
  inStep := inStep
  progress := same
  ahead := by rw [ahead, inStep.contents, same, SetCursor.begin]

/-- What a node set becomes that takes a start node. -/
theorem loaded_of_heeded {part : NodeIterator} {replay : Replay} {node : Handle}
    {bound : Logged NodeIterator}
    (heeded : NodeIterator.ignoredStart? part replay node = none)
    (taken : (NodeIterator.nodeSet part replay).bind node = .ok bound) :
    bound.value.progress = replay.progress.bind node ∧
      bound.value.ahead = bound.value.contents := by
  refine ⟨?_, ahead_of_heeded heeded taken⟩
  obtain ⟨_, _, _, _, _, _, _, loaded⟩ := NodeIterator.drained_of_heeded heeded taken
  rw [loaded]
  rfl

theorem Follows.bind (follows : source.Follows tree iterator cursor) (linked : tree.Linked)
    {node : Handle} (member : node < tree.size) :
    ∃ bound, iterator.bind node = .ok bound ∧
      source.Follows tree bound.value (cursor.bind (source.family tree) node) := by
  obtain ⟨inStep, progress, ahead⟩ := follows
  obtain ⟨bound, taken, after⟩ | ⟨outside, _⟩ := inStep.bind linked node
  · refine ⟨bound, taken, ?_⟩
    obtain ⟨part, replay, rfl⟩ := inStep.exists_replay
    have progress : replay.progress = cursor.progress := progress
    -- Both sides take the node on the same condition.
    have heeds := inStep.heeds_iff node
    rw [progress] at heeds
    unfold SetCursor.bind
    split
    · rename_i takes
      obtain ⟨begun, there⟩ := loaded_of_heeded (heeds.mpr takes) taken
      exact .of_contents after (progress ▸ begun) there
    · rename_i ignores
      obtain ⟨reason, ignored⟩ := Option.ne_none_iff_exists'.mp (mt heeds.mp ignores)
      rw [NodeIterator.bind, ignored] at taken
      cases taken
      exact ⟨inStep, progress, ahead⟩
  · exact absurd member (Nat.not_lt_of_le outside)

theorem Follows.next (follows : source.Follows tree iterator cursor) (linked : tree.Linked) :
    (∃ found rest after, iterator.next = .ok (found, rest) ∧ cursor.next = .ok (found, after) ∧
      source.Follows tree rest after) ∨
    ∃ fault, iterator.next = .error fault ∧ cursor.next = .error fault := by
  obtain ⟨inStep, progress, ahead⟩ := follows
  obtain ⟨cursorProgress, left⟩ := cursor
  have step := NodeIterator.next_foresees inStep.sound
  rw [ahead] at step
  unfold SetCursor.next
  generalize advanced : iterator.next = result at step
  cases step with
  | fault => exact .inr ⟨_, rfl, rfl⟩
  | done seen =>
    refine .inl ⟨none, _, _, rfl, rfl, inStep.step linked (.next advanced), ?_, seen.ahead⟩
    exact (NodeIterator.progress_next advanced).trans progress
  | node seen =>
    refine .inl ⟨_, _, _, rfl, rfl, inStep.step linked (.next advanced), ?_, seen.ahead⟩
    exact (NodeIterator.progress_next advanced).trans (congrArg Progress.advance progress)

theorem Follows.rewind (follows : source.Follows tree iterator cursor) (linked : tree.Linked) :
    ∃ rewound, iterator.rewind = .ok rewound ∧
      source.Follows tree rewound (.begin (source.family tree) cursor.progress.rewind) := by
  obtain ⟨inStep, progress, _⟩ := follows
  obtain ⟨rewound, begun, seen⟩ := NodeIterator.rewind_sees inStep.sound
  refine ⟨rewound, begun, .of_contents (inStep.step linked (.rewind begun)) ?_ ?_⟩
  · obtain ⟨part, replay, rfl⟩ := inStep.exists_replay
    cases begun
    exact congrArg Progress.rewind progress
  · rw [seen.ahead, NodeIterator.contents_eq_of_bare (NodeIterator.bare_rewind begun)]

theorem Follows.setRestartable (follows : source.Follows tree iterator cursor)
    (linked : tree.Linked) (restartable : Bool) :
    source.Follows tree (iterator.setRestartable restartable)
      { cursor with progress := cursor.progress.setRestartable restartable } := by
  obtain ⟨inStep, progress, ahead⟩ := follows
  have after := inStep.step linked (.setRestartable restartable)
  obtain ⟨part, replay, rfl⟩ := inStep.exists_replay
  exact ⟨after, congrArg (Progress.setRestartable · restartable) progress, ahead⟩

theorem Follows.clone (follows : source.Follows tree iterator cursor) (linked : tree.Linked) :
    ∃ copy, iterator.clone = .ok copy ∧
      source.Follows tree copy (.begin (source.family tree) cursor.progress.frozen.rewind) := by
  obtain ⟨inStep, progress, _⟩ := follows
  obtain ⟨copy, cloned⟩ := inStep.exists_clone
  have after := inStep.step linked (.clone cloned)
  obtain ⟨part, replay, rfl⟩ := inStep.exists_replay
  refine ⟨copy, cloned, .of_contents after ?_ ?_⟩
  · cases NodeIterator.clones_of_clone cloned
    exact congrArg (fun progress : Progress => progress.frozen.rewind) progress
  · rw [NodeIterator.ahead_clone cloned, NodeIterator.contents_clone cloned]
    rfl

/-- The same can be looked up on both sides. -/
theorem Follows.status (follows : source.Follows tree iterator cursor) :
    iterator.status = cursor.status (source.family tree) := by
  unfold NodeIterator.status SetCursor.status
  rw [follows.progress, follows.inStep.dependence]
  rfl

/-! ### Runs of requests -/

/-- Both sides give the same answer and go on in the same place, or both meet the same fault. -/
inductive Agrees (source : Plan) (tree : Tree) :
    Except Fault (Answer × NodeIterator) → Except Fault (Answer × SetCursor) → Prop
  | answer {answer : Answer} {iterator : NodeIterator} {cursor : SetCursor} :
    source.Follows tree iterator cursor →
    Agrees source tree (.ok (answer, iterator)) (.ok (answer, cursor))
  | fault {fault : Fault} : Agrees source tree (.error fault) (.error fault)

/-- **One request is answered alike on both sides**, and both go on in the same place. -/
theorem Follows.respond (follows : source.Follows tree iterator cursor) (linked : tree.Linked)
    (request : Request) (within : ∀ node, request = .bind node → node < tree.size) :
    Agrees source tree (iterator.respond request)
      (cursor.respond (source.family tree) request) := by
  cases request with
  | bind node =>
    obtain ⟨bound, taken, after⟩ := follows.bind linked (within node rfl)
    rw [NodeIterator.respond_bind taken]
    exact .answer after
  | next =>
    rw [NodeIterator.respond, SetCursor.respond]
    obtain ⟨found, rest, cursor, step, stepCursor, after⟩ | ⟨fault, failed, failedCursor⟩ :=
      follows.next linked
    · rw [step, stepCursor]
      exact .answer after
    · rw [failed, failedCursor]
      exact .fault
  | rewind =>
    obtain ⟨rewound, begun, after⟩ := follows.rewind linked
    rw [NodeIterator.respond, begun]
    exact .answer after
  | setRestartable restartable => exact .answer (follows.setRestartable linked restartable)
  | last =>
    obtain ⟨copy, cloned⟩ := follows.inStep.exists_clone
    rw [NodeIterator.respond, NodeIterator.last_of_clone follows.inStep.sound cloned,
      follows.contents, SetCursor.respond]
    cases (SetCursor.contentsOf (source.family tree) cursor.progress).list with
    | error fault => exact .fault
    | ok nodes => exact .answer follows
  | nodeAt position =>
    cases position with
    | zero => exact .answer follows
    | succ index =>
      obtain ⟨copy, cloned⟩ := follows.inStep.exists_clone
      rw [NodeIterator.respond, NodeIterator.nodeAt_of_clone follows.inStep.sound cloned,
        follows.contents, SetCursor.respond]
      cases (SetCursor.contentsOf (source.family tree) cursor.progress).entry index with
      | error fault => exact .fault
      | ok found => exact .answer follows
  | clone =>
    obtain ⟨copy, cloned, after⟩ := follows.clone linked
    rw [NodeIterator.respond, cloned]
    exact .answer after

/-- **Requests in a row are answered alike on both sides.** -/
theorem Follows.transcript (follows : source.Follows tree iterator cursor) (linked : tree.Linked)
    (requests : List Request) (within : ∀ node, .bind node ∈ requests → node < tree.size) :
    iterator.transcript requests = cursor.transcript (source.family tree) requests := by
  induction requests generalizing iterator cursor with
  | nil => rfl
  | cons request rest ih =>
    have here : ∀ node, request = .bind node → node < tree.size := by
      rintro node rfl
      exact within node List.mem_cons_self
    have later : ∀ node, .bind node ∈ rest → node < tree.size := fun node member =>
      within node (List.mem_cons_of_mem _ member)
    have step := follows.respond linked request here
    rw [NodeIterator.transcript, SetCursor.transcript]
    generalize iterator.respond request = result at step
    generalize cursor.respond (source.family tree) request = resultCursor at step
    cases step with
    | fault => rfl
    | @answer _ rest cursor after =>
      show Except.ok (_, rest.status) :: _ = Except.ok (_, cursor.status _) :: _
      rw [after.status, ih after later]

/-! ### Node sets that were just made -/

/-- A node set that was just made is bound to the document if its source does not hang on the start
node, and not bound at all otherwise. -/
theorem progress_toNodeSet {part : NodeIterator} {set : Logged NodeIterator}
    (made : part.toNodeSet = .ok set) :
    set.value.progress =
        { start := if part.dependence = .independent then some Handle.root else none } ∧
      set.value.ahead = set.value.contents := by
  rcases NodeIterator.toNodeSet_ok made with ⟨hangs, taken⟩ | ⟨hangs, rfl⟩
  · rw [hangs]
    exact loaded_of_heeded (NodeIterator.heeded_fresh part Handle.root) taken
  · rw [hangs]
    exact ⟨rfl, rfl⟩

/-- **A node set is a cursor over a set.** Make a node set over any source. Whatever is requested of
it in a row, with start nodes of the tree, it answers and tells about itself what a cursor over the
nodes of the source does, each node once and in ascending order. -/
theorem transcript_eq_setCursor (linked : tree.Linked) (source : Plan) :
    ∃ fresh, (Plan.nodeSet source).make tree = .ok fresh ∧
      fresh.status = (SetCursor.first (source.family tree)).status (source.family tree) ∧
      ∀ requests, (∀ node, .bind node ∈ requests → node < tree.size) →
        fresh.transcript requests =
          (SetCursor.first (source.family tree)).transcript (source.family tree) requests := by
  obtain ⟨fresh, made, sound, stands⟩ := make_station linked (.nodeSet source)
  have inStep : (Plan.nodeSet source).InStep tree fresh := ⟨sound, none, true, stands⟩
  have follows : source.Follows tree fresh (.first (source.family tree)) := by
    obtain ⟨part, _, more⟩ := exists_of_bind_ok made
    obtain ⟨set, collected, done⟩ := exists_of_bind_ok more
    cases done
    obtain ⟨progress, ahead⟩ := progress_toNodeSet collected
    have hangs : part.dependence = (source.family tree).dependence :=
      (NodeIterator.dependence_toNodeSet collected).symm.trans inStep.dependence
    rw [hangs] at progress
    exact .of_contents inStep progress ahead
  exact ⟨fresh, made, follows.status, follows.transcript linked⟩

end Plan

end XPathWalk

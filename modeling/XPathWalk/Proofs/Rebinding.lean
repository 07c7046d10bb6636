/-
**Saved places and the start nodes that they belong to.**

Taking a new start node does not forget the saved place, so an iterator that goes back to it may
leave the sequence of its start node. To say when it does, a run is traced together with the start
node to which the present place belongs, its home, and the one to which the saved place belongs. At
home, the node that comes next always has the position that is counted. Away from home, a walk goes
on along the axis of its home, and a node set goes on in its own buffer with a position that counts
nothing there.

* `Trace.perform`: what a call does to an iterator, to its home and to that of the saved place;
* `Trace.home_of_freshMarks`: only stale marks lead away from home;
* `WalkTraced`, `SetTraced`: the places of walks and of node sets belong to their homes;
* `position_of_home`: bind, advance, rewind, mark and take back a fresh walk or a fresh node set in
  any order. A walk always yields the node at its position in the sequence of its home. A node set
  always yields a node of its start node, and while it is at home there, the one at its position;
* `stale_mark_moves`: a walk that goes back to an older start node's place is not at home.
-/

import XPathWalk.Proofs.ListCursor
import XPathWalk.Proofs.Runs

namespace XPathWalk

/-- A call that binds an iterator or moves it. -/
inductive Call where
  | bind (node : Handle)
  | move (move : Move)
  deriving DecidableEq, Repr

/-- A node set replays a buffer. -/
def NodeIterator.isNodeSet : NodeIterator → Bool
  | .nodeSet _ _ => true
  | _ => false

/-- An iterator and the start nodes to which its place and its saved place belong. -/
structure Trace where
  iterator : NodeIterator
  /-- The start node in whose sequence the iterator stands, if it stands in any. -/
  home : Option Handle := none
  /-- The home of the saved place, unless this is the beginning of whatever comes. -/
  saved : Option (Option Handle) := none

namespace Trace

/-- The trace of an iterator on which nothing was called yet. -/
def of (iterator : NodeIterator) : Trace := { iterator, home := iterator.progress.start }

/-- The start node of the iterator. -/
def start (trace : Trace) : Option Handle := trace.iterator.progress.start

/-- The home after binding. A start node that was taken differs from the one before. -/
def homeAt (trace : Trace) (start : Option Handle) : Option Handle :=
  if start = trace.start then trace.home else start

/-- The home after a move. Rewinding leads home, and going back leads to where the saved place
belongs. A node set that is moved on away from home is at home nowhere. -/
def homeAfter (trace : Trace) : Move → Option Handle
  | .next => if trace.iterator.isNodeSet ∧ trace.home ≠ trace.start then none else trace.home
  | .rewind => trace.start
  | .mark => trace.home
  | .restore => trace.saved.getD trace.start

/-- The home of the saved place after a move. A node set that has yielded nothing yet
saves the beginning. -/
def savedAfter (trace : Trace) : Move → Option (Option Handle)
  | .mark =>
    if trace.iterator.isNodeSet ∧ trace.iterator.progress.position = 0 then none
    else some trace.home
  | .next | .rewind | .restore => trace.saved

/-- The effect of a call. -/
def perform (trace : Trace) : Call → Except Fault Trace
  | .bind node => do
    let bound ← trace.iterator.bind node
    return { trace with
      iterator := bound.value
      home := trace.homeAt bound.value.progress.start }
  | .move move => do
    let (_, iterator) ← trace.iterator.perform move
    return { iterator, home := trace.homeAfter move, saved := trace.savedAfter move }

/-- The effect of calls in a row. -/
def run (trace : Trace) (calls : List Call) : Except Fault Trace := calls.foldlM perform trace

end Trace

/-- No place is gone back to that was saved before a start node was offered. -/
def FreshMarks (calls : List Call) : Prop :=
  ∀ before node between after,
    calls = before ++ .bind node :: (between ++ .move .restore :: after) →
      .move .mark ∈ before → .move .mark ∈ between

namespace Trace

/-- What every call keeps, a run keeps. -/
theorem run_keeps (kept : Trace → Prop)
    (step : ∀ trace call after, kept trace → trace.perform call = .ok after → kept after)
    {trace after : Trace} (first : kept trace) {calls : List Call}
    (done : trace.run calls = .ok after) : kept after := by
  induction calls generalizing trace with
  | nil =>
    cases done
    exact first
  | cons call rest ih =>
    obtain ⟨next, here, later⟩ := exists_of_bind_ok done
    exact ih (step trace call next first here) later

/-! ### Runs that stay at home -/

/-- Moving leaves the start node alone. -/
theorem start_move {iterator after : NodeIterator} {move : Move} {answer : Option (Option Handle)}
    (performed : iterator.perform move = .ok (answer, after)) :
    after.progress.start = iterator.progress.start := by
  cases move with
  | next =>
    obtain ⟨⟨found, _⟩, advanced, same⟩ := exists_of_bind_ok performed
    cases same
    rw [NodeIterator.progress_next advanced, Progress.start_count]
  | rewind =>
    obtain ⟨_, rewound, same⟩ := exists_of_bind_ok performed
    cases same
    exact NodeIterator.start_rewind rewound
  | mark =>
    cases performed
    rw [NodeIterator.progress_setMark]
  | restore =>
    cases performed
    exact iterator.start_restore

/-- The last start node was offered after the last place was saved. -/
def Stale (past : List Call) : Prop :=
  ∃ before node between, past = before ++ .bind node :: between ∧ .move .mark ∈ before ∧
    .move .mark ∉ between

/-- An iterator is at home, and so is the saved place unless it is stale. -/
structure AtHome (past : List Call) (trace : Trace) : Prop where
  home : trace.home = trace.start
  saved : trace.saved = none ∨ trace.saved = some trace.start ∨ Stale past
  unsaved : .move .mark ∉ past → trace.saved = none

/-- What is stale stays so until another place is saved. -/
theorem Stale.snoc {past : List Call} {call : Call} (stale : Stale past)
    (other : call ≠ .move .mark) : Stale (past ++ [call]) := by
  obtain ⟨before, node, between, rfl, member, missing⟩ := stale
  refine ⟨before, node, between ++ [call], by simp, member, ?_⟩
  rw [List.mem_append, List.mem_singleton]
  rintro (within | same)
  · exact missing within
  · exact other same.symm

/-- A move that saves no place and ends at home. -/
theorem AtHome.keep {past : List Call} {trace after : Trace} {call : Call}
    (atHome : AtHome past trace) (other : call ≠ .move .mark) (home : after.home = trace.start)
    (start : after.start = trace.start) (saved : after.saved = trace.saved) :
    AtHome (past ++ [call]) after where
  home := home.trans start.symm
  saved := by
    rw [saved, start]
    rcases atHome.saved with nowhere | here | stale
    · exact .inl nowhere
    · exact .inr (.inl here)
    · exact .inr (.inr (stale.snoc other))
  unsaved missing :=
    saved.trans (atHome.unsaved fun member => missing (List.mem_append_left _ member))

/-- One call keeps an iterator at home, unless it goes back to a stale place. -/
theorem AtHome.perform {past : List Call} {trace after : Trace} {call : Call}
    (atHome : AtHome past trace) (fresh : call = .move .restore → ¬ Stale past)
    (done : trace.perform call = .ok after) : AtHome (past ++ [call]) after := by
  have home := atHome.home
  cases call with
  | bind node =>
    obtain ⟨bound, _, same⟩ := exists_of_bind_ok done
    cases same
    refine ⟨?_, ?_, fun missing =>
      atHome.unsaved fun member => missing (List.mem_append_left _ member)⟩
    · show trace.homeAt bound.value.progress.start = bound.value.progress.start
      rw [homeAt, home]
      split
      · rename_i same
        exact same.symm
      · rfl
    · by_cases member : .move .mark ∈ past
      · exact .inr (.inr ⟨past, node, [], rfl, member, List.not_mem_nil⟩)
      · exact .inl (atHome.unsaved member)
  | move move =>
    obtain ⟨⟨answer, further⟩, performed, same⟩ := exists_of_bind_ok done
    cases same
    have start : further.progress.start = trace.start := start_move performed
    cases move with
    | next =>
      refine atHome.keep (by decide) ?_ start rfl
      exact (if_neg fun both => both.2 home).trans home
    | rewind => exact atHome.keep (by decide) rfl start rfl
    | mark =>
      refine ⟨home.trans start.symm, ?_, fun missing => ?_⟩
      · show trace.savedAfter .mark = none ∨ trace.savedAfter .mark = some further.progress.start ∨ _
        rw [savedAfter, start, home]
        split
        · exact .inl rfl
        · exact .inr (.inl rfl)
      · exact absurd (List.mem_append_right _ List.mem_cons_self) missing
    | restore =>
      refine atHome.keep (by decide) ?_ start rfl
      show trace.saved.getD trace.start = trace.start
      rcases atHome.saved with nowhere | here | stale
      · rw [nowhere, Option.getD_none]
      · rw [here, Option.getD_some]
      · exact absurd stale (fresh rfl)

/-- Calls in a row keep an iterator at home. -/
theorem AtHome.run {past calls : List Call} {trace after : Trace} (atHome : AtHome past trace)
    (fresh : FreshMarks (past ++ calls)) (done : trace.run calls = .ok after) :
    after.home = after.start := by
  induction calls generalizing past trace with
  | nil =>
    cases done
    exact atHome.home
  | cons call rest ih =>
    obtain ⟨next, here, later⟩ := exists_of_bind_ok done
    have heeded : call = .move .restore → ¬ Stale past := by
      rintro rfl ⟨before, node, between, rfl, member, missing⟩
      exact missing (fresh before node between rest (by simp) member)
    refine ih (atHome.perform heeded here) ?_ later
    rwa [List.append_assoc]

/-- **Where all marks are fresh, an iterator stays at home.** -/
theorem home_of_freshMarks {iterator : NodeIterator} {calls : List Call} {trace : Trace}
    (fresh : FreshMarks calls) (done : (of iterator).run calls = .ok trace) :
    trace.home = trace.start := by
  have first : AtHome [] (of iterator) := ⟨rfl, .inl rfl, fun _ => rfl⟩
  exact first.run fresh done

end Trace

/-! ### Walks -/

/-- A cursor and a position belong to a start node: so much of its axis is left. Without a start
node, the cursor has not been set up. -/
def LiesAt (tree : Tree) (axis : Axis) (home : Option Handle) (cursor : Cursor) (position : Nat) :
    Prop :=
  match home with
  | none => cursor = .unbound
  | some node => cursor.ahead tree axis = ⟨(tree.axisNodes axis node).drop position, none⟩

/-- The present and the saved place of a walk belong to their homes. -/
structure WalkTraced (tree : Tree) (axis : Axis) (trace : Trace) (walk : AxisWalk) : Prop where
  iterator : trace.iterator = .axis walk
  sound : walk.Sound
  sameTree : walk.tree = tree
  sameAxis : walk.axis = axis
  place : LiesAt tree axis trace.home walk.cursor walk.progress.position
  unsaved : walk.mark = none → trace.saved = none ∧ trace.home = walk.progress.start
  saved : ∀ cursor position, walk.mark = some (cursor, position) →
    ∃ home, trace.saved = some home ∧ LiesAt tree axis home cursor position

/-- A walk that was just set up is at its beginning. -/
theorem liesAt_start {tree : Tree} {axis : Axis} {node : Handle} {cursor : Cursor}
    (linked : tree.Linked) (begun : Cursor.start tree axis node = .ok cursor) :
    LiesAt tree axis (some node) cursor 0 := (Cursor.start_ok linked begun).2.ahead

/-- The next node of a walk is the one at its position in the sequence of its home. -/
theorem next_liesAt {walk moved : AxisWalk} {home : Option Handle} {found : Option Handle}
    (sound : walk.Sound)
    (place : LiesAt walk.tree walk.axis home walk.cursor walk.progress.position)
    (advanced : walk.next = .ok (found, moved)) :
    LiesAt walk.tree walk.axis home moved.cursor moved.progress.position ∧
      ∀ node, found = some node → moved.progress.position = walk.progress.position + 1 ∧
        ∃ origin, home = some origin ∧
          (walk.tree.axisNodes walk.axis origin)[walk.progress.position]? = some node := by
  have step := AxisWalk.next_foresees sound
  rw [advanced] at step
  obtain ⟨cursor, _, rfl⟩ := AxisWalk.next_ok advanced
  cases home with
  | none =>
    rw [AxisWalk.ahead, show walk.cursor = .unbound from place] at step
    cases step
  | some origin =>
    rw [AxisWalk.ahead, show walk.cursor.ahead walk.tree walk.axis = _ from place] at step
    generalize left : (walk.tree.axisNodes walk.axis origin).drop walk.progress.position = nodes
      at step
    cases step with
    | done seen =>
      refine ⟨seen.ahead.trans ?_, by rintro node ⟨⟩⟩
      rw [Outlook.ended]
      exact congrArg (Outlook.mk · none) left.symm
    | @node node rest _ _ seen =>
      have entry : (walk.tree.axisNodes walk.axis origin)[walk.progress.position]? = some node := by
        rw [← List.head?_drop, left]
        rfl
      refine ⟨seen.ahead.trans ?_, ?_⟩
      · have behind := congrArg List.tail left
        rw [List.tail_drop] at behind
        exact congrArg (Outlook.mk · none) behind.symm
      · rintro _ ⟨⟩
        exact ⟨rfl, origin, rfl, entry⟩

namespace WalkTraced

variable {tree : Tree} {axis : Axis} {trace : Trace} {walk moved : AxisWalk}

theorem start_eq (traced : WalkTraced tree axis trace walk) :
    trace.start = walk.progress.start := by
  rw [Trace.start, traced.iterator]
  rfl

theorem not_nodeSet (traced : WalkTraced tree axis trace walk) : ¬ trace.iterator.isNodeSet := by
  rw [traced.iterator]
  exact Bool.false_ne_true

theorem bind {node : Handle} (traced : WalkTraced tree axis trace walk)
    (taken : walk.bind node = .ok moved) :
    WalkTraced tree axis
      { trace with iterator := .axis moved, home := trace.homeAt moved.progress.start } moved := by
  have begun := traced.start_eq
  have soundMoved := traced.sound.bind taken
  obtain ⟨_, sound, rfl, rfl, place, unsaved, saved⟩ := traced
  rcases AxisWalk.bind_ok taken with ⟨accepted, cursor, setUp, rfl⟩ | ⟨_, rfl⟩
  · have other : ¬ some node = trace.start := by
      rw [begun]
      intro equal
      simp [Progress.accepts, ← equal] at accepted
    have home : trace.homeAt (some node) = some node := if_neg other
    refine ⟨rfl, soundMoved, rfl, rfl, ?_, fun missing => ⟨(unsaved missing).1, home⟩, saved⟩
    show LiesAt walk.tree walk.axis (trace.homeAt (some node)) cursor 0
    rw [home]
    exact liesAt_start sound.linked setUp
  · have home : trace.homeAt moved.progress.start = trace.home := if_pos begun.symm
    exact ⟨rfl, sound, rfl, rfl, home ▸ place,
      fun missing => ⟨(unsaved missing).1, home.trans (unsaved missing).2⟩, saved⟩

theorem next {found : Option Handle} (traced : WalkTraced tree axis trace walk)
    (advanced : walk.next = .ok (found, moved)) :
    WalkTraced tree axis
      { trace with iterator := .axis moved, home := trace.homeAfter .next } moved := by
  have home : trace.homeAfter .next = trace.home := if_neg fun both => traced.not_nodeSet both.1
  obtain ⟨_, sound, rfl, rfl, place, unsaved, saved⟩ := traced
  have placed := (next_liesAt sound place advanced).1
  have step : (NodeIterator.axis walk).next = .ok (found, .axis moved) := by
    rw [NodeIterator.next, advanced]
    rfl
  have soundMoved := (NodeIterator.Sound.axis sound).next step
  obtain ⟨_, _, rfl⟩ := AxisWalk.next_ok advanced
  refine ⟨rfl, soundMoved.walk, rfl, rfl, home ▸ placed, fun missing => ?_, saved⟩
  obtain ⟨nowhere, atStart⟩ := unsaved missing
  exact ⟨nowhere, home.trans (atStart.trans (Progress.start_count walk.progress _).symm)⟩

theorem rewind (traced : WalkTraced tree axis trace walk) (rewound : walk.rewind = .ok moved) :
    WalkTraced tree axis
      { trace with iterator := .axis moved, home := trace.homeAfter .rewind } moved := by
  have begun := traced.start_eq
  obtain ⟨_, sound, rfl, rfl, place, unsaved, saved⟩ := traced
  obtain ⟨_, same, seen⟩ := NodeIterator.rewind_walk_sees sound
  rw [rewound] at same
  cases same
  rcases AxisWalk.rewind_ok rewound with ⟨origin, rfl⟩ | ⟨node, cursor, origin, setUp, rfl⟩
  · have home : trace.homeAfter .rewind = none := begun.trans origin
    refine ⟨rfl, sound, rfl, rfl, ?_, fun missing => ⟨(unsaved missing).1, begun⟩, saved⟩
    show LiesAt moved.tree moved.axis (trace.homeAfter .rewind) _ _
    rw [home]
    exact (sound.unbound origin).1
  · have home : trace.homeAfter .rewind = some node := begun.trans origin
    refine ⟨rfl, seen.sound, rfl, rfl, ?_, fun missing => ⟨(unsaved missing).1, begun⟩, saved⟩
    show LiesAt walk.tree walk.axis (trace.homeAfter .rewind) cursor 0
    rw [home]
    exact liesAt_start sound.linked setUp

theorem mark (traced : WalkTraced tree axis trace walk) :
    WalkTraced tree axis
      { trace with iterator := .axis walk.setMark, saved := trace.savedAfter .mark }
      walk.setMark := by
  have kept : trace.savedAfter .mark = some trace.home :=
    if_neg fun both => traced.not_nodeSet both.1
  obtain ⟨_, sound, rfl, rfl, place, _, _⟩ := traced
  refine ⟨rfl, (NodeIterator.Sound.axis sound).setMark.walk, rfl, rfl, place, ?_, ?_⟩
  · rintro ⟨⟩
  · rintro cursor position ⟨⟩
    exact ⟨trace.home, kept, place⟩

theorem restore (traced : WalkTraced tree axis trace walk) :
    WalkTraced tree axis
      { trace with iterator := .axis walk.restore, home := trace.homeAfter .restore }
      walk.restore := by
  have begun := traced.start_eq
  obtain ⟨_, sound, rfl, rfl, place, unsaved, saved⟩ := traced
  have soundBack := (NodeIterator.Sound.axis sound).restore.walk
  cases marked : walk.mark with
  | none =>
    obtain ⟨nowhere, atStart⟩ := unsaved marked
    have home : trace.homeAfter .restore = trace.home := by
      rw [Trace.homeAfter, nowhere, atStart, begun]
      rfl
    rw [AxisWalk.restore_eq_self marked]
    exact ⟨rfl, sound, rfl, rfl, home ▸ place, fun _ => ⟨nowhere, home.trans atStart⟩, saved⟩
  | some mark =>
    obtain ⟨home, same, placed⟩ := saved mark.1 mark.2 marked
    have there : trace.homeAfter .restore = home := by
      rw [Trace.homeAfter, same]
      rfl
    rw [AxisWalk.restore_of_mark marked] at soundBack ⊢
    refine ⟨rfl, soundBack, rfl, rfl, there ▸ placed, fun missing => ?_, saved⟩
    exact absurd (marked.symm.trans missing) (Option.some_ne_none mark)

/-- **Every call keeps the places of a walk with their homes.** -/
theorem perform {call : Call} {after : Trace} (traced : WalkTraced tree axis trace walk)
    (done : trace.perform call = .ok after) : ∃ moved, WalkTraced tree axis after moved := by
  cases call with
  | bind node =>
    obtain ⟨bound, taken, same⟩ := exists_of_bind_ok done
    rw [traced.iterator] at taken
    obtain ⟨moved, step, settled⟩ := exists_of_bind_ok taken
    cases settled
    cases same
    exact ⟨moved, traced.bind step⟩
  | move move =>
    obtain ⟨⟨answer, further⟩, performed, same⟩ := exists_of_bind_ok done
    rw [traced.iterator] at performed
    cases same
    cases move with
    | next =>
      obtain ⟨⟨found, rest⟩, advanced, settled⟩ := exists_of_bind_ok performed
      cases settled
      obtain ⟨⟨_, moved⟩, step, settled⟩ := exists_of_bind_ok advanced
      cases settled
      exact ⟨moved, traced.next step⟩
    | rewind =>
      obtain ⟨rest, rewound, settled⟩ := exists_of_bind_ok performed
      cases settled
      obtain ⟨moved, step, settled⟩ := exists_of_bind_ok rewound
      cases settled
      exact ⟨moved, traced.rewind step⟩
    | mark =>
      cases performed
      exact ⟨walk.setMark, traced.mark⟩
    | restore =>
      cases performed
      exact ⟨walk.restore, traced.restore⟩

/-- A walk yields the node at its position in the sequence of its home. -/
theorem next_node {node : Handle} (traced : WalkTraced tree axis trace walk)
    (advanced : walk.next = .ok (some node, moved)) :
    ∃ start home, trace.start = some start ∧ trace.home = some home ∧
      (tree.axisNodes axis home)[walk.progress.position]? = some node := by
  have begun := traced.start_eq
  obtain ⟨_, sound, rfl, rfl, place, _, _⟩ := traced
  obtain ⟨_, home, same, entry⟩ := (next_liesAt sound place advanced).2 node rfl
  cases bound : walk.progress.start with
  | some start => exact ⟨start, home, begun.trans bound, same, entry⟩
  | none =>
    rw [AxisWalk.next, (sound.unbound bound).1] at advanced
    cases advanced

end WalkTraced

/-- A fresh walk has no home. -/
theorem walkTraced_ofAxis {tree : Tree} (linked : tree.Linked) (axis : Axis) :
    WalkTraced tree axis (.of (.ofAxis tree axis)) { tree, axis } :=
  ⟨rfl, (NodeIterator.sound_ofAxis linked axis).walk, rfl, rfl, rfl, fun _ => ⟨rfl, rfl⟩,
    fun _ _ saved => by cases saved⟩

/-! ### Node sets -/

/-- The present place of a replay, as it would be saved. -/
def Replay.place (replay : Replay) : ReplayMark := replay.setMark.mark

/-- A place in a replay belongs to a start node: read from there, the buffer of that start node
yields the nodes behind the position. A place before any node is the beginning. -/
structure PlacedAt (tree : Tree) (source : Plan) (home : Option Handle) (place : ReplayMark) :
    Prop where
  first : place.position = 0 → place = {}
  reads : ∀ node, home = some node →
    withoutRepeats place.last (((source.nodes tree node).mergeSort (· ≤ ·)).drop place.current) =
      (ascending (source.nodes tree node)).drop place.position

/-- The present and the saved place of a node set belong to their homes. -/
structure SetTraced (tree : Tree) (source : Plan) (trace : Trace) (part : NodeIterator)
    (replay : Replay) : Prop where
  iterator : trace.iterator = .nodeSet part replay
  inStep : (Plan.nodeSet source).InStep tree (.nodeSet part replay)
  place : PlacedAt tree source trace.home replay.place
  unsaved : trace.saved = none → replay.mark = {}
  saved : ∀ home, trace.saved = some home → PlacedAt tree source home replay.mark

/-- The beginning belongs to every start node. -/
theorem placedAt_first (tree : Tree) (source : Plan) (home : Option Handle) :
    PlacedAt tree source home {} :=
  ⟨fun _ => rfl, fun _ _ => withoutRepeats_sort _⟩

/-- From the beginning, nothing is skipped in search of a node that does not come. -/
theorem seek_none_behind {buffer : Buffer} {left current behind : Nat}
    (sought : Replay.seek buffer none left current = .ok (none, behind)) : behind = current := by
  cases left with
  | zero =>
    cases sought
    rfl
  | succ left =>
    obtain ⟨node, _, skipped⟩ := exists_of_bind_ok sought
    rw [if_neg (Option.some_ne_none node)] at skipped
    cases skipped

/-- What one step of a replay does to its place. -/
theorem next_replay_ok {replay moved : Replay} {found : Option Handle}
    (advanced : replay.next = .ok (found, moved)) :
    ∃ start behind, replay.progress.start = some start ∧
      moved = { replay with
        progress := replay.progress.count found, current := behind, last := found <|> replay.last } ∧
      withoutRepeats replay.last (replay.buffer.toList.drop replay.current) =
        found.toList ++ withoutRepeats (found <|> replay.last) (replay.buffer.toList.drop behind) ∧
      (found = none → replay.last = none → behind = replay.current) := by
  obtain ⟨start, behind, bound, sought, rfl⟩ := Replay.next_ok advanced
  obtain ⟨_, _, same, kept, _⟩ := Replay.seek_eq replay.buffer replay.last
    (replay.buffer.size - replay.current) replay.current rfl
  rw [sought] at same
  cases same
  refine ⟨start, behind, bound, rfl, kept, ?_⟩
  rintro rfl fresh
  rw [fresh] at sought
  exact seek_none_behind sought

namespace SetTraced

variable {tree : Tree} {source : Plan} {trace : Trace} {part moved : NodeIterator}
  {replay rest : Replay}

theorem start_eq (traced : SetTraced tree source trace part replay) :
    trace.start = replay.progress.start := by
  rw [Trace.start, traced.iterator]
  rfl

theorem isNodeSet (traced : SetTraced tree source trace part replay) :
    trace.iterator.isNodeSet := by
  rw [traced.iterator]
  rfl

/-- The buffer of a node set holds the sorted nodes of its source at its start node. -/
theorem buffer_eq (traced : SetTraced tree source trace part replay) {start : Handle}
    (bound : replay.progress.start = some start) :
    replay.buffer.toList = (source.nodes tree start).mergeSort (· ≤ ·) := by
  obtain ⟨_, _, _, same, buffer⟩ := traced.inStep.nodeSet bound
  cases same
  exact buffer

theorem bind {node : Handle} {bound : Logged NodeIterator} (linked : tree.Linked)
    (traced : SetTraced tree source trace part replay)
    (taken : (NodeIterator.nodeSet part replay).bind node = .ok bound) :
    ∃ moved rest, SetTraced tree source
      { trace with
        iterator := bound.value
        home := trace.homeAt bound.value.progress.start } moved rest := by
  have begun := traced.start_eq
  have inStep := traced.inStep.step linked (.bind taken)
  obtain ⟨_, _, place, unsaved, saved⟩ := traced
  rcases NodeIterator.bind_nodeSet_ok taken with
    ⟨_, same⟩ | ⟨_, _, _, drained, handles, _, _, _, same⟩
  · rw [same] at inStep ⊢
    have home : trace.homeAt replay.progress.start = trace.home := if_pos begun.symm
    exact ⟨part, replay, rfl, inStep, home ▸ place, unsaved, saved⟩
  · rw [same] at inStep ⊢
    exact ⟨drained, replay.load node handles, rfl, inStep, placedAt_first tree source _, unsaved,
      saved⟩

theorem next {found : Option Handle} (linked : tree.Linked)
    (traced : SetTraced tree source trace part replay)
    (advanced : replay.next = .ok (found, rest)) :
    SetTraced tree source
      { trace with iterator := .nodeSet part rest, home := trace.homeAfter .next } part rest := by
  have step : (NodeIterator.nodeSet part replay).next = .ok (found, .nodeSet part rest) := by
    rw [NodeIterator.next, advanced]
    rfl
  have inStep := traced.inStep.step linked (.next step)
  obtain ⟨start, behind, bound, rfl, kept, still⟩ := next_replay_ok advanced
  refine ⟨rfl, inStep, ⟨fun none_yet => ?_, fun node home => ?_⟩, traced.unsaved, traced.saved⟩
  · -- Only a replay at the beginning that finds nothing has not yielded any node yet.
    cases found with
    | some node => cases none_yet
    | none =>
      have begun := traced.place.first none_yet
      have fresh : replay.last = none := congrArg ReplayMark.last begun
      refine Eq.trans ?_ begun
      show ReplayMark.mk behind replay.last replay.progress.position = _
      rw [still rfl fresh]
      rfl
  · have atHome : trace.home = trace.start := by
      by_contra away
      rw [Trace.homeAfter, if_pos ⟨traced.isNodeSet, away⟩] at home
      cases home
    have same : trace.homeAfter .next = trace.home := if_neg fun both => both.2 atHome
    have origin : trace.home = some start := atHome.trans (traced.start_eq.trans bound)
    have equal : start = node := Option.some.inj (origin.symm.trans (same.symm.trans home))
    subst equal
    have reads := traced.place.reads start origin
    rw [← traced.buffer_eq bound] at reads ⊢
    have split := reads.symm.trans kept
    show withoutRepeats (found <|> replay.last) (replay.buffer.toList.drop behind) =
      (ascending (source.nodes tree start)).drop (replay.progress.count found).position
    cases found with
    | none => exact split.symm
    | some node =>
      have tail := congrArg List.tail split
      rw [List.tail_drop] at tail
      exact tail.symm

theorem rewind (traced : SetTraced tree source trace part replay) (linked : tree.Linked) :
    SetTraced tree source
      { trace with iterator := .nodeSet part replay.rewind, home := trace.homeAfter .rewind }
      part replay.rewind :=
  ⟨rfl, traced.inStep.step linked (.rewind rfl), placedAt_first tree source _, traced.unsaved,
    traced.saved⟩

theorem mark (traced : SetTraced tree source trace part replay) (linked : tree.Linked) :
    SetTraced tree source
      { trace with iterator := .nodeSet part replay.setMark, saved := trace.savedAfter .mark }
      part replay.setMark := by
  refine ⟨rfl, traced.inStep.step linked .setMark, traced.place, ?_, ?_⟩
  · intro nowhere
    by_cases first : trace.iterator.isNodeSet ∧ trace.iterator.progress.position = 0
    · have begun := first.2
      rw [traced.iterator] at begun
      exact traced.place.first begun
    · have kept : trace.savedAfter .mark = some trace.home := if_neg first
      cases kept.symm.trans nowhere
  · intro home same
    by_cases first : trace.iterator.isNodeSet ∧ trace.iterator.progress.position = 0
    · have lost : trace.savedAfter .mark = none := if_pos first
      cases lost.symm.trans same
    · have kept : trace.savedAfter .mark = some trace.home := if_neg first
      rw [← Option.some.inj (kept.symm.trans same)]
      exact traced.place

theorem restore (traced : SetTraced tree source trace part replay) (linked : tree.Linked) :
    SetTraced tree source
      { trace with iterator := .nodeSet part replay.restore, home := trace.homeAfter .restore }
      part replay.restore := by
  refine ⟨rfl, traced.inStep.step linked .restore, ?_, traced.unsaved, traced.saved⟩
  show PlacedAt tree source (trace.saved.getD trace.start) replay.mark
  cases kept : trace.saved with
  | none =>
    rw [traced.unsaved kept]
    exact placedAt_first tree source _
  | some home => exact traced.saved home kept

/-- **Every call keeps the places of a node set with their homes.** -/
theorem perform (linked : tree.Linked) {call : Call} {after : Trace}
    (traced : SetTraced tree source trace part replay) (done : trace.perform call = .ok after) :
    ∃ moved rest, SetTraced tree source after moved rest := by
  cases call with
  | bind node =>
    obtain ⟨bound, taken, same⟩ := exists_of_bind_ok done
    rw [traced.iterator] at taken
    cases same
    exact traced.bind linked taken
  | move move =>
    obtain ⟨⟨answer, further⟩, performed, same⟩ := exists_of_bind_ok done
    rw [traced.iterator] at performed
    cases same
    cases move with
    | next =>
      obtain ⟨⟨found, _⟩, advanced, settled⟩ := exists_of_bind_ok performed
      cases settled
      obtain ⟨⟨_, rest⟩, step, settled⟩ := exists_of_bind_ok advanced
      cases settled
      exact ⟨part, rest, traced.next linked step⟩
    | rewind =>
      cases performed
      exact ⟨part, replay.rewind, traced.rewind linked⟩
    | mark =>
      cases performed
      exact ⟨part, replay.setMark, traced.mark linked⟩
    | restore =>
      cases performed
      exact ⟨part, replay.restore, traced.restore linked⟩

/-- A node set yields a node of its source at its start node. At home, it is the one at the
position. -/
theorem next_node {node : Handle} (traced : SetTraced tree source trace part replay)
    (advanced : replay.next = .ok (some node, rest)) :
    ∃ start, trace.start = some start ∧ node ∈ ascending (source.nodes tree start) ∧
      (trace.home = some start →
        (ascending (source.nodes tree start))[replay.progress.position]? = some node) := by
  obtain ⟨start, behind, bound, _, kept, _⟩ := next_replay_ok advanced
  rw [traced.buffer_eq bound] at kept
  have first : node ∈ withoutRepeats replay.last
      (((source.nodes tree start).mergeSort (· ≤ ·)).drop replay.current) := by
    rw [kept]
    exact List.mem_cons_self
  have member := List.mem_of_mem_drop (mem_of_mem_withoutRepeats first)
  refine ⟨start, traced.start_eq.trans bound, ?_, fun home => ?_⟩
  · exact mem_ascending.mpr ((List.mergeSort_perm _ _).mem_iff.mp member)
  · have split := (traced.place.reads start home).symm.trans kept
    rw [← List.head?_drop]
    exact congrArg List.head? split

end SetTraced

/-- A fresh node set stands at the beginning and has saved the beginning. -/
theorem toNodeSet_first {part : NodeIterator} {set : Logged NodeIterator}
    (made : part.toNodeSet = .ok set) :
    ∃ source replay, set.value = .nodeSet source replay ∧ replay.place = {} ∧ replay.mark = {} := by
  rcases NodeIterator.toNodeSet_ok made with ⟨_, taken⟩ | ⟨_, rfl⟩
  · obtain ⟨_, _, drained, _, _, _, _, loaded⟩ :=
      NodeIterator.drained_of_heeded (NodeIterator.heeded_fresh part Handle.root) taken
    exact ⟨drained, _, loaded, rfl, rfl⟩
  · exact ⟨part, {}, rfl, rfl, rfl⟩

/-- A fresh node set is made without fail and is at home. -/
theorem setTraced_make {tree : Tree} (linked : tree.Linked) (source : Plan) :
    ∃ fresh part replay, (Plan.nodeSet source).make tree = .ok fresh ∧
      SetTraced tree source (.of fresh) part replay := by
  obtain ⟨fresh, made, sound, stands⟩ := Plan.make_station linked (.nodeSet source)
  have inStep : (Plan.nodeSet source).InStep tree fresh := ⟨sound, none, true, stands⟩
  obtain ⟨_, _, later⟩ := exists_of_bind_ok (show (do
    return (← (← source.make tree).toNodeSet).value) = Except.ok fresh from made)
  obtain ⟨set, settled, same⟩ := exists_of_bind_ok later
  cases same
  obtain ⟨part, replay, shape, place, mark⟩ := toNodeSet_first settled
  refine ⟨set.value, part, replay, made, shape, shape ▸ inStep, ?_, fun _ => mark, ?_⟩
  · rw [place]
    exact placedAt_first tree source _
  · rintro home ⟨⟩

/-! ### Positions -/

/-- **At home, a node comes at the position that is counted**, whatever was called on a fresh walk
or on a fresh node set. Away from home lead stale marks alone. -/
theorem position_of_home {tree : Tree} (built : tree.Built) (calls : List Call) :
    (∀ axis trace node rest, (Trace.of (.ofAxis tree axis)).run calls = .ok trace →
      trace.iterator.next = .ok (some node, rest) →
        ∃ start home index, trace.start = some start ∧ trace.home = some home ∧
          (FreshMarks calls → home = start) ∧ rest.progress.position = index + 1 ∧
          ((Plan.axis axis).nodes tree home)[index]? = some node) ∧
    ∀ source, ∃ fresh, (Plan.nodeSet source).make tree = .ok fresh ∧
      ∀ trace node rest, (Trace.of fresh).run calls = .ok trace →
        trace.iterator.next = .ok (some node, rest) →
          ∃ start, trace.start = some start ∧ node ∈ (Plan.nodeSet source).nodes tree start ∧
            (FreshMarks calls → trace.home = some start) ∧
            (trace.home = some start → ∃ index, rest.progress.position = index + 1 ∧
              ((Plan.nodeSet source).nodes tree start)[index]? = some node) := by
  have linked := built.linked
  refine ⟨fun axis trace node rest done advanced => ?_, fun source => ?_⟩
  · obtain ⟨walk, traced⟩ := Trace.run_keeps (fun trace => ∃ walk, WalkTraced tree axis trace walk)
      (fun _ _ _ ⟨_, traced⟩ step => traced.perform step) ⟨_, walkTraced_ofAxis linked axis⟩ done
    have counted := congrArg Progress.position (NodeIterator.progress_next advanced)
    rw [traced.iterator] at advanced counted
    obtain ⟨⟨_, _⟩, step, same⟩ := exists_of_bind_ok advanced
    cases same
    obtain ⟨start, home, bound, origin, entry⟩ := traced.next_node step
    refine ⟨start, home, walk.progress.position, bound, origin, fun marks => ?_, counted, entry⟩
    exact Option.some.inj (origin.symm.trans ((Trace.home_of_freshMarks marks done).trans bound))
  · obtain ⟨fresh, _, _, made, first⟩ := setTraced_make linked source
    refine ⟨fresh, made, fun trace node rest done advanced => ?_⟩
    obtain ⟨part, replay, traced⟩ := Trace.run_keeps
      (fun trace => ∃ part replay, SetTraced tree source trace part replay)
      (fun _ _ _ ⟨_, _, traced⟩ step => traced.perform linked step) ⟨_, _, first⟩ done
    have counted := congrArg Progress.position (NodeIterator.progress_next advanced)
    rw [traced.iterator] at advanced counted
    obtain ⟨⟨_, _⟩, step, same⟩ := exists_of_bind_ok advanced
    cases same
    obtain ⟨start, bound, member, entry⟩ := traced.next_node step
    exact ⟨start, bound, member, fun marks => (Trace.home_of_freshMarks marks done).trans bound,
      fun home => ⟨replay.progress.position, counted, entry home⟩⟩

/-- The children of a document and a list with repeats are read in the middle, at a place that was
gone back to. -/
theorem position_of_home_restored :
    ∃ walked walkedOn fresh replayed replayedOn,
      (FreshMarks [.bind Handle.root, .move .next, .move .mark, .move .next, .move .restore] ∧
          (Trace.of (.ofAxis (.ofDocument (.text "a" (.comment "b" .empty))) .child)).run
            [.bind Handle.root, .move .next, .move .mark, .move .next, .move .restore] =
              .ok walked ∧
          walked.iterator.next = .ok (some 2, walkedOn) ∧
          (Plan.nodeSet (.list [2, 1, 1])).make (.ofDocument (.text "a" (.comment "b" .empty))) =
            .ok fresh ∧
          (Trace.of fresh).run
            [.bind Handle.root, .move .next, .move .mark, .move .next, .move .restore] =
              .ok replayed ∧
          replayed.iterator.next = .ok (some 2, replayedOn)) ∧
        (∃ start index, walked.start = some start ∧ walkedOn.progress.position = index + 1 ∧
          ((Plan.axis .child).nodes (.ofDocument (.text "a" (.comment "b" .empty))) start)[index]? =
            some 2) ∧
        ∃ start index, replayed.start = some start ∧ replayedOn.progress.position = index + 1 ∧
          ((Plan.nodeSet (.list [2, 1, 1])).nodes
            (.ofDocument (.text "a" (.comment "b" .empty))) start)[index]? = some 2 := by
  have marks : FreshMarks
      [.bind Handle.root, .move .next, .move .mark, .move .next, .move .restore] := by
    intro before node between after split member
    -- Nothing stands before the one start node.
    cases before with
    | nil => cases member
    | cons first before =>
      injection split with _ others
      have later : Call.bind node ∈ [.move .next, .move .mark, .move .next, .move .restore] := by
        rw [others]
        exact List.mem_append_right before List.mem_cons_self
      simp at later
  have sorted : ([2, 1, 1] : List Handle).mergeSort (· ≤ ·) = [1, 1, 2] := by
    simp [List.mergeSort]
  have loaded : ({} : Replay).load Handle.root [2, 1, 1] =
      { progress := { start := some Handle.root }, buffer := { nodes := #[1, 1, 2] } } :=
    congrArg (fun nodes : List Handle => ({
      progress := { start := some Handle.root }
      buffer := { nodes := nodes.toArray } } : Replay)) sorted
  have drained : NodeIterator.drain (.fixed
      { nodes := #[2, 1, 1], place := { progress := { start := some Handle.root } } }) =
        .ok ([2, 1, 1], .fixed {
          nodes := #[2, 1, 1]
          place := {
            progress := { start := some Handle.root, position := 3 }
            current := 3 } }) := rfl
  have bound : (NodeIterator.nodeSet (.ofList [2, 1, 1]) {}).bind Handle.root = _ :=
    NodeIterator.bind_of_heeded rfl rfl rfl drained
  rw [loaded] at bound
  obtain ⟨replayed, replayedOn, ran, advanced⟩ : ∃ replayed replayedOn,
      (Trace.of (.nodeSet (.ofList [2, 1, 1]) {})).run
          [.bind Handle.root, .move .next, .move .mark, .move .next, .move .restore] =
            .ok replayed ∧
        replayed.iterator.next = .ok (some 2, replayedOn) := by
    rw [Trace.run, List.foldlM_cons, Trace.perform, Trace.of, bound]
    exact ⟨_, _, rfl, rfl⟩
  obtain ⟨walks, sets⟩ := position_of_home
    (Tree.built_ofDocument (.text "a" (.comment "b" .empty)))
    [.bind Handle.root, .move .next, .move .mark, .move .next, .move .restore]
  obtain ⟨start, home, index, begun, _, same, counted, entry⟩ := walks .child _ 2 _ rfl rfl
  rw [same marks] at entry
  obtain ⟨fresh, made, always⟩ := sets (.list [2, 1, 1])
  cases made
  obtain ⟨origin, bound, _, atHome, placed⟩ := always replayed 2 replayedOn ran advanced
  obtain ⟨place, position, found⟩ := placed (atHome marks)
  exact ⟨_, _, _, replayed, replayedOn, ⟨marks, rfl, rfl, rfl, ran, advanced⟩,
    ⟨start, index, begun, counted, entry⟩, origin, place, bound, position, found⟩

/-- **A saved place outlives its start node.** A walk over the children of one element saves its
place, is bound to another element, and goes back: it then yields the child of the first element,
at position 1, although the only child of its start node is another node. -/
theorem stale_mark_moves :
    ∃ trace rest,
      (Trace.of (.ofAxis (.ofDocument (.element "a" [] (.text "x" .empty)
          (.element "b" [] (.text "y" .empty) .empty))) .child)).run
            [.bind 1, .move .mark, .bind 3, .move .restore] = .ok trace ∧
        trace.iterator.next = .ok (some 2, rest) ∧ rest.progress.position = 1 ∧
        trace.start = some 3 ∧ trace.iterator.whole = .ok [4] :=
  ⟨_, _, rfl, rfl, rfl, rfl, rfl⟩

end XPathWalk

/-
**Reading ends, stays ended and never leaves the tree.**

Reading comes to the branches of a union one by one and goes into none of the sources of node sets.
It meets a fault only at a walk that has no cursor or a node set that has no start node. Elsewhere
it comes to an end after finitely many nodes, and further calls change nothing there. Links and
ranges of a document lead to nodes of the document, also from a cursor that was saved long before.

* `NodeIterator.met`, `unready?`: what reading comes to, and the fault of a part that is not ready;
* `fault_ahead`: the fault behind what is ahead is that of the first part that is not ready;
* `observe_next`: what calls for the next node show, however many there are;
* `AxisWalk.Inside`: the cursors of a walk have nodes of its tree left, in every reachable state;
* `Idle`: the calls under which an iterator that has ended stays so;
* `endings_of_reachable`: unless reading comes to a part that is not ready, calls for the next node
  yield finitely many nodes and then `none`, as often as they are made. Each walk anywhere in a
  reachable iterator yields nodes of its tree. A call for the next node fails only as a part that is
  not ready does, so never for a handle outside the tree or an index outside the buffer, and
  rewinding does not fail. Once there is no next node, there is none after any idle calls, and the
  position stays the same.
-/

import Mathlib.Logic.Relation
import XPathWalk.Proofs.Kinship
import XPathWalk.Proofs.ListCursor
import XPathWalk.Proofs.Parts

namespace XPathWalk

/-! ### Axes stay within their tree -/

namespace Tree

variable {tree : Tree}

/-- **The nodes of every axis are nodes of the tree.** -/
theorem LaidOut.lt_size_of_mem_axisNodes (laid : tree.LaidOut) (axis : Axis) (origin : Handle) :
    ∀ node ∈ tree.axisNodes axis origin, node < tree.size := by
  intro node member
  unfold axisNodes at member
  cases found : tree.node? origin with
  | none =>
    rw [found] at member
    cases member
  | some row =>
    have inside := lt_size_of_node found
    have links := laid.linked.row origin row found
    have parent : ∀ handle, row.parent = some handle → handle < tree.size := fun handle above =>
      Nat.lt_trans (links.parent handle above) inside
    have ancestors := lt_size_of_mem_trail laid.linked.ranks_parent parent
    have below : ∀ handle ∈ tree.plainFrom (origin + 1) (row.stop - (origin + 1)),
        handle < tree.size := by
      intro handle met
      exact Nat.lt_of_lt_of_le (mem_plainFrom_iff.mp met).2.1 links.stop
    rw [found, Option.elim_some] at member
    cases axis with
    | self =>
      rw [List.mem_singleton.mp member]
      exact inside
    | parent => exact parent node (Option.mem_toList.mp member)
    | child =>
      have children : node ∈ tree.children origin := member
      rw [children_eq_trail found] at children
      exact lt_size_of_mem_trail laid.linked.ranks_next
        (fun handle first => (links.child handle first).2) node children
    | followingSibling =>
      dsimp only at member
      split at member
      · cases member
      · exact lt_size_of_mem_trail laid.linked.ranks_next
          (fun handle onward => (links.next handle onward).2) node member
    | precedingSibling =>
      dsimp only at member
      split at member
      · cases member
      · refine lt_size_of_mem_trail laid.linked.ranks_previous (fun handle back => ?_) node member
        exact Nat.lt_trans (links.previous handle back) inside
    | ancestor => exact ancestors node member
    | ancestorOrSelf =>
      rcases List.mem_cons.mp member with rfl | above
      · exact inside
      · exact ancestors node above
    | descendant => exact below node member
    | descendantOrSelf =>
      rcases List.mem_cons.mp member with rfl | within
      · exact inside
      · exact below node within
    | following => exact (mem_plainFrom_iff.mp member).2.1
    | preceding =>
      have filtered : node ∈ tree.plainBelow origin (tree.trail Node.parent row.parent) := member
      unfold plainBelow at filtered
      have before := List.mem_range.mp (List.mem_reverse.mp (List.mem_filter.mp filtered).1)
      exact Nat.lt_trans before inside
    | attr =>
      have holds := (laid.row origin row found).holds
      have listed : node ∈ row.attributes.toList := member
      rw [holds.attributes] at listed
      have bound := (List.mem_range'_1.mp listed).2
      have room := holds.room
      have stop := links.stop
      grind

end Tree

/-- The tree of a walk was built, and both its cursor and the saved one have nodes of it left. -/
structure AxisWalk.Inside (walk : AxisWalk) : Prop where
  laid : walk.tree.LaidOut
  cursor : ∀ node ∈ walk.cursor.nodes walk.tree, node < walk.tree.size
  mark : ∀ saved ∈ walk.mark, ∀ node ∈ saved.1.nodes walk.tree, node < walk.tree.size

/-- A cursor that was just set up has nodes of the tree left. -/
theorem Cursor.lt_size_of_start {tree : Tree} (laid : tree.LaidOut) {axis : Axis}
    {origin : Handle} {cursor : Cursor} (begun : Cursor.start tree axis origin = .ok cursor) :
    ∀ node ∈ cursor.nodes tree, node < tree.size := by
  obtain ⟨_, seen⟩ := Cursor.start_ok laid.linked begun
  have left : cursor.nodes tree = tree.axisNodes axis origin := by
    rw [← @Cursor.nodes_ahead tree axis, seen.ahead]
  rw [left]
  exact laid.lt_size_of_mem_axisNodes axis origin

/-- Advancing a cursor yields nothing but what it had left, and leaves nothing else. -/
theorem Cursor.mem_of_advance {tree : Tree} (linked : tree.Linked) {axis : Axis}
    {cursor after : Cursor} {found : Option Handle} (within : cursor.Within tree)
    (advanced : cursor.advance tree axis = .ok (found, after)) :
    (∀ node, found = some node → node ∈ cursor.nodes tree) ∧
      ∀ node ∈ after.nodes tree, node ∈ cursor.nodes tree := by
  have step : Outlook.Foresees _ (cursor.ahead tree axis) (cursor.advance tree axis) :=
    Cursor.advance_foresees linked within
  rw [← @Cursor.nodes_ahead tree axis cursor, ← @Cursor.nodes_ahead tree axis after]
  rw [advanced] at step
  generalize cursor.ahead tree axis = outlook at step ⊢
  cases step with
  | node seen =>
    rw [seen.ahead]
    refine ⟨?_, fun node left => List.mem_cons_of_mem _ left⟩
    rintro node ⟨⟩
    exact List.mem_cons_self
  | done seen =>
    rw [seen.ahead]
    refine ⟨?_, fun _ left => left⟩
    rintro node ⟨⟩

/-- Behind two outlooks lies the fault of the first or else that of the second. -/
theorem Outlook.fault_append (first second : Outlook) :
    (first ++ second).fault = first.fault.or second.fault := by
  obtain ⟨nodes, _ | fault⟩ := first
  · rfl
  · rfl

namespace NodeIterator

/-! ### Definitions -/

mutual

/-- The parts that reading comes to, first to last: all but unions and the sources of node sets. -/
def met : NodeIterator → List NodeIterator
  | .axis walk => [.axis walk]
  | .fixed list => [.fixed list]
  | .union branches place => metFrom branches place.current
  | .nodeSet source replay => [.nodeSet source replay]

/-- The parts that reading comes to in the branches from number `current` on. -/
def metFrom : List NodeIterator → (current : Nat) → List NodeIterator
  | [], _ => []
  | _ :: rest, current + 1 => metFrom rest current
  | branch :: rest, 0 => branch.met ++ metFrom rest 0

end

/-- The fault of asking for a node where no start node was given, or where a walk was taken back to
a time when it had no cursor. -/
def unready? : NodeIterator → Option Fault
  | .axis walk =>
    if walk.progress.start = none ∨ walk.cursor = .unbound then some (.unboundAxis walk.axis)
    else none
  | .nodeSet _ replay => if replay.progress.start = none then some .unboundFilter else none
  | _ => none

/-- What becomes of an iterator by one call that gives it no start node, takes it back to no place
and adds no branch. -/
inductive Idle : NodeIterator → NodeIterator → Prop
  | next {iterator rest : NodeIterator} {found : Option Handle} :
    iterator.next = .ok (found, rest) → Idle iterator rest
  | setMark {iterator : NodeIterator} : Idle iterator iterator.setMark
  | setRestartable {iterator : NodeIterator} (restartable : Bool) :
    Idle iterator (iterator.setRestartable restartable)

/-- Walks are inside their trees. Nothing is asked of other iterators. -/
def Inside : NodeIterator → Prop
  | .axis walk => walk.Inside
  | _ => True

variable {iterator : NodeIterator}

/-! ### Faults of reading -/

theorem fault_aheadFrom {branches : List NodeIterator} (current : Nat)
    (each : ∀ branch ∈ branches, branch.ahead.fault = branch.met.findSome? unready?) :
    (aheadFrom branches current).fault = (metFrom branches current).findSome? unready? := by
  induction branches generalizing current with
  | nil => rfl
  | cons branch rest ih =>
    obtain ⟨first, others⟩ := List.forall_mem_cons.mp each
    cases current with
    | succ current => exact ih current others
    | zero =>
      rw [aheadFrom, metFrom, Outlook.fault_append, List.findSome?_append, first, ih 0 others]

/-- **Reading ends in a fault exactly if it comes to a part that is not ready**, and the fault is
that of the first such part. -/
theorem fault_ahead (sound : iterator.Sound) :
    iterator.ahead.fault = iterator.met.findSome? unready? := by
  induction iterator with
  | axis walk =>
    show (walk.cursor.ahead walk.tree walk.axis).fault = _
    rw [met, List.findSome?_singleton, unready?]
    cases bound : walk.progress.start with
    | none =>
      -- A walk that was never bound has no cursor either.
      simp [(sound.walk.unbound bound).1, Cursor.ahead, Outlook.failed]
    | some start => cases walk.cursor <;> simp [Cursor.ahead, Outlook.failed]
  | fixed list => rfl
  | union branches place ih =>
    exact fault_aheadFrom place.current fun branch member =>
      ih branch member (sound.branches branch member)
  | nodeSet source replay _ =>
    show replay.ahead.fault = _
    rw [met, List.findSome?_singleton, unready?, Replay.ahead]
    cases replay.progress.start with
    | none => rfl
    | some start => rfl

/-- No part that is not ready has been asked for a handle or an index that is missing. -/
theorem unready_ne_outOfRange {fault : Fault} (unready : iterator.unready? = some fault) :
    fault ≠ .outOfRange := by
  rintro rfl
  unfold unready? at unready
  split at unready
  · split at unready <;> cases unready
  · split at unready <;> cases unready
  · cases unready

/-- A call for the next node fails as the first part that is not ready does. -/
theorem unready_of_next {fault : Fault} (sound : iterator.Sound)
    (failed : iterator.next = .error fault) : ∃ part ∈ iterator.met, part.unready? = some fault := by
  have step := next_foresees sound
  have behind := fault_ahead sound
  rw [failed] at step
  generalize iterator.ahead = outlook at step behind
  cases step
  exact List.exists_of_findSome?_eq_some behind.symm

/-! ### Reading on and on -/

/-- Observing goes on behind a call for the next node. -/
theorem observe_of_next {found : Option Handle} {rest : NodeIterator}
    (advanced : iterator.next = .ok (found, rest)) (moves : List Move) :
    iterator.observe (.next :: moves) =
      (rest.observe moves).map fun others => ⟨some found, rest.progress.position⟩ :: others := by
  rw [observe, perform, advanced]
  show (rest.observe moves >>= fun others => pure (_ :: others)) = _
  cases rest.observe moves <;> rfl

/-- **What calls for the next node show.** They yield the nodes that are ahead one by one, and
`none` from then on. The position counts the nodes and stays at the end. -/
theorem observe_next {nodes : List Handle} (sees : iterator.Sees ⟨nodes, none⟩) (count : Nat) :
    iterator.observe (List.replicate count .next) = .ok ((List.range count).map fun index =>
      ⟨some nodes[index]?, iterator.progress.position + min (index + 1) nodes.length⟩) := by
  induction count generalizing iterator nodes with
  | zero => rfl
  | succ count ih =>
    have step := sees.foresees
    generalize advanced : iterator.next = result at step
    cases step with
    | @done rest seen =>
      have same := congrArg Progress.position (progress_next advanced)
      rw [List.replicate_succ, observe_of_next advanced, ih seen, same, List.range_succ_eq_map]
      simp [Except.map, Progress.count, Function.comp_def]
    | @node node others _ rest seen =>
      have same := congrArg Progress.position (progress_next advanced)
      rw [List.replicate_succ, observe_of_next advanced, ih seen, same, List.range_succ_eq_map]
      simp [Except.map, Progress.count, Progress.advance, Progress.restore]
      intro index _
      omega

/-! ### Staying ended -/

/-- Allowing or forbidding further start nodes does not move. -/
theorem ahead_setRestartable (iterator : NodeIterator) (restartable : Bool) :
    (iterator.setRestartable restartable).ahead = iterator.ahead := by
  induction iterator with
  | axis walk => rfl
  | fixed list => rfl
  | union branches place ih =>
    rw [setRestartable, ahead, ahead, setRestartableAll_eq_map]
    exact aheadFrom_map place.current ih
  | nodeSet source replay _ => rfl

/-- An iterator that has nothing ahead of it, at some position. -/
structure EndedAt (position : Nat) (iterator : NodeIterator) : Prop where
  sees : iterator.Sees .ended
  position : iterator.progress.position = position

variable {position : Nat}

/-- At the end, the next call says so again. -/
theorem EndedAt.next (ended : iterator.EndedAt position) :
    ∃ rest, iterator.next = .ok (none, rest) ∧ rest.EndedAt position := by
  have step := ended.sees.foresees
  generalize advanced : iterator.next = result at step
  cases step with
  | @done rest seen =>
    have same := congrArg Progress.position (progress_next advanced)
    exact ⟨rest, rfl, seen, same.trans ended.position⟩

theorem EndedAt.idle (ended : iterator.EndedAt position) {after : NodeIterator}
    (idle : iterator.Idle after) : after.EndedAt position := by
  obtain ⟨⟨sound, ahead⟩, same⟩ := ended
  cases idle with
  | next advanced =>
    obtain ⟨rest, again, stays⟩ := EndedAt.next ⟨⟨sound, ahead⟩, same⟩
    rw [advanced] at again
    cases again
    exact stays
  | setMark =>
    refine ⟨⟨sound.setMark, iterator.ahead_setMark.trans ahead⟩, ?_⟩
    rw [progress_setMark, same]
  | setRestartable restartable =>
    refine ⟨⟨sound.setRestartable restartable, ?_⟩, ?_⟩
    · rw [ahead_setRestartable, ahead]
    · rw [← same]
      cases iterator <;> rfl

/-- **An iterator that has ended stays ended**, whatever idle calls are made. -/
theorem EndedAt.run (ended : iterator.EndedAt position) {after : NodeIterator}
    (idles : Relation.ReflTransGen Idle iterator after) : after.EndedAt position := by
  induction idles with
  | refl => exact ended
  | tail _ step ih => exact ih.idle step

/-- After a call that says that there is no node, nothing is ahead. -/
theorem ended_of_next {rest : NodeIterator} (sound : iterator.Sound)
    (advanced : iterator.next = .ok (none, rest)) : rest.EndedAt iterator.progress.position := by
  have step := next_foresees sound
  have same := congrArg Progress.position (progress_next advanced)
  rw [advanced] at step
  generalize iterator.ahead = outlook at step
  cases step with
  | done seen => exact ⟨seen, same⟩

/-! ### Walks in reachable iterators -/

theorem Inside.bind {node : Handle} {bound : Logged NodeIterator} (inside : iterator.Inside)
    (taken : iterator.bind node = .ok bound) : bound.value.Inside := by
  cases iterator with
  | axis walk =>
    obtain ⟨_, step, done⟩ := exists_of_bind_ok taken
    cases done
    rcases AxisWalk.bind_ok step with ⟨_, cursor, begun, rfl⟩ | ⟨_, rfl⟩
    · exact ⟨inside.laid, Cursor.lt_size_of_start inside.laid begun, inside.mark⟩
    · exact inside
  | fixed list =>
    cases taken
    trivial
  | union branches place =>
    rcases bind_union_ok taken with ⟨_, _, _, rfl⟩ | ⟨_, rfl⟩
    · trivial
    · trivial
  | nodeSet source replay =>
    rcases bind_nodeSet_ok taken with ⟨_, same⟩ | ⟨_, _, _, _, _, _, _, _, same⟩
    · rw [same]
      trivial
    · rw [same]
      trivial

theorem Inside.next {rest : NodeIterator} {found : Option Handle} (inside : iterator.Inside)
    (sound : iterator.Sound) (advanced : iterator.next = .ok (found, rest)) : rest.Inside := by
  cases advances_of_next advanced with
  | axis moved =>
    have left := (Cursor.mem_of_advance sound.walk.linked sound.walk.cursor moved).2
    exact ⟨inside.laid, fun node member => inside.cursor node (left node member), inside.mark⟩
  | fixed => trivial
  | union _ => trivial
  | nodeSet => trivial

theorem Inside.rewind {rest : NodeIterator} (inside : iterator.Inside)
    (rewound : iterator.rewind = .ok rest) : rest.Inside := by
  cases rewinds_of_rewind rewound with
  | unbound _ => exact inside
  | axis _ begun => exact ⟨inside.laid, Cursor.lt_size_of_start inside.laid begun, inside.mark⟩
  | fixed => trivial
  | union _ => trivial
  | nodeSet => trivial

theorem Inside.setMark (inside : iterator.Inside) : iterator.setMark.Inside := by
  cases iterator with
  | axis walk =>
    refine ⟨inside.laid, inside.cursor, ?_⟩
    rintro saved ⟨⟩
    exact inside.cursor
  | fixed list => trivial
  | union branches place => trivial
  | nodeSet source replay => trivial

theorem Inside.restore (inside : iterator.Inside) : iterator.restore.Inside := by
  cases iterator with
  | axis walk =>
    show (AxisWalk.restore walk).Inside
    unfold AxisWalk.restore
    split
    · exact inside
    · rename_i saved
      exact ⟨inside.laid, inside.mark _ saved, inside.mark⟩
  | fixed list => trivial
  | union branches place => trivial
  | nodeSet source replay => trivial

/-- **Walks stay inside their trees** in every reachable state, also where they are taken back to a
cursor that was saved for another start node. -/
theorem Reachable.inside (reachable : Reachable iterator) : iterator.Inside := by
  induction reachable with
  | ofAxis built axis =>
    refine ⟨built.laidOut, fun _ left => absurd left List.not_mem_nil, ?_⟩
    rintro saved ⟨⟩
  | ofList nodes => trivial
  | ofUncloneable nodes refusal => trivial
  | lookup table values => trivial
  | ofBranches _ _ => trivial
  | @withBranch iterator branch whole _ _ added _ _ =>
    cases iterator with
    | axis walk => cases added
    | fixed list => cases added
    | nodeSet source replay => cases added
    | union branches place =>
      cases added
      trivial
  | toNodeSet _ made _ =>
    have fresh : ∀ source, (nodeSet source {}).Inside := fun _ => trivial
    rcases toNodeSet_ok made with ⟨_, taken⟩ | ⟨_, rfl⟩
    · exact (fresh _).bind taken
    · exact fresh _
  | bind _ taken ih => exact ih.bind taken
  | next before advanced ih => exact ih.next before.sound advanced
  | rewind _ rewound ih => exact ih.rewind rewound
  | setMark _ ih => exact ih.setMark
  | restore _ ih => exact ih.restore
  | @setRestartable iterator restartable _ ih =>
    cases iterator with
    | axis walk => exact ⟨ih.laid, ih.cursor, ih.mark⟩
    | fixed list => trivial
    | union branches place => trivial
    | nodeSet source replay => trivial
  | clone _ cloned ih =>
    cases clones_of_clone cloned with
    | axis => exact ⟨ih.laid, ih.cursor, ih.mark⟩
    | fixed => trivial
    | union _ => trivial
    | nodeSet _ => trivial

/-! ### Reachable iterators -/

/-- **Reading ends, stays ended and never leaves the tree**, for every reachable iterator. It fails
only as a part that is not ready does. -/
theorem endings_of_reachable (reachable : Reachable iterator) :
    ((∀ part ∈ iterator.met, part.unready? = none) →
      ∃ nodes rest, iterator.drain = .ok (nodes, rest) ∧ nodes.length ≤ iterator.reach ∧
        ∀ count, iterator.observe (List.replicate count .next) =
          .ok ((List.range count).map fun index =>
            ⟨some nodes[index]?, iterator.progress.position + min (index + 1) nodes.length⟩)) ∧
    (∀ walk, .axis walk ∈ iterator.parts → ∀ node rest, walk.next = .ok (some node, rest) →
      node < walk.tree.size) ∧
    (∀ fault, iterator.next = .error fault → fault ≠ .outOfRange ∧
      ∃ part ∈ iterator.met, part.unready? = some fault) ∧
    (∃ rewound, iterator.rewind = .ok rewound) ∧
    ∀ rest, iterator.next = .ok (none, rest) → ∀ idle, Relation.ReflTransGen Idle rest idle →
      idle.progress.position = iterator.progress.position ∧
        ∃ later, idle.next = .ok (none, later) ∧
          later.progress.position = iterator.progress.position := by
  have sound := reachable.sound
  refine ⟨fun ready => ?_, ?_, ?_, ?_, ?_⟩
  · have whole : iterator.ahead.fault = none := by
      rw [fault_ahead sound]
      exact List.findSome?_eq_none_iff.mpr ready
    have sees : iterator.Sees ⟨iterator.ahead.nodes, none⟩ := ⟨sound, by rw [← whole]⟩
    obtain ⟨rest, drained, _⟩ := drain_complete sees
    exact ⟨_, rest, drained, length_ahead_le_reach sound, observe_next sees⟩
  · intro walk member node rest advanced
    have within := reachable.part member
    obtain ⟨cursor, moved, _⟩ := AxisWalk.next_ok advanced
    have walkSound := within.sound.walk
    have yielded := (Cursor.mem_of_advance walkSound.linked walkSound.cursor moved).1
    exact within.inside.cursor node (yielded node rfl)
  · intro fault failed
    obtain ⟨part, member, unready⟩ := unready_of_next sound failed
    exact ⟨unready_ne_outOfRange unready, part, member, unready⟩
  · obtain ⟨rewound, begun, _⟩ := rewind_sees sound
    exact ⟨rewound, begun⟩
  · intro rest advanced idle idles
    have ended := (ended_of_next sound advanced).run idles
    obtain ⟨later, again, still⟩ := ended.next
    exact ⟨ended.position, later, again, still.position⟩

/-- The children of a document and a list are three nodes, and then there are none. -/
theorem endings_of_reachable_children :
    ∃ bound,
      (ofBranches [.ofAxis (.ofDocument (.text "a" (.comment "b" .empty))) .child,
        .ofList [7]]).bind Handle.root = .ok bound ∧
      bound.value.observe (List.replicate 5 .next) =
        .ok [⟨some (some 1), 1⟩, ⟨some (some 2), 2⟩, ⟨some (some 7), 3⟩, ⟨some none, 3⟩,
          ⟨some none, 3⟩] := by
  have made : Reachable (ofBranches
      [.ofAxis (.ofDocument (.text "a" (.comment "b" .empty))) .child, .ofList [7]]) :=
    .ofPair (.ofAxis (Tree.built_ofDocument _) .child) (.ofList [7])
  have taken : (ofBranches [.ofAxis (.ofDocument (.text "a" (.comment "b" .empty))) .child,
      .ofList [7]]).bind Handle.root = .ok _ := rfl
  obtain ⟨nodes, rest, drained, _, shown⟩ :=
    (endings_of_reachable (made.bind taken)).1 fun part member => by
      rcases List.mem_cons.mp member with rfl | member
      · rfl
      · rw [List.mem_singleton.mp member]
        rfl
  have same : [1, 2, 7] = nodes := by
    injection drained with both
    injection both
  subst same
  exact ⟨_, taken, shown 5⟩

end NodeIterator

end XPathWalk

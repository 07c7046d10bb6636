/-
**A clone returns to the same places as the original.**

A clone begins its node sets again, so it need not stand where the iterator stands. Rewinding and
going back to the saved place, however, put every level at a place that does not hang on where it
stood before. A caller who reads and moves never gets to see whether further start nodes are allowed
nor what a node set was filled from, and apart from these a clone is then the same as the original.

* `NodeIterator.outward`: an iterator without what reading and moving do not look at;
* `next_outward`, `rewind_outward`, `setMark_outward`, `restore_outward`: the moves do the same to
  the outward form;
* `observe_eq_of_outward`: so iterators of one outward form cannot be told apart by moving them;
* `rewind_clone`, `restore_clone`: a clone comes to the outward form that the original comes to;
* `observe_of_clone`: the two statements together, for every reachable iterator that can be cloned.
  All moves in a row show the same nodes, the same positions, and the same fault if there is one.
-/

import XPathWalk.Proofs.Leftovers
import XPathWalk.Proofs.ListCursor

namespace XPathWalk

/-- Computations in two steps come to the same if the first steps do and each pair of second steps
does that begin with what comes to the same. -/
theorem map_bind_congr {ε α β γ δ : Type} {first second : Except ε α} {more rest : α → Except ε β}
    {view : α → γ} {seen : β → δ} (same : first.map view = second.map view)
    (each : ∀ here there, first = .ok here → second = .ok there → view here = view there →
      (more here).map seen = (rest there).map seen) :
    (first >>= more).map seen = (second >>= rest).map seen := by
  cases first with
  | error fault =>
    cases second with
    | error other =>
      cases same
      rfl
    | ok there => cases same
  | ok here =>
    cases second with
    | error other => cases same
    | ok there =>
      have equal : view here = view there := by injection same
      exact each here there rfl rfl equal

/-! ### Walks, lists and replays -/

theorem AxisWalk.next_frozen (walk : AxisWalk) :
    walk.frozen.next = walk.next.map fun answer => (answer.1, answer.2.frozen) := by
  unfold next
  show (walk.cursor.advance walk.tree walk.axis >>= _) = _
  cases walk.cursor.advance walk.tree walk.axis with
  | error fault => rfl
  | ok answer =>
    obtain ⟨_ | node, cursor⟩ := answer
    · rfl
    · rfl

theorem AxisWalk.rewind_frozen (walk : AxisWalk) :
    walk.frozen.rewind = walk.rewind.map frozen := by
  have start : walk.frozen.progress.start = walk.progress.start := rfl
  unfold rewind
  rw [start]
  cases walk.progress.start with
  | none => rfl
  | some node =>
    show (Cursor.start walk.tree walk.axis node >>= _) =
      Except.map _ (Cursor.start walk.tree walk.axis node >>= _)
    cases Cursor.start walk.tree walk.axis node <;> rfl

theorem AxisWalk.restore_frozen (walk : AxisWalk) : walk.frozen.restore = walk.restore.frozen := by
  have mark : walk.frozen.mark = walk.mark := rfl
  unfold restore
  rw [mark]
  cases walk.mark <;> rfl

theorem FixedList.next_setRestartable (list : FixedList) (restartable : Bool) :
    (list.setRestartable restartable).next =
      (list.next.1, list.next.2.setRestartable restartable) := by
  have entry : (list.setRestartable restartable).nodes[
      (list.setRestartable restartable).place.current]? = list.nodes[list.place.current]? := rfl
  unfold next
  rw [entry]
  cases list.nodes[list.place.current]? <;> rfl

theorem Replay.next_setRestartable (replay : Replay) (restartable : Bool) :
    (replay.setRestartable restartable).next =
      replay.next.map fun answer => (answer.1, answer.2.setRestartable restartable) := by
  have start : (replay.setRestartable restartable).progress.start = replay.progress.start := rfl
  unfold next
  rw [start]
  cases replay.progress.start with
  | none => rfl
  | some node =>
    show (seek replay.buffer replay.last (replay.buffer.size - replay.current) replay.current >>=
      _) = Except.map _ (seek replay.buffer replay.last (replay.buffer.size - replay.current)
        replay.current >>= _)
    cases seek replay.buffer replay.last (replay.buffer.size - replay.current) replay.current with
    | error fault => rfl
    | ok answer =>
      obtain ⟨_ | node, current⟩ := answer
      · rfl
      · rfl

namespace NodeIterator

/-! ### The outward form -/

mutual

/-- An iterator that takes no further start node and has forgotten what its node sets were filled
from. Reading and moving look at neither. -/
def outward : NodeIterator → NodeIterator
  | .axis walk => .axis walk.frozen
  | .fixed list => .fixed (list.setRestartable false)
  | .union branches place => .union (outwardAll branches) place.frozen
  | .nodeSet _ replay => .nodeSet (.ofBranches []) (replay.setRestartable false)

/-- The outward forms of branches. -/
def outwardAll : List NodeIterator → List NodeIterator
  | [] => []
  | branch :: rest => branch.outward :: outwardAll rest

end

theorem outwardAll_eq_map (branches : List NodeIterator) :
    outwardAll branches = branches.map outward := by
  induction branches with
  | nil => rfl
  | cons branch rest ih => rw [outwardAll, ih, List.map_cons]

/-! ### Moving the outward form -/

theorem nextFrom_outwardAll {branches : List NodeIterator} (current : Nat)
    (each : ∀ branch ∈ branches,
      branch.outward.next = branch.next.map fun answer => (answer.1, answer.2.outward)) :
    nextFrom (outwardAll branches) current =
      (nextFrom branches current).map fun answer =>
        (answer.1, outwardAll answer.2.1, answer.2.2) := by
  induction branches generalizing current with
  | nil => cases current <;> rfl
  | cons branch rest ih =>
    obtain ⟨here, others⟩ := List.forall_mem_cons.mp each
    cases current with
    | succ current =>
      rw [outwardAll, nextFrom, nextFrom, ih current others]
      cases nextFrom rest current <;> rfl
    | zero =>
      rw [outwardAll, nextFrom, nextFrom, here, ih 0 others]
      cases branch.next with
      | error fault => rfl
      | ok answer =>
        obtain ⟨_ | node, after⟩ := answer
        · cases nextFrom rest 0 <;> rfl
        · rfl

/-- The next node of the outward form is that of the iterator. -/
theorem next_outward (iterator : NodeIterator) :
    iterator.outward.next = iterator.next.map fun answer => (answer.1, answer.2.outward) := by
  induction iterator with
  | axis walk =>
    rw [outward, next, next, walk.next_frozen]
    cases walk.next <;> rfl
  | fixed list =>
    rw [outward, next, list.next_setRestartable]
    rfl
  | union branches place ih =>
    rw [outward, next, next]
    show (nextFrom (outwardAll branches) place.current >>= _) = _
    rw [nextFrom_outwardAll place.current ih]
    cases nextFrom branches place.current with
    | error fault => rfl
    | ok answer =>
      obtain ⟨_ | node, _, _⟩ := answer
      · rfl
      · rfl
  | nodeSet source replay _ =>
    rw [outward, next, next, replay.next_setRestartable]
    cases replay.next <;> rfl

theorem rewindAll_outwardAll {branches : List NodeIterator}
    (each : ∀ branch ∈ branches, branch.outward.rewind = branch.rewind.map outward) :
    rewindAll (outwardAll branches) = (rewindAll branches).map outwardAll := by
  induction branches with
  | nil => rfl
  | cons branch rest ih =>
    obtain ⟨here, others⟩ := List.forall_mem_cons.mp each
    rw [outwardAll, rewindAll, rewindAll, here, ih others]
    cases branch.rewind with
    | error fault => rfl
    | ok rewound => cases rewindAll rest <;> rfl

/-- Rewinding the outward form is rewinding the iterator. -/
theorem rewind_outward (iterator : NodeIterator) :
    iterator.outward.rewind = iterator.rewind.map outward := by
  induction iterator with
  | axis walk =>
    rw [outward, rewind, rewind, walk.rewind_frozen]
    cases walk.rewind <;> rfl
  | fixed list => rfl
  | union branches place ih =>
    rw [outward, rewind, rewind, rewindAll_outwardAll ih]
    cases rewindAll branches <;> rfl
  | nodeSet source replay _ => rfl

/-- Saving the place of the outward form is saving the place of the iterator. -/
theorem setMark_outward (iterator : NodeIterator) :
    iterator.outward.setMark = iterator.setMark.outward := by
  induction iterator with
  | axis walk => rfl
  | fixed list => rfl
  | union branches place ih =>
    have same : branches.map (setMark ∘ outward) = branches.map (outward ∘ setMark) :=
      List.map_congr_left ih
    rw [outward, setMark, setMark, outward, setMarkAll_eq_map, setMarkAll_eq_map,
      outwardAll_eq_map, outwardAll_eq_map, List.map_map, List.map_map, same]
    rfl
  | nodeSet source replay _ => rfl

/-- The outward form goes back to the outward form of the saved place. -/
theorem restore_outward (iterator : NodeIterator) :
    iterator.outward.restore = iterator.restore.outward := by
  induction iterator with
  | axis walk => exact congrArg NodeIterator.axis walk.restore_frozen
  | fixed list => rfl
  | union branches place ih =>
    have same : branches.map (restore ∘ outward) = branches.map (outward ∘ restore) :=
      List.map_congr_left ih
    rw [outward, restore, restore, outward, restoreAll_eq_map, restoreAll_eq_map,
      outwardAll_eq_map, outwardAll_eq_map, List.map_map, List.map_map, same]
    rfl
  | nodeSet source replay _ => rfl

theorem position_outward (iterator : NodeIterator) :
    iterator.outward.progress.position = iterator.progress.position := by
  cases iterator <;> rfl

/-! ### Watching an iterator -/

theorem perform_outward (iterator : NodeIterator) (move : Move) :
    iterator.outward.perform move =
      (iterator.perform move).map fun answer => (answer.1, answer.2.outward) := by
  cases move with
  | next =>
    rw [perform, perform, next_outward]
    cases iterator.next <;> rfl
  | rewind =>
    rw [perform, perform, rewind_outward]
    cases iterator.rewind <;> rfl
  | mark =>
    rw [perform, perform, setMark_outward]
    rfl
  | restore =>
    rw [perform, perform, restore_outward]
    rfl

/-- **Moves show the same of an iterator and of its outward form.** -/
theorem observe_outward (iterator : NodeIterator) (moves : List Move) :
    iterator.outward.observe moves = iterator.observe moves := by
  induction moves generalizing iterator with
  | nil => rfl
  | cons move rest ih =>
    rw [observe, observe, perform_outward]
    cases iterator.perform move with
    | error fault => rfl
    | ok answer =>
      obtain ⟨found, after⟩ := answer
      show (after.outward.observe rest >>= fun others =>
        pure (⟨found, after.outward.progress.position⟩ :: others)) = _
      rw [ih, position_outward]
      rfl

/-- Iterators of one outward form cannot be told apart by moving them. -/
theorem observe_eq_of_outward {iterator other : NodeIterator}
    (same : iterator.outward = other.outward) (moves : List Move) :
    iterator.observe moves = other.observe moves := by
  rw [← observe_outward, same, observe_outward]

theorem position_eq_of_outward {iterator other : NodeIterator}
    (same : iterator.outward = other.outward) :
    iterator.progress.position = other.progress.position := by
  rw [← position_outward, same, position_outward]

/-! ### Clones -/

theorem rewindAll_cloneAll {branches copies : List NodeIterator}
    (each : ∀ branch ∈ branches, ∀ copy, branch.clone = .ok copy →
      copy.rewind.map outward = branch.rewind.map outward)
    (cloned : cloneAll branches = .ok copies) :
    (rewindAll copies).map outwardAll = (rewindAll branches).map outwardAll := by
  induction branches generalizing copies with
  | nil =>
    cases cloned
    rfl
  | cons branch rest ih =>
    obtain ⟨here, others⟩ := List.forall_mem_cons.mp each
    obtain ⟨copy, first, more⟩ := exists_of_bind_ok cloned
    obtain ⟨copies, later, done⟩ := exists_of_bind_ok more
    cases done
    refine map_bind_congr (here copy first) fun rewound original _ _ same => ?_
    refine map_bind_congr (ih others later) fun rewoundLater originalLater _ _ sameLater => ?_
    show Except.ok (rewound.outward :: outwardAll rewoundLater) =
      Except.ok (original.outward :: outwardAll originalLater)
    rw [same, sameLater]

/-- **A rewound clone has the outward form of the rewound original**, or both meet one fault. -/
theorem rewind_clone {iterator copy : NodeIterator} (cloned : iterator.clone = .ok copy) :
    copy.rewind.map outward = iterator.rewind.map outward := by
  induction iterator generalizing copy with
  | axis walk =>
    cases cloned
    rw [← rewind_outward, ← rewind_outward]
    rfl
  | fixed list =>
    cases clones_of_clone cloned
    rfl
  | union branches place ih =>
    cases clones_of_clone cloned with
    | union step =>
      have same := rewindAll_cloneAll (fun branch member _ => ih branch member) step
      refine map_bind_congr same fun rewound original _ _ equal => ?_
      show Except.ok (NodeIterator.union (outwardAll rewound) _) =
        Except.ok (NodeIterator.union (outwardAll original) _)
      rw [equal]
      rfl
  | nodeSet source replay _ =>
    -- The clone is at the beginning already, where rewinding takes the original.
    cases clones_of_clone cloned
    rfl

theorem restoreAll_cloneAll {branches copies : List NodeIterator}
    (each : ∀ branch ∈ branches, ∀ copy, branch.clone = .ok copy →
      copy.restore.outward = branch.restore.outward)
    (cloned : cloneAll branches = .ok copies) :
    outwardAll (restoreAll copies) = outwardAll (restoreAll branches) := by
  induction branches generalizing copies with
  | nil =>
    cases cloned
    rfl
  | cons branch rest ih =>
    obtain ⟨here, others⟩ := List.forall_mem_cons.mp each
    obtain ⟨copy, first, more⟩ := exists_of_bind_ok cloned
    obtain ⟨copies, later, done⟩ := exists_of_bind_ok more
    cases done
    rw [restoreAll, restoreAll, outwardAll, outwardAll, here copy first, ih others later]

/-- **A clone goes back to the outward form of the place that the original saved**, also where it
began a node set again. -/
theorem restore_clone {iterator copy : NodeIterator} (cloned : iterator.clone = .ok copy) :
    copy.restore.outward = iterator.restore.outward := by
  induction iterator generalizing copy with
  | axis walk =>
    cases cloned
    rw [← restore_outward, ← restore_outward]
    rfl
  | fixed list =>
    cases clones_of_clone cloned
    rfl
  | union branches place ih =>
    cases clones_of_clone cloned with
    | union step =>
      rw [restore, restore, outward, outward,
        restoreAll_cloneAll (fun branch member _ => ih branch member) step]
      rfl
  | nodeSet source replay _ =>
    -- The clone has begun again but keeps what was saved.
    cases clones_of_clone cloned
    rfl

/-- **Cloning goes with rewinding and with going back**: after either, a reachable iterator and its
clone have one position, and all moves in a row show the same of both. -/
theorem observe_of_clone {iterator copy : NodeIterator} (reachable : Reachable iterator)
    (cloned : iterator.clone = .ok copy) :
    (∃ rewound again, iterator.rewind = .ok rewound ∧ copy.rewind = .ok again ∧
      again.progress.position = rewound.progress.position ∧
      ∀ moves, again.observe moves = rewound.observe moves) ∧
    copy.restore.progress.position = iterator.restore.progress.position ∧
      ∀ moves, copy.restore.observe moves = iterator.restore.observe moves := by
  refine ⟨?_, position_eq_of_outward (restore_clone cloned),
    observe_eq_of_outward (restore_clone cloned)⟩
  obtain ⟨rewound, begun, _⟩ := rewind_sees reachable.sound
  obtain ⟨again, begunCopy, _⟩ := rewind_sees (reachable.sound.clone cloned)
  have same : again.outward = rewound.outward := by
    have equal := rewind_clone cloned
    rw [begun, begunCopy] at equal
    injection equal
  exact ⟨rewound, again, begun, begunCopy, position_eq_of_outward same, observe_eq_of_outward same⟩

/-- A place is saved at the end of a union of a list and a node set. A clone of it yields the node
of the set again, and no node once it was taken back to the saved place. -/
theorem observe_of_clone_set :
    ∃ bound first second copy,
      (ofBranches [ofList [4], .nodeSet (ofList [6]) {}]).bind Handle.root = .ok bound ∧
        bound.value.next = .ok (some 4, first) ∧ first.next = .ok (some 6, second) ∧
        second.setMark.clone = .ok copy ∧
        copy.observe [.next] = .ok [⟨some (some 6), 3⟩] ∧
        copy.restore.observe [.next] = .ok [⟨some none, 2⟩] := by
  have made : Reachable (ofBranches [ofList [4], .nodeSet (ofList [6]) {}]) :=
    .ofPair (.ofList [4]) (.toNodeSet (.ofList [6]) rfl)
  have taken : (NodeIterator.nodeSet (ofList [6]) {}).bind Handle.root = .ok _ :=
    bind_of_single rfl rfl rfl
  have first : (ofList [4]).bind Handle.root = .ok _ := rfl
  have bound : (ofBranches [ofList [4], .nodeSet (ofList [6]) {}]).bind Handle.root = .ok _ :=
    bind_union rfl (bindAll_cons first (bindAll_cons taken rfl))
  obtain ⟨_, _, same⟩ := observe_of_clone (((made.bind bound).next rfl).next rfl).setMark rfl
  exact ⟨_, _, _, _, bound, rfl, rfl, rfl, rfl, same [.next]⟩

end NodeIterator

end XPathWalk

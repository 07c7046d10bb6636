/-
**Saved places.**

A saved place hangs on nothing that moving changes. So going back to it after any move is going back
to it at once, provided that there is one: only a walk that never saved its cursor stays where it
is. Where unions are put together, every branch has saved its own cursor.

* `NodeIterator.Marked`: every walk that reading moves has saved its cursor;
* `restore_next`, `restore_rewind`, `restore_restore`: moving does not change the saved place;
* `restore_setMark`: the place that was just saved is the present one;
* `position_next`, `position_rewind`: what the moves do to the position.
-/

import XPathWalk.Proofs.Contents

namespace XPathWalk

namespace AxisWalk

variable {walk : AxisWalk}

theorem restore_eq_self (unsaved : walk.mark = none) : walk.restore = walk := by
  rw [restore, unsaved]

theorem restore_of_mark {cursor : Cursor} {position : Nat}
    (saved : walk.mark = some (cursor, position)) :
    walk.restore = { walk with cursor, progress := walk.progress.restore position } := by
  rw [restore, saved]

/-- Going back keeps the saved place. -/
@[simp] theorem mark_restore (walk : AxisWalk) : walk.restore.mark = walk.mark := by
  rw [restore]
  split <;> rfl

/-- Going back twice is going back once. -/
theorem restore_restore (walk : AxisWalk) : walk.restore.restore = walk.restore := by
  cases saved : walk.mark with
  | none => rw [restore_eq_self saved, restore_eq_self saved]
  | some place =>
    rw [restore_of_mark (walk.mark_restore.trans saved), restore_of_mark saved]
    rfl

end AxisWalk

namespace NodeIterator

/-- Every walk that reading moves has saved its cursor. The source of a node set is not moved. -/
inductive Marked : NodeIterator → Prop
  | axis {walk : AxisWalk} : walk.mark.isSome → Marked (.axis walk)
  | fixed {list : FixedList} : Marked (.fixed list)
  | union {branches : List NodeIterator} {place : Place} : (∀ branch ∈ branches, Marked branch) →
    Marked (.union branches place)
  | nodeSet {source : NodeIterator} {replay : Replay} : Marked (.nodeSet source replay)

/-- An iterator goes back to the same place as another one, and can. -/
structure SavedAs (iterator other : NodeIterator) : Prop where
  marked : iterator.Marked
  restore : iterator.restore = other.restore

theorem Marked.branches {branches : List NodeIterator} {place : Place}
    (marked : (NodeIterator.union branches place).Marked) : ∀ branch ∈ branches, branch.Marked := by
  cases marked with
  | union marked => exact marked

/-! ### Moving leaves the saved place alone -/

/-- Walks with the same tree, bookkeeping of starts and saved cursor go back to the same place. -/
theorem restore_walk {walk : AxisWalk} {progress : Progress} {cursor : Cursor}
    (marked : (axis walk).Marked)
    (same : ∀ position, progress.restore position = walk.progress.restore position) :
    (axis { walk with progress, cursor }).SavedAs (.axis walk) := by
  cases marked with
  | axis marked =>
    obtain ⟨⟨saved, position⟩, found⟩ := Option.isSome_iff_exists.mp marked
    refine ⟨.axis marked, ?_⟩
    refine congrArg NodeIterator.axis ((AxisWalk.restore_of_mark (by exact found)).trans ?_)
    rw [AxisWalk.restore_of_mark found, same]

theorem savedAs_nextFrom {branches rest : List NodeIterator} {current behind : Nat}
    {found : Option Handle}
    (each : ∀ branch ∈ branches, branch.Marked → ∀ found after, branch.next = .ok (found, after) →
      after.SavedAs branch)
    (marked : ∀ branch ∈ branches, branch.Marked)
    (advanced : nextFrom branches current = .ok (found, rest, behind)) :
    (∀ branch ∈ rest, branch.Marked) ∧ restoreAll rest = restoreAll branches := by
  induction branches generalizing current rest behind with
  | nil =>
    cases advanced
    exact ⟨marked, rfl⟩
  | cons branch branches ih =>
    obtain ⟨first, others⟩ := List.forall_mem_cons.mp each
    obtain ⟨markedFirst, markedOthers⟩ := List.forall_mem_cons.mp marked
    cases current with
    | succ current =>
      obtain ⟨⟨_, _, _⟩, step, done⟩ := exists_of_bind_ok advanced
      cases done
      obtain ⟨later, same⟩ := ih others markedOthers step
      refine ⟨List.forall_mem_cons.mpr ⟨markedFirst, later⟩, ?_⟩
      rw [restoreAll, restoreAll, same]
    | zero =>
      obtain ⟨⟨answer, after⟩, step, done⟩ := exists_of_bind_ok advanced
      have here := first markedFirst _ _ step
      cases answer with
      | some node =>
        cases done
        refine ⟨List.forall_mem_cons.mpr ⟨here.marked, markedOthers⟩, ?_⟩
        rw [restoreAll, restoreAll, here.restore]
      | none =>
        obtain ⟨⟨_, _, _⟩, more, done⟩ := exists_of_bind_ok done
        cases done
        obtain ⟨later, same⟩ := ih others markedOthers more
        refine ⟨List.forall_mem_cons.mpr ⟨here.marked, later⟩, ?_⟩
        rw [restoreAll, restoreAll, here.restore, same]

/-- **Advancing leaves the saved place alone.** -/
theorem restore_next {iterator rest : NodeIterator} {found : Option Handle}
    (marked : iterator.Marked) (advanced : iterator.next = .ok (found, rest)) :
    rest.SavedAs iterator := by
  induction iterator generalizing found rest with
  | axis walk =>
    cases advances_of_next advanced
    exact restore_walk marked fun position => Progress.restore_count _ _ position
  | fixed list =>
    cases advances_of_next advanced
    refine ⟨.fixed, ?_⟩
    rw [restore, restore, FixedList.restore, Place.move, Place.restore, Progress.restore_count]
    rfl
  | union branches place ih =>
    cases advances_of_next advanced with
    | union step =>
      obtain ⟨later, same⟩ := savedAs_nextFrom
        (fun branch member markedBranch _ _ => ih branch member markedBranch) marked.branches step
      refine ⟨.union later, ?_⟩
      rw [restore, restore, same, Place.move, Place.restore, Progress.restore_count]
      rfl
  | nodeSet source replay _ =>
    cases advances_of_next advanced
    refine ⟨.nodeSet, ?_⟩
    rw [restore, restore, Replay.restore, Progress.restore_count]
    rfl

theorem savedAs_rewindAll {branches rest : List NodeIterator}
    (each : ∀ branch ∈ branches, branch.Marked → ∀ rewound, branch.rewind = .ok rewound →
      rewound.SavedAs branch)
    (marked : ∀ branch ∈ branches, branch.Marked)
    (rewound : rewindAll branches = .ok rest) :
    (∀ branch ∈ rest, branch.Marked) ∧ restoreAll rest = restoreAll branches := by
  induction branches generalizing rest with
  | nil =>
    cases rewound
    exact ⟨marked, rfl⟩
  | cons branch branches ih =>
    obtain ⟨first, others⟩ := List.forall_mem_cons.mp each
    obtain ⟨markedFirst, markedOthers⟩ := List.forall_mem_cons.mp marked
    obtain ⟨_, step, more⟩ := exists_of_bind_ok rewound
    obtain ⟨_, steps, done⟩ := exists_of_bind_ok more
    cases done
    have here := first markedFirst _ step
    obtain ⟨later, same⟩ := ih others markedOthers steps
    refine ⟨List.forall_mem_cons.mpr ⟨here.marked, later⟩, ?_⟩
    rw [restoreAll, restoreAll, here.restore, same]

/-- Rewinding leaves the saved place alone. -/
theorem restore_rewind {iterator rest : NodeIterator} (marked : iterator.Marked)
    (rewound : iterator.rewind = .ok rest) : rest.SavedAs iterator := by
  induction iterator generalizing rest with
  | axis walk =>
    cases rewinds_of_rewind rewound with
    | unbound _ => exact ⟨marked, rfl⟩
    | axis _ _ => exact restore_walk marked fun _ => rfl
  | fixed list =>
    cases rewound
    exact ⟨.fixed, rfl⟩
  | union branches place ih =>
    cases rewinds_of_rewind rewound with
    | union step =>
      obtain ⟨later, same⟩ := savedAs_rewindAll
        (fun branch member markedBranch _ => ih branch member markedBranch) marked.branches step
      refine ⟨.union later, ?_⟩
      rw [restore, restore, same]
      rfl
  | nodeSet source replay _ =>
    cases rewound
    exact ⟨.nodeSet, rfl⟩

/-- Going back twice is going back once. -/
theorem restore_restore (iterator : NodeIterator) : iterator.restore.restore = iterator.restore := by
  induction iterator with
  | axis walk => rw [restore, restore, AxisWalk.restore_restore]
  | fixed list => rfl
  | union branches place ih =>
    have same : branches.map (restore ∘ restore) = branches.map restore := List.map_congr_left ih
    rw [restore, restore, restoreAll_eq_map, restoreAll_eq_map, List.map_map, same]
    rfl
  | nodeSet source replay _ => rfl

theorem Marked.restore {iterator : NodeIterator} (marked : iterator.Marked) :
    iterator.restore.Marked := by
  induction iterator with
  | axis walk =>
    cases marked with
    | axis marked => exact .axis (walk.mark_restore ▸ marked)
  | fixed list => exact .fixed
  | union branches place ih =>
    refine .union fun branch member => ?_
    rw [restoreAll_eq_map] at member
    obtain ⟨before, within, rfl⟩ := List.mem_map.mp member
    exact ih before within (marked.branches before within)
  | nodeSet source replay _ => exact .nodeSet

/-! ### Saving the present place -/

/-- Every iterator can save its place. -/
theorem marked_setMark (iterator : NodeIterator) : iterator.setMark.Marked := by
  induction iterator with
  | axis walk => exact .axis rfl
  | fixed list => exact .fixed
  | union branches place ih =>
    refine .union fun branch member => ?_
    rw [setMarkAll_eq_map] at member
    obtain ⟨before, within, rfl⟩ := List.mem_map.mp member
    exact ih before within
  | nodeSet source replay _ => exact .nodeSet

/-- Going back to the place that was just saved changes nothing. -/
theorem restore_setMark (iterator : NodeIterator) :
    iterator.setMark.restore = iterator.setMark := by
  induction iterator with
  | axis walk => rfl
  | fixed list => rfl
  | union branches place ih =>
    have same : branches.map (restore ∘ setMark) = branches.map setMark := List.map_congr_left ih
    rw [setMark, restore, setMarkAll_eq_map, restoreAll_eq_map, List.map_map, same]
    rfl
  | nodeSet source replay _ => rfl

/-- Saving a place does not move. -/
theorem ahead_setMark (iterator : NodeIterator) : iterator.setMark.ahead = iterator.ahead := by
  induction iterator with
  | axis walk => rfl
  | fixed list => rfl
  | union branches place ih =>
    rw [setMark, ahead, ahead, setMarkAll_eq_map]
    exact aheadFrom_map place.current ih
  | nodeSet source replay _ => rfl

/-! ### Positions -/

theorem progress_next {iterator rest : NodeIterator} {found : Option Handle}
    (advanced : iterator.next = .ok (found, rest)) :
    rest.progress = iterator.progress.count found := by
  cases advances_of_next advanced <;> rfl

theorem progress_setMark (iterator : NodeIterator) :
    iterator.setMark.progress = iterator.progress := by
  cases iterator <;> rfl

/-- Rewinding keeps the start node. -/
theorem start_rewind {iterator rest : NodeIterator} (rewound : iterator.rewind = .ok rest) :
    rest.progress.start = iterator.progress.start := by
  cases rewinds_of_rewind rewound <;> rfl

/-- Going back keeps the start node. -/
theorem start_restore (iterator : NodeIterator) :
    iterator.restore.progress.start = iterator.progress.start := by
  cases iterator with
  | axis walk =>
    rw [restore, progress, AxisWalk.restore]
    split <;> rfl
  | fixed list => rfl
  | union branches place => rfl
  | nodeSet source replay => rfl

/-- Rewinding counts from the beginning, except for a walk without a start node, which does
nothing. -/
theorem position_rewind {iterator rest : NodeIterator} {nodes : List Handle}
    (complete : iterator.contents = ⟨nodes, none⟩) (rewound : iterator.rewind = .ok rest) :
    rest.progress.position = 0 := by
  cases rewinds_of_rewind rewound with
  | unbound unbound =>
    rw [contents, AxisWalk.contents, unbound] at complete
    cases complete
  | axis _ _ => rfl
  | fixed => rfl
  | union _ => rfl
  | nodeSet => rfl

end NodeIterator

end XPathWalk

/-
**The whole contents of an iterator.**

What an iterator yields after rewinding hangs on its parts, their start nodes and their buffers, and
neither on where it stands nor on what is saved. Two iterators that differ in these alone have the
same bare form.

* `NodeIterator.bare`: an iterator with its places and marks forgotten;
* `NodeIterator.contents`: what it yields from the beginning;
* `bare_next`, `bare_rewind`, `bare_setMark`, `bare_restore`: moving does not change the bare form;
* `bare_clone`, `contents_clone`: what a clone keeps of it;
* `rewind_sees`: a rewound iterator has its contents ahead of it.
-/

import XPathWalk.Proofs.Ahead
import XPathWalk.Proofs.Steps

namespace XPathWalk

/-- What a walk yields from the beginning. -/
def AxisWalk.contents (walk : AxisWalk) : Outlook :=
  walk.progress.start.elim (.failed (.unboundAxis walk.axis)) fun origin =>
    ⟨walk.tree.axisNodes walk.axis origin, none⟩

/-- What a replay yields from the beginning. -/
def Replay.contents (replay : Replay) : Outlook :=
  replay.progress.start.elim (.failed .unboundFilter) fun _ =>
    ⟨withoutRepeats none replay.buffer.toList, none⟩

/-- A replay at its beginning has its contents ahead. -/
theorem Replay.ahead_of_first {replay : Replay} (current : replay.current = 0)
    (last : replay.last = none) : replay.ahead = replay.contents := by
  rw [Replay.ahead, Replay.contents, current, last]
  cases replay.progress.start <;> rfl

theorem Replay.ahead_rewind (replay : Replay) : replay.rewind.ahead = replay.contents :=
  ahead_of_first rfl rfl

theorem Replay.ahead_frozen (replay : Replay) : replay.frozen.ahead = replay.contents :=
  ahead_of_first rfl rfl

namespace NodeIterator

/-! ### Definitions -/

mutual

/-- An iterator as it would be if it had never moved nor saved a place. -/
def bare : NodeIterator → NodeIterator
  | .axis walk => .axis { tree := walk.tree, axis := walk.axis, progress := walk.progress.rewind }
  | .fixed list => .fixed { list with place := { progress := list.place.progress.rewind } }
  | .union branches place => .union (bareAll branches) { progress := place.progress.rewind }
  | .nodeSet source replay =>
    .nodeSet source.bare { progress := replay.progress.rewind, buffer := replay.buffer.copy }

/-- The bare forms of branches. -/
def bareAll : List NodeIterator → List NodeIterator
  | [] => []
  | branch :: rest => branch.bare :: bareAll rest

end

mutual

/-- What an iterator yields from the beginning. -/
def contents : NodeIterator → Outlook
  | .axis walk => walk.contents
  | .fixed list => ⟨list.nodes.toList, none⟩
  | .union branches _ => contentsAll branches
  | .nodeSet _ replay => replay.contents

/-- What branches yield one after another, each from its beginning. -/
def contentsAll : List NodeIterator → Outlook
  | [] => .ended
  | branch :: rest => branch.contents ++ contentsAll rest

end

/-! ### Operations on all branches -/

section Branches

variable (branches : List NodeIterator)

theorem bareAll_eq_map : bareAll branches = branches.map bare := by
  induction branches with
  | nil => rfl
  | cons branch rest ih => rw [bareAll, ih, List.map_cons]

theorem setMarkAll_eq_map : setMarkAll branches = branches.map setMark := by
  induction branches with
  | nil => rfl
  | cons branch rest ih => rw [setMarkAll, ih, List.map_cons]

theorem restoreAll_eq_map : restoreAll branches = branches.map restore := by
  induction branches with
  | nil => rfl
  | cons branch rest ih => rw [restoreAll, ih, List.map_cons]

theorem setRestartableAll_eq_map (restartable : Bool) :
    setRestartableAll restartable branches = branches.map (setRestartable restartable) := by
  induction branches with
  | nil => rfl
  | cons branch rest ih => rw [setRestartableAll, ih, List.map_cons]

theorem allIndependent_eq_all :
    allIndependent branches = (branches.map dependence).all (· == .independent) := by
  induction branches with
  | nil => rfl
  | cons branch rest ih => rw [allIndependent, ih, List.map_cons, List.all_cons]

end Branches

/-! ### The bare form -/

theorem contentsAll_map {call : NodeIterator → NodeIterator} {branches : List NodeIterator}
    (each : ∀ branch ∈ branches, (call branch).contents = branch.contents) :
    contentsAll (branches.map call) = contentsAll branches := by
  induction branches with
  | nil => rfl
  | cons branch rest ih =>
    obtain ⟨first, others⟩ := List.forall_mem_cons.mp each
    rw [List.map_cons, contentsAll, contentsAll, first, ih others]

/-- The contents can be told from the bare form. -/
theorem contents_bare (iterator : NodeIterator) : iterator.bare.contents = iterator.contents := by
  induction iterator with
  | axis walk => rfl
  | fixed list => rfl
  | union branches place ih =>
    rw [bare, contents, contents, bareAll_eq_map]
    exact contentsAll_map ih
  | nodeSet source replay _ =>
    show Replay.contents { progress := replay.progress.rewind, buffer := replay.buffer.copy } = _
    rw [Replay.contents, Buffer.toList_copy]
    rfl

theorem contents_eq_of_bare {iterator other : NodeIterator} (same : iterator.bare = other.bare) :
    iterator.contents = other.contents := by
  rw [← contents_bare iterator, same, contents_bare]

theorem bareAll_nextFrom {branches rest : List NodeIterator} {current behind : Nat}
    {found : Option Handle}
    (each : ∀ branch ∈ branches, ∀ found after, branch.next = .ok (found, after) →
      after.bare = branch.bare)
    (advanced : nextFrom branches current = .ok (found, rest, behind)) :
    bareAll rest = bareAll branches := by
  induction branches generalizing current rest behind with
  | nil => cases advanced; rfl
  | cons branch branches ih =>
    obtain ⟨first, others⟩ := List.forall_mem_cons.mp each
    cases current with
    | succ current =>
      obtain ⟨⟨_, _, _⟩, step, done⟩ := exists_of_bind_ok advanced
      cases done
      rw [bareAll, bareAll, ih others step]
    | zero =>
      obtain ⟨⟨answer, after⟩, step, done⟩ := exists_of_bind_ok advanced
      cases answer with
      | some node =>
        cases done
        rw [bareAll, bareAll, first _ _ step]
      | none =>
        obtain ⟨⟨_, _, _⟩, later, done⟩ := exists_of_bind_ok done
        cases done
        rw [bareAll, bareAll, first _ _ step, ih others later]

/-- **Advancing does not change the bare form.** -/
theorem bare_next {iterator rest : NodeIterator} {found : Option Handle}
    (advanced : iterator.next = .ok (found, rest)) : rest.bare = iterator.bare := by
  induction iterator generalizing found rest with
  | axis walk =>
    cases advances_of_next advanced
    simp only [bare, Progress.rewind_count]
  | fixed list =>
    cases advances_of_next advanced
    simp only [bare, Place.move, Progress.rewind_count]
  | union branches place ih =>
    cases advances_of_next advanced with
    | union step =>
      rw [bare, bare, bareAll_nextFrom (fun branch member _ _ => ih branch member) step,
        Place.move, Progress.rewind_count]
  | nodeSet source replay _ =>
    cases advances_of_next advanced
    simp only [bare, Progress.rewind_count]

theorem bareAll_rewindAll {branches rest : List NodeIterator}
    (each : ∀ branch ∈ branches, ∀ rewound, branch.rewind = .ok rewound →
      rewound.bare = branch.bare)
    (rewound : rewindAll branches = .ok rest) : bareAll rest = bareAll branches := by
  induction branches generalizing rest with
  | nil => cases rewound; rfl
  | cons branch branches ih =>
    obtain ⟨first, others⟩ := List.forall_mem_cons.mp each
    obtain ⟨_, here, more⟩ := exists_of_bind_ok rewound
    obtain ⟨_, later, done⟩ := exists_of_bind_ok more
    cases done
    rw [bareAll, bareAll, first _ here, ih others later]

/-- Rewinding does not change the bare form. -/
theorem bare_rewind {iterator rest : NodeIterator} (rewound : iterator.rewind = .ok rest) :
    rest.bare = iterator.bare := by
  induction iterator generalizing rest with
  | axis walk => cases rewinds_of_rewind rewound <;> rfl
  | fixed list => cases rewound; rfl
  | union branches place ih =>
    cases rewinds_of_rewind rewound with
    | union step =>
      rw [bare, bare, bareAll_rewindAll (fun branch member _ => ih branch member) step]
      rfl
  | nodeSet source replay _ => cases rewound; rfl

/-- Saving a place does not change the bare form. -/
theorem bare_setMark (iterator : NodeIterator) : iterator.setMark.bare = iterator.bare := by
  induction iterator with
  | axis walk => rfl
  | fixed list => rfl
  | union branches place ih =>
    have same : branches.map (bare ∘ setMark) = branches.map bare := List.map_congr_left ih
    rw [setMark, bare, bare, setMarkAll_eq_map, bareAll_eq_map, bareAll_eq_map, List.map_map, same]
    rfl
  | nodeSet source replay _ => rfl

/-- Going back to a saved place does not change the bare form. -/
theorem bare_restore (iterator : NodeIterator) : iterator.restore.bare = iterator.bare := by
  induction iterator with
  | axis walk =>
    rw [restore, AxisWalk.restore]
    split <;> rfl
  | fixed list => rfl
  | union branches place ih =>
    have same : branches.map (bare ∘ restore) = branches.map bare := List.map_congr_left ih
    rw [restore, bare, bare, restoreAll_eq_map, bareAll_eq_map, bareAll_eq_map, List.map_map, same]
    rfl
  | nodeSet source replay _ => rfl

/-- What does not change the bare form in one step does not change it in many. -/
theorem bare_take {count : Nat} {iterator rest : NodeIterator} {nodes : List Handle}
    (taken : iterator.take count = .ok (nodes, rest)) : rest.bare = iterator.bare := by
  induction count generalizing iterator rest nodes with
  | zero => cases taken; rfl
  | succ count ih =>
    obtain ⟨⟨found, after⟩, step, more⟩ := exists_of_bind_ok taken
    cases found with
    | none =>
      cases more
      exact bare_next step
    | some node =>
      obtain ⟨⟨_, _⟩, later, done⟩ := exists_of_bind_ok more
      cases done
      exact (ih later).trans (bare_next step)

theorem bare_drain {iterator rest : NodeIterator} {nodes : List Handle}
    (drained : iterator.drain = .ok (nodes, rest)) : rest.bare = iterator.bare := bare_take drained

/-! ### What a bare form tells -/

/-- The bookkeeping of a bare form is that of the beginning. -/
theorem progress_bare (iterator : NodeIterator) :
    iterator.bare.progress = iterator.progress.rewind := by
  cases iterator <;> rfl

section Inversion

variable {iterator : NodeIterator}

theorem exists_walk_of_bare {form : AxisWalk} (same : iterator.bare = .axis form) :
    ∃ walk, iterator = .axis walk ∧ walk.tree = form.tree ∧ walk.axis = form.axis ∧
      walk.progress.rewind = form.progress := by
  cases iterator with
  | axis walk =>
    cases same
    exact ⟨walk, rfl, rfl, rfl, rfl⟩
  | fixed list => cases same
  | union branches place => cases same
  | nodeSet source replay => cases same

theorem exists_list_of_bare {form : FixedList} (same : iterator.bare = .fixed form) :
    ∃ list, iterator = .fixed list ∧
      { list with place := { progress := list.place.progress.rewind } } = form := by
  cases iterator with
  | axis walk => cases same
  | fixed list =>
    cases same
    exact ⟨list, rfl, rfl⟩
  | union branches place => cases same
  | nodeSet source replay => cases same

theorem exists_branches_of_bare {forms : List NodeIterator} {form : Place}
    (same : iterator.bare = .union forms form) :
    ∃ branches place, iterator = .union branches place ∧ bareAll branches = forms ∧
      place.progress.rewind = form.progress := by
  cases iterator with
  | axis walk => cases same
  | fixed list => cases same
  | union branches place =>
    cases same
    exact ⟨branches, place, rfl, rfl, rfl⟩
  | nodeSet source replay => cases same

theorem exists_source_of_bare {form : NodeIterator} {reading : Replay}
    (same : iterator.bare = .nodeSet form reading) :
    ∃ source replay, iterator = .nodeSet source replay ∧ source.bare = form ∧
      replay.progress.rewind = reading.progress ∧
      replay.buffer.toList = reading.buffer.toList := by
  cases iterator with
  | axis walk => cases same
  | fixed list => cases same
  | union branches place => cases same
  | nodeSet source replay =>
    cases same
    exact ⟨source, replay, rfl, rfl, rfl, (Buffer.toList_copy _).symm⟩

end Inversion

/-! ### Levels -/

/-- What a union tells about itself hangs on what its branches tell. -/
theorem dependence_union_congr {branches others : List NodeIterator} (place after : Place)
    (same : others.map dependence = branches.map dependence) :
    (union others after).dependence = (union branches place).dependence := by
  have filled : others.isEmpty = branches.isEmpty := by
    rw [← List.isEmpty_map, same, List.isEmpty_map]
  rw [dependence, dependence, allIndependent_eq_all, allIndependent_eq_all, same, filled]

/-- Whether an iterator hangs on its start node can be told from the bare form. -/
theorem dependence_bare (iterator : NodeIterator) :
    iterator.bare.dependence = iterator.dependence := by
  induction iterator with
  | axis walk => rfl
  | fixed list => rfl
  | union branches place ih =>
    refine dependence_union_congr place _ ?_
    rw [bareAll_eq_map, List.map_map]
    exact List.map_congr_left ih
  | nodeSet source replay ih => exact ih

/-- Allowing or forbidding further start nodes does so in the bare form. -/
theorem bare_setRestartable (iterator : NodeIterator) (restartable : Bool) :
    (iterator.setRestartable restartable).bare = iterator.bare.setRestartable restartable := by
  induction iterator with
  | axis walk => rfl
  | fixed list => rfl
  | union branches place ih =>
    have same : branches.map (bare ∘ setRestartable restartable) =
        branches.map (setRestartable restartable ∘ bare) := List.map_congr_left ih
    rw [setRestartable, bare, bare, setRestartable, setRestartableAll_eq_map,
      setRestartableAll_eq_map, bareAll_eq_map, bareAll_eq_map, List.map_map, List.map_map, same]
    rfl
  | nodeSet source replay ih =>
    rw [setRestartable, bare, bare, setRestartable, ih]
    rfl

theorem bareAll_cloneAll {branches copies : List NodeIterator}
    (each : ∀ branch ∈ branches, ∀ copy, branch.clone = .ok copy →
      copy.bare = branch.bare.setRestartable false)
    (cloned : cloneAll branches = .ok copies) :
    bareAll copies = setRestartableAll false (bareAll branches) := by
  induction branches generalizing copies with
  | nil =>
    cases cloned
    rfl
  | cons branch rest ih =>
    obtain ⟨first, others⟩ := List.forall_mem_cons.mp each
    obtain ⟨_, here, more⟩ := exists_of_bind_ok cloned
    obtain ⟨_, later, done⟩ := exists_of_bind_ok more
    cases done
    rw [bareAll, bareAll, setRestartableAll, first _ here, ih others later]

/-- **A clone is the iterator itself, with further start nodes forbidden**, up to its place. -/
theorem bare_clone {iterator copy : NodeIterator} (cloned : iterator.clone = .ok copy) :
    copy.bare = iterator.bare.setRestartable false := by
  induction iterator generalizing copy with
  | axis walk =>
    cases cloned
    rfl
  | fixed list =>
    cases clones_of_clone cloned
    rfl
  | union branches place ih =>
    cases clones_of_clone cloned with
    | union step =>
      rw [bare, bare, setRestartable,
        bareAll_cloneAll (fun branch member _ => ih branch member) step]
      rfl
  | nodeSet source replay ih =>
    cases clones_of_clone cloned with
    | nodeSet step =>
      rw [bare, bare, setRestartable, ih step]
      rfl

/-- Allowing or forbidding further start nodes does not change the contents. -/
theorem contents_setRestartable (iterator : NodeIterator) (restartable : Bool) :
    (iterator.setRestartable restartable).contents = iterator.contents := by
  induction iterator with
  | axis walk => rfl
  | fixed list => rfl
  | union branches place ih =>
    rw [setRestartable, contents, contents, setRestartableAll_eq_map]
    exact contentsAll_map ih
  | nodeSet source replay _ => rfl

/-- **A clone has the same contents.** -/
theorem contents_clone {iterator copy : NodeIterator} (cloned : iterator.clone = .ok copy) :
    copy.contents = iterator.contents := by
  rw [← contents_bare copy, bare_clone cloned, contents_setRestartable, contents_bare]

/-! ### Rewinding -/

/-- A rewound walk has its whole axis ahead of it. -/
theorem rewind_walk_sees {walk : AxisWalk} (sound : walk.Sound) :
    ∃ rewound, walk.rewind = .ok rewound ∧ rewound.Sees walk.contents := by
  cases bound : walk.progress.start with
  | none =>
    refine ⟨walk, ?_, sound, ?_⟩
    · rw [AxisWalk.rewind, bound]
      rfl
    · rw [AxisWalk.ahead, AxisWalk.contents, bound, (sound.unbound bound).1]
      rfl
  | some origin =>
    have member := sound.start origin bound
    obtain ⟨cursor, begun, seen⟩ := Cursor.start_of_lt_size sound.linked walk.axis member
    refine ⟨{ walk with progress := walk.progress.rewind, cursor }, ?_, ⟨?_, ?_⟩⟩
    · rw [AxisWalk.rewind, bound]
      show (Cursor.start walk.tree walk.axis origin >>= fun cursor => _) = _
      rw [begun]
      rfl
    · refine ⟨sound.linked, seen.within, sound.mark, sound.start, fun missing => ?_⟩
      exact absurd (bound.symm.trans missing) (Option.some_ne_none origin)
    · rw [AxisWalk.contents, bound]
      exact seen.ahead

theorem rewindAll_sees {branches : List NodeIterator}
    (each : ∀ branch ∈ branches, ∃ rewound, branch.rewind = .ok rewound ∧
      rewound.Sees branch.contents) :
    ∃ rewound, rewindAll branches = .ok rewound ∧
      SeesFrom (rewound, 0) (contentsAll branches) := by
  induction branches with
  | nil => exact ⟨[], rfl, ⟨fun _ member => absurd member List.not_mem_nil, rfl⟩⟩
  | cons branch rest ih =>
    obtain ⟨⟨first, here, seen⟩, others⟩ := List.forall_mem_cons.mp each
    obtain ⟨rewound, later, seenLater⟩ := ih others
    refine ⟨first :: rewound, ?_, List.forall_mem_cons.mpr ⟨seen.sound, seenLater.sound⟩, ?_⟩
    · rw [rewindAll, here, later]
      rfl
    · rw [aheadFrom, contentsAll, seen.ahead]
      exact congrArg _ seenLater.ahead

/-- **A rewound iterator has its contents ahead of it.** -/
theorem rewind_sees {iterator : NodeIterator} (sound : iterator.Sound) :
    ∃ rewound, iterator.rewind = .ok rewound ∧ rewound.Sees iterator.contents := by
  induction iterator with
  | axis walk =>
    obtain ⟨rewound, step, seen⟩ := rewind_walk_sees sound.walk
    refine ⟨.axis rewound, ?_, .axis seen.sound, seen.ahead⟩
    rw [rewind, step]
    rfl
  | fixed list => exact ⟨_, rfl, .fixed, rfl⟩
  | union branches place ih =>
    obtain ⟨rewound, step, seen⟩ := rewindAll_sees fun branch member =>
      ih branch member (sound.branches branch member)
    refine ⟨.union rewound place.rewind, ?_, .union seen.sound, seen.ahead⟩
    rw [rewind, step]
    rfl
  | nodeSet source replay _ => exact ⟨_, rfl, .nodeSet sound.source, replay.ahead_rewind⟩

end NodeIterator

end XPathWalk

/-
**Going back where no place was saved.**

Without a saved place, lists and node sets go back to their beginning, and walks stay where they
are. A union goes back to its first branch and hands the call on, so it counts anew from there, in
a sequence that lacks what its walks had yielded. A walk among the branches that was read when the
union went back thus shifts the positions of all nodes behind it.

* `NodeIterator.regained`: what is ahead after going back without a saved place;
* `NodeIterator.walks`: the walks that stay where they are;
* `Unsaved`: no level has saved a place, and every walk stands where its position says;
* `Quiet.unsaved`: calls that save no place, each with its own `quiet_…`;
* `ahead_restore`, `remains_regained`: what comes back, and when this is everything;
* `Course.perform`: moves, and the sequence in which the position counts;
* `positions_of_unsaved`: bind a union of any parts to a node of the tree, and advance it, rewind it
  and take it back in any order without saving a place. No call fails, and a node that comes is the
  one at its position in the base. This is the whole sequence until the union is taken back, and
  then what came back. It never has other nodes than the whole sequence, nor any in another order.
  It is the whole sequence again when the union is taken back with the whole axis of every walk
  ahead, and always where there are no walks among the branches;
* `unsaved_union_skips`: a node that comes at the position of another.
-/

import XPathWalk.Proofs.Copies
import XPathWalk.Proofs.Positions
import XPathWalk.Proofs.Rebinding
import XPathWalk.Proofs.Restarts

namespace XPathWalk

namespace NodeIterator

/-! ### Definitions -/

mutual

/-- What an iterator that has saved no place yields after going back: lists and node sets from the
beginning, walks from where they are. -/
def regained : NodeIterator → Outlook
  | .axis walk => walk.ahead
  | .fixed list => ⟨list.nodes.toList, none⟩
  | .union branches _ => regainedAll branches
  | .nodeSet _ replay => replay.contents

/-- What branches yield one after another then. -/
def regainedAll : List NodeIterator → Outlook
  | [] => .ended
  | branch :: rest => branch.regained ++ regainedAll rest

end

mutual

/-- The walks among the branches of an iterator, to any depth. -/
def walks : NodeIterator → List NodeIterator
  | .axis walk => [.axis walk]
  | .fixed _ | .nodeSet _ _ => []
  | .union branches _ => walksAll branches

/-- Those of some branches. -/
def walksAll : List NodeIterator → List NodeIterator
  | [] => []
  | branch :: rest => branch.walks ++ walksAll rest

end

/-- No level that is read has saved a place, and every walk stands where its position says. -/
inductive Unsaved : NodeIterator → Prop
  | axis {walk : AxisWalk} : walk.mark = none →
    (NodeIterator.axis walk).Along (NodeIterator.axis walk).contents → Unsaved (.axis walk)
  | fixed {list : FixedList} : list.place.mark = (0, 0) → Unsaved (.fixed list)
  | union {branches : List NodeIterator} {place : Place} : place.mark = (0, 0) →
    (∀ branch ∈ branches, Unsaved branch) → Unsaved (.union branches place)
  | nodeSet {source : NodeIterator} {replay : Replay} : replay.mark = {} →
    Unsaved (.nodeSet source replay)

variable {iterator rest : NodeIterator}

/-! ### Calls that save no place -/

/-- A kind of call that saves no place: lists, unions and node sets keep the place that they have
saved, a branch of a union stays as it is or is called itself, and a walk that has saved none stands
where its position says if it did so before. -/
structure Quiet (call : NodeIterator → NodeIterator → Prop) : Prop where
  axis : ∀ {walk after}, call (.axis walk) after → walk.mark = none →
    (NodeIterator.axis walk).Along (NodeIterator.axis walk).contents → after.Unsaved
  fixed : ∀ {list after}, call (.fixed list) after →
    ∃ moved, after = .fixed moved ∧ moved.place.mark = list.place.mark
  union : ∀ {branches place after}, call (.union branches place) after →
    ∃ others there, after = .union others there ∧ there.mark = place.mark ∧
      ∀ part ∈ others, part ∈ branches ∨ ∃ branch ∈ branches, call branch part
  nodeSet : ∀ {source replay after}, call (.nodeSet source replay) after →
    ∃ other there, after = .nodeSet other there ∧ there.mark = replay.mark

/-- **Under such a call no place comes to be saved.** -/
theorem Quiet.unsaved {call : NodeIterator → NodeIterator → Prop} (quiet : Quiet call)
    {before after : NodeIterator} (called : call before after) (unsaved : before.Unsaved) :
    after.Unsaved := by
  induction before generalizing after with
  | axis walk =>
    cases unsaved with
    | axis missing along => exact quiet.axis called missing along
  | fixed list =>
    cases unsaved with
    | fixed missing =>
      obtain ⟨moved, rfl, kept⟩ := quiet.fixed called
      exact .fixed (kept.trans missing)
  | union branches place ih =>
    cases unsaved with
    | union missing each =>
      obtain ⟨others, there, rfl, kept, parts⟩ := quiet.union called
      refine .union (kept.trans missing) ?_
      intro part member
      rcases parts part member with same | ⟨branch, within, step⟩
      · exact each part same
      · exact ih branch within step (each branch within)
  | nodeSet source replay _ =>
    cases unsaved with
    | nodeSet missing =>
      obtain ⟨other, there, rfl, kept⟩ := quiet.nodeSet called
      exact .nodeSet (kept.trans missing)

theorem quiet_next : Quiet fun before after => ∃ found, before.next = .ok (found, after) where
  axis := by
    rintro walk after ⟨found, advanced⟩ missing along
    have onward := (along.next advanced).1
    rw [← contents_eq_of_bare (bare_next advanced)] at onward
    cases advances_of_next advanced
    exact .axis missing onward
  fixed := by
    rintro list after ⟨found, advanced⟩
    cases advances_of_next advanced
    exact ⟨_, rfl, rfl⟩
  union := by
    rintro branches place after ⟨found, advanced⟩
    cases advances_of_next advanced with
    | union step => exact ⟨_, _, rfl, rfl, mem_nextFrom step⟩
  nodeSet := by
    rintro source replay after ⟨found, advanced⟩
    cases advances_of_next advanced
    exact ⟨_, _, rfl, rfl⟩

theorem quiet_rewind : Quiet fun before after => before.rewind = .ok after where
  axis := by
    intro walk after rewound missing along
    have first := (along_rewind along.sound rewound).1
    rw [← contents_eq_of_bare (bare_rewind rewound)] at first
    cases rewinds_of_rewind rewound with
    | unbound => exact .axis missing first
    | axis => exact .axis missing first
  fixed := by
    intro list after rewound
    cases rewound
    exact ⟨_, rfl, rfl⟩
  union := by
    intro branches place after rewound
    cases rewinds_of_rewind rewound with
    | union step =>
      exact ⟨_, _, rfl, rfl, fun part member => .inr (mem_rewindAll step part member)⟩
  nodeSet := by
    intro source replay after rewound
    cases rewound
    exact ⟨_, _, rfl, rfl⟩

theorem quiet_restore : Quiet fun before after => before.restore = after where
  axis := by
    rintro walk after rfl missing along
    rw [NodeIterator.restore, AxisWalk.restore_eq_self missing]
    exact .axis missing along
  fixed := by
    rintro list after rfl
    exact ⟨_, rfl, rfl⟩
  union := by
    rintro branches place after rfl
    refine ⟨_, _, rfl, rfl, fun part member => .inr ?_⟩
    rw [restoreAll_eq_map] at member
    exact List.mem_map.mp member
  nodeSet := by
    rintro source replay after rfl
    exact ⟨_, _, rfl, rfl⟩

theorem quiet_bind (node : Handle) :
    Quiet fun before after => ∃ bound, before.bind node = .ok bound ∧ bound.value = after where
  axis := by
    rintro walk after ⟨bound, taken, rfl⟩ missing along
    have sound := along.sound.bind taken
    obtain ⟨moved, step, same⟩ := exists_of_bind_ok taken
    cases same
    rcases AxisWalk.bind_ok step with ⟨_, cursor, begun, rfl⟩ | ⟨_, rfl⟩
    · exact .axis missing ⟨sound, (Cursor.start_ok along.sound.walk.linked begun).2.ahead⟩
    · exact .axis missing along
  fixed := by
    rintro list after ⟨bound, taken, rfl⟩
    cases taken
    refine ⟨_, rfl, ?_⟩
    unfold FixedList.bind
    split <;> rfl
  union := by
    rintro branches place after ⟨bound, taken, rfl⟩
    rcases bind_union_ok taken with ⟨_, _, all, rfl⟩ | ⟨_, rfl⟩
    · exact ⟨_, _, rfl, rfl, fun part member => .inr (mem_bindAll all part member)⟩
    · exact ⟨_, _, rfl, rfl, fun part member => .inl member⟩
  nodeSet := by
    rintro source replay after ⟨bound, taken, rfl⟩
    rcases bind_nodeSet_ok taken with ⟨_, same⟩ | ⟨_, _, _, _, _, _, _, _, same⟩
    · exact ⟨_, _, same, rfl⟩
    · exact ⟨_, _, same, rfl⟩

/-! ### What comes back -/

theorem aheadFrom_restoreAll {branches : List NodeIterator}
    (each : ∀ branch ∈ branches, branch.restore.ahead = branch.regained) :
    aheadFrom (restoreAll branches) 0 = regainedAll branches := by
  induction branches with
  | nil => rfl
  | cons branch rest ih =>
    obtain ⟨first, others⟩ := List.forall_mem_cons.mp each
    rw [restoreAll, aheadFrom, regainedAll, first, ih others]

/-- **What comes back where no place was saved.** -/
theorem ahead_restore (unsaved : iterator.Unsaved) :
    iterator.restore.ahead = iterator.regained := by
  induction iterator with
  | axis walk =>
    cases unsaved with
    | axis missing _ =>
      rw [NodeIterator.restore, AxisWalk.restore_eq_self missing]
      rfl
  | fixed list =>
    cases unsaved with
    | fixed missing =>
      show (⟨list.nodes.toList.drop list.place.mark.1, none⟩ : Outlook) = _
      rw [missing]
      rfl
  | union branches place ih =>
    cases unsaved with
    | union missing each =>
      show aheadFrom (restoreAll branches) place.mark.1 = regainedAll branches
      rw [missing]
      exact aheadFrom_restoreAll fun branch member => ih branch member (each branch member)
  | nodeSet source replay _ =>
    cases unsaved with
    | nodeSet missing =>
      exact Replay.ahead_of_first (congrArg ReplayMark.current missing)
        (congrArg ReplayMark.last missing)

theorem remains_regainedAll {branches : List NodeIterator} {whole : List Handle}
    (each : ∀ branch ∈ branches, ∀ whole, branch.contents = ⟨whole, none⟩ →
      ∃ left, branch.regained = ⟨left, none⟩ ∧ Remains left whole branch.walks)
    (contents : contentsAll branches = ⟨whole, none⟩) :
    ∃ left, regainedAll branches = ⟨left, none⟩ ∧ Remains left whole (walksAll branches) := by
  induction branches generalizing whole with
  | nil =>
    cases contents
    exact ⟨[], rfl, remains_self []⟩
  | cons branch rest ih =>
    obtain ⟨here, others⟩ := List.forall_mem_cons.mp each
    obtain ⟨first, more, contentsHere, contentsLater, rfl⟩ :=
      Outlook.exists_parts_of_append contents
    obtain ⟨left, regained, remains⟩ := here first contentsHere
    obtain ⟨right, regainedLater, remainsLater⟩ := ih others contentsLater
    refine ⟨left ++ right, ?_, remains.append remainsLater⟩
    rw [regainedAll, regained, regainedLater, Outlook.complete_append]

/-- **Everything comes back exactly if every walk has its whole axis ahead.** In any case nodes of
the whole sequence come back in order, and no others. -/
theorem remains_regained {whole : List Handle} (unsaved : iterator.Unsaved)
    (contents : iterator.contents = ⟨whole, none⟩) :
    ∃ left, iterator.regained = ⟨left, none⟩ ∧ Remains left whole iterator.walks := by
  induction iterator generalizing whole with
  | axis walk =>
    cases unsaved with
    | axis _ along =>
      have ahead := along.ahead
      rw [contents] at ahead
      refine ⟨_, ahead, List.drop_sublist _ _, ?_⟩
      rw [walks, List.forall_mem_singleton, contents, ahead, Outlook.behind, Outlook.mk.injEq]
      exact ⟨fun same => ⟨same, rfl⟩, fun same => same.1⟩
  | fixed list =>
    cases contents
    exact ⟨_, rfl, remains_self _⟩
  | union branches place ih =>
    cases unsaved with
    | union _ each =>
      exact remains_regainedAll
        (fun branch member _ => ih branch member (each branch member)) contents
  | nodeSet source replay _ => exact ⟨whole, contents, remains_self whole⟩

/-- What the walks are can be told from the bare form. -/
theorem walks_bare (iterator : NodeIterator) : iterator.bare.walks = iterator.walks.map bare := by
  induction iterator with
  | axis walk => rfl
  | fixed list => rfl
  | union branches place ih =>
    rw [bare, walks, walks]
    induction branches with
    | nil => rfl
    | cons branch rest ihRest =>
      obtain ⟨first, others⟩ := List.forall_mem_cons.mp ih
      rw [bareAll, walksAll, walksAll, List.map_append, first, ihRest others]
  | nodeSet source replay _ => rfl

/-- An iterator without walks stays so. -/
theorem walks_of_bare {other : NodeIterator} (same : iterator.bare = other.bare)
    (none_walks : iterator.walks = []) : other.walks = [] := by
  have bares : other.walks.map bare = iterator.walks.map bare := by
    rw [← walks_bare, ← walks_bare, same]
  rw [none_walks] at bares
  exact List.map_eq_nil_iff.mp bares

end NodeIterator

/-- What holds of the settled node sets of every branch. -/
theorem NodeIterator.forall_settledAll {motive : NodeIterator → Prop}
    {branches : List NodeIterator}
    (each : ∀ branch ∈ branches, ∀ set ∈ branch.settled, motive set) :
    ∀ set ∈ settledAll branches, motive set := by
  induction branches with
  | nil => exact fun _ member => absurd member List.not_mem_nil
  | cons branch rest ih =>
    obtain ⟨first, others⟩ := List.forall_mem_cons.mp each
    exact List.forall_mem_append.mpr ⟨first, ih others⟩

/-! ### Runs -/

/-- An iterator and the sequence in which its position counts. -/
structure Course where
  iterator : NodeIterator
  base : List Handle

namespace Course

/-- An iterator that counts from the beginning of its contents. -/
def of (iterator : NodeIterator) : Course := ⟨iterator, iterator.contents.nodes⟩

/-- The sequence in which the position counts after a move. -/
def baseAfter (course : Course) : Move → List Handle
  | .next | .mark => course.base
  | .rewind => course.iterator.contents.nodes
  | .restore => course.iterator.regained.nodes

/-- The effect of a move. -/
def perform (course : Course) (move : Move) : Except Fault Course := do
  let (_, iterator) ← course.iterator.perform move
  return { iterator, base := course.baseAfter move }

/-- The effect of moves in a row. -/
def run (course : Course) (moves : List Move) : Except Fault Course := moves.foldlM perform course

/-- A union that has saved no place, has yielded as many nodes of the base as its position says, and
misses nothing there but what its walks had yielded. -/
structure Fits (whole : List Handle) (course : Course) : Prop where
  union : ∃ branches place, course.iterator = .union branches place
  unsaved : course.iterator.Unsaved
  contents : course.iterator.contents = ⟨whole, none⟩
  along : course.iterator.Along ⟨course.base, none⟩
  sublist : course.base.Sublist whole
  complete : course.iterator.walks = [] → course.base = whole

variable {whole : List Handle} {course : Course}

/-- A move that leaves the contents alone and counts in a base. -/
theorem Fits.moved {rest : NodeIterator} {base : List Handle} (fits : course.Fits whole)
    (same : rest.bare = course.iterator.bare) (unsaved : rest.Unsaved)
    (along : rest.Along ⟨base, none⟩) (sublist : base.Sublist whole)
    (complete : course.iterator.walks = [] → base = whole) : Fits whole ⟨rest, base⟩ where
  union := by
    obtain ⟨branches, place, shape⟩ := fits.union
    rw [shape] at same
    obtain ⟨others, there, rfl, _⟩ := NodeIterator.exists_branches_of_bare same
    exact ⟨others, there, rfl⟩
  unsaved := unsaved
  contents := (NodeIterator.contents_eq_of_bare same).trans fits.contents
  along := along
  sublist := sublist
  complete none_walks := complete (NodeIterator.walks_of_bare same none_walks)

/-- Reading goes on in the base, and never fails. -/
theorem Fits.next (fits : course.Fits whole) :
    ∃ found rest, course.iterator.next = .ok (found, rest) ∧ Fits whole ⟨rest, course.base⟩ := by
  cases advanced : course.iterator.next with
  | error fault => cases ((fits.along.next_error_iff fault).mp advanced).2
  | ok answer =>
    obtain ⟨found, rest⟩ := answer
    have unsaved : rest.Unsaved :=
      NodeIterator.quiet_next.unsaved ⟨found, advanced⟩ fits.unsaved
    refine ⟨found, rest, rfl, ?_⟩
    exact fits.moved (NodeIterator.bare_next advanced) unsaved (fits.along.next advanced).1
      fits.sublist fits.complete

/-- Rewinding begins the whole sequence. -/
theorem Fits.rewind (fits : course.Fits whole) :
    ∃ rest, course.iterator.rewind = .ok rest ∧
      Fits whole ⟨rest, course.iterator.contents.nodes⟩ := by
  obtain ⟨rest, rewound, _⟩ := NodeIterator.rewind_sees fits.along.sound
  have first := (NodeIterator.along_rewind fits.along.sound rewound).1
  have unsaved : rest.Unsaved := NodeIterator.quiet_rewind.unsaved rewound fits.unsaved
  refine ⟨rest, rewound, ?_⟩
  rw [fits.contents] at first ⊢
  exact fits.moved (NodeIterator.bare_rewind rewound) unsaved first (List.Sublist.refl whole)
    fun _ => rfl

/-- Going back begins what comes back. -/
theorem Fits.restore (fits : course.Fits whole) :
    Fits whole ⟨course.iterator.restore, course.iterator.regained.nodes⟩ := by
  obtain ⟨left, regained, remains⟩ :=
    NodeIterator.remains_regained fits.unsaved fits.contents
  have ahead := NodeIterator.ahead_restore fits.unsaved
  -- The position goes back as well, whatever the walks among the branches do.
  have zero : course.iterator.restore.progress.position = 0 := by
    obtain ⟨branches, place, same⟩ := fits.union
    have unsaved := fits.unsaved
    rw [same] at unsaved ⊢
    cases unsaved with
    | union missing _ => exact congrArg Prod.snd missing
  rw [regained] at ahead ⊢
  have unsaved := NodeIterator.quiet_restore.unsaved rfl fits.unsaved
  refine fits.moved (NodeIterator.bare_restore _) unsaved
    ⟨fits.along.sound.restore, ?_⟩ remains.sublist fun none_walks => ?_
  · rw [ahead, zero]
    rfl
  · refine remains.eq_iff.mpr ?_
    rw [none_walks]
    exact fun _ member => absurd member List.not_mem_nil

/-- **Moves that save no place never fail**, and positions go on to count in the base. -/
theorem Fits.perform {move : Move} (fits : course.Fits whole) (quiet : move ≠ .mark) :
    ∃ after, course.perform move = .ok after ∧ after.Fits whole := by
  cases move with
  | next =>
    obtain ⟨found, rest, advanced, onward⟩ := fits.next
    refine ⟨_, ?_, onward⟩
    rw [Course.perform, NodeIterator.perform, advanced]
    rfl
  | rewind =>
    obtain ⟨rest, rewound, onward⟩ := fits.rewind
    refine ⟨_, ?_, onward⟩
    rw [Course.perform, NodeIterator.perform, rewound]
    rfl
  | mark => exact absurd rfl quiet
  | restore => exact ⟨_, rfl, fits.restore⟩

/-- So do moves in a row. -/
theorem Fits.run {moves : List Move} (fits : course.Fits whole) (quiet : Move.mark ∉ moves) :
    ∃ after, course.run moves = .ok after ∧ after.Fits whole := by
  induction moves generalizing course with
  | nil => exact ⟨course, rfl, fits⟩
  | cons move rest ih =>
    rw [List.mem_cons, not_or] at quiet
    obtain ⟨here, later⟩ := quiet
    obtain ⟨next, done, onward⟩ := fits.perform (Ne.symm here)
    obtain ⟨after, ran, last⟩ := ih onward later
    refine ⟨after, ?_, last⟩
    rw [run, List.foldlM_cons, done]
    exact ran

end Course

/-! ### Fresh iterators -/

namespace Plan

variable {tree : Tree}

/-- Every branch is made by one of the plans. -/
theorem mem_makeAll {parts : List Plan} {made : List NodeIterator}
    (done : makeAll tree parts = .ok made) :
    ∀ branch ∈ made, ∃ part ∈ parts, part.make tree = .ok branch := by
  induction parts generalizing made with
  | nil =>
    cases done
    exact fun _ member => absurd member List.not_mem_nil
  | cons part rest ih =>
    obtain ⟨_, here, more⟩ := exists_of_bind_ok done
    obtain ⟨_, later, same⟩ := exists_of_bind_ok more
    cases same
    refine List.forall_mem_cons.mpr ⟨⟨part, List.mem_cons_self, here⟩, fun branch member => ?_⟩
    obtain ⟨other, within, step⟩ := ih later branch member
    exact ⟨other, List.mem_cons_of_mem _ within, step⟩

/-- A fresh iterator has saved no place. -/
theorem unsaved_make (linked : tree.Linked) (plan : Plan) {made : NodeIterator}
    (done : plan.make tree = .ok made) : made.Unsaved := by
  induction plan generalizing made with
  | axis direction =>
    cases done
    exact .axis rfl ⟨NodeIterator.sound_ofAxis linked direction, rfl⟩
  | list nodes =>
    cases done
    exact .fixed rfl
  | lookup table values =>
    cases done
    exact .fixed rfl
  | union parts ih =>
    obtain ⟨branches, each, same⟩ := exists_of_bind_ok done
    cases same
    refine .union rfl fun branch member => ?_
    obtain ⟨part, within, step⟩ := mem_makeAll each branch member
    exact ih part within step
  | nodeSet source _ =>
    -- What is made of the source does not matter, since reading does not move it.
    obtain ⟨part, _, more⟩ := exists_of_bind_ok done
    obtain ⟨set, settled, same⟩ := exists_of_bind_ok more
    cases same
    obtain ⟨_, _, shape, _, missing⟩ := toNodeSet_first settled
    rw [shape]
    exact .nodeSet missing

/-- The settled node sets of a fresh iterator stand at their beginning. -/
theorem settled_make (plan : Plan) {made : NodeIterator} (done : plan.make tree = .ok made) :
    ∀ set ∈ made.settled, set.ahead = set.contents := by
  induction plan generalizing made with
  | axis direction =>
    cases done
    exact fun _ member => absurd member List.not_mem_nil
  | list nodes =>
    cases done
    exact fun _ member => absurd member List.not_mem_nil
  | lookup table values =>
    cases done
    exact fun _ member => absurd member List.not_mem_nil
  | union parts ih =>
    obtain ⟨branches, each, same⟩ := exists_of_bind_ok done
    cases same
    refine NodeIterator.forall_settledAll fun branch member => ?_
    obtain ⟨part, within, step⟩ := mem_makeAll each branch member
    exact ih part within step
  | nodeSet source _ =>
    obtain ⟨part, _, more⟩ := exists_of_bind_ok done
    obtain ⟨set, settled, same⟩ := exists_of_bind_ok more
    cases same
    obtain ⟨inner, replay, shape, place, _⟩ := toNodeSet_first settled
    have first : replay.ahead = replay.contents :=
      Replay.ahead_of_first (congrArg ReplayMark.current place) (congrArg ReplayMark.last place)
    rw [shape, NodeIterator.settled]
    split
    · exact List.forall_mem_singleton.mpr first
    · exact fun _ member => absurd member List.not_mem_nil

/-- A union that takes a start node has yielded nothing yet. -/
theorem position_bind_union {parts : List Plan} {fresh : NodeIterator} {start : Option Handle}
    {node : Handle} {bound : Logged NodeIterator}
    (stands : fresh.bare = (Plan.union parts).station tree start true)
    (other : start ≠ some node) (taken : fresh.bind node = .ok bound) :
    bound.value.progress.position = 0 := by
  obtain ⟨branches, place, rfl, _, same⟩ := NodeIterator.exists_branches_of_bare stands
  rcases NodeIterator.bind_union_ok taken with ⟨_, _, _, rfl⟩ | ⟨refused, _⟩
  · rfl
  · exact absurd (accepts_of_other same other) refused

/-- A fresh union that was bound counts from the beginning. -/
theorem fits_of_bind (linked : tree.Linked) (parts : List Plan) {node : Handle}
    (member : node < tree.size) :
    ∃ fresh bound, (Plan.union parts).make tree = .ok fresh ∧ fresh.bind node = .ok bound ∧
      (Course.of bound.value).Fits (nodesAll tree parts node) := by
  obtain ⟨fresh, made, sound, stands⟩ := make_station linked (.union parts)
  have other : none ≠ some node := (Option.some_ne_none node).symm
  rcases bind_station linked _ sound stands other with ⟨bound, taken, inStep⟩ | ⟨outside, _⟩
  · have contents : bound.value.contents = ⟨nodesAll tree parts node, none⟩ := by
      rw [← NodeIterator.contents_bare, inStep]
      exact contents_station (.union parts) node true
    have everything : (Plan.union parts).resumed tree fresh node = nodesAll tree parts node :=
      (remains_resumed _ stands).eq_iff.mpr (settled_make _ made)
    have ahead := ahead_bind linked _ sound stands other taken
    rw [everything] at ahead
    have base : (Course.of bound.value).base = nodesAll tree parts node :=
      congrArg Outlook.nodes contents
    have zero : (Course.of bound.value).iterator.progress.position = 0 :=
      position_bind_union stands other taken
    obtain ⟨branches, place, shape, _⟩ := NodeIterator.exists_branches_of_bare inStep
    have unsaved : bound.value.Unsaved :=
      (NodeIterator.quiet_bind node).unsaved ⟨bound, taken, rfl⟩ (unsaved_make linked _ made)
    refine ⟨fresh, bound, made, taken, ⟨branches, place, shape⟩, unsaved, contents,
      ⟨sound.bind taken, ?_⟩, ?_, fun _ => base⟩
    · rw [base, zero]
      exact ahead
    · rw [base]
  · exact absurd member (Nat.not_lt_of_le outside)

/-- **Without a saved place, every node of a bound union comes at its position in the base**: the
whole sequence until the union is taken back, and then what came back. -/
theorem positions_of_unsaved (built : tree.Built) (parts : List Plan) (node : Handle)
    (member : node < tree.size) :
    ∃ fresh bound, (Plan.union parts).make tree = .ok fresh ∧ fresh.bind node = .ok bound ∧
      ∀ moves, Move.mark ∉ moves → ∃ course, (Course.of bound.value).run moves = .ok course ∧
        (∃ answer, course.iterator.next = .ok answer) ∧
        (∀ found rest, course.iterator.next = .ok (some found, rest) →
          ∃ index, rest.progress.position = index + 1 ∧ course.base[index]? = some found) ∧
        course.base.Sublist (nodesAll tree parts node) ∧
        (course.iterator.regained.nodes = nodesAll tree parts node ↔
          ∀ walk ∈ course.iterator.walks, walk.ahead = walk.contents) ∧
        (course.iterator.walks = [] → course.base = nodesAll tree parts node) := by
  obtain ⟨fresh, bound, made, taken, first⟩ := fits_of_bind built.linked parts member
  refine ⟨fresh, bound, made, taken, fun moves quiet => ?_⟩
  obtain ⟨course, ran, fits⟩ := first.run quiet
  obtain ⟨left, regained, remains⟩ :=
    NodeIterator.remains_regained fits.unsaved fits.contents
  refine ⟨course, ran, ?_, fun found rest advanced => ?_, fits.sublist, ?_, fits.complete⟩
  · obtain ⟨_, _, advanced, _⟩ := fits.next
    exact ⟨_, advanced⟩
  · refine ⟨course.iterator.progress.position, ?_, ((fits.along.next advanced).2).symm⟩
    rw [NodeIterator.progress_next advanced]
    rfl
  · rw [regained]
    exact remains.eq_iff

/-- A union over the children of a document is rewound before it is taken back, so all of them
come again at their positions. -/
theorem positions_of_unsaved_rewound :
    ∃ fresh bound course rest,
      (Plan.union [.axis .child]).make (.ofDocument (.text "a" (.comment "b" .empty))) =
          .ok fresh ∧
        fresh.bind Handle.root = .ok bound ∧
        (Course.of bound.value).run [.next, .rewind, .restore] = .ok course ∧
        course.iterator.next = .ok (some 1, rest) ∧
        ∃ index, rest.progress.position = index + 1 ∧
          (nodesAll (.ofDocument (.text "a" (.comment "b" .empty))) [.axis .child]
            Handle.root)[index]? = some 1 := by
  obtain ⟨fresh, bound, made, taken, always⟩ := positions_of_unsaved
    (Tree.built_ofDocument (.text "a" (.comment "b" .empty))) [.axis .child] Handle.root (by decide)
  cases made
  cases taken
  obtain ⟨course, ran, _, placed, _⟩ := always [.next, .rewind, .restore] (by decide)
  cases ran
  exact ⟨_, _, _, _, rfl, rfl, rfl, rfl, placed 1 _ rfl⟩

/-- **A union that skips a node.** A union over the children of a document is read once and taken
back. The next node comes at position 1 again, and it is the second child. -/
theorem unsaved_union_skips :
    ∃ fresh bound,
      (Plan.union [.axis .child]).make (.ofDocument (.text "a" (.comment "b" .empty))) =
          .ok fresh ∧
        fresh.bind Handle.root = .ok bound ∧ bound.value.whole = .ok [1, 2] ∧
        bound.value.observe [.next, .restore, .next] =
          .ok [⟨some (some 1), 1⟩, ⟨none, 0⟩, ⟨some (some 2), 1⟩] :=
  ⟨_, _, rfl, rfl, rfl, rfl⟩

end Plan

end XPathWalk

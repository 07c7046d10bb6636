/-
**What an iterator yields from where it stands.**

What an iterator has ahead of it is put together from its parts: the rest of an axis, of a list or
of a buffer, and for a union the rest of the present branch and what the later branches have ahead.
Reading follows that outlook to its end.

* `NodeIterator.induct`: induction over the parts of an iterator;
* `NodeIterator.Sound`: the cursors and start nodes of all axis walks belong to their linked trees;
* `next_foresees`: the next node is the first that is ahead;
* `drain_of_sees`: draining yields all that is ahead, or meets the fault behind it.
-/

import XPathWalk.NodeIterator.Whole
import XPathWalk.Proofs.AxisCursor
import XPathWalk.Proofs.Repeats

namespace XPathWalk

/-- The start node, the cursor and the saved cursor of a walk belong to its tree. Without a start
node there has never been a cursor. -/
structure AxisWalk.Sound (walk : AxisWalk) : Prop where
  linked : walk.tree.Linked
  cursor : walk.cursor.Within walk.tree
  mark : ∀ saved ∈ walk.mark, saved.1.Within walk.tree
  start : ∀ origin, walk.progress.start = some origin → origin < walk.tree.size
  unbound : walk.progress.start = none →
    walk.cursor = .unbound ∧ ∀ saved ∈ walk.mark, saved.1 = .unbound

namespace AxisWalk

/-- What a walk yields from where it stands. -/
def ahead (walk : AxisWalk) : Outlook := walk.cursor.ahead walk.tree walk.axis

/-- A sound walk that has this ahead of it. -/
structure Sees (walk : AxisWalk) (outlook : Outlook) : Prop where
  sound : walk.Sound
  ahead : walk.ahead = outlook

/-- A walk yields the first node that is left of its axis. -/
theorem next_foresees {walk : AxisWalk} (sound : walk.Sound) :
    Outlook.Foresees Sees walk.ahead walk.next := by
  cases bound : walk.progress.start with
  | none =>
    have unbound := (sound.unbound bound).1
    rw [ahead, next, unbound]
    exact .fault
  | some origin =>
    refine Outlook.Foresees.lift
      (fun found cursor => { walk with progress := walk.progress.count found, cursor })
      (Cursor.advance_foresees sound.linked sound.cursor) ?_
    intro found cursor outlook seen
    have still : (walk.progress.count found).start = some origin := by
      rw [Progress.start_count, bound]
    refine ⟨⟨sound.linked, seen.within, sound.mark, ?_, ?_⟩, seen.ahead⟩
    · intro start same
      exact sound.start start (by rw [bound, ← still]; exact same)
    · intro missing
      exact absurd (still.symm.trans missing) (Option.some_ne_none origin)

end AxisWalk

namespace NodeIterator

/-- Induction over the parts of an iterator: a union may rely on each of its branches and a node set
on its source. -/
@[elab_as_elim, induction_eliminator]
theorem induct {motive : NodeIterator → Prop} (axis : ∀ walk, motive (.axis walk))
    (fixed : ∀ list, motive (.fixed list))
    (union : ∀ branches place, (∀ branch ∈ branches, motive branch) →
      motive (.union branches place))
    (nodeSet : ∀ source replay, motive source → motive (.nodeSet source replay))
    (iterator : NodeIterator) : motive iterator :=
  @NodeIterator.rec motive (fun branches => ∀ branch ∈ branches, motive branch) axis fixed union
    nodeSet (fun _ member => by cases member)
    (fun _ _ first others _ member => by
      rcases List.mem_cons.mp member with rfl | member
      · exact first
      · exact others _ member)
    iterator

/-! ### Definitions -/

/-- All walks in an iterator are sound. -/
inductive Sound : NodeIterator → Prop
  | axis {walk : AxisWalk} : walk.Sound → Sound (.axis walk)
  | fixed {list : FixedList} : Sound (.fixed list)
  | union {branches : List NodeIterator} {place : Place} :
    (∀ branch ∈ branches, Sound branch) → Sound (.union branches place)
  | nodeSet {source : NodeIterator} {replay : Replay} : Sound source →
    Sound (.nodeSet source replay)

mutual

/-- What an iterator yields from where it stands. -/
def ahead : NodeIterator → Outlook
  | .axis walk => walk.ahead
  | .fixed list => ⟨list.nodes.toList.drop list.place.current, none⟩
  | .union branches place => aheadFrom branches place.current
  | .nodeSet _ replay => replay.ahead

/-- What branches yield from number `current` on. -/
def aheadFrom : List NodeIterator → (current : Nat) → Outlook
  | [], _ => .ended
  | _ :: rest, current + 1 => aheadFrom rest current
  | branch :: rest, 0 => branch.ahead ++ aheadFrom rest 0

end

/-- A sound iterator that has this ahead of it. -/
structure Sees (iterator : NodeIterator) (outlook : Outlook) : Prop where
  sound : iterator.Sound
  ahead : iterator.ahead = outlook

/-- Sound branches that have this ahead of them from one number on. -/
structure SeesFrom (state : List NodeIterator × Nat) (outlook : Outlook) : Prop where
  sound : ∀ branch ∈ state.1, branch.Sound
  ahead : aheadFrom state.1 state.2 = outlook

/-! ### The next node -/

theorem Sees.of_sound {iterator : NodeIterator} (sound : iterator.Sound) :
    iterator.Sees iterator.ahead := ⟨sound, rfl⟩

theorem Sound.branches {branches : List NodeIterator} {place : Place}
    (sound : (NodeIterator.union branches place).Sound) : ∀ branch ∈ branches, branch.Sound := by
  cases sound with
  | union sound => exact sound

theorem Sound.source {source : NodeIterator} {replay : Replay}
    (sound : (NodeIterator.nodeSet source replay).Sound) : source.Sound := by
  cases sound with
  | nodeSet sound => exact sound

theorem Sound.walk {walk : AxisWalk} (sound : (NodeIterator.axis walk).Sound) : walk.Sound := by
  cases sound with
  | axis sound => exact sound

/-- The next node of some branches comes from the first that has one left. -/
theorem nextFrom_foresees {branches : List NodeIterator} (current : Nat)
    (steps : ∀ branch ∈ branches, branch.Sound →
      Outlook.Foresees Sees branch.ahead branch.next)
    (sound : ∀ branch ∈ branches, branch.Sound) :
    Outlook.Foresees SeesFrom (aheadFrom branches current) (nextFrom branches current) := by
  induction branches generalizing current with
  | nil => exact .done ⟨sound, rfl⟩
  | cons branch rest ih =>
    obtain ⟨soundFirst, soundRest⟩ := List.forall_mem_cons.mp sound
    obtain ⟨stepFirst, stepsRest⟩ := List.forall_mem_cons.mp steps
    cases current with
    | succ current =>
      refine Outlook.Foresees.lift (fun _ state => (branch :: state.1, state.2 + 1))
        (ih current stepsRest soundRest) ?_
      exact fun _ state _ seen => ⟨List.forall_mem_cons.mpr ⟨soundFirst, seen.sound⟩, seen.ahead⟩
    | zero =>
      have step := stepFirst soundFirst
      rw [aheadFrom, nextFrom]
      generalize branch.ahead = outlook at step ⊢
      generalize branch.next = result at step ⊢
      cases step with
      | fault => exact .fault
      | node seen =>
        rw [Outlook.cons_append]
        refine .node ⟨List.forall_mem_cons.mpr ⟨seen.sound, soundRest⟩, ?_⟩
        rw [aheadFrom, seen.ahead]
      | done seen =>
        refine Outlook.Foresees.lift (fun _ state => (_ :: state.1, state.2 + 1))
          (ih 0 stepsRest soundRest) ?_
        exact fun _ state _ later =>
          ⟨List.forall_mem_cons.mpr ⟨seen.sound, later.sound⟩, later.ahead⟩

/-- **The next node of an iterator is the first that is ahead of it**, and what is left is the rest
of that. -/
theorem next_foresees {iterator : NodeIterator} (sound : iterator.Sound) :
    Outlook.Foresees Sees iterator.ahead iterator.next := by
  induction iterator with
  | axis walk =>
    refine Outlook.Foresees.lift (fun _ walk => NodeIterator.axis walk) (AxisWalk.next_foresees sound.walk) ?_
    exact fun _ _ _ seen => ⟨.axis seen.sound, seen.ahead⟩
  | fixed list =>
    cases entry : list.nodes[list.place.current]? with
    | none =>
      have nothing : ahead (.fixed list) = .ended := by
        rw [ahead, List.drop_eq_nil_of_le (Array.getElem?_eq_none_iff.mp entry), Outlook.ended]
      rw [nothing, next, FixedList.next, entry]
      exact .done ⟨.fixed, nothing⟩
    | some node =>
      rw [ahead, List.drop_eq_getElem?_toList_append, Array.getElem?_toList, entry, next,
        FixedList.next, entry]
      exact .node ⟨.fixed, rfl⟩
  | union branches place ih =>
    refine Outlook.Foresees.lift (fun found state => NodeIterator.union state.1 (place.move found state.2))
      (nextFrom_foresees place.current ih sound.branches) ?_
    exact fun _ _ _ seen => ⟨.union seen.sound, seen.ahead⟩
  | nodeSet source replay _ =>
    refine Outlook.Foresees.lift (fun _ replay => NodeIterator.nodeSet source replay)
      replay.next_foresees ?_
    exact fun _ _ _ seen => ⟨.nodeSet sound.source, seen⟩

/-- Branches that have the same ahead of them have the same ahead of them together. -/
theorem aheadFrom_map {call : NodeIterator → NodeIterator} {branches : List NodeIterator}
    (current : Nat) (each : ∀ branch ∈ branches, (call branch).ahead = branch.ahead) :
    aheadFrom (branches.map call) current = aheadFrom branches current := by
  induction branches generalizing current with
  | nil => rfl
  | cons branch rest ih =>
    obtain ⟨first, others⟩ := List.forall_mem_cons.mp each
    cases current with
    | succ current => exact ih current others
    | zero => rw [List.map_cons, aheadFrom, aheadFrom, first, ih 0 others]

/-! ### Reading on -/

/-- Branches have no more nodes ahead than their reaches together. -/
theorem length_aheadFrom_le_reachAll {branches : List NodeIterator} (current : Nat)
    (bounds : ∀ branch ∈ branches, branch.ahead.nodes.length ≤ branch.reach) :
    (aheadFrom branches current).nodes.length ≤ reachAll branches := by
  induction branches generalizing current with
  | nil => exact Nat.le_refl 0
  | cons branch rest ih =>
    obtain ⟨first, others⟩ := List.forall_mem_cons.mp bounds
    rw [reachAll]
    cases current with
    | succ current => exact Nat.le_trans (ih current others) (Nat.le_add_left _ _)
    | zero =>
      rw [aheadFrom]
      exact Nat.le_trans (Outlook.length_append_le _ _) (Nat.add_le_add first (ih 0 others))

/-- No more nodes are ahead than the reach of the iterator. -/
theorem length_ahead_le_reach {iterator : NodeIterator} (sound : iterator.Sound) :
    iterator.ahead.nodes.length ≤ iterator.reach := by
  induction iterator with
  | axis walk =>
    show (walk.cursor.ahead walk.tree walk.axis).nodes.length ≤ walk.cursor.reach walk.tree
    rw [Cursor.nodes_ahead]
    exact Cursor.length_nodes_le_reach sound.walk.linked sound.walk.cursor
  | fixed list => exact Nat.le_of_eq List.length_drop
  | union branches place ih =>
    exact length_aheadFrom_le_reachAll place.current fun branch member =>
      ih branch member (sound.branches branch member)
  | nodeSet source replay _ => exact replay.length_ahead_le_reach

variable {iterator : NodeIterator}

theorem Sees.foresees {outlook : Outlook} (sees : iterator.Sees outlook) :
    Outlook.Foresees Sees outlook iterator.next :=
  sees.ahead ▸ next_foresees sees.sound

/-- So reading one node more than that reaches the end. -/
theorem length_lt_reach {outlook : Outlook} (sees : iterator.Sees outlook) :
    outlook.nodes.length < iterator.reach + 1 := by
  rw [← sees.ahead]
  exact Nat.lt_succ_of_le (length_ahead_le_reach sees.sound)

/-- Taking nodes goes on behind the first. -/
theorem take_of_next_some {node : Handle} {state : NodeIterator} (count : Nat)
    (advanced : iterator.next = .ok (some node, state)) :
    iterator.take (count + 1) =
      (state.take count).map fun answer => (node :: answer.1, answer.2) := by
  rw [take, advanced]
  show (state.take count >>= fun answer => pure (node :: answer.1, answer.2)) = _
  cases state.take count <;> rfl

/-- Taking no more nodes than are ahead yields just these. -/
theorem take_within (count : Nat) (nodes : List Handle) (fault : Option Fault)
    (sees : iterator.Sees ⟨nodes, fault⟩) (enough : count ≤ nodes.length) :
    ∃ rest, iterator.take count = .ok (nodes.take count, rest) ∧
      rest.Sees ⟨nodes.drop count, fault⟩ := by
  induction count generalizing iterator nodes with
  | zero => exact ⟨iterator, rfl, sees⟩
  | succ count ih =>
    have step := sees.foresees
    generalize advanced : iterator.next = result at step
    cases step with
    | done seen => cases enough
    | fault => cases enough
    | @node node others _ state seen =>
      obtain ⟨rest, taken, left⟩ := ih others seen (Nat.le_of_succ_le_succ enough)
      refine ⟨rest, ?_, left⟩
      rw [take_of_next_some count advanced, taken]
      rfl

/-- Taking more nodes than are ahead is reading to the end. -/
theorem take_beyond (count : Nat) (nodes : List Handle) (fault : Option Fault)
    (sees : iterator.Sees ⟨nodes, fault⟩) (beyond : nodes.length < count) :
    (∃ rest, fault = none ∧ iterator.take count = .ok (nodes, rest) ∧ rest.Sees .ended) ∨
      ∃ failure, fault = some failure ∧ iterator.take count = .error failure := by
  induction count generalizing iterator nodes with
  | zero => cases beyond
  | succ count ih =>
    have step := sees.foresees
    generalize advanced : iterator.next = result at step
    cases step with
    | @done state seen =>
      refine .inl ⟨state, rfl, ?_, seen⟩
      rw [take, advanced]
      rfl
    | @fault failure =>
      refine .inr ⟨failure, rfl, ?_⟩
      rw [take, advanced]
      rfl
    | @node node others _ state seen =>
      rw [take_of_next_some count advanced]
      rcases ih others seen (Nat.lt_of_succ_lt_succ beyond) with
        ⟨rest, whole, taken, left⟩ | ⟨failure, same, failed⟩
      · refine .inl ⟨rest, whole, ?_, left⟩
        rw [taken]
        rfl
      · refine .inr ⟨failure, same, ?_⟩
        rw [failed]
        rfl

/-- **Draining yields all that is ahead**, or meets the fault behind it. -/
theorem drain_of_sees {outlook : Outlook} (sees : iterator.Sees outlook) :
    (∃ rest, outlook.fault = none ∧ iterator.drain = .ok (outlook.nodes, rest) ∧
        rest.Sees .ended) ∨
      ∃ failure, outlook.fault = some failure ∧ iterator.drain = .error failure :=
  take_beyond (iterator.reach + 1) outlook.nodes outlook.fault sees (length_lt_reach sees)

theorem drain_complete {nodes : List Handle} (sees : iterator.Sees ⟨nodes, none⟩) :
    ∃ rest, iterator.drain = .ok (nodes, rest) ∧ rest.Sound := by
  rcases drain_of_sees sees with ⟨rest, _, drained, ended⟩ | ⟨failure, failed, _⟩
  · exact ⟨rest, drained, ended.sound⟩
  · cases failed

/-- What was drained is what was ahead. -/
theorem ahead_of_drain {nodes : List Handle} {rest : NodeIterator} (sound : iterator.Sound)
    (drained : iterator.drain = .ok (nodes, rest)) :
    iterator.ahead = ⟨nodes, none⟩ ∧ rest.Sound := by
  rcases drain_of_sees (Sees.of_sound sound) with ⟨_, whole, same, ended⟩ | ⟨_, _, failed⟩
  · rw [drained] at same
    cases same
    exact ⟨congrArg (Outlook.mk _) whole, ended.sound⟩
  · rw [drained] at failed
    cases failed

end NodeIterator

end XPathWalk

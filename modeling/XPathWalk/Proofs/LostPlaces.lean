/-
**Walks that have a start node and cannot be advanced.**

A walk that was never bound cannot be advanced. It can be marked all the same, and the saved place
is then that of no start node. Taking a start node does not forget it. A walk that goes back to such
a place is lost: it has a start node, and advancing it fails as if it had none. It stays so until it
is rewound, bound to another node or taken back to a better place. Nothing else makes a walk fail
that has a start node.

* `Action`, `Trace.act`: the calls on a walk, of which some leave its place alone;
* `Trace.EarlyMark`, `Trace.Lost`: a place was saved without a start node, and gone back to;
* `WalkTraced.next_error_iff`: a walk fails exactly away from every home;
* `Trace.Accounted.act`: only lost places lead a bound walk there;
* `unbound_fault_iff`: bind, advance, rewind, mark, take back, permit and clone a fresh walk in any
  order. Without a start node it stands nowhere. With a start node it does so only when it is lost,
  by going back to a place saved without one. Other actions never fail, except for a start node that
  is not in the tree;
* `early_mark_loses_place`: a walk with a start node that fails.
-/

import XPathWalk.Proofs.Rebinding

namespace XPathWalk

/-- A call on an iterator. -/
inductive Action where
  | call (call : Call)
  | setRestartable (restartable : Bool)
  /-- The clone goes on in place of the iterator. -/
  | clone
  deriving DecidableEq, Repr

namespace NodeIterator

theorem start_setRestartable {iterator : NodeIterator} (restartable : Bool) :
    (iterator.setRestartable restartable).progress.start = iterator.progress.start := by
  cases iterator <;> rfl

theorem start_clone {iterator copy : NodeIterator} (cloned : iterator.clone = .ok copy) :
    copy.progress.start = iterator.progress.start := by
  cases clones_of_clone cloned <;> rfl

end NodeIterator

namespace Trace

/-- The effect of an action. Permissions do not touch a place, and a clone of a walk has the places
of the walk. -/
def act (trace : Trace) : Action → Except Fault Trace
  | .call call => trace.perform call
  | .setRestartable restartable =>
    .ok { trace with iterator := trace.iterator.setRestartable restartable }
  | .clone =>
    match trace.iterator.clone with
    | .ok copy => .ok { trace with iterator := copy }
    | .error _ => .ok trace

/-- The effect of actions in a row. -/
def actAll (trace : Trace) (actions : List Action) : Except Fault Trace :=
  actions.foldlM act trace

/-- A place was saved, with other actions after that, while the iterator had no start node. -/
def EarlyMark (first : Trace) (past after : List Action) : Prop :=
  ∃ before early, past = before ++ .call (.move .mark) :: after ∧
    first.actAll before = .ok early ∧ early.start = none

/-- After a place had been saved without a start node, a saved place was gone back to. -/
def Lost (first : Trace) (past : List Action) : Prop :=
  ∃ after, EarlyMark first past after ∧ .call (.move .restore) ∈ after

/-- What past actions tell about an iterator that stands in no sequence. -/
structure Accounted (first : Trace) (past : List Action) (trace : Trace) : Prop where
  ran : first.actAll past = .ok trace
  home : trace.home = none → trace.start = none ∨ Lost first past
  saved : trace.saved = some none → ∃ after, EarlyMark first past after

/-! ### What the past tells -/

variable {first trace after : Trace} {past : List Action} {action : Action}

theorem actAll_snoc (ran : first.actAll past = .ok trace) (done : trace.act action = .ok after) :
    first.actAll (past ++ [action]) = .ok after := by
  rw [actAll, List.foldlM_append, show past.foldlM act first = .ok trace from ran, ok_bind,
    List.foldlM_cons, done]
  rfl

theorem EarlyMark.snoc {behind : List Action} (early : EarlyMark first past behind)
    (action : Action) : EarlyMark first (past ++ [action]) (behind ++ [action]) := by
  obtain ⟨before, trace, rfl, ran, unbound⟩ := early
  exact ⟨before, trace, by rw [List.append_assoc, List.cons_append], ran, unbound⟩

theorem Lost.snoc (lost : Lost first past) (action : Action) : Lost first (past ++ [action]) := by
  obtain ⟨behind, early, restored⟩ := lost
  exact ⟨behind ++ [action], early.snoc action, List.mem_append_left _ restored⟩

theorem Lost.earlyMark (lost : Lost first past) : ∃ behind, EarlyMark first past behind := by
  obtain ⟨behind, early, _⟩ := lost
  exact ⟨behind, early⟩

/-- An action that saves no place, and leads away from home only where the iterator has no start
node or was away before. -/
theorem Accounted.keep (accounted : Accounted first past trace)
    (done : trace.act action = .ok after) (saved : after.saved = trace.saved)
    (home : after.home = none →
      after.start = none ∨ trace.home = none ∧ after.start = trace.start) :
    Accounted first (past ++ [action]) after where
  ran := actAll_snoc accounted.ran done
  home away := by
    rcases home away with unbound | ⟨before, same⟩
    · exact .inl unbound
    · rw [same]
      exact (accounted.home before).imp_right fun lost => lost.snoc action
  saved nowhere := by
    obtain ⟨behind, early⟩ := accounted.saved (saved.symm.trans nowhere)
    exact ⟨behind ++ [action], early.snoc action⟩

/-- Cloning changes neither the places nor the start node. -/
theorem act_clone (done : trace.act .clone = .ok after) :
    after.saved = trace.saved ∧ after.home = trace.home ∧ after.start = trace.start := by
  cases cloned : trace.iterator.clone with
  | ok copy =>
    rw [Trace.act, cloned] at done
    cases done
    exact ⟨rfl, rfl, NodeIterator.start_clone cloned⟩
  | error refused =>
    rw [Trace.act, cloned] at done
    cases done
    exact ⟨rfl, rfl, rfl⟩

/-- **Only lost places lead an iterator with a start node away from every home.** -/
theorem Accounted.act (accounted : Accounted first past trace)
    (walks : ¬ trace.iterator.isNodeSet) (done : trace.act action = .ok after) :
    Accounted first (past ++ [action]) after := by
  cases action with
  | setRestartable restartable =>
    cases done
    refine accounted.keep rfl rfl fun away => .inr ⟨away, ?_⟩
    exact NodeIterator.start_setRestartable restartable
  | clone =>
    obtain ⟨saved, home, start⟩ := act_clone done
    exact accounted.keep done saved fun away => .inr ⟨home.symm.trans away, start⟩
  | call call =>
    have acted : trace.act (.call call) = .ok after := done
    cases call with
    | bind node =>
      obtain ⟨bound, _, same⟩ := exists_of_bind_ok done
      cases same
      refine accounted.keep acted rfl fun away => ?_
      by_cases same : bound.value.progress.start = trace.start
      · exact .inr ⟨(if_pos same).symm.trans away, same⟩
      · exact .inl ((if_neg same).symm.trans away)
    | move move =>
      obtain ⟨⟨answer, further⟩, performed, same⟩ := exists_of_bind_ok done
      cases same
      have start : further.progress.start = trace.start := start_move performed
      cases move with
      | next =>
        refine accounted.keep acted rfl fun away => .inr ⟨?_, start⟩
        exact (if_neg fun both => walks both.1).symm.trans away
      | rewind => exact accounted.keep acted rfl fun away => .inl (start.trans away)
      | mark =>
        have kept : trace.savedAfter .mark = some trace.home :=
          if_neg fun both => walks both.1
        refine ⟨actAll_snoc accounted.ran acted, fun away => ?_, fun nowhere => ?_⟩
        · exact (accounted.home away).imp start.trans fun lost => lost.snoc _
        · -- The walk that is away either has no start node or stands at an early mark.
          rcases accounted.home (Option.some.inj (kept.symm.trans nowhere)) with unbound | lost
          · exact ⟨[], past, trace, rfl, accounted.ran, unbound⟩
          · obtain ⟨behind, early⟩ := lost.earlyMark
            exact ⟨_, early.snoc _⟩
      | restore =>
        refine ⟨actAll_snoc accounted.ran acted, fun away => ?_, fun nowhere => ?_⟩
        · have there : trace.saved.getD trace.start = none := away
          cases saved : trace.saved with
          | none =>
            rw [saved] at there
            exact .inl (start.trans there)
          | some home =>
            rw [saved] at there
            cases (there : home = none)
            obtain ⟨behind, early⟩ := accounted.saved saved
            exact .inr ⟨_, early.snoc _, List.mem_append_right _ List.mem_cons_self⟩
        · obtain ⟨behind, early⟩ := accounted.saved nowhere
          exact ⟨_, early.snoc _⟩

end Trace

/-! ### Walks -/

namespace WalkTraced

variable {tree : Tree} {axis : Axis} {trace after : Trace} {walk : AxisWalk} {action : Action}

theorem setRestartable (traced : WalkTraced tree axis trace walk) (restartable : Bool) :
    WalkTraced tree axis { trace with iterator := trace.iterator.setRestartable restartable }
      (walk.setRestartable restartable) := by
  obtain ⟨same, sound, rfl, rfl, place, unsaved, saved⟩ := traced
  have soundAfter := (NodeIterator.Sound.axis sound).setRestartable restartable
  exact ⟨congrArg (NodeIterator.setRestartable restartable) same, soundAfter.walk, rfl, rfl, place,
    unsaved, saved⟩

/-- **Every action keeps the places of a walk with their homes.** -/
theorem act (traced : WalkTraced tree axis trace walk) (done : trace.act action = .ok after) :
    ∃ moved, WalkTraced tree axis after moved := by
  cases action with
  | call call => exact traced.perform done
  | setRestartable restartable =>
    cases done
    exact ⟨_, traced.setRestartable restartable⟩
  | clone =>
    have cloned : trace.iterator.clone = .ok (trace.iterator.setRestartable false) := by
      rw [traced.iterator]
      rfl
    rw [Trace.act, cloned] at done
    cases done
    exact ⟨_, traced.setRestartable false⟩

/-- A run keeps them, and its past tells why a walk with a start node is away from home. -/
theorem actAll {first : Trace} {past actions : List Action}
    (traced : WalkTraced tree axis trace walk) (accounted : Trace.Accounted first past trace)
    (ran : trace.actAll actions = .ok after) :
    (∃ moved, WalkTraced tree axis after moved) ∧
      Trace.Accounted first (past ++ actions) after := by
  induction actions generalizing past trace walk with
  | nil =>
    cases ran
    rw [List.append_nil]
    exact ⟨⟨walk, traced⟩, accounted⟩
  | cons action rest ih =>
    obtain ⟨next, here, later⟩ := exists_of_bind_ok ran
    obtain ⟨moved, further⟩ := traced.act here
    rw [List.append_cons]
    exact ih further (accounted.act traced.not_nodeSet here) later

/-- **A walk cannot be advanced exactly if it stands in the sequence of no start node.** -/
theorem next_error_iff (traced : WalkTraced tree axis trace walk) (fault : Fault) :
    trace.iterator.next = .error fault ↔ trace.home = none ∧ fault = .unboundAxis axis := by
  have step := NodeIterator.next_foresees (.axis traced.sound)
  obtain ⟨same, sound, rfl, rfl, place, _, _⟩ := traced
  rw [same]
  cases home : trace.home with
  | none =>
    rw [home] at place
    have unbound : (NodeIterator.axis walk).ahead = .failed (.unboundAxis walk.axis) := by
      rw [NodeIterator.ahead, AxisWalk.ahead, show walk.cursor = .unbound from place]
      rfl
    rw [unbound] at step
    generalize (NodeIterator.axis walk).next = result at step ⊢
    cases step with
    | fault => simp [eq_comm]
  | some node =>
    rw [home] at place
    have whole : (NodeIterator.axis walk).ahead.fault = none := congrArg Outlook.fault place
    generalize (NodeIterator.axis walk).ahead = outlook at step whole
    generalize (NodeIterator.axis walk).next = result at step ⊢
    cases step with
    | node _ => simp
    | done _ => simp
    | fault => cases whole

/-- A walk without a start node stands in no sequence. -/
theorem home_of_unbound (traced : WalkTraced tree axis trace walk) (unbound : trace.start = none) :
    trace.home = none := by
  have fresh := (traced.sound.unbound (traced.start_eq.symm.trans unbound)).1
  have place := traced.place
  cases home : trace.home with
  | none => rfl
  | some node =>
    rw [home, fresh] at place
    cases congrArg Outlook.fault place

/-- The nodes of the tree are start nodes that do not fail. -/
theorem exists_bind (traced : WalkTraced tree axis trace walk) {node : Handle}
    (member : node < tree.size) : ∃ bound, trace.iterator.bind node = .ok bound := by
  obtain ⟨same, sound, rfl, rfl, _, _, _⟩ := traced
  obtain ⟨bound, taken⟩ := sound.exists_bind member
  rw [same, NodeIterator.bind, taken]
  exact ⟨_, rfl⟩

/-- **No other action fails**, but for a start node that is not in the tree. -/
theorem act_error (traced : WalkTraced tree axis trace walk) {fault : Fault}
    (failed : trace.act action = .error fault) :
    action = .call (.move .next) ∧ trace.home = none ∨
      ∃ node, tree.size ≤ node ∧ action = .call (.bind node) := by
  cases action with
  | setRestartable restartable => cases failed
  | clone =>
    rw [Trace.act] at failed
    split at failed <;> cases failed
  | call call =>
    cases call with
    | bind node =>
      rcases Nat.lt_or_ge node tree.size with member | outside
      · obtain ⟨bound, taken⟩ := traced.exists_bind member
        rw [Trace.act, Trace.perform, taken] at failed
        cases failed
      · exact .inr ⟨node, outside, rfl⟩
    | move move =>
      cases move with
      | next =>
        cases advanced : trace.iterator.next with
        | error fault => exact .inl ⟨rfl, ((traced.next_error_iff fault).mp advanced).1⟩
        | ok answer =>
          rw [Trace.act, Trace.perform, NodeIterator.perform, advanced] at failed
          cases failed
      | rewind =>
        obtain ⟨rewound, begun, _⟩ := NodeIterator.rewind_sees (.axis traced.sound)
        rw [Trace.act, Trace.perform, NodeIterator.perform, traced.iterator, begun] at failed
        cases failed
      | mark => cases failed
      | restore => cases failed

end WalkTraced

/-! ### When walks fail -/

/-- **A walk fails exactly where it stands in no sequence**, and only by saying that its axis has no
start node. With a start node it stands in none only when it is lost. -/
theorem unbound_fault_iff {tree : Tree} (built : tree.Built) (axis : Axis)
    (actions : List Action) (trace : Trace)
    (ran : (Trace.of (.ofAxis tree axis)).actAll actions = .ok trace) :
    ((∃ fault, trace.iterator.next = .error fault) ↔ trace.home = none) ∧
      (∀ fault, trace.iterator.next = .error fault → fault = .unboundAxis axis) ∧
      (trace.start = none → trace.home = none) ∧
      (trace.home = none →
        trace.start = none ∨ (Trace.of (.ofAxis tree axis)).Lost actions) ∧
      ∀ action fault, trace.act action = .error fault →
        action = .call (.move .next) ∧ trace.home = none ∨
          ∃ node, tree.size ≤ node ∧ action = .call (.bind node) := by
  have first : Trace.Accounted (.of (.ofAxis tree axis)) [] (.of (.ofAxis tree axis)) :=
    ⟨rfl, fun _ => .inl rfl, fun nowhere => by cases nowhere⟩
  obtain ⟨⟨walk, traced⟩, accounted⟩ := (walkTraced_ofAxis built.linked axis).actAll first ran
  refine ⟨⟨?_, fun away => ⟨_, (traced.next_error_iff _).mpr ⟨away, rfl⟩⟩⟩,
    fun fault failed => ((traced.next_error_iff fault).mp failed).2, traced.home_of_unbound,
    accounted.home, fun action fault => traced.act_error⟩
  rintro ⟨fault, failed⟩
  exact ((traced.next_error_iff fault).mp failed).1

/-- A place is saved before the walk is bound, but none is gone back to, and the walk goes on. -/
theorem unbound_fault_iff_kept :
    ∃ trace,
      (Trace.of (.ofAxis (.ofDocument (.text "a" .empty)) .child)).actAll
        [.call (.move .mark), .call (.bind Handle.root), .setRestartable false, .clone] =
          .ok trace ∧
      trace.start = some Handle.root ∧ ¬ ∃ fault, trace.iterator.next = .error fault := by
  obtain ⟨fails, _⟩ := unbound_fault_iff (Tree.built_ofDocument (.text "a" .empty)) .child
    [.call (.move .mark), .call (.bind Handle.root), .setRestartable false, .clone] _ rfl
  refine ⟨_, rfl, rfl, fun failed => ?_⟩
  cases fails.mp failed

/-- **A walk with a start node that fails.** Its place was saved before it was bound, and comes back
afterwards. -/
theorem early_mark_loses_place :
    ∃ trace,
      (Trace.of (.ofAxis (.ofDocument .empty) .child)).actAll
        [.call (.move .mark), .call (.bind Handle.root), .call (.move .restore)] = .ok trace ∧
      trace.start = some Handle.root ∧ trace.iterator.next = .error (.unboundAxis .child) :=
  ⟨_, rfl, rfl, rfl⟩

end XPathWalk

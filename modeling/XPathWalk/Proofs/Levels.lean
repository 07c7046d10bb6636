/-
**Start nodes and permissions at every depth.**

Every level of an iterator does its own bookkeeping, and every call is handed on, or not, by each
kind of level in its own way. Nevertheless all levels agree. They have one permission to restart,
and one start node, except that a node set which does not hang on the start node stays with the
document, together with all that is inside it. A clone therefore ignores start nodes at every depth
until it is permitted to restart, and from then on start nodes reach every other level again.

* `NodeIterator.levels`: an iterator and all that is inside it, each with whether it is settled;
* `NodeIterator.Lockstep`: all levels agree;
* `Plan.progress_levels`: the bookkeeping of every level, told by the station of the iterator;
* `Plan.InStep.lockstep`: so an iterator that is in step has all its levels in lockstep;
* `frozen_record`: forbidden start nodes stay so along a run that does not permit them;
* `lockstep_of_run`: whatever is called on an iterator made from axes, lists, lookups, unions and
  node sets to any depth, going on with it or with clones, its levels are in lockstep and it can be
  cloned. The clone and all its parts ignore every start node, whatever else is called on it, until
  it is permitted to restart. This permits all levels to restart, and then any node of the tree
  becomes the start node of all levels but those settled.
-/

import XPathWalk.Proofs.ReadOnce

namespace XPathWalk

namespace NodeIterator

/-! ### Definitions -/

/-- Something inside an iterator. -/
structure Level where
  part : NodeIterator
  /-- Whether it stays with the document, whatever start nodes the iterator takes. -/
  settled : Bool

/-- The start node of a level, given the one that the iterator was told. -/
def Level.home (level : Level) (start : Option Handle) : Option Handle :=
  if level.settled then some Handle.root else start

mutual

/-- The levels of an iterator, each before what it holds. A node set that does not hang on the start
node is settled, and so is all that is inside it. -/
def levels (settled : Bool) : NodeIterator → List Level
  | .axis walk => [⟨.axis walk, settled⟩]
  | .fixed list => [⟨.fixed list, settled⟩]
  | .union branches place => ⟨.union branches place, settled⟩ :: levelsAll settled branches
  | .nodeSet source replay =>
    ⟨.nodeSet source replay, settled || source.dependence == .independent⟩ ::
      levels (settled || source.dependence == .independent) source

/-- The levels of one branch after another. -/
def levelsAll (settled : Bool) : List NodeIterator → List Level
  | [] => []
  | branch :: rest => levels settled branch ++ levelsAll settled rest

end

/-- All levels have the permission to restart of the outermost one, and its start node unless they
are settled. -/
structure Lockstep (iterator : NodeIterator) : Prop where
  restartable : ∀ level ∈ iterator.levels false,
    level.part.progress.restartable = iterator.progress.restartable
  start : ∀ level ∈ iterator.levels false,
    level.part.progress.start = level.home iterator.progress.start

/-! ### Levels -/

variable {iterator : NodeIterator} {settled : Bool}

theorem levelsAll_eq_flatMap (branches : List NodeIterator) :
    levelsAll settled branches = branches.flatMap (levels settled) := by
  induction branches with
  | nil => rfl
  | cons branch rest ih => rw [levelsAll, ih, List.flatMap_cons]

/-- **The levels are all parts**, in the same order. -/
theorem map_part_levels (iterator : NodeIterator) (settled : Bool) :
    (iterator.levels settled).map Level.part = iterator.parts := by
  induction iterator generalizing settled with
  | axis walk => rfl
  | fixed list => rfl
  | union branches place ih =>
    rw [levels, List.map_cons, parts, levelsAll_eq_flatMap, partsAll_eq_flatMap, List.map_flatMap,
      List.flatMap_congr fun branch member => ih branch member settled]
  | nodeSet source replay ih => rw [levels, List.map_cons, parts, ih]

theorem exists_level_of_mem_parts {part : NodeIterator} (member : part ∈ iterator.parts) :
    ∃ level ∈ iterator.levels false, level.part = part := by
  rw [← iterator.map_part_levels false] at member
  exact List.mem_map.mp member

theorem forall_levels_union {motive : Level → Prop} {branches : List NodeIterator} {place : Place} :
    (∀ level ∈ (union branches place).levels settled, motive level) ↔
      motive ⟨union branches place, settled⟩ ∧
        ∀ branch ∈ branches, ∀ level ∈ branch.levels settled, motive level := by
  rw [levels, List.forall_mem_cons, levelsAll_eq_flatMap, List.forall_mem_flatMap]

theorem forall_levels_nodeSet {motive : Level → Prop} {source : NodeIterator} {replay : Replay} :
    (∀ level ∈ (nodeSet source replay).levels settled, motive level) ↔
      motive ⟨nodeSet source replay, settled || source.dependence == .independent⟩ ∧
        ∀ level ∈ source.levels (settled || source.dependence == .independent), motive level := by
  rw [levels, List.forall_mem_cons]

/-- All that is inside a settled level is settled. -/
theorem settled_of_mem_levels : ∀ level ∈ iterator.levels true, level.settled = true := by
  induction iterator with
  | axis walk => exact List.forall_mem_singleton.mpr rfl
  | fixed list => exact List.forall_mem_singleton.mpr rfl
  | union branches place ih => exact forall_levels_union.mpr ⟨rfl, ih⟩
  | nodeSet source replay ih => exact forall_levels_nodeSet.mpr ⟨rfl, ih⟩

/-- The outermost level is one of the levels. If it is settled, all are. -/
theorem exists_outermost (iterator : NodeIterator) :
    ∃ level ∈ iterator.levels false, level.part = iterator ∧
      (level.settled → ∀ other ∈ iterator.levels false, other.settled = true) := by
  cases iterator with
  | axis walk => exact ⟨_, List.mem_cons_self, rfl, nofun⟩
  | fixed list => exact ⟨_, List.mem_cons_self, rfl, nofun⟩
  | union branches place => exact ⟨_, List.mem_cons_self, rfl, nofun⟩
  | nodeSet source replay =>
    refine ⟨_, List.mem_cons_self, rfl, fun independent => ?_⟩
    have independent : (false || source.dependence == .independent) = true := independent
    rw [forall_levels_nodeSet, independent]
    exact ⟨rfl, settled_of_mem_levels⟩

/-- The levels of the bare form are the bare forms of the levels. -/
theorem levels_bare (iterator : NodeIterator) (settled : Bool) :
    iterator.bare.levels settled =
      (iterator.levels settled).map fun level => ⟨level.part.bare, level.settled⟩ := by
  induction iterator generalizing settled with
  | axis walk => rfl
  | fixed list => rfl
  | union branches place ih =>
    rw [levels, List.map_cons, bare, levels, levelsAll_eq_flatMap, levelsAll_eq_flatMap,
      bareAll_eq_map, List.flatMap_map, List.map_flatMap,
      List.flatMap_congr fun branch member => ih branch member settled]
  | nodeSet source replay ih => rw [levels, List.map_cons, bare, levels, dependence_bare, ih]

/-! ### Forbidden start nodes -/

/-- An iterator that may not restart ignores every start node. -/
theorem bind_of_frozen (frozen : iterator.progress.restartable = false) (node : Handle) :
    ∃ log, iterator.bind node = .ok ⟨iterator, log⟩ := by
  refine bind_of_not_accepts ?_
  rw [Progress.accepts, frozen, Bool.false_and]

/-- In lockstep, every level of an iterator that may not restart ignores every start node. -/
theorem Lockstep.ignores (lockstep : iterator.Lockstep)
    (frozen : iterator.progress.restartable = false) :
    ∀ part ∈ iterator.parts, ∀ node, ∃ log, part.bind node = .ok ⟨part, log⟩ := by
  intro part member
  obtain ⟨level, within, rfl⟩ := exists_level_of_mem_parts member
  exact bind_of_frozen ((lockstep.restartable level within).trans frozen)

theorem restartable_setRestartable (iterator : NodeIterator) (restartable : Bool) :
    (iterator.setRestartable restartable).progress.restartable = restartable := by
  cases iterator <;> rfl

theorem restartable_clone {copy : NodeIterator} (cloned : iterator.clone = .ok copy) :
    copy.progress.restartable = false := by
  cases clones_of_clone cloned <;> rfl

/-! ### Actions -/

/-- A move is a call. -/
theorem step_of_perform {move : Move} {answer : Option (Option Handle)} {after : NodeIterator}
    (performed : iterator.perform move = .ok (answer, after)) : iterator.Step after := by
  cases move with
  | next =>
    obtain ⟨_, advanced, done⟩ := exists_of_bind_ok performed
    cases done
    exact .next advanced
  | rewind =>
    obtain ⟨_, rewound, done⟩ := exists_of_bind_ok performed
    cases done
    exact .rewind rewound
  | mark =>
    cases performed
    exact .setMark
  | restore =>
    cases performed
    exact .restore

/-- An action is a call or none. -/
theorem run_of_act {action : Action} {entry : Entry} (acted : iterator.act action = .ok entry) :
    iterator.Run entry.after := by
  cases action with
  | call call =>
    cases call with
    | bind node =>
      obtain ⟨bound, taken, done⟩ := exists_of_bind_ok acted
      cases done
      exact .single (.bind taken)
    | move move =>
      obtain ⟨_, performed, done⟩ := exists_of_bind_ok acted
      cases done
      exact .single (step_of_perform performed)
  | setRestartable restartable =>
    cases acted
    exact .single (.setRestartable restartable)
  | clone =>
    rw [NodeIterator.act] at acted
    cases cloned : iterator.clone with
    | ok copy =>
      rw [cloned] at acted
      cases acted
      exact .single (.clone cloned)
    | error error =>
      rw [cloned] at acted
      cases acted
      exact .refl

/-- An iterator that may not restart may not do so after any action but the permission. -/
theorem frozen_act (sound : iterator.Sound) (frozen : iterator.progress.restartable = false)
    {action : Action} (other : action ≠ .setRestartable true) {entry : Entry}
    (acted : iterator.act action = .ok entry) : entry.after.progress.restartable = false := by
  cases action with
  | call call =>
    cases call with
    | bind node =>
      obtain ⟨log, ignored⟩ := bind_of_frozen frozen node
      rw [NodeIterator.act, ignored] at acted
      cases acted
      exact frozen
    | move move =>
      obtain ⟨⟨_, after⟩, performed, done⟩ := exists_of_bind_ok acted
      cases done
      have same := congrArg NodeIterator.progress (sound.alike_perform performed).same
      rw [progress_bare, progress_bare] at same
      exact (congrArg Progress.restartable same).symm.trans frozen
  | setRestartable restartable =>
    cases acted
    cases restartable with
    | false => exact restartable_setRestartable iterator false
    | true => exact absurd rfl other
  | clone =>
    rw [NodeIterator.act] at acted
    cases cloned : iterator.clone with
    | ok copy =>
      rw [cloned] at acted
      cases acted
      exact restartable_clone cloned
    | error error =>
      rw [cloned] at acted
      cases acted
      exact frozen

end NodeIterator

namespace Plan

variable {tree : Tree} {plan : Plan} {iterator : NodeIterator} {start : Option Handle}
  {restartable : Bool}

/-! ### Levels in step -/

open NodeIterator

/-- **The bookkeeping of every level of a station.** -/
theorem progress_levels_station (plan : Plan) {settled : Bool}
    (home : settled → start = some Handle.root) :
    ∀ level ∈ (plan.station tree start restartable).levels settled,
      level.part.progress = { start := level.home start, restartable } := by
  have here : (if settled then some Handle.root else start) = start := by
    split
    · rename_i kept
      exact (home kept).symm
    · rfl
  induction plan generalizing start settled with
  | axis direction =>
    refine List.forall_mem_singleton.mpr ?_
    rw [Level.home, here]
    rfl
  | list nodes =>
    refine List.forall_mem_singleton.mpr ?_
    rw [Level.home, here]
    rfl
  | lookup table values =>
    refine List.forall_mem_singleton.mpr ?_
    rw [Level.home, here]
    rfl
  | union parts ih =>
    rw [station, stationAll_eq_map]
    refine forall_levels_union.mpr ⟨?_, List.forall_mem_map.mpr fun part member => ?_⟩
    · rw [Level.home, here]
      rfl
    · exact ih part member home here
  | nodeSet source ih =>
    rw [station]
    refine forall_levels_nodeSet.mpr ?_
    rw [dependence_station]
    by_cases independent : source.isIndependent
    · -- Such a node set is settled, and the start node of its source is the document.
      rw [if_pos independent, startOf_of_independent independent, beq_self_eq_true, Bool.or_true]
      refine ⟨rfl, fun level member => ?_⟩
      have kept := settled_of_mem_levels level member
      rw [ih (fun _ => rfl) rfl level member, Level.home, Level.home, kept]
      rfl
    · have same : (settled || Dependence.startNode == .independent) = settled := Bool.or_false _
      rw [if_neg independent, startOf_of_dependent independent, same]
      refine ⟨?_, ih home here⟩
      rw [Level.home, here]
      rfl

/-- **The bookkeeping of every level**, positions apart. -/
theorem progress_levels (stands : iterator.bare = plan.station tree start restartable) :
    ∀ level ∈ iterator.levels false,
      level.part.progress.rewind = { start := level.home start, restartable } := by
  intro level member
  have within : (⟨level.part.bare, level.settled⟩ : Level) ∈
      (plan.station tree start restartable).levels false := by
    rw [← stands, levels_bare]
    exact List.mem_map.mpr ⟨level, member, rfl⟩
  have adrift : false = true → start = some Handle.root := nofun
  rw [← progress_bare]
  exact progress_levels_station plan adrift _ within

/-- The start node of every level. -/
theorem start_levels (stands : iterator.bare = plan.station tree start restartable) :
    ∀ level ∈ iterator.levels false, level.part.progress.start = level.home start :=
  fun level member => congrArg Progress.start (progress_levels stands level member)

/-- **In step, all levels are in lockstep.** -/
theorem InStep.lockstep (inStep : plan.InStep tree iterator) : iterator.Lockstep := by
  obtain ⟨_, start, restartable, stands⟩ := inStep
  have flags : ∀ level ∈ iterator.levels false,
      level.part.progress.restartable = restartable := fun level member =>
    congrArg Progress.restartable (progress_levels stands level member)
  have starts := start_levels stands
  obtain ⟨outermost, within, same, spread⟩ := iterator.exists_outermost
  refine ⟨fun level member => ?_, fun level member => ?_⟩
  · rw [← same, flags level member, flags outermost within]
  · rw [← same, starts level member, starts outermost within]
    by_cases settled : outermost.settled
    · rw [Level.home, Level.home, spread settled level member]
      rfl
    · have adrift : outermost.home start = start := if_neg settled
      rw [adrift]

/-- A node of the tree reaches every level that is not settled, if the iterator may restart. -/
theorem InStep.bind_levels (inStep : plan.InStep tree iterator) (linked : tree.Linked)
    (allowed : iterator.progress.restartable = true) {node : Handle} (member : node < tree.size) :
    ∃ bound, iterator.bind node = .ok bound ∧
      ∀ level ∈ bound.value.levels false, level.part.progress.start = level.home (some node) := by
  obtain ⟨sound, start, restartable, stands⟩ := inStep
  obtain ⟨outermost, within, same, _⟩ := iterator.exists_outermost
  have flag : iterator.progress.restartable = restartable := by
    rw [← same]
    exact congrArg Progress.restartable (progress_levels stands outermost within)
  rw [flag] at allowed
  subst allowed
  by_cases known : start = some node
  · subst known
    obtain ⟨log, ignored⟩ := bind_of_refused plan stands (.inr rfl)
    exact ⟨_, ignored, start_levels stands⟩
  · rcases bind_station linked plan sound stands known with ⟨bound, taken, after⟩ | ⟨outside, _⟩
    · exact ⟨bound, taken, start_levels after⟩
    · exact absurd member (Nat.not_lt_of_le outside)

/-! ### Runs -/

/-- **Forbidden start nodes stay forbidden at every level** along a run without a permission. -/
theorem frozen_record (inStep : plan.InStep tree iterator) (linked : tree.Linked)
    (frozen : iterator.progress.restartable = false) {actions : List Action} {entries : List Entry}
    (others : .setRestartable true ∉ actions) (recorded : iterator.record actions = .ok entries) :
    ∀ held ∈ iterator :: entries.map Entry.after,
      held.Lockstep ∧ held.progress.restartable = false := by
  have here : iterator.Lockstep ∧ iterator.progress.restartable = false :=
    ⟨inStep.lockstep, frozen⟩
  induction actions generalizing iterator entries with
  | nil =>
    cases recorded
    exact List.forall_mem_singleton.mpr here
  | cons action rest ih =>
    obtain ⟨entry, acted, more⟩ := exists_of_bind_ok recorded
    obtain ⟨later, recordedLater, done⟩ := exists_of_bind_ok more
    cases done
    have after := inStep.run linked (run_of_act acted)
    have still := frozen_act inStep.sound frozen
      (fun same => others (same ▸ List.mem_cons_self)) acted
    refine List.forall_mem_cons.mpr ⟨here, ?_⟩
    exact ih after still (fun member => others (List.mem_cons_of_mem _ member)) recordedLater
      ⟨after.lockstep, still⟩

/-- **All levels stay in lockstep.** They share one permission and, unless they are settled, one
start node. A clone ignores start nodes at every depth until it is permitted to restart. -/
theorem lockstep_of_run (built : tree.Built) (plan : Plan) :
    ∃ fresh, plan.make tree = .ok fresh ∧
      ∀ iterator, fresh.Run iterator →
        iterator.Lockstep ∧
        (∃ copy, iterator.clone = .ok copy ∧
          ∀ actions entries, .setRestartable true ∉ actions → copy.record actions = .ok entries →
            ∀ held ∈ copy :: entries.map Entry.after, ∀ part ∈ held.parts, ∀ node,
              ∃ log, part.bind node = .ok ⟨part, log⟩) ∧
        (∀ part ∈ (iterator.setRestartable true).parts, part.progress.restartable = true) ∧
        ∀ node, node < tree.size →
          ∃ bound, (iterator.setRestartable true).bind node = .ok bound ∧
            ∀ level ∈ bound.value.levels false,
              level.part.progress.start = some (if level.settled then Handle.root else node) := by
  have linked := built.linked
  obtain ⟨fresh, made, sound, stands⟩ := make_station linked plan
  refine ⟨fresh, made, fun iterator run => ?_⟩
  have inStep : plan.InStep tree iterator := InStep.run ⟨sound, none, true, stands⟩ linked run
  have permitted := inStep.step linked (.setRestartable true)
  have flag := restartable_setRestartable iterator true
  refine ⟨inStep.lockstep, ?_, fun part member => ?_, fun node member => ?_⟩
  · obtain ⟨copy, cloned⟩ := inStep.exists_clone
    refine ⟨copy, cloned, fun actions entries others recorded held member => ?_⟩
    obtain ⟨lockstep, frozen⟩ := frozen_record (inStep.step linked (.clone cloned)) linked
      (restartable_clone cloned) others recorded held member
    exact lockstep.ignores frozen
  · obtain ⟨level, within, rfl⟩ := exists_level_of_mem_parts member
    exact (permitted.lockstep.restartable level within).trans flag
  · obtain ⟨bound, taken, starts⟩ := permitted.bind_levels linked flag member
    refine ⟨bound, taken, fun level within => ?_⟩
    rw [starts level within, Level.home]
    split <;> rfl

/-- A walk beside the node set of a lookup is told a node and cloned. The clone ignores another node
until it may restart, and then takes it at every level but the node set and the lookup. -/
theorem lockstep_of_run_mixed :
    ∃ fresh bound copy entries again,
      (Plan.union [.axis .child, .nodeSet (.lookup { name := "k" } [])]).make
          (.ofDocument (.text "a" (.comment "b" .empty))) = .ok fresh ∧
        (fresh.setRestartable true).bind 1 = .ok bound ∧ bound.value.Lockstep ∧
        bound.value.clone = .ok copy ∧ copy.record [.call (.bind 2)] = .ok entries ∧
        (∀ held ∈ copy :: entries.map Entry.after, ∀ part ∈ held.parts, ∀ node,
          ∃ log, part.bind node = .ok ⟨part, log⟩) ∧
        (copy.setRestartable true).bind 2 = .ok again ∧
        ∀ level ∈ again.value.levels false,
          level.part.progress.start = some (if level.settled then Handle.root else 2) := by
  obtain ⟨fresh, made, always⟩ := lockstep_of_run
    (Tree.built_ofDocument (.text "a" (.comment "b" .empty)))
    (.union [.axis .child, .nodeSet (.lookup { name := "k" } [])])
  obtain ⟨bound, taken, _⟩ := (always fresh .refl).2.2.2 1 (by decide)
  have run : fresh.Run bound.value := (Relation.ReflTransGen.single (.setRestartable true)).tail
    (.bind taken)
  obtain ⟨lockstep, ⟨copy, cloned, silent⟩, _⟩ := always bound.value run
  obtain ⟨log, ignored⟩ := silent [] [] nofun rfl copy List.mem_cons_self copy copy.mem_parts_self 2
  have recorded : copy.record [.call (.bind 2)] = .ok [⟨.call (.bind 2), none, log, copy⟩] := by
    rw [record, act, ignored]
    rfl
  obtain ⟨again, takenAgain, starts⟩ := (always copy (run.tail (.clone cloned))).2.2.2 2 (by decide)
  exact ⟨fresh, bound, copy, _, again, made, taken, lockstep, cloned, recorded,
    silent _ _ (by simp) recorded, takenAgain, starts⟩

end Plan

end XPathWalk

/-
**Branches that are added to a bound union.**

A union hands a start node on to its branches when it takes one, and it does not take the one that
it has again. A branch that is added behind the start node is late: it has none until the union
takes another one. Reading comes to a fault where a late branch begins, also after rewinding and
after offering the same start node once more. A bound union without late branches covers them all.

* `Growth.perform`: the calls on a union of walks, which may add further walks to it;
* `Growth.forms`: the start node and the axis of every branch;
* `Growth.Covers`: a union of walks with these, read as far as its position says;
* `bindAll_walks`: taking a start node covers every branch;
* `coverage_of_run`: bind a union of fresh walks, read it, rewind it and add further fresh walks in
  any order. When it has a start node, the covered branches have it too, and the late ones have
  none. Offering that node again changes nothing. The union yields the nodes of the covered branches
  and then fails at the first late one, also after rewinding. Without late branches it yields the
  nodes of all branches. Other calls never fail, except for a start node that is not in the tree;
* `late_branch_fails`: a bound union that cannot be read.
-/

import XPathWalk.Proofs.Positions
import XPathWalk.Proofs.Restarts

namespace XPathWalk

/-! ### Definitions -/

/-- A call on a union of walks. -/
inductive GrowthCall where
  | bind (node : Handle)
  | next
  | rewind
  /-- Adds a fresh walk. -/
  | withBranch (axis : Axis)
  deriving DecidableEq, Repr

/-- The axis of the branch that a call adds, if it adds one. -/
def GrowthCall.axis? : GrowthCall → Option Axis
  | .withBranch axis => some axis
  | .bind _ | .next | .rewind => none

/-- A union of walks and their axes. -/
structure Growth where
  iterator : NodeIterator
  /-- The axes of the branches that were there when the union took its start node. -/
  covered : List Axis := []
  /-- The axes of the branches behind them. -/
  late : List Axis

namespace Growth

/-- The union of fresh walks over one tree. -/
def of (tree : Tree) (axes : List Axis) : Growth :=
  { iterator := .ofBranches (axes.map (.ofAxis tree)), late := axes }

/-- The start node of the union. -/
def start (growth : Growth) : Option Handle := growth.iterator.progress.start

/-- The start node and the axis of every branch. -/
def forms (growth : Growth) : List (Option Handle × Axis) :=
  growth.covered.map (growth.start, ·) ++ growth.late.map (none, ·)

/-- The nodes of the covered branches at a start node, one branch after another. -/
def nodes (tree : Tree) (growth : Growth) (start : Handle) : List Handle :=
  growth.covered.flatMap fun axis => tree.axisNodes axis start

/-- The effect of a call. -/
def perform (tree : Tree) (growth : Growth) : GrowthCall → Except Fault Growth
  | .bind node => do
    let bound ← growth.iterator.bind node
    if growth.iterator.progress.accepts node then
      return { iterator := bound.value, covered := growth.covered ++ growth.late, late := [] }
    else
      return { growth with iterator := bound.value }
  | .next => do
    let (_, iterator) ← growth.iterator.next
    return { growth with iterator }
  | .rewind => return { growth with iterator := ← growth.iterator.rewind }
  | .withBranch axis =>
    match growth.iterator.withBranch? (.ofAxis tree axis) with
    | some iterator => .ok { growth with iterator, late := growth.late ++ [axis] }
    | none => .ok growth

/-- The effect of calls in a row. -/
def run (tree : Tree) (growth : Growth) (calls : List GrowthCall) : Except Fault Growth :=
  calls.foldlM (perform tree) growth

/-- The bare walk with a start node and an axis. -/
def walkAt (tree : Tree) (form : Option Handle × Axis) : NodeIterator :=
  (Plan.axis form.2).station tree form.1 true

open NodeIterator

/-- A union whose branches walk the axes that they should from the start nodes that they should. It
has yielded as many of their nodes as its position says. -/
structure Covers (tree : Tree) (growth : Growth) (branches : List NodeIterator) (place : Place) :
    Prop where
  iterator : growth.iterator = .union branches place
  stands : branches.map bare = growth.forms.map (walkAt tree)
  restartable : place.progress.restartable = true
  unbound : growth.start = none → growth.covered = []
  along : (union branches place).Along (contentsAll branches)
  counted : place.progress.position ≤ (contentsAll branches).nodes.length
  inside : place.current ≤ branches.length

end Growth

/-! ### Branches at the end of a union -/

theorem Outlook.append_assoc (first second third : Outlook) :
    first ++ second ++ third = first ++ (second ++ third) := by
  obtain ⟨nodes, fault⟩ := first
  obtain ⟨more, behind⟩ := second
  cases fault with
  | some fault => rfl
  | none =>
    cases behind with
    | some behind => rfl
    | none => exact congrArg (Outlook.mk · third.fault) (List.append_assoc nodes more third.nodes)

/-- What is appended stays behind what is left. -/
theorem Outlook.behind_append {first : Outlook} {count : Nat} (within : count ≤ first.nodes.length)
    (second : Outlook) : (first ++ second).behind count = first.behind count ++ second := by
  obtain ⟨nodes, fault⟩ := first
  cases fault with
  | some fault => rfl
  | none =>
    exact congrArg (Outlook.mk · second.fault) (List.drop_append_of_le_length within)

/-- Appending takes no node away. -/
theorem Outlook.length_le_append (first second : Outlook) :
    first.nodes.length ≤ (first ++ second).nodes.length := by
  obtain ⟨nodes, fault⟩ := first
  cases fault with
  | some fault => exact Nat.le_refl _
  | none =>
    show nodes.length ≤ (nodes ++ second.nodes).length
    rw [List.length_append]
    exact Nat.le_add_right _ _

namespace NodeIterator

variable {branches others rest : List NodeIterator}

theorem contentsAll_append :
    contentsAll (branches ++ others) = contentsAll branches ++ contentsAll others := by
  induction branches with
  | nil => rfl
  | cons branch rest ih =>
    rw [List.cons_append, contentsAll, contentsAll, ih, Outlook.append_assoc]

theorem aheadFrom_append {current : Nat} (inside : current ≤ branches.length) :
    aheadFrom (branches ++ others) current = aheadFrom branches current ++ aheadFrom others 0 := by
  induction branches generalizing current with
  | nil =>
    cases Nat.le_zero.mp inside
    rfl
  | cons branch rest ih =>
    cases current with
    | zero =>
      rw [List.cons_append, aheadFrom, aheadFrom, ih (Nat.zero_le _), Outlook.append_assoc]
    | succ current =>
      rw [List.cons_append, aheadFrom, aheadFrom, ih (Nat.le_of_succ_le_succ inside)]

/-- Branches that all begin are at the beginning together. -/
theorem aheadFrom_zero (each : ∀ branch ∈ branches, branch.ahead = branch.contents) :
    aheadFrom branches 0 = contentsAll branches := by
  induction branches with
  | nil => rfl
  | cons branch rest ih =>
    obtain ⟨first, others⟩ := List.forall_mem_cons.mp each
    rw [aheadFrom, contentsAll, first, ih others]

/-- Reading does not leave the branches. -/
theorem nextFrom_inside {found : Option Handle} {current behind : Nat}
    (advanced : nextFrom branches current = .ok (found, rest, behind))
    (inside : current ≤ branches.length) : behind ≤ rest.length := by
  induction branches generalizing current rest behind with
  | nil =>
    cases advanced
    exact inside
  | cons branch branches ih =>
    cases current with
    | succ current =>
      obtain ⟨⟨_, _, _⟩, step, done⟩ := exists_of_bind_ok advanced
      cases done
      exact Nat.succ_le_succ (ih step (Nat.le_of_succ_le_succ inside))
    | zero =>
      obtain ⟨⟨answer, after⟩, step, done⟩ := exists_of_bind_ok advanced
      cases answer with
      | some node =>
        cases done
        exact Nat.zero_le _
      | none =>
        obtain ⟨⟨_, _, _⟩, later, done⟩ := exists_of_bind_ok done
        cases done
        exact Nat.succ_le_succ (ih later (Nat.zero_le _))

theorem start_bare (iterator : NodeIterator) :
    iterator.bare.progress.start = iterator.progress.start := by
  cases iterator <;> rfl

/-- Where every branch takes a start node, all of them do. -/
theorem exists_bindAll {node : Handle}
    (each : ∀ branch ∈ branches, ∃ bound, branch.bind node = .ok bound) :
    ∃ bound, bindAll node branches = .ok bound := by
  induction branches with
  | nil => exact ⟨_, rfl⟩
  | cons branch rest ih =>
    obtain ⟨⟨bound, taken⟩, others⟩ := List.forall_mem_cons.mp each
    obtain ⟨more, takenMore⟩ := ih others
    exact ⟨_, bindAll_cons taken takenMore⟩

end NodeIterator

namespace Growth

open NodeIterator

variable {tree : Tree} {growth after : Growth} {branches : List NodeIterator} {place : Place}

/-! ### Branches that walk -/

/-- Branches that have a start node yield the nodes of their axes there. -/
theorem contentsAll_covered (tree : Tree) (node : Handle) (axes : List Axis) :
    contentsAll ((axes.map (some node, ·)).map (walkAt tree)) =
      ⟨axes.flatMap fun axis => tree.axisNodes axis node, none⟩ := by
  induction axes with
  | nil => rfl
  | cons axis rest ih =>
    rw [List.map_cons, List.map_cons, contentsAll, ih, List.flatMap_cons]
    rfl

/-- Branches that have none cannot be read. -/
theorem contentsAll_late (tree : Tree) (axes : List Axis) :
    contentsAll ((axes.map (none, ·)).map (walkAt tree)) =
      ⟨[], axes.head?.map .unboundAxis⟩ := by
  cases axes <;> rfl

/-- What a union of walks yields from the beginning. -/
theorem Covers.contents_eq (covers : growth.Covers tree branches place) :
    contentsAll branches =
      ⟨growth.start.elim [] (growth.nodes tree), growth.late.head?.map .unboundAxis⟩ := by
  have same : contentsAll (branches.map bare) = contentsAll branches :=
    contentsAll_map fun branch _ => contents_bare branch
  rw [← same, covers.stands, forms, List.map_append, contentsAll_append, contentsAll_late]
  cases bound : growth.start with
  | none =>
    rw [covers.unbound bound]
    rfl
  | some node =>
    rw [contentsAll_covered, Option.elim_some, nodes]
    exact congrArg (Outlook.mk · _) (List.append_nil _)

/-- **Taking a start node covers every branch**, and every branch begins. -/
theorem bindAll_walks {node : Handle} {forms : List (Option Handle × Axis)}
    {bound : Logged (List NodeIterator)} (linked : tree.Linked)
    (others : ∀ form ∈ forms, form.1 ≠ some node) (sound : ∀ branch ∈ branches, branch.Sound)
    (stands : branches.map bare = forms.map (walkAt tree))
    (taken : bindAll node branches = .ok bound) :
    bound.value.map bare = (forms.map fun form => (some node, form.2)).map (walkAt tree) ∧
      ∀ branch ∈ bound.value, branch.ahead = branch.contents := by
  induction forms generalizing branches bound with
  | nil =>
    cases List.map_eq_nil_iff.mp stands
    cases taken
    exact ⟨rfl, fun _ member => absurd member List.not_mem_nil⟩
  | cons form forms ih =>
    cases branches with
    | nil => cases stands
    | cons branch rest =>
      obtain ⟨other, others⟩ := List.forall_mem_cons.mp others
      obtain ⟨soundHere, soundOthers⟩ := List.forall_mem_cons.mp sound
      injection stands with first second
      obtain ⟨here, takenHere, more⟩ := exists_of_bind_ok taken
      obtain ⟨_, takenOthers, done⟩ := exists_of_bind_ok more
      cases done
      obtain ⟨standsOthers, begun⟩ := ih others soundOthers second takenOthers
      -- A walk with another start node, or with none, accepts this one.
      have standsHere : here.value.bare = walkAt tree (some node, form.2) :=
        (Plan.bind_station linked (.axis form.2) soundHere first other).of_ok takenHere
      have ahead : here.value.ahead = here.value.contents := by
        rw [Plan.ahead_bind linked (.axis form.2) soundHere first other takenHere,
          ← contents_bare, standsHere]
        rfl
      exact ⟨List.cons_eq_cons.mpr ⟨standsHere, standsOthers⟩,
        List.forall_mem_cons.mpr ⟨ahead, begun⟩⟩

/-! ### Calls -/

/-- A union of fresh walks covers none of them. -/
theorem covers_of (linked : tree.Linked) (axes : List Axis) :
    (of tree axes).Covers tree (axes.map (.ofAxis tree)) {} where
  iterator := rfl
  stands := by
    rw [forms, of, List.map_nil, List.nil_append, List.map_map, List.map_map]
    rfl
  restartable := rfl
  unbound _ := rfl
  along := by
    refine ⟨.union fun branch member => ?_, aheadFrom_zero fun branch member => ?_⟩
    · obtain ⟨axis, _, rfl⟩ := List.mem_map.mp member
      exact sound_ofAxis linked axis
    · obtain ⟨axis, _, rfl⟩ := List.mem_map.mp member
      rfl
  counted := Nat.zero_le _
  inside := Nat.zero_le _

theorem Covers.start_eq (covers : growth.Covers tree branches place) :
    growth.start = place.progress.start := by
  rw [Growth.start, covers.iterator]
  rfl

/-- A node that is not the start node of the union is that of no branch. -/
theorem forms_other {node : Handle} (other : growth.start ≠ some node) :
    ∀ form ∈ growth.forms, form.1 ≠ some node := by
  intro form member
  rcases List.mem_append.mp member with member | member
  · obtain ⟨axis, _, rfl⟩ := List.mem_map.mp member
    exact other
  · obtain ⟨axis, _, rfl⟩ := List.mem_map.mp member
    exact (Option.some_ne_none node).symm

/-- Moving on along the contents leaves the branches what they are. -/
theorem Covers.moved (covers : growth.Covers tree branches place) {others : List NodeIterator}
    {there : Place} (same : (union others there).bare = growth.iterator.bare)
    (along : (union others there).Along (contentsAll branches))
    (counted : there.progress.position ≤ (contentsAll branches).nodes.length)
    (inside : there.current ≤ others.length) :
    { growth with iterator := .union others there }.Covers tree others there := by
  rw [covers.iterator] at same
  have contents : contentsAll others = contentsAll branches := contents_eq_of_bare same
  injection same with bares bookkeeping
  have rewound : there.progress.rewind = place.progress.rewind :=
    congrArg Place.progress bookkeeping
  have start : there.progress.start = growth.start :=
    (congrArg Progress.start rewound :).trans covers.start_eq.symm
  refine ⟨rfl, ?_, ?_, ?_, contents ▸ along, contents ▸ counted, inside⟩
  · rw [← bareAll_eq_map, bares, bareAll_eq_map, covers.stands, forms, forms, ← start]
    rfl
  · exact (congrArg Progress.restartable rewound).trans covers.restartable
  · intro missing
    exact covers.unbound (start.symm.trans missing)

theorem Covers.next {found : Option Handle} {rest : NodeIterator}
    (covers : growth.Covers tree branches place)
    (advanced : growth.iterator.next = .ok (found, rest)) :
    ∃ branches place, { growth with iterator := rest }.Covers tree branches place := by
  have same := bare_next advanced
  rw [covers.iterator] at advanced
  obtain ⟨onward, entry⟩ := covers.along.next advanced
  cases advances_of_next advanced with
  | union step =>
    refine ⟨_, _, covers.moved same onward ?_ (nextFrom_inside step covers.inside)⟩
    cases found with
    | none => exact covers.counted
    | some node => exact (List.getElem?_eq_some_iff.mp entry.symm).1

theorem Covers.rewind {rest : NodeIterator} (covers : growth.Covers tree branches place)
    (rewound : growth.iterator.rewind = .ok rest) :
    ∃ branches place, { growth with iterator := rest }.Covers tree branches place := by
  have same := bare_rewind rewound
  rw [covers.iterator] at rewound
  obtain ⟨onward, _⟩ := along_rewind covers.along.sound rewound
  cases rewinds_of_rewind rewound with
  | union each => exact ⟨_, _, covers.moved same onward (Nat.zero_le _) (Nat.zero_le _)⟩

/-- The start node that a union has leaves it as it is. -/
theorem Covers.bind_of_ignored {node : Handle} (covers : growth.Covers tree branches place)
    (ignored : ¬ growth.iterator.progress.accepts node) :
    growth.iterator.bind node = .ok { value := growth.iterator } := by
  rw [covers.iterator] at ignored ⊢
  exact if_neg ignored

/-- Another start node covers every branch. -/
theorem Covers.bind {node : Handle} {bound : Logged NodeIterator} (linked : tree.Linked)
    (covers : growth.Covers tree branches place)
    (accepted : growth.iterator.progress.accepts node)
    (taken : growth.iterator.bind node = .ok bound) :
    ∃ branches place,
      ({ iterator := bound.value, covered := growth.covered ++ growth.late, late := [] } :
        Growth).Covers tree branches place := by
  have sound := covers.along.sound
  rw [covers.iterator] at accepted taken
  have heeded : place.progress.accepts node := accepted
  rcases bind_union_ok taken with ⟨_, all, each, rfl⟩ | ⟨refused, _⟩
  case inr => exact absurd heeded refused
  have other : growth.start ≠ some node := by
    rw [covers.start_eq]
    intro equal
    simp [Progress.accepts, equal] at heeded
  obtain ⟨stands, first⟩ :=
    bindAll_walks linked (forms_other other) sound.branches covers.stands each
  refine ⟨all.value, place.bind node, rfl, ?_, covers.restartable, ?_, ⟨?_, ?_⟩, Nat.zero_le _,
    Nat.zero_le _⟩
  · rw [stands]
    simp [forms, Growth.start, NodeIterator.progress, Place.bind, Progress.bind, Function.comp_def]
  · rintro ⟨⟩
  · refine .union fun part member => ?_
    obtain ⟨branch, within, told, step, rfl⟩ := mem_bindAll each part member
    exact (sound.branches branch within).bind step
  · exact aheadFrom_zero first

/-- A branch that is added comes behind what is ahead. -/
theorem Covers.withBranch (linked : tree.Linked) (covers : growth.Covers tree branches place)
    (axis : Axis) :
    { growth with
      iterator := .union (branches ++ [ofAxis tree axis]) place
      late := growth.late ++ [axis] }.Covers tree (branches ++ [ofAxis tree axis]) place := by
  refine ⟨rfl, ?_, covers.restartable, ?_, ⟨?_, ?_⟩, ?_, ?_⟩
  · rw [List.map_append, covers.stands, forms, forms, covers.start_eq]
    simp [walkAt, Growth.start, NodeIterator.progress]
    rfl
  · intro missing
    exact covers.unbound (covers.start_eq.trans missing)
  · exact covers.along.sound.withBranch (sound_ofAxis linked axis) rfl
  · -- What has been read so far was read of the branches before it.
    rw [contentsAll_append, NodeIterator.progress, Outlook.behind_append covers.counted]
    have ahead : aheadFrom branches place.current = _ := covers.along.ahead
    rw [NodeIterator.ahead, aheadFrom_append covers.inside, ahead]
    rfl
  · rw [contentsAll_append]
    exact Nat.le_trans covers.counted (Outlook.length_le_append _ _)
  · rw [List.length_append]
    exact Nat.le_add_right_of_le covers.inside

/-- **Every call keeps the account of what a union covers.** -/
theorem Covers.perform (linked : tree.Linked) {call : GrowthCall}
    (covers : growth.Covers tree branches place) (done : growth.perform tree call = .ok after) :
    ∃ branches place, after.Covers tree branches place := by
  cases call with
  | bind node =>
    obtain ⟨bound, taken, chosen⟩ := exists_of_bind_ok done
    by_cases accepted : growth.iterator.progress.accepts node
    · rw [if_pos accepted] at chosen
      cases chosen
      exact covers.bind linked accepted taken
    · rw [if_neg accepted] at chosen
      cases chosen
      have ignored : growth.iterator.bind node = .ok { value := growth.iterator } :=
        covers.bind_of_ignored accepted
      cases taken.symm.trans ignored
      exact ⟨branches, place, covers⟩
  | next =>
    obtain ⟨_, advanced, same⟩ := exists_of_bind_ok done
    cases same
    exact covers.next advanced
  | rewind =>
    obtain ⟨_, rewound, same⟩ := exists_of_bind_ok done
    cases same
    exact covers.rewind rewound
  | withBranch axis =>
    rw [Growth.perform, covers.iterator] at done
    cases done
    exact ⟨_, _, covers.withBranch linked axis⟩

/-- What calls add to a union. -/
theorem axes_perform {call : GrowthCall} (covers : growth.Covers tree branches place)
    (done : growth.perform tree call = .ok after) :
    after.covered ++ after.late = growth.covered ++ growth.late ++ call.axis?.toList := by
  cases call with
  | bind node =>
    obtain ⟨bound, taken, chosen⟩ := exists_of_bind_ok done
    split at chosen
    · cases chosen
      simp [GrowthCall.axis?]
    · cases chosen
      simp [GrowthCall.axis?]
  | next =>
    obtain ⟨_, _, same⟩ := exists_of_bind_ok done
    cases same
    simp [GrowthCall.axis?]
  | rewind =>
    obtain ⟨_, _, same⟩ := exists_of_bind_ok done
    cases same
    simp [GrowthCall.axis?]
  | withBranch axis =>
    rw [Growth.perform, covers.iterator] at done
    cases done
    simp [GrowthCall.axis?]

/-- Calls in a row keep the account and add their branches. -/
theorem Covers.run (linked : tree.Linked) {calls : List GrowthCall}
    (covers : growth.Covers tree branches place) (ran : growth.run tree calls = .ok after) :
    (∃ branches place, after.Covers tree branches place) ∧
      after.covered ++ after.late =
        growth.covered ++ growth.late ++ calls.filterMap GrowthCall.axis? := by
  induction calls generalizing growth branches place with
  | nil =>
    cases ran
    exact ⟨⟨branches, place, covers⟩, (List.append_nil _).symm⟩
  | cons call rest ih =>
    obtain ⟨next, here, later⟩ := exists_of_bind_ok ran
    obtain ⟨_, _, further⟩ := covers.perform linked here
    obtain ⟨last, added⟩ := ih further later
    refine ⟨last, ?_⟩
    rw [added, axes_perform covers here, List.append_assoc]
    cases call <;> rfl

/-! ### Failing -/

/-- A node of the tree is taken or ignored. -/
theorem Covers.exists_bind (covers : growth.Covers tree branches place) {node : Handle}
    (member : node < tree.size) : ∃ bound, growth.iterator.bind node = .ok bound := by
  by_cases accepted : growth.iterator.progress.accepts node
  · rw [covers.iterator] at accepted ⊢
    have heeded : place.progress.accepts node := accepted
    have each : ∀ branch ∈ branches, ∃ bound, branch.bind node = .ok bound := by
      intro branch within
      have shape : branch.bare ∈ growth.forms.map (walkAt tree) := by
        rw [← covers.stands]
        exact List.mem_map_of_mem within
      obtain ⟨form, _, same⟩ := List.mem_map.mp shape
      obtain ⟨walk, rfl, rfl, _, _⟩ := exists_walk_of_bare same.symm
      obtain ⟨bound, taken⟩ := (covers.along.sound.branches _ within).walk.exists_bind member
      rw [NodeIterator.bind, taken]
      exact ⟨_, rfl⟩
    obtain ⟨bound, taken⟩ := exists_bindAll each
    exact ⟨_, bind_union heeded taken⟩
  · exact ⟨_, covers.bind_of_ignored accepted⟩

/-- Reading fails at the first late branch, when the nodes of the covered ones have been yielded. -/
theorem Covers.next_error_iff (covers : growth.Covers tree branches place) (fault : Fault) :
    growth.iterator.next = .error fault ↔
      (growth.start.elim [] (growth.nodes tree)).length ≤ growth.iterator.progress.position ∧
        growth.late.head?.map .unboundAxis = some fault := by
  rw [covers.iterator, covers.along.next_error_iff, covers.contents_eq]

/-- **Only reading fails at late branches**, and binding outside the tree. -/
theorem Covers.perform_error {call : GrowthCall} {fault : Fault}
    (covers : growth.Covers tree branches place)
    (failed : growth.perform tree call = .error fault) :
    call = .next ∧ growth.late ≠ [] ∨ ∃ node, tree.size ≤ node ∧ call = .bind node := by
  cases call with
  | bind node =>
    rcases Nat.lt_or_ge node tree.size with member | outside
    · obtain ⟨bound, taken⟩ := covers.exists_bind member
      rw [Growth.perform, taken, ok_bind] at failed
      split at failed <;> cases failed
    · exact .inr ⟨node, outside, rfl⟩
  | next =>
    cases advanced : growth.iterator.next with
    | error fault =>
      obtain ⟨_, behind⟩ := (covers.next_error_iff fault).mp advanced
      refine .inl ⟨rfl, ?_⟩
      intro none_late
      rw [none_late] at behind
      cases behind
    | ok answer =>
      rw [Growth.perform, advanced] at failed
      cases failed
  | rewind =>
    obtain ⟨rewound, begun, _⟩ := rewind_sees covers.along.sound
    rw [Growth.perform, covers.iterator, begun] at failed
    cases failed
  | withBranch axis =>
    rw [Growth.perform, covers.iterator] at failed
    cases failed

/-! ### What a union covers -/

/-- The start nodes of the branches. -/
theorem Covers.starts (covers : growth.Covers tree branches place) :
    branches.map (fun branch => branch.progress.start) =
      growth.covered.map (fun _ => growth.start) ++ growth.late.map fun _ => none := by
  have same := congrArg (List.map fun branch : NodeIterator => branch.progress.start) covers.stands
  rw [List.map_map, List.map_map] at same
  calc branches.map (fun branch => branch.progress.start)
      = branches.map ((fun branch : NodeIterator => branch.progress.start) ∘ bare) :=
        List.map_congr_left fun branch _ => (start_bare branch).symm
    _ = growth.forms.map ((fun branch : NodeIterator => branch.progress.start) ∘ walkAt tree) :=
        same
    _ = growth.covered.map (fun _ => growth.start) ++ growth.late.map fun _ => none := by
        rw [forms, List.map_append, List.map_map, List.map_map]
        rfl

/-- **A bound union covers the branches that were there when it took its start node.** Reading it
comes to a fault at the first branch that was added later, if there is one. -/
theorem coverage_of_run {tree : Tree} (built : tree.Built) (axes : List Axis)
    (calls : List GrowthCall) (growth : Growth)
    (ran : (Growth.of tree axes).run tree calls = .ok growth) :
    growth.covered ++ growth.late = axes ++ calls.filterMap GrowthCall.axis? ∧
      (∀ node, growth.start = some node →
        (∃ branches place, growth.iterator = .union branches place ∧
          branches.map (fun branch => branch.progress.start) =
            growth.covered.map (fun _ => some node) ++ growth.late.map fun _ => none) ∧
        growth.iterator.bind node = .ok { value := growth.iterator } ∧
        (∀ fault, growth.iterator.next = .error fault ↔
          (growth.nodes tree node).length ≤ growth.iterator.progress.position ∧
            growth.late.head?.map .unboundAxis = some fault) ∧
        (∃ rewound, growth.iterator.rewind = .ok rewound ∧
          rewound.Reads ⟨growth.nodes tree node, growth.late.head?.map .unboundAxis⟩) ∧
        (growth.late = [] → growth.iterator.whole = .ok (growth.nodes tree node))) ∧
      ∀ call fault, growth.perform tree call = .error fault →
        call = .next ∧ growth.late ≠ [] ∨ ∃ node, tree.size ≤ node ∧ call = .bind node := by
  obtain ⟨⟨branches, place, covers⟩, added⟩ :=
    (covers_of built.linked axes).run built.linked ran
  refine ⟨added, ?_, fun call fault => covers.perform_error⟩
  intro node bound
  have sound : growth.iterator.Sound := by
    rw [covers.iterator]
    exact covers.along.sound
  have contents : growth.iterator.contents =
      ⟨growth.nodes tree node, growth.late.head?.map .unboundAxis⟩ := by
    rw [covers.iterator]
    exact covers.contents_eq.trans (by rw [bound]; rfl)
  refine ⟨⟨branches, place, covers.iterator, bound ▸ covers.starts⟩,
    covers.bind_of_ignored ?_, fun fault => ?_, ?_, fun none_late => ?_⟩
  · have begun : growth.iterator.progress.start = some node := bound
    simp [Progress.accepts, begun]
  · rw [covers.next_error_iff, bound]
    rfl
  · obtain ⟨rewound, begun, seen⟩ := rewind_sees sound
    exact ⟨rewound, begun, reads_of_sees (contents ▸ seen)⟩
  · rw [whole_eq_iff sound, contents, none_late]
    rfl

/-- A branch that was late is covered with the next start node. -/
theorem coverage_of_run_rebound :
    ∃ growth,
      (Growth.of (.ofDocument (.element "a" [] (.text "x" .empty) .empty)) [.child]).run
        (.ofDocument (.element "a" [] (.text "x" .empty) .empty))
        [.bind Handle.root, .withBranch .self, .next, .bind 1] = .ok growth ∧
      growth.start = some 1 ∧ growth.iterator.whole = .ok [2, 1] := by
  obtain ⟨_, covered, _⟩ := coverage_of_run
    (Tree.built_ofDocument (.element "a" [] (.text "x" .empty) .empty)) [.child]
    [.bind Handle.root, .withBranch .self, .next, .bind 1] _ rfl
  obtain ⟨_, _, _, _, whole⟩ := covered 1 rfl
  exact ⟨_, rfl, rfl, whole rfl⟩

/-- **A bound union that cannot be read.** A branch is added behind the start node, and the start
node is offered again. From the beginning, the union fails where it should yield its start node. -/
theorem late_branch_fails :
    ∃ growth,
      (Growth.of (.ofDocument (.element "a" [] .empty .empty)) [.child]).run
        (.ofDocument (.element "a" [] .empty .empty))
        [.bind Handle.root, .withBranch .self, .bind Handle.root] = .ok growth ∧
      growth.start = some Handle.root ∧
      growth.iterator.whole = .error (.unboundAxis .self) :=
  ⟨_, rfl, rfl, rfl⟩

end Growth

end XPathWalk

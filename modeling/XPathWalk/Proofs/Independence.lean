/-
**Independence of the start node is kept.**

An iterator tells whether it hangs on its start node by what it is made of. One that says it does
not is made of lookups, of unions with at least one branch, and of node sets, and each of these node
sets was bound to the document when it was made and stays there. So no start node changes what comes
out of it, whichever parts take the start node and whichever ignore it.

* `NodeIterator.Free`: an iterator made of such parts;
* `dependence_bind`, `dependence_setRestartable`, `dependence_clone`: no call changes what an
  iterator tells about itself;
* `Free.bind`: every start node is taken or ignored without a fault, and the contents stay;
* `Reachable.free`: whatever tells that it is independent is made of such parts;
* `whole_of_independent`: so it yields its whole sequence without a fault. It takes or ignores any
  start node, whether or not that lies in a tree, and has the same whole sequence then. It can be
  cloned, and its clone tells the same about itself and has the same whole sequence.
-/

import XPathWalk.Proofs.Copies
import XPathWalk.Proofs.Refusals

namespace XPathWalk

namespace NodeIterator

/-! ### What an iterator tells about itself -/

/-- A union is independent if it has branches and all of them are. -/
theorem dependence_union_eq_independent_iff {branches : List NodeIterator} {place : Place} :
    (union branches place).dependence = .independent ↔
      branches ≠ [] ∧ ∀ branch ∈ branches, branch.dependence = .independent := by
  rw [dependence, allIndependent_eq_all]
  simp

theorem dependence_bindAll {branches : List NodeIterator} {node : Handle}
    {bound : Logged (List NodeIterator)}
    (each : ∀ branch ∈ branches, ∀ after, branch.bind node = .ok after →
      after.value.dependence = branch.dependence)
    (taken : bindAll node branches = .ok bound) :
    bound.value.map dependence = branches.map dependence := by
  induction branches generalizing bound with
  | nil =>
    cases taken
    rfl
  | cons branch rest ih =>
    obtain ⟨first, others⟩ := List.forall_mem_cons.mp each
    obtain ⟨_, here, more⟩ := exists_of_bind_ok taken
    obtain ⟨_, later, done⟩ := exists_of_bind_ok more
    cases done
    rw [List.map_cons, List.map_cons, first _ here, ih others later]

/-- Taking a start node does not change what an iterator tells about itself. -/
theorem dependence_bind {iterator : NodeIterator} {node : Handle} {bound : Logged NodeIterator}
    (taken : iterator.bind node = .ok bound) :
    bound.value.dependence = iterator.dependence := by
  induction iterator generalizing bound with
  | axis walk =>
    obtain ⟨_, _, done⟩ := exists_of_bind_ok taken
    cases done
    rfl
  | fixed list =>
    cases taken
    show (FixedList.bind list node).dependence = list.dependence
    unfold FixedList.bind
    split <;> rfl
  | union branches place ih =>
    rcases bind_union_ok taken with ⟨_, _, each, rfl⟩ | ⟨_, rfl⟩
    · exact dependence_union_congr place _
        (dependence_bindAll (fun branch member _ => ih branch member) each)
    · rfl
  | nodeSet source replay ih =>
    rcases bind_nodeSet_ok taken with
      ⟨_, same⟩ | ⟨_, _, _, drained, _, here, begun, all, same⟩
    · rw [same]
    · rw [same]
      show drained.dependence = source.dependence
      rw [← dependence_bare drained, bare_drain all, bare_rewind begun, dependence_bare, ih here]

/-- Allowing or forbidding further start nodes does not change it either. -/
theorem dependence_setRestartable (iterator : NodeIterator) (restartable : Bool) :
    (iterator.setRestartable restartable).dependence = iterator.dependence := by
  induction iterator with
  | axis walk => rfl
  | fixed list => rfl
  | union branches place ih =>
    refine dependence_union_congr place _ ?_
    rw [setRestartableAll_eq_map, List.map_map]
    exact List.map_congr_left ih
  | nodeSet source replay ih => exact ih

/-- **A clone tells the same about itself.** -/
theorem dependence_clone {iterator copy : NodeIterator} (cloned : iterator.clone = .ok copy) :
    copy.dependence = iterator.dependence := by
  rw [← dependence_bare copy, bare_clone cloned, dependence_setRestartable, dependence_bare]

/-! ### Free iterators -/

/-- An iterator that is free of its start node: matches of a lookup, unions that have branches, all
of them free, and node sets over a free source that were bound to the document. -/
inductive Free : NodeIterator → Prop
  | fixed {list : FixedList} : list.dependence = .independent → list.refusal = none →
    Free (.fixed list)
  | union {branches : List NodeIterator} {place : Place} : branches ≠ [] →
    (∀ branch ∈ branches, Free branch) → Free (.union branches place)
  | nodeSet {source : NodeIterator} {replay : Replay} : Free source →
    replay.progress.start = some Handle.root → Free (.nodeSet source replay)

variable {iterator : NodeIterator}

/-- A free iterator tells so. -/
theorem Free.dependence (free : iterator.Free) : iterator.dependence = .independent := by
  induction free with
  | fixed independent _ => exact independent
  | union filled _ ih => exact dependence_union_eq_independent_iff.mpr ⟨filled, ih⟩
  | nodeSet _ _ ih => exact ih

/-- A free iterator holds no walks, so nothing in it can leave a tree. -/
theorem Free.sound (free : iterator.Free) : iterator.Sound := by
  induction free with
  | fixed _ _ => exact .fixed
  | union _ _ ih => exact .union ih
  | nodeSet _ _ ih => exact .nodeSet ih

/-- Whether an iterator is free can be told from its bare form. -/
theorem free_bare_iff (iterator : NodeIterator) : iterator.bare.Free ↔ iterator.Free := by
  induction iterator with
  | axis walk => constructor <;> intro free <;> cases free
  | fixed list =>
    constructor
    · rintro ⟨independent, willing⟩
      exact .fixed independent willing
    · rintro ⟨independent, willing⟩
      exact .fixed independent willing
  | union branches place ih =>
    have each : (∀ form ∈ branches.map bare, form.Free) ↔ ∀ branch ∈ branches, branch.Free := by
      rw [List.forall_mem_map]
      exact forall₂_congr ih
    rw [bare, bareAll_eq_map]
    constructor
    · rintro ⟨⟩
      rename_i filled free
      exact .union (fun none => filled (congrArg (List.map bare) none)) (each.mp free)
    · rintro ⟨⟩
      rename_i filled free
      exact .union (fun none => filled (List.map_eq_nil_iff.mp none)) (each.mpr free)
  | nodeSet source replay ih =>
    constructor
    · rintro ⟨⟩
      rename_i free bound
      exact .nodeSet (ih.mp free) bound
    · rintro ⟨⟩
      rename_i free bound
      exact .nodeSet (ih.mpr free) bound

/-- Moving does not make an iterator hang on its start node. -/
theorem Free.of_bare {other : NodeIterator} (free : iterator.Free)
    (same : other.bare = iterator.bare) : other.Free :=
  (free_bare_iff other).mp (same ▸ (free_bare_iff iterator).mpr free)

/-- Nor does allowing or forbidding further start nodes. -/
theorem Free.setRestartable (free : iterator.Free) (restartable : Bool) :
    (iterator.setRestartable restartable).Free := by
  induction free with
  | fixed independent willing => exact .fixed independent willing
  | @union branches place filled _ ih =>
    rw [NodeIterator.setRestartable, setRestartableAll_eq_map]
    refine .union (fun none => filled (List.map_eq_nil_iff.mp none)) ?_
    exact List.forall_mem_map.mpr ih
  | nodeSet _ bound ih => exact .nodeSet ih bound

theorem contentsAll_complete {branches : List NodeIterator}
    (each : ∀ branch ∈ branches, ∃ items, branch.contents = ⟨items, none⟩) :
    ∃ items, contentsAll branches = ⟨items, none⟩ := by
  induction branches with
  | nil => exact ⟨[], rfl⟩
  | cons branch rest ih =>
    obtain ⟨⟨first, here⟩, others⟩ := List.forall_mem_cons.mp each
    obtain ⟨second, later⟩ := ih others
    refine ⟨first ++ second, ?_⟩
    rw [contentsAll, here, later, Outlook.complete_append]

/-- A free iterator yields its contents without a fault. -/
theorem Free.contents (free : iterator.Free) : ∃ items, iterator.contents = ⟨items, none⟩ := by
  induction free with
  | fixed _ _ => exact ⟨_, rfl⟩
  | union _ _ ih => exact contentsAll_complete ih
  | @nodeSet source replay _ bound _ =>
    refine ⟨withoutRepeats none replay.buffer.toList, ?_⟩
    show Replay.contents replay = _
    rw [Replay.contents, bound, Option.elim_some]

/-! ### Start nodes -/

theorem bindAll_free {branches : List NodeIterator} {node : Handle}
    (each : ∀ branch ∈ branches, ∃ bound, branch.bind node = .ok bound ∧ bound.value.Free ∧
      bound.value.contents = branch.contents) :
    ∃ bound, bindAll node branches = .ok bound ∧ (∀ branch ∈ bound.value, branch.Free) ∧
      contentsAll bound.value = contentsAll branches := by
  induction branches with
  | nil => exact ⟨_, rfl, fun _ member => absurd member List.not_mem_nil, rfl⟩
  | cons branch rest ih =>
    obtain ⟨⟨first, here, free, same⟩, others⟩ := List.forall_mem_cons.mp each
    obtain ⟨bound, later, freeLater, sameLater⟩ := ih others
    refine ⟨_, bindAll_cons here later, List.forall_mem_cons.mpr ⟨free, freeLater⟩, ?_⟩
    rw [contentsAll, contentsAll, same, sameLater]

/-- **A free iterator takes or ignores every start node without a fault**, and has the same contents
then. The start node need not lie in any tree. -/
theorem Free.bind (free : iterator.Free) (node : Handle) :
    ∃ bound, iterator.bind node = .ok bound ∧ bound.value.Free ∧
      bound.value.contents = iterator.contents := by
  induction free with
  | @fixed list independent willing =>
    refine ⟨⟨.fixed (list.bind node), []⟩, rfl, ?_⟩
    rw [FixedList.bind]
    split
    · exact ⟨.fixed independent willing, rfl⟩
    · exact ⟨.fixed independent willing, rfl⟩
  | @union branches place filled free ih =>
    -- A union that takes the node hands it on, and each branch takes or ignores it for itself.
    by_cases accepted : place.progress.accepts node
    · obtain ⟨bound, taken, freeAfter, same⟩ := bindAll_free ih
      have kept := dependence_bindAll (fun _ _ _ => dependence_bind) taken
      refine ⟨_, bind_union accepted taken, .union (fun none => filled ?_) freeAfter, same⟩
      rw [none] at kept
      exact List.map_eq_nil_iff.mp kept.symm
    · exact ⟨_, if_neg accepted, .union filled free, rfl⟩
  | @nodeSet source replay free bound _ =>
    have ignored : ¬ Heeds source replay node := fun heeds =>
      heeds.unsettled ⟨free.dependence, bound⟩
    obtain ⟨reason, same⟩ := bind_of_ignored ignored
    exact ⟨_, same, .nodeSet free bound, rfl⟩

/-! ### Clones -/

/-- Nothing inside a free iterator refuses to be cloned. -/
theorem Free.willing (free : iterator.Free) : ∀ part ∈ iterator.parts, part.refusal? = none := by
  induction free with
  | fixed _ willing => exact List.forall_mem_singleton.mpr willing
  | union _ _ ih => exact forall_parts_union.mpr ⟨rfl, ih⟩
  | nodeSet _ _ ih => exact forall_parts_nodeSet.mpr ⟨rfl, ih⟩

/-- A free iterator does not refuse to be cloned. -/
theorem Free.exists_clone (free : iterator.Free) : ∃ copy, iterator.clone = .ok copy :=
  (exists_clone_iff iterator).mpr free.willing

/-- Its clone is free. -/
theorem Free.clone {copy : NodeIterator} (free : iterator.Free)
    (cloned : iterator.clone = .ok copy) : copy.Free := by
  have form : iterator.bare.Free := (free_bare_iff iterator).mpr free
  rw [← free_bare_iff, bare_clone cloned]
  exact form.setRestartable false

/-! ### Reachable iterators -/

/-- A node set over an independent source is filled when it is made, relative to the document. -/
theorem filled_of_independent {source : NodeIterator} {set : Logged NodeIterator}
    (independent : source.dependence = .independent) (made : source.toNodeSet = .ok set) :
    ∃ told rewound drained handles, source.bind Handle.root = .ok told ∧
      told.value.rewind = .ok rewound ∧ rewound.drain = .ok (handles, drained) ∧
      set.value = .nodeSet drained (({} : Replay).load Handle.root handles) := by
  rcases toNodeSet_ok made with ⟨_, taken⟩ | ⟨hangs, _⟩
  · exact drained_of_heeded (heeded_fresh source Handle.root) taken
  · cases independent.symm.trans hangs

/-- A node set over a free source is bound to the document when it is made, and is free. -/
theorem Free.toNodeSet {source : NodeIterator} {set : Logged NodeIterator} (free : source.Free)
    (made : source.toNodeSet = .ok set) : set.value.Free := by
  obtain ⟨_, rewound, drained, _, here, begun, all, same⟩ :=
    filled_of_independent free.dependence made
  obtain ⟨bound, taken, freeBound, _⟩ := free.bind Handle.root
  rw [taken] at here
  cases here
  rw [same]
  refine .nodeSet (freeBound.of_bare ?_) rfl
  rw [bare_drain all, bare_rewind begun]

/-- A node set tells what its source tells. -/
theorem dependence_toNodeSet {source : NodeIterator} {set : Logged NodeIterator}
    (made : source.toNodeSet = .ok set) : set.value.dependence = source.dependence := by
  rcases toNodeSet_ok made with ⟨_, taken⟩ | ⟨_, rfl⟩
  · have same : set.value.dependence = (NodeIterator.nodeSet source {}).dependence :=
      dependence_bind taken
    exact same
  · rfl

/-- A union with a further branch is independent if that branch is and if all earlier ones are. -/
theorem Free.withBranch {branch whole : NodeIterator}
    (free : iterator.dependence = .independent → iterator.Free)
    (more : branch.dependence = .independent → branch.Free)
    (added : iterator.withBranch? branch = some whole)
    (independent : whole.dependence = .independent) : whole.Free := by
  cases iterator with
  | axis walk => cases added
  | fixed list => cases added
  | nodeSet source replay => cases added
  | union branches place =>
    cases added
    obtain ⟨filled, each⟩ := dependence_union_eq_independent_iff.mp independent
    obtain ⟨earlier, last⟩ := List.forall_mem_append.mp each
    refine .union filled (List.forall_mem_append.mpr ⟨fun part member => ?_, fun part member => ?_⟩)
    · -- A branch that was there before shows that the union was not empty then.
      have some : branches ≠ [] := List.ne_nil_of_mem member
      cases free (dependence_union_eq_independent_iff.mpr ⟨some, earlier⟩) with
      | union _ parts => exact parts part member
    · rw [List.mem_singleton.mp member]
      exact more (last branch List.mem_cons_self)

/-- Moving an iterator does not change what it tells about itself nor whether it is free. -/
theorem Free.of_moved {rest : NodeIterator} (same : rest.bare = iterator.bare)
    (free : iterator.dependence = .independent → iterator.Free)
    (independent : rest.dependence = .independent) : rest.Free := by
  rw [← dependence_bare, same, dependence_bare] at independent
  exact (free independent).of_bare same

/-- **Whatever tells that it does not hang on its start node is free of it.** -/
theorem Reachable.free (reachable : Reachable iterator)
    (independent : iterator.dependence = .independent) : iterator.Free := by
  induction reachable with
  | ofAxis built axis => cases independent
  | ofList nodes => cases independent
  | ofUncloneable nodes refusal => cases independent
  | lookup table values => exact .fixed rfl rfl
  | ofBranches _ ih =>
    obtain ⟨filled, each⟩ := dependence_union_eq_independent_iff.mp independent
    exact .union filled fun branch member => ih branch member (each branch member)
  | withBranch _ _ added ih more => exact Free.withBranch ih more added independent
  | toNodeSet _ made ih =>
    rw [dependence_toNodeSet made] at independent
    exact (ih independent).toNodeSet made
  | bind _ taken ih =>
    rw [dependence_bind taken] at independent
    obtain ⟨_, same, free, _⟩ := (ih independent).bind _
    rw [taken] at same
    cases same
    exact free
  | next _ advanced ih => exact .of_moved (bare_next advanced) ih independent
  | rewind _ rewound ih => exact .of_moved (bare_rewind rewound) ih independent
  | setMark _ ih => exact .of_moved (bare_setMark _) ih independent
  | restore _ ih => exact .of_moved (bare_restore _) ih independent
  | setRestartable restartable _ ih =>
    rw [dependence_setRestartable] at independent
    exact (ih independent).setRestartable restartable
  | clone _ cloned ih =>
    rw [dependence_clone cloned] at independent
    exact (ih independent).clone cloned

/-- **Independence is kept by every composition**: what tells that it does not hang on its start
node has one whole sequence, without a fault, for all start nodes and for clones. -/
theorem whole_of_independent (reachable : Reachable iterator)
    (independent : iterator.dependence = .independent) :
    ∃ items, iterator.whole = .ok items ∧
      (∀ node, ∃ bound, iterator.bind node = .ok bound ∧ bound.value.whole = .ok items ∧
        bound.value.dependence = .independent) ∧
      ∃ copy, iterator.clone = .ok copy ∧ copy.whole = .ok items ∧
        copy.dependence = .independent := by
  have sound := reachable.sound
  have free := reachable.free independent
  obtain ⟨items, contents⟩ := free.contents
  refine ⟨items, (whole_eq_iff sound items).mpr contents, fun node => ?_, ?_⟩
  · obtain ⟨bound, taken, freeBound, same⟩ := free.bind node
    refine ⟨bound, taken, ?_, freeBound.dependence⟩
    exact (whole_eq_iff (sound.bind taken) items).mpr (same.trans contents)
  · obtain ⟨copy, cloned⟩ := free.exists_clone
    refine ⟨copy, cloned, ?_, (free.clone cloned).dependence⟩
    exact (whole_eq_iff (sound.clone cloned) items).mpr ((contents_clone cloned).trans contents)

/-- A lookup and a node set over it, put together, yield the same for a handle that no tree has. -/
theorem whole_of_independent_outside :
    ∃ set bound,
      ((KeyTable.add { name := "k" } "v" 1).lookup ["v"]).toNodeSet = .ok set ∧
        Reachable (ofBranches [set.value, (KeyTable.add { name := "k" } "v" 1).lookup ["v"]]) ∧
        (ofBranches [set.value, (KeyTable.add { name := "k" } "v" 1).lookup ["v"]]).bind 99 =
          .ok bound ∧
        bound.value.whole = .ok [1, 1] ∧ bound.value.dependence = .independent := by
  have lookup : (KeyTable.add { name := "k" } "v" 1).lookup ["v"] = ofMatches [1] := by
    rw [KeyTable.lookup, KeyTable.matching_add_new]
  have source : Reachable (ofMatches [1]) := lookup ▸ .lookup _ _
  have taken : (NodeIterator.nodeSet (ofMatches [1]) {}).bind Handle.root = .ok _ :=
    bind_of_single rfl rfl rfl
  have made : (ofMatches [1]).toNodeSet = .ok _ := taken
  have reachable := Reachable.ofPair (source.toNodeSet made) source
  obtain ⟨items, whole, taken, _⟩ := whole_of_independent reachable rfl
  obtain ⟨bound, done, same, independent⟩ := taken 99
  cases whole
  rw [lookup]
  exact ⟨_, bound, made, reachable, done, same, independent⟩

end NodeIterator

end XPathWalk

/-
**What an iterator is put together from.**

An iterator holds the branches of its unions and the sources of its node sets, and these hold
further iterators in turn. Every call on it comes down to calls on what it holds. So whatever is
inside a reachable iterator is reachable itself, and what is known of all reachable iterators is
known at every depth.

* `NodeIterator.parts`: an iterator and all that is inside it, from left to right;
* `Levelwise.deep`: a call that comes down to calls on the parts keeps all of them reachable;
* `Reachable.part`: every part of a reachable iterator is reachable.
-/

import XPathWalk.Proofs.Reachable

namespace XPathWalk

namespace NodeIterator

/-! ### Definitions -/

mutual

/-- An iterator and all that is inside it. Each comes before what it holds, and the branches of a
union come from left to right. -/
def parts : NodeIterator → List NodeIterator
  | .axis walk => [.axis walk]
  | .fixed list => [.fixed list]
  | .union branches place => .union branches place :: partsAll branches
  | .nodeSet source replay => .nodeSet source replay :: source.parts

/-- The parts of one branch after another. -/
def partsAll : List NodeIterator → List NodeIterator
  | [] => []
  | branch :: rest => branch.parts ++ partsAll rest

end

/-- An iterator that is reachable with all its parts. -/
def Deep (iterator : NodeIterator) : Prop := ∀ part ∈ iterator.parts, Reachable part

theorem partsAll_eq_flatMap (branches : List NodeIterator) :
    partsAll branches = branches.flatMap parts := by
  induction branches with
  | nil => rfl
  | cons branch rest ih => rw [partsAll, ih, List.flatMap_cons]

theorem mem_parts_self (iterator : NodeIterator) : iterator ∈ iterator.parts := by
  cases iterator <;> exact List.mem_cons_self

theorem Deep.reachable {iterator : NodeIterator} (deep : iterator.Deep) : Reachable iterator :=
  deep iterator iterator.mem_parts_self

/-- What holds of all parts of a union holds of itself and of all parts of its branches. -/
theorem forall_parts_union {motive : NodeIterator → Prop} {branches : List NodeIterator}
    {place : Place} :
    (∀ part ∈ (union branches place).parts, motive part) ↔
      motive (union branches place) ∧ ∀ branch ∈ branches, ∀ part ∈ branch.parts, motive part := by
  rw [parts, List.forall_mem_cons, partsAll_eq_flatMap, List.forall_mem_flatMap]

theorem forall_parts_nodeSet {motive : NodeIterator → Prop} {source : NodeIterator}
    {replay : Replay} :
    (∀ part ∈ (nodeSet source replay).parts, motive part) ↔
      motive (nodeSet source replay) ∧ ∀ part ∈ source.parts, motive part := by
  rw [parts, List.forall_mem_cons]

theorem deep_union_iff {branches : List NodeIterator} {place : Place} :
    (union branches place).Deep ↔
      Reachable (union branches place) ∧ ∀ branch ∈ branches, branch.Deep := forall_parts_union

theorem deep_nodeSet_iff {source : NodeIterator} {replay : Replay} :
    (nodeSet source replay).Deep ↔ Reachable (nodeSet source replay) ∧ source.Deep :=
  forall_parts_nodeSet

/-- The parts of the bare form are the bare forms of the parts. -/
theorem parts_bare (iterator : NodeIterator) : iterator.bare.parts = iterator.parts.map bare := by
  induction iterator with
  | axis walk => rfl
  | fixed list => rfl
  | union branches place ih =>
    rw [parts, List.map_cons, bare, parts, partsAll_eq_flatMap, partsAll_eq_flatMap, bareAll_eq_map,
      List.flatMap_map, List.map_flatMap, List.flatMap_congr ih]
  | nodeSet source replay ih =>
    rw [parts, List.map_cons, bare, parts, ih]

/-! ### Calls that come down to calls on the parts -/

/-- A kind of call under which reachable iterators stay reachable, walks and lists hold nothing, a
branch of a union stays as it is or is called itself, and the source of a node set becomes something
that is reachable with all its parts if this holds of the source or of what the call makes of it. -/
structure Levelwise (call : NodeIterator → NodeIterator → Prop) : Prop where
  reachable : ∀ {before after}, call before after → Reachable before → Reachable after
  axis : ∀ {walk after}, call (.axis walk) after → after.parts = [after]
  fixed : ∀ {list after}, call (.fixed list) after → after.parts = [after]
  union : ∀ {branches place after}, call (.union branches place) after →
    ∃ others there, after = .union others there ∧
      ∀ part ∈ others, part ∈ branches ∨ ∃ branch ∈ branches, call branch part
  nodeSet : ∀ {source replay after}, call (.nodeSet source replay) after →
    ∃ other there told, after = .nodeSet other there ∧ (told = source ∨ call source told) ∧
      (told.Deep → other.Deep)

/-- **Such a call keeps all parts reachable.** -/
theorem Levelwise.deep {call : NodeIterator → NodeIterator → Prop} (levelwise : Levelwise call)
    {before after : NodeIterator} (called : call before after) (deep : before.Deep) :
    after.Deep := by
  have here := levelwise.reachable called deep.reachable
  induction before generalizing after with
  | axis walk =>
    rw [Deep, levelwise.axis called]
    exact List.forall_mem_singleton.mpr here
  | fixed list =>
    rw [Deep, levelwise.fixed called]
    exact List.forall_mem_singleton.mpr here
  | union branches place ih =>
    obtain ⟨others, there, rfl, each⟩ := levelwise.union called
    have within := (deep_union_iff.mp deep).2
    refine deep_union_iff.mpr ⟨here, fun part member => ?_⟩
    rcases each part member with same | ⟨branch, inside, step⟩
    · exact within part same
    · have below := within branch inside
      exact ih branch inside step below (levelwise.reachable step below.reachable)
  | nodeSet source replay ih =>
    obtain ⟨other, there, told, rfl, same | step, kept⟩ := levelwise.nodeSet called
    · subst same
      exact deep_nodeSet_iff.mpr ⟨here, kept (deep_nodeSet_iff.mp deep).2⟩
    · have below := (deep_nodeSet_iff.mp deep).2
      refine deep_nodeSet_iff.mpr ⟨here, kept ?_⟩
      exact ih step below (levelwise.reachable step below.reachable)

theorem levelwise_next : Levelwise fun before after => ∃ found, before.next = .ok (found, after) where
  reachable := fun ⟨_, advanced⟩ reachable => .next reachable advanced
  axis := fun ⟨_, advanced⟩ => by cases advances_of_next advanced; rfl
  fixed := fun ⟨_, advanced⟩ => by cases advances_of_next advanced; rfl
  union := fun ⟨_, advanced⟩ => by
    cases advances_of_next advanced with
    | union step => exact ⟨_, _, rfl, mem_nextFrom step⟩
  nodeSet := fun ⟨_, advanced⟩ => by
    cases advances_of_next advanced
    exact ⟨_, _, _, rfl, .inl rfl, id⟩

theorem levelwise_rewind : Levelwise fun before after => before.rewind = .ok after where
  reachable := fun rewound reachable => .rewind reachable rewound
  axis := fun rewound => by cases rewinds_of_rewind rewound <;> rfl
  fixed := fun rewound => by cases rewinds_of_rewind rewound; rfl
  union := fun rewound => by
    cases rewinds_of_rewind rewound with
    | union step => exact ⟨_, _, rfl, fun part member => .inr (mem_rewindAll step part member)⟩
  nodeSet := fun rewound => by
    cases rewinds_of_rewind rewound
    exact ⟨_, _, _, rfl, .inl rfl, id⟩

theorem levelwise_setMark : Levelwise fun before after => before.setMark = after where
  reachable := fun same reachable => same ▸ .setMark reachable
  axis := fun same => by cases same; rfl
  fixed := fun same => by cases same; rfl
  union := fun same => by
    cases same
    refine ⟨_, _, rfl, fun part member => .inr ?_⟩
    rw [setMarkAll_eq_map] at member
    exact List.mem_map.mp member
  nodeSet := fun same => by
    cases same
    exact ⟨_, _, _, rfl, .inl rfl, id⟩

theorem levelwise_restore : Levelwise fun before after => before.restore = after where
  reachable := fun same reachable => same ▸ .restore reachable
  axis := fun same => by cases same; rfl
  fixed := fun same => by cases same; rfl
  union := fun same => by
    cases same
    refine ⟨_, _, rfl, fun part member => .inr ?_⟩
    rw [restoreAll_eq_map] at member
    exact List.mem_map.mp member
  nodeSet := fun same => by
    cases same
    exact ⟨_, _, _, rfl, .inl rfl, id⟩

theorem levelwise_setRestartable (restartable : Bool) :
    Levelwise fun before after => before.setRestartable restartable = after where
  reachable := fun same reachable => same ▸ .setRestartable restartable reachable
  axis := fun same => by cases same; rfl
  fixed := fun same => by cases same; rfl
  union := fun same => by
    cases same
    refine ⟨_, _, rfl, fun part member => .inr ?_⟩
    rw [setRestartableAll_eq_map] at member
    exact List.mem_map.mp member
  nodeSet := fun same => by
    cases same
    exact ⟨_, _, _, rfl, .inr rfl, id⟩

theorem levelwise_clone : Levelwise fun before after => before.clone = .ok after where
  reachable := fun cloned reachable => .clone reachable cloned
  axis := fun cloned => by cases clones_of_clone cloned; rfl
  fixed := fun cloned => by cases clones_of_clone cloned; rfl
  union := fun cloned => by
    cases clones_of_clone cloned with
    | union step => exact ⟨_, _, rfl, fun part member => .inr (mem_cloneAll step part member)⟩
  nodeSet := fun cloned => by
    cases clones_of_clone cloned with
    | nodeSet step => exact ⟨_, _, _, rfl, .inr step, id⟩

/-- Taking nodes is a call for the next one, again and again. -/
theorem Deep.take {iterator rest : NodeIterator} {nodes : List Handle} (count : Nat)
    (deep : iterator.Deep) (taken : iterator.take count = .ok (nodes, rest)) : rest.Deep := by
  induction count generalizing iterator nodes with
  | zero =>
    cases taken
    exact deep
  | succ count ih =>
    obtain ⟨⟨found, after⟩, step, more⟩ := exists_of_bind_ok taken
    have moved := levelwise_next.deep ⟨found, step⟩ deep
    cases found with
    | none =>
      cases more
      exact moved
    | some node =>
      obtain ⟨⟨_, _⟩, later, done⟩ := exists_of_bind_ok more
      cases done
      exact ih moved later

theorem levelwise_bind (node : Handle) :
    Levelwise fun before after => ∃ bound, before.bind node = .ok bound ∧ bound.value = after where
  reachable := fun ⟨_, taken, same⟩ reachable => same ▸ .bind reachable taken
  axis := fun ⟨_, taken, same⟩ => by
    obtain ⟨_, _, done⟩ := exists_of_bind_ok taken
    cases done
    cases same
    rfl
  fixed := fun ⟨_, taken, same⟩ => by
    cases taken
    cases same
    rfl
  union := fun ⟨_, taken, same⟩ => by
    cases same
    rcases bind_union_ok taken with ⟨_, _, each, rfl⟩ | ⟨_, rfl⟩
    · exact ⟨_, _, rfl, fun part member => .inr (mem_bindAll each part member)⟩
    · exact ⟨_, _, rfl, fun part member => .inl member⟩
  nodeSet := fun ⟨_, taken, same⟩ => by
    rcases bind_nodeSet_ok taken with
      ⟨_, kept⟩ | ⟨_, told, rewound, drained, _, here, begun, all, loaded⟩
    · exact ⟨_, _, _, same ▸ kept, .inl rfl, id⟩
    · refine ⟨_, _, told.value, same ▸ loaded, .inr ⟨told, here, rfl⟩, fun deep => ?_⟩
      exact Deep.take _ (levelwise_rewind.deep begun deep) all

/-! ### Reachable iterators -/

theorem Deep.withBranch {iterator branch whole : NodeIterator} (reachable : Reachable whole)
    (deep : iterator.Deep) (more : branch.Deep)
    (added : iterator.withBranch? branch = some whole) : whole.Deep := by
  cases iterator with
  | axis walk => cases added
  | fixed list => cases added
  | nodeSet source replay => cases added
  | union branches place =>
    cases added
    refine deep_union_iff.mpr ⟨reachable, List.forall_mem_append.mpr ⟨?_, ?_⟩⟩
    · exact (deep_union_iff.mp deep).2
    · exact List.forall_mem_singleton.mpr more

theorem Deep.toNodeSet {source : NodeIterator} {set : Logged NodeIterator} (deep : source.Deep)
    (made : source.toNodeSet = .ok set) : set.value.Deep := by
  have reachable : Reachable set.value := .toNodeSet deep.reachable made
  rcases toNodeSet_ok made with ⟨_, taken⟩ | ⟨_, rfl⟩
  · obtain ⟨other, there, told, same, step, kept⟩ :=
      (levelwise_bind Handle.root).nodeSet ⟨set, taken, rfl⟩
    rw [same] at reachable ⊢
    refine deep_nodeSet_iff.mpr ⟨reachable, kept ?_⟩
    rcases step with rfl | bound
    · exact deep
    · exact (levelwise_bind Handle.root).deep bound deep
  · exact deep_nodeSet_iff.mpr ⟨reachable, deep⟩

/-- A reachable iterator is so with all its parts. -/
theorem Reachable.deep {iterator : NodeIterator} (reachable : Reachable iterator) :
    iterator.Deep := by
  induction reachable with
  | ofAxis built axis => exact List.forall_mem_singleton.mpr (.ofAxis built axis)
  | ofList nodes => exact List.forall_mem_singleton.mpr (.ofList nodes)
  | ofUncloneable nodes refusal => exact List.forall_mem_singleton.mpr (.ofUncloneable nodes refusal)
  | lookup table values => exact List.forall_mem_singleton.mpr (.lookup table values)
  | ofBranches each ih => exact deep_union_iff.mpr ⟨.ofBranches each, ih⟩
  | withBranch first second added ih more =>
    exact Deep.withBranch (.withBranch first second added) ih more added
  | toNodeSet _ made ih => exact ih.toNodeSet made
  | bind _ taken ih => exact (levelwise_bind _).deep ⟨_, taken, rfl⟩ ih
  | next _ advanced ih => exact levelwise_next.deep ⟨_, advanced⟩ ih
  | rewind _ rewound ih => exact levelwise_rewind.deep rewound ih
  | setMark _ ih => exact levelwise_setMark.deep rfl ih
  | restore _ ih => exact levelwise_restore.deep rfl ih
  | setRestartable restartable _ ih => exact (levelwise_setRestartable restartable).deep rfl ih
  | clone _ cloned ih => exact levelwise_clone.deep cloned ih

/-- **Every part of a reachable iterator is reachable.** -/
theorem Reachable.part {iterator part : NodeIterator} (reachable : Reachable iterator)
    (member : part ∈ iterator.parts) : Reachable part := reachable.deep part member

end NodeIterator

end XPathWalk

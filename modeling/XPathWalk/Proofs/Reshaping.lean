/-
**A node set does not show what it is made of.**

A node set over a union stands for the nodes that any of the parts has, so neither the order of the
parts nor repeated parts can be seen through it. A part that is a node set itself, or a union of one
part, stands for the same nodes as what it holds and hangs on the start node exactly if that does.

* `Plan.Reshaped`: parts in another order, repeated, or wrapped up by themselves;
* `Plan.Covers`: every part has a counterpart that stands for the same;
* `family_union_eq`: two unions stand for the same if each covers the other;
* `family_of_reshaped`: so a union of reshaped parts stands for the same;
* `indistinguishable_of_reshaped`: no requests in a row tell the node sets apart.
-/

import XPathWalk.Proofs.SetCursor

namespace XPathWalk

namespace Plan

/-! ### Definitions -/

/-- The parts of a union reshaped: put into another order, with one of them repeated, or with one of
them inside a node set or a union of its own. -/
inductive Reshaped : List Plan → List Plan → Prop
  | perm {parts others : List Plan} : parts.Perm others → Reshaped parts others
  | again {parts : List Plan} {part : Plan} : part ∈ parts → Reshaped parts (part :: parts)
  | nodeSet {parts rest : List Plan} {part : Plan} :
    Reshaped (parts ++ part :: rest) (parts ++ .nodeSet part :: rest)
  | union {parts rest : List Plan} {part : Plan} :
    Reshaped (parts ++ part :: rest) (parts ++ .union [part] :: rest)
  | trans {parts others more : List Plan} : Reshaped parts others → Reshaped others more →
    Reshaped parts more

/-- The iterators that two plans make answer all requests alike that bind them to nodes of the tree,
and tell the same about themselves before the first and after each of them. -/
def Indistinguishable (tree : Tree) (plan other : Plan) : Prop :=
  ∃ first second, plan.make tree = .ok first ∧ other.make tree = .ok second ∧
    first.status = second.status ∧
    ∀ requests, (∀ node, .bind node ∈ requests → node < tree.size) →
      first.transcript requests = second.transcript requests

/-- Every one of some parts has a counterpart among others that stands for the same. -/
def Covers (tree : Tree) (parts others : List Plan) : Prop :=
  ∀ part ∈ parts, ∃ other ∈ others, other.family tree = part.family tree

variable {tree : Tree} {parts others : List Plan}

/-! ### What unions stand for -/

theorem mem_nodesAll_iff {start node : Handle} :
    node ∈ nodesAll tree parts start ↔ ∃ part ∈ parts, node ∈ part.nodes tree start := by
  induction parts with
  | nil => simp [nodesAll]
  | cons part rest ih => simp [nodesAll, ih]

theorem isIndependent_union_iff :
    (Plan.union parts).isIndependent ↔ parts ≠ [] ∧ ∀ part ∈ parts, part.isIndependent := by
  rw [isIndependent, Bool.and_eq_true, allIndependent_iff]
  simp

theorem mem_nodes_family_iff {plan : Plan} {start node : Handle} :
    node ∈ (plan.family tree).nodes start ↔ node ∈ plan.nodes tree start := mem_ascending

theorem dependence_family_iff {plan : Plan} :
    (plan.family tree).dependence = .independent ↔ plan.isIndependent := by
  unfold family
  by_cases independent : plan.isIndependent
  · simp [independent]
  · simp [independent]

/-- Plans stand for the same if the same nodes do and both or none hang on the start node. -/
theorem family_eq {plan other : Plan} (hangs : plan.isIndependent ↔ other.isIndependent)
    (members : ∀ start node, node ∈ plan.nodes tree start ↔ node ∈ other.nodes tree start) :
    plan.family tree = other.family tree := by
  apply NodeFamily.eq_of_mem_iff
  · unfold family
    simp only [hangs]
  · intro start node
    rw [mem_nodes_family_iff, members, mem_nodes_family_iff]

theorem Covers.mem_nodesAll (covers : Covers tree parts others) {start node : Handle}
    (member : node ∈ nodesAll tree parts start) : node ∈ nodesAll tree others start := by
  obtain ⟨part, within, lies⟩ := mem_nodesAll_iff.mp member
  obtain ⟨other, counterpart, same⟩ := covers part within
  refine mem_nodesAll_iff.mpr ⟨other, counterpart, ?_⟩
  rw [← mem_nodes_family_iff, same]
  exact mem_nodes_family_iff.mpr lies

theorem Covers.isIndependent (covers : Covers tree parts others)
    (back : Covers tree others parts) (independent : (Plan.union others).isIndependent) :
    (Plan.union parts).isIndependent := by
  rw [isIndependent_union_iff] at independent ⊢
  obtain ⟨filled, each⟩ := independent
  constructor
  · obtain ⟨other, member⟩ := List.exists_mem_of_ne_nil others filled
    obtain ⟨part, counterpart, _⟩ := back other member
    exact List.ne_nil_of_mem counterpart
  · intro part within
    obtain ⟨other, counterpart, same⟩ := covers part within
    rw [← @dependence_family_iff tree, ← same]
    exact dependence_family_iff.mpr (each other counterpart)

/-- **Unions stand for the same if each covers the other.** -/
theorem family_union_eq (covers : Covers tree parts others) (back : Covers tree others parts) :
    (Plan.union parts).family tree = (Plan.union others).family tree := by
  apply family_eq
  · exact ⟨back.isIndependent covers, covers.isIndependent back⟩
  · intro start node
    exact ⟨covers.mem_nodesAll, back.mem_nodesAll⟩

/-- **A node set stands for what its source stands for.** -/
theorem family_nodeSet (source : Plan) : (Plan.nodeSet source).family tree = source.family tree :=
  family_eq Iff.rfl fun _ _ => mem_ascending

/-- A union of one part stands for what the part stands for. -/
theorem family_union_single (part : Plan) : (Plan.union [part]).family tree = part.family tree := by
  apply family_eq
  · rw [isIndependent_union_iff]
    simp
  · intro start node
    show node ∈ nodesAll tree [part] start ↔ _
    rw [mem_nodesAll_iff]
    simp

/-! ### Reshaping -/

theorem covers_of_subset (subset : parts ⊆ others) : Covers tree parts others :=
  fun part member => ⟨part, subset member, rfl⟩

/-- One part may be exchanged for another that stands for the same. -/
theorem covers_of_replaced {front rest : List Plan} {part other : Plan}
    (same : other.family tree = part.family tree) :
    Covers tree (front ++ part :: rest) (front ++ other :: rest) := by
  intro member within
  simp only [List.mem_append, List.mem_cons] at within
  obtain earlier | rfl | later := within
  · exact ⟨member, by simp [earlier], rfl⟩
  · exact ⟨other, by simp, same⟩
  · exact ⟨member, by simp [later], rfl⟩

/-- **A union of reshaped parts stands for the same.** -/
theorem family_of_reshaped (reshaped : Reshaped parts others) :
    (Plan.union parts).family tree = (Plan.union others).family tree := by
  induction reshaped with
  | perm same =>
    exact family_union_eq (covers_of_subset same.subset) (covers_of_subset same.symm.subset)
  | @again parts part member =>
    refine family_union_eq (covers_of_subset (List.subset_cons_self part parts)) ?_
    exact covers_of_subset (List.cons_subset.mpr ⟨member, List.Subset.refl parts⟩)
  | @nodeSet _ _ part =>
    have same : (Plan.nodeSet part).family tree = part.family tree := family_nodeSet part
    exact family_union_eq (covers_of_replaced same) (covers_of_replaced same.symm)
  | @union _ _ part =>
    have same : (Plan.union [part]).family tree = part.family tree := family_union_single part
    exact family_union_eq (covers_of_replaced same) (covers_of_replaced same.symm)
  | trans _ _ first second => exact first.trans second

/-- Node sets that stand for the same cannot be told apart. -/
theorem indistinguishable_of_family (linked : tree.Linked) {source other : Plan}
    (same : source.family tree = other.family tree) :
    Indistinguishable tree (.nodeSet source) (.nodeSet other) := by
  obtain ⟨first, made, status, answers⟩ := transcript_eq_setCursor linked source
  obtain ⟨second, madeSecond, statusSecond, answersSecond⟩ := transcript_eq_setCursor linked other
  rw [← same] at statusSecond answersSecond
  refine ⟨first, second, made, madeSecond, status.trans statusSecond.symm, ?_⟩
  intro requests within
  exact (answers requests within).trans (answersSecond requests within).symm

/-- **A node set does not show what it is made of.** No requests in a row tell apart the node sets
over two unions if the parts of one are those of the other in another order, repeated, or inside
node sets and unions of their own. Nor do they tell apart a node set and one over it. -/
theorem indistinguishable_of_reshaped (built : tree.Built) :
    (∀ parts others, Reshaped parts others →
      Indistinguishable tree (.nodeSet (.union parts)) (.nodeSet (.union others))) ∧
    ∀ source, Indistinguishable tree (.nodeSet (.nodeSet source)) (.nodeSet source) := by
  have linked := built.linked
  constructor
  · intro parts others reshaped
    exact indistinguishable_of_family linked (family_of_reshaped reshaped)
  · intro source
    exact indistinguishable_of_family linked (family_nodeSet source)

/-- A list beside a node set over itself is read, through a node set, like the list alone. -/
theorem indistinguishable_of_reshaped_list :
    ∃ second,
      (Plan.nodeSet (.union [.nodeSet (.list [1]), .list [1]])).make
          (.ofDocument (.text "a" .empty)) = .ok second ∧
        second.transcript [.bind Handle.root, .next, .last, .clone, .bind 1, .next, .next] =
          [.ok (.done, ⟨{ start := some 0 }, .startNode⟩),
            .ok (.found (some 1), ⟨{ start := some 0, position := 1 }, .startNode⟩),
            .ok (.size (.ok 1), ⟨{ start := some 0, position := 1 }, .startNode⟩),
            .ok (.done, ⟨{ start := some 0, restartable := false }, .startNode⟩),
            .ok (.done, ⟨{ start := some 0, restartable := false }, .startNode⟩),
            .ok (.found (some 1),
              ⟨{ start := some 0, restartable := false, position := 1 }, .startNode⟩),
            .ok (.found none,
              ⟨{ start := some 0, restartable := false, position := 1 }, .startNode⟩)] := by
  have reshaped : Reshaped [.list [1]] [.nodeSet (.list [1]), .list [1]] :=
    .trans (.again List.mem_cons_self) (@Reshaped.nodeSet [] _ _)
  obtain ⟨first, second, made, madeSecond, _, same⟩ :=
    (indistinguishable_of_reshaped (Tree.built_ofDocument (.text "a" .empty))).1 _ _ reshaped
  have plain : (Plan.nodeSet (.union [.list [1]])).make (.ofDocument (.text "a" .empty)) = .ok _ :=
    rfl
  rw [plain] at made
  cases made
  have bound : (NodeIterator.nodeSet (.ofBranches [.ofList [1]]) {}).bind Handle.root = .ok _ :=
    NodeIterator.bind_of_single rfl rfl rfl
  refine ⟨second, madeSecond, ?_⟩
  rw [← same]
  · show NodeIterator.transcript (.nodeSet (.ofBranches [.ofList [1]]) {}) _ = _
    rw [NodeIterator.transcript, NodeIterator.respond_bind bound]
    rfl
  · intro node member
    have known : node = Handle.root ∨ node = 1 := by simpa using member
    obtain rfl | rfl := known
    · decide
    · decide

end Plan

end XPathWalk

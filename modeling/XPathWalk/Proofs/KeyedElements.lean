/-
**A key lookup yields exactly the elements that carry the keys.**

The table of a tree is filled in one scan over its handles, so the nodes of each value come in
document order. An element is entered under the value of its first attribute of the given name, and
the attributes that the scan looks through are those that reading the tree back tells.

* `Tree.Keyed`: an element that matches a pattern and whose first attribute of a name has a value;
* `keyOf?_eq_some_iff`: under which value an element is entered;
* `nodesOf_foldl_enter`: what a scan adds to the nodes of each value;
* `Filled`: no value is entered without a node;
* `lookup_ofTree`: in the table of a built tree, for elements that match a pattern, keyed by an
  attribute, each value has a list of the elements whose first attribute of that name has this
  value, in document order. The table is as large as there are values with such elements. A lookup
  of values in a row yields their lists in a row, repeats and all. A node set over it yields,
  without being given a start node, every element of these lists once and in document order.
-/

import Mathlib.Data.Set.Card
import XPathWalk.Proofs.Kinship
import XPathWalk.Proofs.Materialization

namespace XPathWalk

namespace Tree

/-! ### Keys of elements -/

/-- The handle denotes an element that matches a pattern, and the first of its attributes that has
a given name has a given value. -/
def Keyed (tree : Tree) (pattern attr value : String) (handle : Handle) : Prop :=
  ∃ node name pairs, tree.node? handle = some node ∧ node.content = .element name ∧
    (pattern = KeyTable.anyElement ∨ name = pattern) ∧ tree.attributePairs? node = some pairs ∧
    pairs.lookup attr = some value

variable {tree : Tree}

theorem lookup_attributes {handles : List Handle}
    (each : ∀ handle ∈ handles, ∃ row name value, tree.node? handle = some row ∧
      row.content = .attr name value) :
    ∃ pairs, (handles.mapM fun handle => (tree.node? handle).bind fun attr => attr.content.pair?) =
        some pairs ∧
      ∀ name, (handles.find? fun attr => tree.name? attr == some name).bind tree.value? =
        pairs.lookup name := by
  induction handles with
  | nil => exact ⟨[], rfl, fun _ => rfl⟩
  | cons handle rest ih =>
    obtain ⟨⟨row, name, value, found, content⟩, others⟩ := List.forall_mem_cons.mp each
    obtain ⟨pairs, listed, same⟩ := ih others
    refine ⟨(name, value) :: pairs, ?_, fun wanted => ?_⟩
    · rw [List.mapM_cons, listed, found, Option.bind_some, content]
      rfl
    · have named : tree.name? handle = some name := by
        rw [name?, found, Option.bind_some, content]
        rfl
      have valued : tree.value? handle = some value := by
        rw [value?, found, Option.map_some, content]
        rfl
      rw [List.find?_cons, named, List.lookup_cons, ← same]
      by_cases equal : name = wanted
      · simp [equal, valued]
      · have forth : (name == wanted) = false := beq_false_of_ne equal
        have back : (wanted == name) = false := beq_false_of_ne (Ne.symm equal)
        simp [forth, back]

/-- The first attribute of a name, as it is searched for, is the first of that name among the
attributes that are read back. -/
theorem LaidOut.lookup_attributePairs (laid : tree.LaidOut) {handle : Handle} {node : Node}
    (found : tree.node? handle = some node) :
    ∃ pairs, tree.attributePairs? node = some pairs ∧
      ∀ name, (tree.attributeOf node name).bind tree.value? = pairs.lookup name := by
  refine lookup_attributes fun attr member => ?_
  have holds := (laid.row handle node found).holds
  rw [holds.attributes] at member
  obtain ⟨first, last⟩ := List.mem_range'_1.mp member
  obtain ⟨pair, row⟩ := holds.attr attr first (by grind)
  exact ⟨_, pair.1, pair.2, row, rfl⟩

end Tree

namespace KeyTable

theorem selects_iff {pattern : String} {node : Node} :
    selects pattern node = true ↔
      ∃ name, node.content = .element name ∧ (pattern = anyElement ∨ name = pattern) := by
  unfold selects
  cases node.content <;> simp [Content.isElement, Content.name?]

/-- **An element is entered under the value of its first attribute of the given name.** -/
theorem keyOf?_eq_some_iff {tree : Tree} (laid : tree.LaidOut) {pattern attr value : String}
    {handle : Handle} :
    keyOf? tree pattern attr handle = some value ↔ tree.Keyed pattern attr value handle := by
  unfold keyOf? Tree.Keyed
  cases found : tree.node? handle with
  | none => simp
  | some node =>
    obtain ⟨pairs, listed, same⟩ := laid.lookup_attributePairs found
    have key : (do
        guard (selects pattern node = true)
        tree.value? (← tree.attributeOf node attr)) =
        if selects pattern node then pairs.lookup attr else none := by
      rw [← same]
      by_cases selected : selects pattern node = true
      · simp [selected, guard]
      · simp [selected, guard]
    show (do
        guard (selects pattern node = true)
        tree.value? (← tree.attributeOf node attr)) = some value ↔ _
    rw [key]
    constructor
    · intro entered
      rw [Option.ite_none_right_eq_some] at entered
      obtain ⟨name, content, named⟩ := selects_iff.mp entered.1
      exact ⟨node, name, pairs, rfl, content, named, listed, entered.2⟩
    · rintro ⟨_, name, _, ⟨⟩, content, named, again, first⟩
      cases listed.symm.trans again
      rw [if_pos (selects_iff.mpr ⟨name, content, named⟩), first]

/-! ### Scanning -/

/-- A node that is entered comes behind the earlier nodes of its value. -/
theorem nodesOf_enter (tree : Tree) (pattern attr : String) (table : KeyTable) (handle : Handle)
    (value : String) :
    (enter tree pattern attr table handle).nodesOf value =
      table.nodesOf value ++
        [handle].filter fun handle => keyOf? tree pattern attr handle = some value := by
  unfold enter
  cases key : keyOf? tree pattern attr handle with
  | none => simp [key]
  | some other =>
    rw [nodesOf_add]
    by_cases same : value = other
    · simp [key, same]
    · have different : ¬ other = value := fun back => same back.symm
      simp [key, same, different]

/-- **A scan adds to the nodes of each value those that carry it**, in the order of the scan. -/
theorem nodesOf_foldl_enter (tree : Tree) (pattern attr : String) (handles : List Handle)
    (table : KeyTable) (value : String) :
    (handles.foldl (enter tree pattern attr) table).nodesOf value =
      table.nodesOf value ++
        handles.filter fun handle => keyOf? tree pattern attr handle = some value := by
  induction handles generalizing table with
  | nil => exact (List.append_nil _).symm
  | cons handle rest ih =>
    rw [List.foldl_cons, ih, nodesOf_enter, List.append_assoc, ← List.filter_append,
      List.singleton_append]

/-! ### The number of values -/

/-- Every value that was entered has nodes. -/
def Filled (table : KeyTable) : Prop :=
  ∀ value, value ∈ table.entries ↔ table.nodesOf value ≠ []

theorem filled_new (name : String) : Filled { name } := by
  intro value
  simp

theorem Filled.enter {table : KeyTable} (filled : table.Filled) (tree : Tree)
    (pattern attr : String) (handle : Handle) : (enter tree pattern attr table handle).Filled := by
  unfold KeyTable.enter
  split
  · rename_i other _
    intro value
    rw [nodesOf_add]
    by_cases same : value = other
    · simp [add, same]
    · have different : ¬ other = value := fun back => same back.symm
      have before := filled value
      simpa [add, same, different] using before
  · exact filled

theorem Filled.foldl_enter {table : KeyTable} (filled : table.Filled) (tree : Tree)
    (pattern attr : String) (handles : List Handle) :
    (handles.foldl (KeyTable.enter tree pattern attr) table).Filled := by
  induction handles generalizing table with
  | nil => exact filled
  | cons handle rest ih => exact ih (filled.enter tree pattern attr handle)

/-- **The size of a table is the number of values that have nodes.** -/
theorem Filled.encard {table : KeyTable} (filled : table.Filled) :
    {value | table.nodesOf value ≠ []}.encard = table.size := by
  have keys : {value | table.nodesOf value ≠ []} = ↑table.entries.keys.toFinset := by
    ext value
    simp [← filled value]
  rw [keys, Set.encard_coe_eq_coe_finsetCard, List.toFinset_card_of_nodup, size,
    Std.HashMap.length_keys]
  exact table.entries.nodup_keys

/-! ### Lookups -/

/-- The nodes of a value in the table of a tree are its elements that carry it, in document
order. -/
theorem nodesOf_ofTree {tree : Tree} (laid : tree.LaidOut) (name pattern attr value : String) :
    ((ofTree tree name pattern attr).value.nodesOf value).Pairwise (· < ·) ∧
      ∀ handle, handle ∈ (ofTree tree name pattern attr).value.nodesOf value ↔
        tree.Keyed pattern attr value handle := by
  have scanned : (ofTree tree name pattern attr).value.nodesOf value =
      (List.range tree.size).filter fun handle => keyOf? tree pattern attr handle = some value := by
    show ((List.range tree.size).foldl (enter tree pattern attr) { name }).nodesOf value = _
    rw [nodesOf_foldl_enter, nodesOf_new, List.nil_append]
  rw [scanned]
  refine ⟨List.pairwise_lt_range.filter _, fun handle => ?_⟩
  rw [List.mem_filter, decide_eq_true_eq, keyOf?_eq_some_iff laid, List.mem_range]
  refine and_iff_right_of_imp ?_
  rintro ⟨node, _, _, found, _⟩
  exact Tree.lt_size_of_node found

open NodeIterator in
/-- A list of handles that do not hang on the start node yields them, and a node set over it is
filled with them when it is made. -/
theorem ofMatches_yields (nodes : List Handle) :
    (∃ rest, (ofMatches nodes).drain = .ok (nodes, rest)) ∧
      ∃ set rest, (ofMatches nodes).toNodeSet = .ok set ∧
        set.value.drain = .ok (ascending nodes, rest) := by
  have sees : (ofMatches nodes).Sees ⟨nodes, none⟩ := ⟨.fixed, rfl⟩
  obtain ⟨rest, drained, _⟩ := drain_complete sees
  refine ⟨⟨rest, drained⟩, ?_⟩
  have heeded : ignoredStart? (ofMatches nodes) {} Handle.root = none := rfl
  rcases fill_of_heeded .fixed heeded with
    ⟨told, handles, set, rest, taken, whole, made, yielded⟩ | ⟨fault, failed, _⟩
  · cases taken
    rw [whole_eq_iff .fixed] at whole
    cases whole
    exact ⟨set, rest, made, yielded⟩
  · have whole : (NodeIterator.fixed _).whole = .error fault := failed
    rw [whole_eq_list .fixed] at whole
    cases whole

/-- **A key lookup yields exactly the elements that carry the keys**, and a node set over it yields
each of them once and in document order. -/
theorem lookup_ofTree {tree : Tree} (built : tree.Built) (name pattern attr : String) :
    ∃ found : String → List Handle,
      (∀ value, (found value).Pairwise (· < ·) ∧
        ∀ handle, handle ∈ found value ↔ tree.Keyed pattern attr value handle) ∧
      {value | found value ≠ []}.encard = (ofTree tree name pattern attr).value.size ∧
      ∀ values,
        (∃ rest, ((ofTree tree name pattern attr).value.lookup values).drain =
          .ok (values.flatMap found, rest)) ∧
        ∃ set list rest, ((ofTree tree name pattern attr).value.lookup values).toNodeSet = .ok set ∧
          set.value.drain = .ok (list, rest) ∧ list.Pairwise (· < ·) ∧
          ∀ handle, handle ∈ list ↔ ∃ value ∈ values, tree.Keyed pattern attr value handle := by
  have each := nodesOf_ofTree built.laidOut name pattern attr
  have filled : (ofTree tree name pattern attr).value.Filled :=
    (filled_new name).foldl_enter tree pattern attr (List.range tree.size)
  refine ⟨(ofTree tree name pattern attr).value.nodesOf, each, filled.encard, fun values => ?_⟩
  obtain ⟨drained, set, rest, made, yielded⟩ :=
    ofMatches_yields (values.flatMap (ofTree tree name pattern attr).value.nodesOf)
  refine ⟨drained, set, _, rest, made, yielded, pairwise_ascending _, fun handle => ?_⟩
  rw [mem_ascending, List.mem_flatMap]
  simp only [(each _).2]

/-- Two elements carry one key, the first of them beside another value for the same name. Whoever
asks for both values finds each of the elements once. -/
theorem lookup_ofTree_repeated :
    ∃ set list rest,
      ((ofTree (.ofDocument (.element "a" [("id", "x"), ("id", "y")] .empty
          (.element "b" [("id", "x")] .empty .empty))) "k" "*" "id").value.lookup
        ["y", "x", "x"]).toNodeSet = .ok set ∧
      set.value.drain = .ok (list, rest) ∧ list.Pairwise (· < ·) ∧ 1 ∈ list ∧ 4 ∈ list := by
  obtain ⟨_, _, _, yields⟩ := lookup_ofTree (Tree.built_ofDocument
    (.element "a" [("id", "x"), ("id", "y")] .empty (.element "b" [("id", "x")] .empty .empty)))
    "k" "*" "id"
  obtain ⟨_, set, list, rest, made, drained, sorted, members⟩ := yields ["y", "x", "x"]
  refine ⟨set, list, rest, made, drained, sorted, ?_, ?_⟩
  · exact (members 1).mpr ⟨"x", by simp, _, "a", _, rfl, rfl, .inl rfl, rfl, rfl⟩
  · exact (members 4).mpr ⟨"x", by simp, _, "b", _, rfl, rfl, .inl rfl, rfl, rfl⟩

end KeyTable

end XPathWalk

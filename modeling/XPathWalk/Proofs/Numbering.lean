/-
**Handles number the nodes in the order of the calls.**

Each call that adds a node gives it the next handle, and what a node is never changes afterwards.
An attribute call adds the new handle to the attributes of the innermost open element and leaves all
other attributes alone, so an element has one attribute for each attribute call that was made while
it was the innermost open node, in the order of these calls.

* `BuildCall.content?`: what the node is that a call adds;
* `Builder.attributeCalls`: the attribute calls made for one element;
* `content_perform`, `attributes_perform`: what one call does to contents and attributes;
* `attributes_ofCalls`: the attributes of a built tree are those that were called for;
* `preorder_of_ofCalls`: every node of a built tree but the root has a parent with a lower handle.
  The handles from a node up to its stop are those of the node and of everything that leads up to it
  along parents. These ranges lie within the tree and are nested or disjoint. The attributes of an
  element are the handles right behind it, one for each attribute call made for it, in order, and
  all its children come later.
-/

import Mathlib.Data.List.Forall2
import XPathWalk.Proofs.Steps
import XPathWalk.Proofs.Subtrees

namespace XPathWalk

/-- What the node is that a call adds. Ending an element adds none. -/
def BuildCall.content? : BuildCall → Option Content
  | .element name => some (.element name)
  | .attr name value => some (.attr name value)
  | .text value => some (.text value)
  | .comment value => some (.comment value)
  | .finish => none

namespace Builder

/-- The name and the value of an attribute call that is made while `owner` is the innermost open
node. -/
def pairFor? (builder : Builder) (owner : Handle) : BuildCall → Option (String × String)
  | .attr name value => if builder.current = owner then some (name, value) else none
  | .element _ | .text _ | .comment _ | .finish => none

/-- The names and values of the attribute calls that are made while `owner` is the innermost open
node. -/
def attributeCalls (owner : Handle) : Builder → List BuildCall → List (String × String)
  | _, [] => []
  | builder, call :: rest =>
    (builder.pairFor? owner call).toList ++
      match builder.perform call with
      | .ok next => attributeCalls owner next rest
      | .error _ => []

/-- What the node of a handle is. -/
def contentAt? (nodes : Array Node) (handle : Handle) : Option Content :=
  nodes[handle]?.map Node.content

/-- The attributes of the node of a handle. -/
def attributesAt (nodes : Array Node) (handle : Handle) : List Handle :=
  nodes[handle]?.elim [] fun node => node.attributes.toList

variable {nodes : Array Node} {handle : Nat}

/-! ### Changes of one row -/

/-- A change that leaves contents alone. -/
theorem contentAt?_modify (index : Nat) (change : Node → Node)
    (same : ∀ node, (change node).content = node.content) :
    contentAt? (nodes.modify index change) handle = contentAt? nodes handle := by
  rw [contentAt?, contentAt?, Array.getElem?_modify]
  split
  · cases nodes[handle]? with
    | none => rfl
    | some node => exact congrArg some (same node)
  · rfl

/-- A change that leaves attributes alone. -/
theorem attributesAt_modify (index : Nat) (change : Node → Node)
    (same : ∀ node, (change node).attributes = node.attributes) :
    attributesAt (nodes.modify index change) handle = attributesAt nodes handle := by
  rw [attributesAt, attributesAt, Array.getElem?_modify]
  split
  · cases nodes[handle]? with
    | none => rfl
    | some node => exact congrArg Array.toList (same node)
  · rfl

theorem contentAt?_push (row : Node) :
    contentAt? (nodes.push row) handle =
      if handle = nodes.size then some row.content else contentAt? nodes handle := by
  rw [contentAt?, contentAt?, Array.getElem?_push]
  split
  · rfl
  · rfl

/-- A new row without attributes. -/
theorem attributesAt_push {row : Node} (bare : row.attributes = #[]) :
    attributesAt (nodes.push row) handle = attributesAt nodes handle := by
  rw [attributesAt, attributesAt, Array.getElem?_push]
  split
  · rename_i fresh
    rw [fresh, Array.getElem?_eq_none (Nat.le_refl _)]
    exact congrArg Array.toList bare
  · rfl

theorem contentAt?_close (top : Handle) :
    contentAt? (close nodes top) handle = contentAt? nodes handle :=
  contentAt?_modify top _ fun _ => rfl

theorem attributesAt_close (top : Handle) :
    attributesAt (close nodes top) handle = attributesAt nodes handle :=
  attributesAt_modify top _ fun _ => rfl

/-- Adding a child changes links and adds a row, and leaves what there is otherwise. -/
theorem exists_linked (nodes : Array Node) (parent : Handle) (content : Content) :
    ∃ (linked : Array Node) (row : Node), appendTo nodes parent content = linked.push row ∧
      row.content = content ∧ row.attributes = #[] ∧ linked.size = nodes.size ∧
      (∀ handle, contentAt? linked handle = contentAt? nodes handle) ∧
      ∀ handle, attributesAt linked handle = attributesAt nodes handle := by
  cases previous : nodes[parent]?.bind Node.lastChild with
  | none =>
    refine ⟨_, _, by rw [appendTo, previous], rfl, rfl, ?_, fun handle => ?_, fun handle => ?_⟩
    · rw [Array.size_modify, Array.size_modify]
    · rw [contentAt?_modify, contentAt?_modify] <;> exact fun _ => rfl
    · rw [attributesAt_modify, attributesAt_modify] <;> exact fun _ => rfl
  | some sibling =>
    refine ⟨_, _, by rw [appendTo, previous], rfl, rfl, ?_, fun handle => ?_, fun handle => ?_⟩
    · rw [Array.size_modify, Array.size_modify]
    · rw [contentAt?_modify, contentAt?_modify] <;> exact fun _ => rfl
    · rw [attributesAt_modify, attributesAt_modify] <;> exact fun _ => rfl

theorem contentAt?_appendTo (parent : Handle) (content : Content) :
    contentAt? (appendTo nodes parent content) handle =
      if handle = nodes.size then some content else contentAt? nodes handle := by
  obtain ⟨linked, row, same, what, _, counted, kept, _⟩ := exists_linked nodes parent content
  rw [same, contentAt?_push, what, counted, kept]

theorem attributesAt_appendTo (parent : Handle) (content : Content) :
    attributesAt (appendTo nodes parent content) handle = attributesAt nodes handle := by
  obtain ⟨linked, row, same, _, bare, _, _, kept⟩ := exists_linked nodes parent content
  rw [same, attributesAt_push bare, kept]

/-! ### One call -/

/-- What an attribute call that is in place does to the table. -/
theorem nodes_of_attr {builder next : Builder} {name value : String}
    (performed : builder.attr name value = .ok next) :
    builder.current < builder.nodes.size ∧
      next.nodes = (builder.nodes.modify builder.current fun node =>
        { node with attributes := node.attributes.push builder.nodes.size }).push
          (attributeRow builder.current builder.nodes.size (name, value)) := by
  rw [attr] at performed
  cases found : builder.nodes[builder.current]? with
  | none =>
    simp only [found] at performed
    cases performed
  | some node =>
    simp only [found] at performed
    split at performed
    · cases performed
    · split at performed
      · cases performed
      · cases performed
        exact ⟨(Array.getElem?_eq_some_iff.mp found).1, rfl⟩

/-- A call adds one node, unless it ends an element. -/
theorem content_perform {builder next : Builder} {call : BuildCall}
    (performed : builder.perform call = .ok next) (handle : Nat) :
    contentAt? next.nodes handle =
      if handle = builder.nodes.size then call.content? else contentAt? builder.nodes handle := by
  cases call with
  | element name =>
    cases performed
    exact contentAt?_appendTo builder.current (.element name)
  | text value =>
    cases performed
    exact contentAt?_appendTo builder.current (.text value)
  | comment value =>
    cases performed
    exact contentAt?_appendTo builder.current (.comment value)
  | attr name value =>
    obtain ⟨_, same⟩ := nodes_of_attr performed
    rw [same, contentAt?_push, contentAt?_modify, Array.size_modify]
    · rfl
    · exact fun _ => rfl
  | finish =>
    obtain ⟨nodes, opened⟩ := builder
    cases opened with
    | nil => cases performed
    | cons top outer =>
      cases performed
      rw [contentAt?_close]
      split
      · rename_i fresh
        rw [fresh, contentAt?, Array.getElem?_eq_none (Nat.le_refl _)]
        rfl
      · rfl

/-- A call adds to the attributes of the element that it is made for, and to no others. -/
theorem attributes_perform {builder next : Builder} {call : BuildCall}
    (performed : builder.perform call = .ok next) (owner : Nat) :
    attributesAt next.nodes owner = attributesAt builder.nodes owner ++
      (builder.pairFor? owner call).toList.map fun _ => builder.nodes.size := by
  cases call with
  | element name =>
    cases performed
    exact (attributesAt_appendTo builder.current (.element name)).trans (List.append_nil _).symm
  | text value =>
    cases performed
    exact (attributesAt_appendTo builder.current (.text value)).trans (List.append_nil _).symm
  | comment value =>
    cases performed
    exact (attributesAt_appendTo builder.current (.comment value)).trans (List.append_nil _).symm
  | attr name value =>
    obtain ⟨within, same⟩ := nodes_of_attr performed
    rw [same, attributesAt_push rfl, attributesAt, attributesAt, Array.getElem?_modify, pairFor?]
    split
    · rename_i innermost
      rw [innermost] at within
      rw [Array.getElem?_eq_getElem within]
      exact Array.toList_push
    · exact (List.append_nil _).symm
  | finish =>
    obtain ⟨nodes, opened⟩ := builder
    cases opened with
    | nil => cases performed
    | cons top outer =>
      cases performed
      exact (attributesAt_close top).trans (List.append_nil _).symm

/-! ### Calls in a row -/

/-- What a node is does not change in a run. -/
theorem content_run {builder last : Builder} {calls : List BuildCall} {content : Content}
    (ran : builder.run calls = .ok last) (known : contentAt? builder.nodes handle = some content) :
    contentAt? last.nodes handle = some content := by
  induction calls generalizing builder with
  | nil =>
    cases ran
    exact known
  | cons call rest ih =>
    obtain ⟨next, performed, later⟩ := exists_of_bind_ok ran
    refine ih later ?_
    rw [content_perform performed, if_neg, known]
    rintro rfl
    rw [contentAt?, Array.getElem?_eq_none (Nat.le_refl _)] at known
    cases known

/-- **The attributes that a run adds to an element** are those of the attribute calls that are made
for it, in order. -/
theorem attributes_run {builder last : Builder} {calls : List BuildCall}
    (ran : builder.run calls = .ok last) (owner : Nat) :
    ∃ added, attributesAt last.nodes owner = attributesAt builder.nodes owner ++ added ∧
      List.Forall₂ (fun attr pair => contentAt? last.nodes attr = some (.attr pair.1 pair.2)) added
        (attributeCalls owner builder calls) := by
  induction calls generalizing builder with
  | nil =>
    cases ran
    exact ⟨[], (List.append_nil _).symm, .nil⟩
  | cons call rest ih =>
    obtain ⟨next, performed, later⟩ := exists_of_bind_ok ran
    obtain ⟨added, same, alike⟩ := ih later
    rw [attributes_perform performed, List.append_assoc] at same
    refine ⟨_, same, ?_⟩
    rw [attributeCalls, performed]
    cases called : builder.pairFor? owner call with
    | none => exact alike
    | some pair =>
      refine .cons (content_run later ?_) alike
      rw [content_perform performed, if_pos rfl]
      cases call with
      | attr name value =>
        rw [pairFor?] at called
        split at called
        · cases called
          rfl
        · cases called
      | element name => cases called
      | text value => cases called
      | comment value => cases called
      | finish => cases called

/-! ### Building -/

theorem contentAt?_foldl_close (opened : List Handle) (nodes : Array Node) :
    contentAt? (opened.foldl close nodes) handle = contentAt? nodes handle := by
  induction opened generalizing nodes with
  | nil => rfl
  | cons top outer ih => rw [List.foldl_cons, ih, contentAt?_close]

theorem attributesAt_foldl_close (opened : List Handle) (nodes : Array Node) :
    attributesAt (opened.foldl close nodes) handle = attributesAt nodes handle := by
  induction opened generalizing nodes with
  | nil => rfl
  | cons top outer ih => rw [List.foldl_cons, ih, attributesAt_close]

/-- A new builder has no attributes. -/
theorem attributesAt_new (owner : Nat) : attributesAt ({} : Builder).nodes owner = [] := by
  cases owner with
  | zero => rfl
  | succ owner => rfl

end Builder

namespace Tree

variable {calls : List BuildCall} {tree : Tree} {log : List LogEvent}

/-- **The attributes of a built tree are those that were called for**, in order. -/
theorem attributes_ofCalls (accepted : ofCalls calls = .ok ⟨tree, log⟩) (owner : Nat) :
    List.Forall₂
      (fun attr pair => Builder.contentAt? tree.nodes attr = some (.attr pair.1 pair.2))
      (Builder.attributesAt tree.nodes owner) (Builder.attributeCalls owner {} calls) := by
  obtain ⟨last, ran, same⟩ := exists_of_bind_ok accepted
  cases same
  obtain ⟨added, all, alike⟩ := Builder.attributes_run ran owner
  rw [Builder.attributesAt_new, List.nil_append] at all
  simp only [Builder.contentAt?_close, Builder.attributesAt_close,
    Builder.contentAt?_foldl_close, Builder.attributesAt_foldl_close, all]
  exact alike

/-- The attributes of an element come right behind it, as many as there were calls for them, and
each is what its call says. -/
theorem LaidOut.attributes (laid : tree.LaidOut) (accepted : ofCalls calls = .ok ⟨tree, log⟩)
    {owner : Nat} {node : Node} (found : tree.node? owner = some node) :
    node.attributes.size = (Builder.attributeCalls owner {} calls).length ∧
      ∀ index pair, (Builder.attributeCalls owner {} calls)[index]? = some pair →
        tree.node? (owner + 1 + index) = some (attributeRow owner (owner + 1 + index) pair) := by
  have alike := attributes_ofCalls accepted owner
  have here : Builder.attributesAt tree.nodes owner = node.attributes.toList := by
    rw [Builder.attributesAt, show tree.nodes[owner]? = some node from found, Option.elim_some]
  have holds := (laid.row owner node found).holds
  rw [here, holds.attributes] at alike
  have counted : node.attributes.size = (Builder.attributeCalls owner {} calls).length := by
    rw [← alike.length_eq, List.length_range']
  refine ⟨counted, fun index pair called => ?_⟩
  obtain ⟨below, entry⟩ := List.getElem?_eq_some_iff.mp called
  have content := alike.get (by rwa [List.length_range', counted]) below
  rw [List.get_eq_getElem, List.get_eq_getElem, entry, List.getElem_range', Nat.one_mul] at content
  have behind : owner < owner + 1 + index := by omega
  have within : owner + 1 + index ≤ owner + node.attributes.size := by omega
  obtain ⟨⟨name, value⟩, row⟩ := holds.attr (owner + 1 + index) behind within
  rw [Builder.contentAt?, show tree.nodes[owner + 1 + index]? = _ from row] at content
  obtain ⟨_, _⟩ := pair
  cases content
  exact row

/-- A node is an attribute of an element exactly if it is one of those that the element lists. -/
theorem LaidOut.mem_attributes_iff (laid : tree.LaidOut) {owner attr : Nat} {node : Node}
    (found : tree.node? owner = some node) :
    attr ∈ node.attributes.toList ↔
      ∃ row, tree.node? attr = some row ∧ row.content.isAttr ∧ row.parent = some owner := by
  have holds := (laid.row owner node found).holds
  rw [holds.attributes, List.mem_range'_1]
  constructor
  · rintro ⟨behind, below⟩
    have within : attr ≤ owner + node.attributes.size := by omega
    obtain ⟨pair, row⟩ := holds.attr attr behind within
    exact ⟨_, row, rfl, rfl⟩
  · rintro ⟨row, entry, isAttr, above⟩
    obtain ⟨_, _, top, behind, within, _⟩ := laid.attrAt entry isAttr above
    rw [found] at top
    cases top
    exact ⟨behind, Nat.add_right_comm owner 1 _ ▸ Nat.lt_succ_of_le within⟩

/-- **Handles are a numbering in document order**: parents come first, subtrees are ranges, nested
or disjoint, and an element is followed by its attributes in the order of their calls. -/
theorem preorder_of_ofCalls (accepted : ofCalls calls = .ok ⟨tree, log⟩) :
    (∀ handle node, tree.node? handle = some node →
      if handle = Handle.root then node.parent = none
      else ∃ parent, node.parent = some parent ∧ parent < handle ∧ parent < tree.size) ∧
    (∀ top row handle node, tree.node? top = some row → tree.node? handle = some node →
      (top ≤ handle ∧ handle < row.stop ↔
        handle = top ∨ Relation.TransGen tree.IsParent handle top)) ∧
    (∀ handle node, tree.node? handle = some node → handle < node.stop ∧ node.stop ≤ tree.size) ∧
    (∀ first node second row, tree.node? first = some node → tree.node? second = some row →
      (first ≤ second ∧ row.stop ≤ node.stop) ∨ (second ≤ first ∧ node.stop ≤ row.stop) ∨
        node.stop ≤ second ∨ row.stop ≤ first) ∧
    ∀ owner node name, tree.node? owner = some node → node.content = .element name →
      node.attributes.toList =
          List.range' (owner + 1) (Builder.attributeCalls owner {} calls).length ∧
        (∀ attr, attr ∈ node.attributes.toList ↔
          ∃ row, tree.node? attr = some row ∧ row.content.isAttr ∧ row.parent = some owner) ∧
        (∀ index pair, (Builder.attributeCalls owner {} calls)[index]? = some pair →
          tree.node? (owner + 1 + index) =
            some (attributeRow owner (owner + 1 + index) pair)) ∧
        ∀ child row, tree.node? child = some row → row.parent = some owner →
          row.content.isAttr = false →
            owner + (Builder.attributeCalls owner {} calls).length < child := by
  have laid : tree.LaidOut := Built.laidOut ⟨calls, log, accepted⟩
  refine ⟨?_, ?_, ?_, ?_, ?_⟩
  · intro handle node found
    split
    · rename_i top
      subst top
      exact laid.parent_root found
    · rename_i inner
      obtain ⟨parent, above⟩ := laid.exists_parent found inner
      obtain ⟨_, entry, before, _⟩ := laid.exists_parent_row found above
      exact ⟨parent, above, before, lt_size_of_node entry⟩
  · intro top row handle node entry found
    rw [laid.within_iff_ancestor found entry, Relation.reflTransGen_iff_eq_or_transGen, eq_comm]
  · intro handle node found
    exact ⟨laid.lt_stop found, (laid.linked.row handle node found).stop⟩
  · intro first node second row found entry
    exact laid.nested_or_disjoint found entry
  · intro owner node name found element
    obtain ⟨counted, each⟩ := laid.attributes accepted found
    rw [← counted]
    refine ⟨(laid.row owner node found).holds.attributes, fun attr => laid.mem_attributes_iff found,
      each, fun child row entry above plain => ?_⟩
    exact (laid.childAt entry found ⟨plain, above⟩).above

/-- Two attributes and a text lie in the range of an element that is left open. -/
theorem preorder_of_ofCalls_element :
    ∃ (tree : Tree) (log : List LogEvent) (row : Node),
      ofCalls [.element "a", .attr "k" "v", .attr "l" "w", .text "t"] = .ok ⟨tree, log⟩ ∧
        tree.node? 1 = some row ∧ row.stop = 5 ∧ row.attributes.toList = [2, 3] ∧
        Relation.TransGen tree.IsParent 4 1 := by
  have accepted : ofCalls [.element "a", .attr "k" "v", .attr "l" "w", .text "t"] =
      .ok ⟨_, _⟩ := rfl
  obtain ⟨_, range, _, _, attributes⟩ := preorder_of_ofCalls accepted
  have inside := (range 1 _ 4 _ rfl rfl).mp ⟨by decide, by decide⟩
  exact ⟨_, _, _, accepted, rfl, rfl, (attributes 1 _ "a" rfl rfl).1,
    inside.resolve_left (by decide)⟩

end Tree

end XPathWalk

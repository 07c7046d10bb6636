/-
**The text of a node, by its range and by its children.**

The text of a document or of an element is read in one scan over the handles of its subtree, which
keeps the values of text nodes. The same text comes from the children: each text and each element
among them adds its own text, in the order of the sibling links, and a comment adds nothing. For the
scan sees nothing of the attributes, and without these it reads the subtrees of the children one
after another.

* `Tree.childText`: what a child adds to the text of its parent;
* `Tree.muted`: a tree without the values of its comments and attributes;
* `Tree.ownText?`: the value of a text node;
* `textsWithin_eq_filterMap`: a scan reads the texts among the nodes that are no attributes;
* `Built.root_of_document`: only the root of a built tree is a document;
* `stringValue_eq_join`, `childText_eq_join`: texts as those of the nodes below;
* `stringValue_of_built`: every node of a built tree has a text. That of the document and of an
  element is what its children add to it, in the order of the sibling links: they are elements and
  texts, which add their own text, and comments, which add nothing. It stays the same if all values
  of comments and attributes are dropped from the tree. The text of an attribute, of a text or of a
  comment is its own value.
-/

import XPathWalk.Proofs.Descendants
import XPathWalk.Proofs.Numbering

namespace XPathWalk

/-- The same kind of node, without the value of an attribute or of a comment. -/
def Content.muted : Content → Content
  | attr name _ => attr name ""
  | comment _ => comment ""
  | document => document
  | element name => element name
  | text value => text value

/-- Only texts have a text to read, which muting leaves. -/
@[simp] theorem Content.text?_muted (content : Content) : content.muted.text? = content.text? := by
  cases content <;> rfl

/-- Muting makes no container and leaves every container one. -/
@[simp] theorem Content.isContainer_muted (content : Content) :
    content.muted.isContainer = content.isContainer := by
  cases content <;> rfl

/-- Attributes have no text to read. -/
theorem Content.text?_of_isAttr {content : Content} (isAttr : content.isAttr) :
    content.text? = none := by
  cases content with
  | attr name value => rfl
  | document => cases isAttr
  | element name => cases isAttr
  | text value => cases isAttr
  | comment value => cases isAttr

/-- A run adds no document: the root is the only one. -/
theorem Builder.root_of_run {last : Builder} {calls : List BuildCall} {handle : Nat}
    (ran : Builder.run {} calls = .ok last)
    (document : contentAt? last.nodes handle = some .document) : handle = Handle.root := by
  induction calls using List.reverseRecOn generalizing last with
  | nil =>
    cases ran
    cases handle with
    | zero => rfl
    | succ handle => cases document
  | append_singleton calls call ih =>
    obtain ⟨before, earlier, more⟩ := exists_of_bind_ok (List.foldlM_append.symm.trans ran)
    obtain ⟨_, performed, done⟩ := exists_of_bind_ok more
    cases done
    rw [content_perform performed] at document
    split at document
    · cases call <;> cases document
    · exact ih earlier document

namespace Tree

/-! ### Definitions -/

/-- What a child adds to the text of its parent. -/
def childText (tree : Tree) (child : Handle) : Except Fault String := do
  match (← tree.node child).content with
  | .text _ | .element _ => tree.stringValue child
  | .comment _ | .attr _ _ | .document => return ""

/-- The same tree, without the values of its attributes and comments. -/
def muted (tree : Tree) : Tree where
  nodes := tree.nodes.map fun node => { node with content := node.content.muted }

/-- The value of the node of a handle if that is a text. -/
def ownText? (tree : Tree) (handle : Handle) : Option String :=
  (tree.node? handle).bind fun node => node.content.text?

variable {tree : Tree} {handle origin : Nat} {node : Node}

/-! ### Lists of texts -/

/-- Joining texts group by group. -/
theorem join_flatMap {α : Type} (items : List α) (texts : α → List String) :
    String.join (items.flatMap texts) = String.join (items.map fun item => String.join (texts item)) := by
  induction items with
  | nil => rfl
  | cons item rest ih =>
    rw [List.flatMap_cons, String.join_append, ih, List.map_cons, String.join_cons]

/-- A list is mapped without a fault if each of its items is. -/
theorem mapM_eq_ok {α β ε : Type} {items : List α} {step : α → Except ε β} {result : α → β}
    (each : ∀ item ∈ items, step item = .ok (result item)) :
    items.mapM step = .ok (items.map result) := by
  induction items with
  | nil => rfl
  | cons item rest ih =>
    obtain ⟨here, later⟩ := List.forall_mem_cons.mp each
    rw [List.mapM_cons, here, ih later]
    rfl

/-! ### Scans -/

theorem ownText?_of_node? (found : tree.node? handle = some node) :
    tree.ownText? handle = node.content.text? := by
  rw [ownText?, found, Option.bind_some]

/-- Attributes have no text of their own. -/
theorem ownText?_of_attr (isAttr : tree.isPlain handle = false) : tree.ownText? handle = none := by
  cases found : tree.node? handle with
  | none => rw [ownText?, found, Option.bind_none]
  | some node =>
    rw [isPlain_of_node? found, Bool.not_eq_false'] at isAttr
    rw [ownText?_of_node? found, Content.text?_of_isAttr isAttr]

/-- **A scan reads the texts among the nodes that are no attributes.** -/
theorem textsWithin_eq_filterMap (first stop : Nat) :
    tree.textsWithin first stop = (tree.plainFrom first (stop - first)).filterMap tree.ownText? := by
  rw [plainFrom, List.filterMap_filter]
  refine List.filterMap_congr fun handle _ => ?_
  show tree.ownText? handle = _
  split
  · rfl
  · rename_i isAttr
    exact ownText?_of_attr (Bool.eq_false_iff.mpr isAttr)

/-- Muting a tree changes no text that a scan reads. -/
theorem textsWithin_muted (first stop : Nat) :
    tree.muted.textsWithin first stop = tree.textsWithin first stop := by
  refine List.filterMap_congr fun handle _ => ?_
  rw [node?, node?, muted, Array.getElem?_map, Option.bind_map]
  exact Option.bind_congr fun node _ => node.content.text?_muted

/-! ### The root -/

/-- **Only the root is a document**: no call adds one. -/
theorem Built.root_of_document (built : tree.Built) (found : tree.node? handle = some node)
    (document : node.content = .document) : handle = Handle.root := by
  obtain ⟨calls, log, accepted⟩ := built
  obtain ⟨last, ran, same⟩ := exists_of_bind_ok accepted
  cases same
  have content : Builder.contentAt? last.nodes handle = some .document := by
    rw [← Builder.contentAt?_foldl_close last.opened, ← Builder.contentAt?_close Handle.root,
      Builder.contentAt?, ← document]
    exact congrArg (Option.map Node.content) found
  exact Builder.root_of_run ran content

/-! ### Texts by the nodes below -/

/-- The text of a node is that of its range or its own value. -/
theorem stringValue_eq (found : tree.node? origin = some node) :
    tree.stringValue origin = .ok
      (if node.content.isContainer then String.join (tree.textsWithin (origin + 1) node.stop)
        else node.content.value) := by
  rw [stringValue, node_of_node? found]
  show Except.ok _ = _
  cases node.content with
  | document => rfl
  | element name => rfl
  | attr name value => rfl
  | text value => rfl
  | comment value => rfl

/-- The text of a container is that of the texts below it. -/
theorem stringValue_of_container (found : tree.node? origin = some node)
    (container : node.content.isContainer) :
    tree.stringValue origin =
      .ok (String.join ((tree.axisNodes .descendant origin).filterMap tree.ownText?)) := by
  rw [stringValue_eq found, if_pos container, textsWithin_eq_filterMap, axisNodes, found,
    Option.elim_some]

/-- The text of any other node is its own value. -/
theorem stringValue_of_leaf (found : tree.node? origin = some node)
    (leaf : node.content.isContainer = false) :
    tree.stringValue origin = .ok node.content.value := by
  rw [stringValue_eq found, leaf]
  rfl

/-- Muting a tree changes the text of no container. -/
theorem stringValue_muted (found : tree.node? origin = some node)
    (container : node.content.isContainer) :
    tree.muted.stringValue origin = tree.stringValue origin := by
  have row : tree.muted.node? origin = some { node with content := node.content.muted } := by
    rw [node?, muted, Array.getElem?_map, show tree.nodes[origin]? = some node from found]
    rfl
  rw [stringValue_eq row, stringValue_eq found, Content.isContainer_muted, if_pos container,
    if_pos container, textsWithin_muted]

/-- A child is an element, a text or a comment. -/
theorem Built.content_of_child (built : tree.Built) (member : handle ∈ tree.axisNodes .child origin) :
    ∃ node, tree.node? handle = some node ∧ node.parent = some origin ∧
      ((∃ name, node.content = .element name) ∨ (∃ value, node.content = .text value) ∨
        ∃ value, node.content = .comment value) := by
  obtain ⟨node, there, above⟩ := built.laidOut.mem_child_iff.mp member
  refine ⟨node, there.found, above, ?_⟩
  cases content : node.content with
  | element name => exact .inl ⟨name, rfl⟩
  | text value => exact .inr (.inl ⟨value, rfl⟩)
  | comment value => exact .inr (.inr ⟨value, rfl⟩)
  | attr name value =>
    have plain := there.plain
    rw [content] at plain
    cases plain
  | document =>
    -- The root has no parent.
    have root := built.root_of_document there.found content
    have lower := (built.linked.row handle node there.found).parent origin above
    rw [root] at lower
    cases lower

/-- **A child adds the texts of its subtree**, itself included. -/
theorem Built.childText_eq_join (built : tree.Built)
    (member : handle ∈ tree.axisNodes .child origin) :
    tree.childText handle = .ok (String.join
      ((handle :: tree.axisNodes .descendant handle).filterMap tree.ownText?)) := by
  obtain ⟨node, found, _, kind⟩ := built.content_of_child member
  have own := ownText?_of_node? found
  have below : node.content.isContainer = false → tree.axisNodes .descendant handle = [] := by
    intro leaf
    rw [built.laidOut.descendant_eq_preorder found, built.childless_of_leaf found leaf,
      preorder_none]
  rw [childText, node_of_node? found, ok_bind]
  rcases kind with ⟨name, content⟩ | ⟨value, content⟩ | ⟨value, content⟩
  · rw [content] at own
    rw [content, List.filterMap_cons_none own]
    exact stringValue_of_container found (by rw [content]; rfl)
  · rw [content] at own below
    rw [content, List.filterMap_cons_some own, below rfl]
    simpa [content, Content.value] using
      stringValue_of_leaf found (by rw [content]; rfl)
  · rw [content] at own below
    rw [content, List.filterMap_cons_none own, below rfl]
    rfl

/-- The child axis lists the children. -/
theorem axisNodes_child_eq (found : tree.node? origin = some node) :
    tree.axisNodes .child origin = tree.children origin := by
  rw [axisNodes, found, Option.elim_some]

/-- **The text of a container is put together from its children.** -/
theorem Built.stringValue_eq_join (built : tree.Built) (found : tree.node? origin = some node)
    (container : node.content.isContainer) :
    tree.stringValue origin = String.join <$> (tree.children origin).mapM tree.childText := by
  have children := axisNodes_child_eq found
  have each := mapM_eq_ok fun child (member : child ∈ tree.children origin) =>
    built.childText_eq_join (children ▸ member)
  rw [stringValue_of_container found container, built.laidOut.descendant_eq_flatMap found, children,
    List.filterMap_flatMap, join_flatMap, each]
  rfl

/-! ### Built trees -/

/-- **The text read in one scan is the text by recursion over the children.** Comments and
attributes add nothing to it, and the text of a node that holds no others is its own value. -/
theorem stringValue_of_built (built : tree.Built) (found : tree.node? origin = some node) :
    (∃ text, tree.stringValue origin = .ok text) ∧
    (node.content.isContainer →
      tree.stringValue origin = String.join <$> (tree.children origin).mapM tree.childText ∧
      (∀ child ∈ tree.children origin, ∃ row, tree.node? child = some row ∧
        row.parent = some origin ∧
        ((∃ name, row.content = .element name) ∨ (∃ value, row.content = .text value) ∨
          ∃ value, row.content = .comment value)) ∧
      tree.muted.stringValue origin = tree.stringValue origin) ∧
    (node.content.isContainer = false → tree.stringValue origin = .ok node.content.value) := by
  refine ⟨?_, fun container => ⟨built.stringValue_eq_join found container, ?_, ?_⟩,
    stringValue_of_leaf found⟩
  · rw [stringValue, node_of_node? found]
    exact ⟨_, rfl⟩
  · intro child member
    rw [← axisNodes_child_eq found] at member
    exact built.content_of_child member
  · exact stringValue_muted found container

/-- An element around an attribute, a text, an element with another text, and a comment. -/
theorem stringValue_of_built_element :
    ∃ tree : Tree, tree.Built ∧ tree.children 1 = [3, 4, 6] ∧
      tree.stringValue 1 = String.join <$> [3, 4, 6].mapM tree.childText ∧
      tree.childText 3 = .ok "t" ∧ tree.childText 4 = .ok "u" ∧ tree.childText 6 = .ok "" ∧
      tree.muted.stringValue 1 = tree.stringValue 1 ∧ tree.stringValue 6 = .ok "c" := by
  have built := built_ofDocument (.element "a" [("k", "v")]
    (.text "t" (.element "b" [] (.text "u" .empty) (.comment "c" .empty))) .empty)
  obtain ⟨_, container, _⟩ := @stringValue_of_built _ 1 _ built rfl
  obtain ⟨_, _, leaf⟩ := @stringValue_of_built _ 6 _ built rfl
  obtain ⟨children, _, quiet⟩ := container rfl
  exact ⟨_, built, rfl, children, rfl, rfl, rfl, quiet, leaf rfl⟩

end Tree

end XPathWalk

/-
**The links of a built tree.**

A link to a parent or to an earlier sibling leads to a lower handle. A link to a first child or to a
later sibling leads to a higher handle of the same tree. So no walk along links is endless and none
leaves the tree, whatever calls wrote the tree down.

* `Node.LinkedAt`: where the links of one row may lead;
* `linkedRows_rows`: the rows of a document are linked so;
* `Tree.Built.linked`: every built tree is.
-/

import XPathWalk.Proofs.DraftTable

namespace XPathWalk

/-- The links of the row of a handle, in a table of a given size. -/
structure Node.LinkedAt (size handle : Nat) (node : Node) : Prop where
  parent : ∀ link, node.parent = some link → link < handle
  previous : ∀ link, node.previousSibling = some link → link < handle
  next : ∀ link, node.nextSibling = some link → handle < link ∧ link < size
  child : ∀ link, node.firstChild = some link → handle < link ∧ link < size
  stop : node.stop ≤ size

/-- Rows from a handle on are linked within a table of a given size. -/
def LinkedRows (size : Nat) : (first : Nat) → List Node → Prop
  | _, [] => True
  | first, row :: rows => row.LinkedAt size first ∧ LinkedRows size (first + 1) rows

/-- A tree whose links all stay within it. -/
structure Tree.Linked (tree : Tree) : Prop where
  nonempty : 0 < tree.size
  row : ∀ handle node, tree.node? handle = some node → node.LinkedAt tree.size handle

/-- A tree that some accepted calls write down. -/
def Tree.Built (tree : Tree) : Prop := ∃ calls log, Tree.ofCalls calls = .ok ⟨tree, log⟩

/-! ### Rows in a row -/

variable {size : Nat}

theorem linkedRows_append (first : Nat) (rows others : List Node) :
    LinkedRows size first (rows ++ others) ↔
      LinkedRows size first rows ∧ LinkedRows size (first + rows.length) others := by
  induction rows generalizing first with
  | nil => simp [LinkedRows]
  | cons row rest ih =>
    rw [List.cons_append, LinkedRows, LinkedRows, ih, and_assoc, List.length_cons,
      Nat.add_assoc first 1, Nat.add_comm 1]

theorem LinkedRows.at_index {rows : List Node} {first : Nat} (linked : LinkedRows size first rows)
    {index : Nat} {row : Node} (found : rows[index]? = some row) :
    row.LinkedAt size (first + index) := by
  induction rows generalizing first index with
  | nil => cases found
  | cons head rest ih =>
    cases index with
    | zero =>
      cases found
      exact linked.1
    | succ index =>
      have behind := ih linked.2 found
      rwa [Nat.add_assoc, Nat.add_comm 1] at behind

/-- The links of attributes lead to their owner alone. -/
theorem linkedRows_attributeRows (owner first : Nat) (attributes : List (String × String))
    (above : owner < first) (room : first + attributes.length ≤ size) :
    LinkedRows size first (attributeRows owner first attributes) := by
  induction attributes generalizing first with
  | nil => trivial
  | cons pair rest ih =>
    rw [List.length_cons] at room
    refine ⟨⟨?_, ?_, ?_, ?_, ?_⟩, ih (first + 1) (by omega) (by omega)⟩
    · rintro link ⟨⟩
      exact above
    · rintro link ⟨⟩
    · rintro link ⟨⟩
    · rintro link ⟨⟩
    · show first + 1 ≤ size
      omega

/-! ### The rows of a document -/

theorem Document.size_pos {document : Document} (nonempty : document ≠ .empty) :
    0 < document.size := by
  cases document with
  | empty => exact absurd rfl nonempty
  | element name attributes children rest => grind [Document.size]
  | text value rest => grind [Document.size]
  | comment value rest => grind [Document.size]

/-- The first of some nodes lies within the room that they fill. -/
theorem Document.headOf_within (document : Document) (first below : Nat) (next : Option Handle)
    (room : first + document.size ≤ size) (above : below < first)
    (onward : ∀ link, next = some link → below < link ∧ link < size) :
    ∀ link, document.headOf first next = some link → below < link ∧ link < size := by
  intro link found
  by_cases nonempty : document = .empty
  · subst nonempty
    exact onward link found
  · have filled := Document.size_pos nonempty
    rw [Document.headOf_of_nonempty nonempty] at found
    cases found
    exact ⟨above, Nat.lt_of_lt_of_le (Nat.lt_add_of_pos_right filled) room⟩

/-- The links of a leaf. -/
theorem linkedAt_leafRow (content : Content) (handle parent : Nat) (previous next : Option Handle)
    (above : parent < handle) (back : ∀ link, previous = some link → link < handle)
    (onward : ∀ link, next = some link → handle < link ∧ link < size) (room : handle + 1 ≤ size) :
    (leafRow content handle parent previous next).LinkedAt size handle where
  parent := by
    rintro link ⟨⟩
    exact above
  previous := back
  next := onward
  child := by rintro link ⟨⟩
  stop := room

/-- A container is linked within the table once its children are. -/
theorem linkedRows_frame (frame : Frame) (handle : Nat) (parent previous next : Option Handle)
    (above : ∀ link, parent = some link → link < handle)
    (back : ∀ link, previous = some link → link < handle)
    (onward : ∀ link, next = some link → handle < link ∧ link < size)
    (room : handle + frame.size ≤ size)
    (below : LinkedRows size (frame.start handle)
      (frame.children.rows (frame.start handle) handle none none)) :
    LinkedRows size handle
      (frame.rows handle parent previous next none (handle + frame.size)) := by
  have size_eq : frame.size = 1 + frame.attributes.length + frame.children.size := rfl
  refine ⟨⟨above, back, onward, ?_, room⟩, ?_⟩
  · refine Document.headOf_within frame.children (frame.start handle) handle none ?_ ?_ ?_
    · show handle + 1 + frame.attributes.length + frame.children.size ≤ size
      omega
    · show handle < handle + 1 + frame.attributes.length
      omega
    · rintro link ⟨⟩
  · rw [linkedRows_append, length_attributeRows]
    exact ⟨linkedRows_attributeRows handle (handle + 1) frame.attributes (by omega) (by omega),
      below⟩

/-- A leaf and what follows it are linked within the table once the latter is. -/
theorem linkedRows_leaf (content : Content) (rest : Document) (first parent : Nat)
    (previous next : Option Handle) (above : parent < first)
    (back : ∀ link, previous = some link → link < first)
    (onward : ∀ link, next = some link → first + (1 + rest.size) ≤ link ∧ link < size)
    (room : first + (1 + rest.size) ≤ size)
    (later : parent < first + 1 → (∀ link, some first = some link → link < first + 1) →
      (∀ link, next = some link → first + 1 + rest.size ≤ link ∧ link < size) →
      first + 1 + rest.size ≤ size →
      LinkedRows size (first + 1) (rest.rows (first + 1) parent (some first) next)) :
    LinkedRows size first
      (leafRow content first parent previous (rest.headOf (first + 1) next) ::
        rest.rows (first + 1) parent (some first) next) := by
  have behind : ∀ link, next = some link → first + 1 + rest.size ≤ link ∧ link < size := by
    intro link found
    have later := onward link found
    grind
  refine ⟨linkedAt_leafRow content first parent previous _ above back ?_ (by omega), ?_⟩
  · refine Document.headOf_within rest (first + 1) first next (by omega) (by omega) ?_
    intro link found
    have later := behind link found
    grind
  · refine later (by omega) ?_ behind (by omega)
    rintro link ⟨⟩
    exact Nat.lt_succ_self first

/-- **The rows of a document are linked within the table.** Their parent and the sibling before them
come earlier, and what follows them comes later. -/
theorem linkedRows_rows (document : Document) (first parent : Nat) (previous next : Option Handle)
    (above : parent < first) (back : ∀ link, previous = some link → link < first)
    (onward : ∀ link, next = some link → first + document.size ≤ link ∧ link < size)
    (room : first + document.size ≤ size) :
    LinkedRows size first (document.rows first parent previous next) := by
  induction document generalizing first parent previous next with
  | empty => trivial
  | element name attributes children rest ihChildren ihRest =>
    rw [Document.rows_element, linkedRows_append, Frame.length_rows]
    simp only [Document.size] at onward room
    have size_eq : Frame.size { content := .element name, attributes, children } =
        1 + attributes.length + children.size := rfl
    refine ⟨linkedRows_frame _ first (some parent) previous _ ?_ back ?_ (by omega) ?_, ?_⟩
    · rintro link ⟨⟩
      exact above
    · refine Document.headOf_within rest (first + _) first next (by omega) (by omega) ?_
      intro link found
      have later := onward link found
      grind
    · refine ihChildren (first + 1 + attributes.length) first none none (by omega) ?_ ?_ (by omega)
      · rintro link ⟨⟩
      · rintro link ⟨⟩
    · refine ihRest (first + _) parent (some first) next (by omega) ?_ ?_ (by omega)
      · rintro link ⟨⟩
        grind
      · intro link found
        have later := onward link found
        grind
  | text value rest ih =>
    simp only [Document.size] at onward room
    exact linkedRows_leaf (.text value) rest first parent previous next above back onward room
      (ih (first + 1) parent (some first) next)
  | comment value rest ih =>
    simp only [Document.size] at onward room
    exact linkedRows_leaf (.comment value) rest first parent previous next above back onward room
      (ih (first + 1) parent (some first) next)

/-! ### Built trees -/

namespace Tree

/-- The tree of a document is linked. -/
theorem linked_ofDocument (document : Document) : (ofDocument document).Linked := by
  have counted := size_ofDocument document
  have all : LinkedRows (ofDocument document).size 0
      (document.frame.rows Handle.root none none none none (0 + document.frame.size)) := by
    refine linkedRows_frame document.frame 0 none none none ?_ ?_ ?_ ?_ ?_
    · rintro link ⟨⟩
    · rintro link ⟨⟩
    · rintro link ⟨⟩
    · exact Nat.le_of_eq ((Nat.zero_add _).trans counted.symm)
    · refine linkedRows_rows document 1 0 none none (by omega) ?_ ?_ ?_
      · rintro link ⟨⟩
      · rintro link ⟨⟩
      · omega
  rw [Nat.zero_add] at all
  refine ⟨?_, ?_⟩
  · omega
  · intro handle node found
    rw [node?, ofDocument, List.getElem?_toArray] at found
    have linked := all.at_index found
    rwa [Nat.zero_add] at linked

/-- The tree of a document can be built. -/
theorem built_ofDocument (document : Document) : (ofDocument document).Built :=
  ⟨document.calls, _, ofCalls_calls document⟩

/-- A built tree is that of a document. -/
theorem Built.exists_document {tree : Tree} (built : tree.Built) :
    ∃ document, tree = ofDocument document := by
  obtain ⟨calls, log, accepted⟩ := built
  obtain ⟨document, missing, whole, same⟩ := exists_document_of_ofCalls accepted
  rw [whole, ofCalls_calls] at same
  injection same with same
  exact ⟨document, (congrArg Logged.value same).symm⟩

/-- **Every built tree is linked.** -/
theorem Built.linked {tree : Tree} (built : tree.Built) : tree.Linked := by
  obtain ⟨document, rfl⟩ := built.exists_document
  exact linked_ofDocument document

end Tree

end XPathWalk

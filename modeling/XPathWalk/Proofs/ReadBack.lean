/-
**Reading a document back.**

A tree is read from its root along the links to first children and next siblings, each node with its
kind, name, value and attributes. Reading undoes building, and building is the only way to a tree:
every accepted list of calls is that of a document, up to ends that are missing at the end.

* `Tree.document?`: the document that a tree holds;
* `Tree.HasRows`: a stretch of the table of nodes;
* `documentFrom_headOf`: siblings laid out in the table are read back;
* `build_read_inverse`: the calls of a document are accepted, and their tree holds that document.
  Conversely, accepted calls are the calls of a document once the ends that may be missing at the
  end are added, adding them changes nothing that is built, and the tree holds that document.
-/

import XPathWalk.Proofs.DraftTable

namespace XPathWalk

/-! ### Reading along the links -/

/-- The name and the value of an attribute. -/
def Content.pair? : Content → Option (String × String)
  | attr name value => some (name, value)
  | document | element _ | text _ | comment _ => none

namespace Tree

/-- The attributes of a node, in order. -/
def attributePairs? (tree : Tree) (node : Node) : Option (List (String × String)) :=
  node.attributes.toList.mapM fun handle => (tree.node? handle).bind fun attr => attr.content.pair?

/-- The nodes from `next` on along the links to next siblings, each with what is below it. Every
link leads to a higher handle, so a walk that makes more than `left` steps is none of a tree. -/
def documentFrom (tree : Tree) : (left : Nat) → (next : Option Handle) → Option Document
  | _, none => some .empty
  | 0, some _ => none
  | left + 1, some handle => do
    let node ← tree.node? handle
    match node.content with
    | .element name =>
      let attributes ← tree.attributePairs? node
      let children ← documentFrom tree left node.firstChild
      let rest ← documentFrom tree left node.nextSibling
      return .element name attributes children rest
    | .text value => return .text value (← documentFrom tree left node.nextSibling)
    | .comment value => return .comment value (← documentFrom tree left node.nextSibling)
    | .document | .attr _ _ => none

/-- The document that a tree holds. -/
def document? (tree : Tree) : Option Document := do
  let root ← tree.node? Handle.root
  tree.documentFrom tree.size root.firstChild

/-! ### Stretches of the table -/

/-- The table has these rows from a handle on. -/
def HasRows (tree : Tree) (first : Handle) (rows : List Node) : Prop :=
  ∃ before after, tree.nodes.toList = before ++ rows ++ after ∧ before.length = first

variable {tree : Tree} {first : Handle}

/-- Of two stretches one behind the other, the second begins where the first ends. -/
theorem HasRows.append {rows others : List Node} (has : tree.HasRows first (rows ++ others)) :
    tree.HasRows first rows ∧ tree.HasRows (first + rows.length) others := by
  obtain ⟨before, after, whole, place⟩ := has
  refine ⟨⟨before, others ++ after, ?_, place⟩, before ++ rows, after, ?_, ?_⟩
  · rw [whole]
    simp only [List.append_assoc]
  · rw [whole]
    simp only [List.append_assoc]
  · rw [List.length_append, place]

/-- The first row of a stretch is the node of its handle. -/
theorem HasRows.head {row : Node} {rows : List Node} (has : tree.HasRows first (row :: rows)) :
    tree.node? first = some row := by
  obtain ⟨before, after, whole, rfl⟩ := has
  rw [node?, ← Array.getElem?_toList, whole, List.append_assoc,
    List.getElem?_append_right (Nat.le_refl _), Nat.sub_self]
  rfl

theorem HasRows.tail {row : Node} {rows : List Node} (has : tree.HasRows first (row :: rows)) :
    tree.HasRows (first + 1) rows :=
  (show tree.HasRows first ([row] ++ rows) from has).append.2

/-- A stretch lies within the table. -/
theorem HasRows.le_size {rows : List Node} (has : tree.HasRows first rows) :
    first + rows.length ≤ tree.size := by
  obtain ⟨before, after, whole, rfl⟩ := has
  have counted := congrArg List.length whole
  simp only [Array.length_toList, List.length_append] at counted
  rw [size, counted]
  exact Nat.le_add_right _ _

/-- Where a row is left to read, a walk long enough for the table has a step left. -/
theorem HasRows.exists_step {row : Node} {rows : List Node} {left : Nat}
    (has : tree.HasRows first (row :: rows)) (enough : tree.size ≤ first + left) :
    ∃ fewer, left = fewer + 1 ∧ tree.size ≤ first + 1 + fewer := by
  have within := has.le_size
  rw [List.length_cons] at within
  cases left with
  | zero => grind
  | succ fewer => exact ⟨fewer, rfl, by grind⟩

/-- The table of a document's tree is one stretch. -/
theorem hasRows_ofDocument (document : Document) :
    (ofDocument document).HasRows Handle.root
      (document.frame.rows Handle.root none none none none document.frame.size) :=
  ⟨[], [], by rw [List.append_nil]; rfl, rfl⟩

/-! ### Reading what is laid out -/

/-- Attributes laid out in the table are read back. -/
theorem mapM_attributeRows (owner : Handle) (attributes : List (String × String))
    (has : tree.HasRows first (attributeRows owner first attributes)) :
    ((List.range' first attributes.length).mapM fun handle =>
      (tree.node? handle).bind fun attr => attr.content.pair?) = some attributes := by
  induction attributes generalizing first with
  | nil => rfl
  | cons pair rest ih =>
    rw [List.length_cons, List.range'_succ, List.mapM_cons, has.head, ih has.tail]
    rfl

/-- The attributes of a container laid out in the table are read back. -/
theorem attributePairs?_row {frame : Frame} {parent previous next opened : Option Handle}
    {stop : Handle} (has : tree.HasRows first (frame.rows first parent previous next opened stop)) :
    tree.attributePairs? (frame.row first parent previous next opened stop) =
      some frame.attributes := by
  have read := mapM_attributeRows first frame.attributes has.tail.append.1
  rwa [attributePairs?, Frame.row, List.toList_toArray]

/-- **Siblings laid out in the table are read back.** -/
theorem documentFrom_headOf (document : Document) (parent : Handle) (previous : Option Handle)
    (left : Nat) (has : tree.HasRows first (document.rows first parent previous none))
    (enough : tree.size ≤ first + left) :
    tree.documentFrom left (document.headOf first none) = some document := by
  induction document generalizing first parent previous left with
  | empty => cases left <;> rfl
  | element name attributes children rest ihChildren ihRest =>
    rw [Document.rows_element] at has
    obtain ⟨hasFrame, hasRest⟩ := has.append
    rw [Frame.length_rows] at hasRest
    have hasChildren := hasFrame.tail.append.2
    rw [length_attributeRows] at hasChildren
    obtain ⟨fewer, rfl, enoughBelow⟩ := hasFrame.exists_step enough
    have pairs := attributePairs?_row hasFrame
    have below := ihChildren first none fewer hasChildren (by grind)
    have behind := ihRest parent (some first) fewer hasRest (by grind [Frame.size])
    show documentFrom tree (fewer + 1) (some first) = _
    rw [documentFrom, hasFrame.head]
    show (tree.attributePairs? _ >>= fun pairs =>
      documentFrom tree fewer (children.headOf (first + 1 + attributes.length) none) >>= _) = _
    rw [pairs]
    show (documentFrom tree fewer (children.headOf (first + 1 + attributes.length) none) >>= _) = _
    rw [below]
    show (documentFrom tree fewer (rest.headOf _ none) >>= _) = _
    rw [behind]
    rfl
  | text value rest ih =>
    obtain ⟨fewer, rfl, enoughBehind⟩ := has.exists_step enough
    have behind := ih parent (some first) fewer has.tail enoughBehind
    show documentFrom tree (fewer + 1) (some first) = _
    rw [documentFrom, has.head]
    show (documentFrom tree fewer (rest.headOf (first + 1) none) >>= _) = _
    rw [behind]
    rfl
  | comment value rest ih =>
    obtain ⟨fewer, rfl, enoughBehind⟩ := has.exists_step enough
    have behind := ih parent (some first) fewer has.tail enoughBehind
    show documentFrom tree (fewer + 1) (some first) = _
    rw [documentFrom, has.head]
    show (documentFrom tree fewer (rest.headOf (first + 1) none) >>= _) = _
    rw [behind]
    rfl

/-- The tree of a document holds that document. -/
theorem document?_ofDocument (document : Document) :
    (ofDocument document).document? = some document := by
  have has := hasRows_ofDocument document
  have below := documentFrom_headOf document Handle.root none (ofDocument document).size
    has.tail (Nat.le_add_left _ _)
  rw [document?, has.head]
  exact below

/-- **Building and reading back are inverse**: the calls of a document give a tree that holds it,
and accepted calls are those of a document, up to ends that are missing at the end. -/
theorem build_read_inverse :
    (∀ document : Document, ∃ built, ofCalls document.calls = .ok built ∧
      built.value.document? = some document) ∧
    ∀ (calls : List BuildCall) (built : Logged Tree), ofCalls calls = .ok built →
      ∃ (document : Document) (missing : Nat),
        calls ++ List.replicate missing .finish = document.calls ∧
          ofCalls (calls ++ List.replicate missing .finish) = .ok built ∧
            built.value.document? = some document := by
  refine ⟨fun document => ⟨_, ofCalls_calls document, document?_ofDocument document⟩, ?_⟩
  intro calls built accepted
  obtain ⟨document, missing, whole, same⟩ := exists_document_of_ofCalls accepted
  refine ⟨document, missing, whole, same, ?_⟩
  rw [whole, ofCalls_calls] at same
  cases same
  exact document?_ofDocument document

/-- Two elements are left open, the inner one behind a text. -/
theorem build_read_inverse_open :
    ∃ (document : Document) (missing : Nat),
      [.element "a", .attr "k" "v", .text "t", .element "b"] ++ List.replicate missing .finish =
          document.calls ∧
        ofCalls ([.element "a", .attr "k" "v", .text "t", .element "b"] ++
            List.replicate missing .finish) =
          ofCalls [.element "a", .attr "k" "v", .text "t", .element "b"] ∧
        (ofDocument (.element "a" [("k", "v")] (.text "t" (.element "b" [] .empty .empty))
          .empty)).document? = some document := by
  obtain ⟨document, missing, whole, same, read⟩ :=
    build_read_inverse.2 [.element "a", .attr "k" "v", .text "t", .element "b"] _ rfl
  exact ⟨document, missing, whole, same, read⟩

end Tree

end XPathWalk

/-
**A builder is the table of a draft.**

At every moment the builder's table is laid out from a draft: the open nodes one inside the other,
each followed by its attributes and by the children that it has so far. The links of an open node
await a further child, and its subtree still ends behind itself.

* `layout`: the rows of containers one inside the other;
* `appendTo_layout`: adding a child patches exactly the links that change in the layout;
* `perform_builder`, `run_builder`: the calls do to the table what they do to the draft;
* `ofCalls_calls`, `exists_document_of_ofCalls`: the trees that calls write down are exactly the
  trees of documents.
-/

import XPathWalk.Proofs.Draft

namespace XPathWalk

/-! ### Containers one inside the other -/

/-- The number of nodes of containers one inside the other, innermost first. -/
def extent : List Frame → Nat
  | [] => 0
  | frame :: outer => extent outer + frame.size

/-- The handle of the innermost container. -/
def innermost : List Frame → Option Handle
  | [] => none
  | _ :: outer => some (extent outer)

/-- The last child so far of the innermost container. -/
def latestChild : List Frame → Option Handle
  | [] => none
  | frame :: outer => frame.lastChild (extent outer)

/-- Where the subtree of an open node ends as long as it is open. -/
def openStop : List Frame → Handle
  | [] => 0
  | outer => extent outer + 1

/-- The rows of containers one inside the other. A further child of the innermost one has the handle
`opened`. -/
def layout : List Frame → (opened : Option Handle) → List Node
  | [], _ => []
  | frame :: outer, opened =>
    layout outer (some (extent outer)) ++
      frame.rows (extent outer) (innermost outer) (latestChild outer) none opened (openStop outer)

/-- The handles of the containers, without the outermost. -/
def openHandles : List Frame → List Handle
  | [] | [_] => []
  | _ :: frame :: outer => extent (frame :: outer) :: openHandles (frame :: outer)

/-- The builder that stands in the innermost of containers one inside the other. -/
def Builder.within (frames : List Frame) : Builder where
  nodes := (layout frames none).toArray
  opened := openHandles frames

/-- The containers of a draft, of which the document node is the outermost. -/
def Draft.frames (draft : Draft) : List Frame :=
  draft.opened.map OpenElement.frame ++ [draft.children.frame]

/-- The builder that stands at a draft. -/
def Draft.builder (draft : Draft) : Builder := .within draft.frames

@[simp] theorem length_layout (frames : List Frame) (opened : Option Handle) :
    (layout frames opened).length = extent frames := by
  induction frames generalizing opened with
  | nil => rfl
  | cons frame outer ih => simp [layout, extent, ih]

/-- Changing a row of the second of two tables. -/
theorem modify_append (before after : List Node) (offset : Nat) (change : Node → Node) :
    (before ++ after).modify (before.length + offset) change =
      before ++ after.modify offset change :=
  List.modifyTailIdx_add (List.modifyHead change) offset before after

/-- Changing a row behind a layout. -/
theorem modify_layout (outer : List Frame) (opened : Option Handle) (rows : List Node)
    (offset : Nat) (change : Node → Node) :
    (layout outer opened ++ rows).modify (extent outer + offset) change =
      layout outer opened ++ rows.modify offset change := by
  have split := modify_append (layout outer opened) rows offset change
  rwa [length_layout] at split

/-- The row of the innermost container. -/
theorem layout_extent (frame : Frame) (outer : List Frame) (opened : Option Handle) :
    (layout (frame :: outer) opened)[extent outer]? =
      some (frame.row (extent outer) (innermost outer) (latestChild outer) none opened
        (openStop outer)) := by
  rw [layout, List.getElem?_append_right (Nat.le_of_eq (length_layout _ _)), length_layout, Nat.sub_self]
  rfl

/-! ### Single nodes -/

namespace Document

/-- A list of exactly one node. -/
inductive Single : Document → Prop
  | element (name : String) (attributes : List (String × String)) (children : Document) :
    Single (.element name attributes children .empty)
  | text (value : String) : Single (.text value .empty)
  | comment (value : String) : Single (.comment value .empty)

theorem Single.headOf {node : Document} (single : node.Single) (first : Handle)
    (next : Option Handle) : node.headOf first next = some first := by
  cases single <;> rfl

theorem Single.lastOf {node : Document} (single : node.Single) (first : Handle)
    (previous : Option Handle) : node.lastOf first previous = some first := by
  cases single <;> rfl

/-- A list of nodes that is not empty has a last one. -/
theorem exists_append_single (document : Document) (nonempty : document ≠ .empty) :
    ∃ before last, document = before ++ last ∧ last.Single := by
  induction document with
  | empty => exact absurd rfl nonempty
  | element name attributes children rest _ ih =>
    by_cases alone : rest = .empty
    · exact ⟨.empty, _, rfl, alone ▸ .element name attributes children⟩
    · obtain ⟨before, last, rfl, single⟩ := ih alone
      exact ⟨.element name attributes children before, last, rfl, single⟩
  | text value rest ih =>
    by_cases alone : rest = .empty
    · exact ⟨.empty, _, rfl, alone ▸ .text value⟩
    · obtain ⟨before, last, rfl, single⟩ := ih alone
      exact ⟨.text value before, last, rfl, single⟩
  | comment value rest ih =>
    by_cases alone : rest = .empty
    · exact ⟨.empty, _, rfl, alone ▸ .comment value⟩
    · obtain ⟨before, last, rfl, single⟩ := ih alone
      exact ⟨.comment value before, last, rfl, single⟩

/-- **The link to a new sibling.** In the rows of siblings, telling the last of them its next
sibling changes one row. -/
theorem modify_lastOf (document : Document) (nonempty : document ≠ .empty)
    (first parent fresh : Handle) (previous : Option Handle) :
    ∃ offset, document.lastOf first previous = some (first + offset) ∧
      (document.rows first parent previous none).modify offset
          (fun node => { node with nextSibling := some fresh }) =
        document.rows first parent previous (some fresh) := by
  obtain ⟨before, last, rfl, single⟩ := exists_append_single document nonempty
  refine ⟨before.size, ?_, ?_⟩
  · rw [lastOf_append, single.lastOf]
  · rw [rows_append, rows_append, single.headOf, single.headOf]
    have split := modify_append (before.rows first parent previous (some (first + before.size)))
      (last.rows (first + before.size) parent (before.lastOf first previous) none) 0
      fun node => { node with nextSibling := some fresh }
    rw [length_rows, Nat.add_zero] at split
    refine split.trans (congrArg _ ?_)
    cases single <;> rfl

end Document

/-! ### Adding a child -/

/-- The rows of a container after a further child: the child's rows, and the links to it. -/
theorem Frame.rows_add (frame : Frame) {node : Document} (single : node.Single) (handle : Handle)
    (parent previous : Option Handle) (stop : Handle) :
    ({ frame with children := frame.children ++ node } : Frame).rows handle parent previous none none
        stop =
      frame.rows handle parent previous none (some (handle + frame.size)) stop ++
        node.rows (handle + frame.size) handle (frame.lastChild handle) none := by
  have place : frame.start handle + frame.children.size = handle + frame.size := by
    simp only [start, size, Nat.add_assoc]
  simp only [rows, row, start, lastChild, Document.rows_append, Document.headOf_append,
    Document.lastOf_append, single.headOf, single.lastOf, List.cons_append, List.append_assoc]
  simp only [start] at place
  rw [place]
  rfl

/-- The layout after a further child of the innermost container. -/
theorem layout_add (frame : Frame) (outer : List Frame) {node : Document} (single : node.Single) :
    layout ({ frame with children := frame.children ++ node } :: outer) none =
      layout (frame :: outer) (some (extent (frame :: outer))) ++
        node.rows (extent (frame :: outer)) (extent outer) (frame.lastChild (extent outer)) none := by
  simp only [layout, frame.rows_add single, extent, List.append_assoc]

/-- Telling the last child of a container its next sibling. -/
theorem Frame.modify_lastChild (frame : Frame) (nonempty : frame.children ≠ .empty)
    (handle fresh : Handle) (parent previous : Option Handle) (stop : Handle) :
    ∃ offset, frame.lastChild handle = some (handle + offset) ∧
      ((frame.rows handle parent previous none none stop).modify offset
          (fun node => { node with nextSibling := some fresh })).modify 0
          (fun node => { node with lastChild := some fresh }) =
        frame.rows handle parent previous none (some fresh) stop := by
  obtain ⟨offset, found, changed⟩ := frame.children.modify_lastOf nonempty (frame.start handle)
    handle fresh none
  refine ⟨frame.attributes.length + 1 + offset, ?_, ?_⟩
  · rw [lastChild, found, start, Nat.add_assoc handle, Nat.add_comm 1, Nat.add_assoc]
  · have split := modify_append
      (frame.row handle parent previous none none stop ::
        attributeRows handle (handle + 1) frame.attributes)
      (frame.children.rows (frame.start handle) handle none none) offset
      fun node => { node with nextSibling := some fresh }
    rw [List.length_cons, length_attributeRows] at split
    have patched : (frame.rows handle parent previous none none stop).modify
          (frame.attributes.length + 1 + offset)
          (fun node => { node with nextSibling := some fresh }) =
        frame.row handle parent previous none none stop ::
          (attributeRows handle (handle + 1) frame.attributes ++
            frame.children.rows (frame.start handle) handle none (some fresh)) :=
      split.trans (congrArg _ changed)
    rw [patched, List.modify_zero_cons, rows, row, row, Document.headOf_of_nonempty nonempty,
      Document.headOf_of_nonempty nonempty]
    rfl

/-- **Adding a child.** The patches of a table laid out from containers give the layout in which the
innermost container has a further child, followed by the new row. -/
theorem appendTo_layout (frame : Frame) (outer : List Frame) (content : Content) :
    Builder.appendTo (layout (frame :: outer) none).toArray (extent outer) content =
      (layout (frame :: outer) (some (extent (frame :: outer))) ++
        [leafRow content (extent (frame :: outer)) (extent outer)
          (frame.lastChild (extent outer)) none]).toArray := by
  have previous : (layout (frame :: outer) none).toArray[extent outer]?.bind Node.lastChild =
      frame.lastChild (extent outer) := by
    rw [List.getElem?_toArray, layout_extent]
    rfl
  have atFrame := fun rows => modify_layout outer (some (extent outer)) rows 0
  simp only [Nat.add_zero] at atFrame
  simp only [Builder.appendTo, previous, List.size_toArray, length_layout]
  by_cases childless : frame.children = .empty
  · have absent : frame.lastChild (extent outer) = none := by
      rw [Frame.lastChild, childless]
      rfl
    rw [absent]
    simp only [List.modify_toArray, List.push_toArray, layout]
    rw [atFrame, atFrame, Frame.rows, Frame.rows, Frame.row, Frame.row, childless]
    rfl
  · obtain ⟨offset, found, changed⟩ := frame.modify_lastChild childless (extent outer)
      (extent (frame :: outer)) (innermost outer) (latestChild outer) (openStop outer)
    rw [found]
    simp only [List.modify_toArray, List.push_toArray, layout]
    rw [modify_layout, atFrame, changed]
    rfl

/-! ### Adding an attribute -/

/-- Adding an attribute to a container without children: its row, and its handle at the owner. -/
theorem Frame.rows_attr (frame : Frame) (childless : frame.children = .empty) (handle : Handle)
    (parent previous : Option Handle) (stop : Handle) (name value : String) :
    (frame.rows handle parent previous none none stop).modify 0
          (fun node => { node with attributes := node.attributes.push (handle + frame.size) }) ++
        [{ content := .attr name value
           parent := some handle
           stop := handle + frame.size + 1 }] =
      ({ frame with attributes := frame.attributes ++ [(name, value)] } : Frame).rows handle parent
        previous none none stop := by
  have fresh : handle + 1 + frame.attributes.length = handle + frame.size := by
    rw [size, childless, Nat.add_assoc]
    rfl
  simp only [rows, row, start, lastChild, List.modify_zero_cons, childless, Document.rows,
    Document.headOf, Document.lastOf, attributeRows_append, attributeRows, fresh, List.length_append,
    List.length_singleton, List.range'_1_concat, List.push_toArray, List.append_nil,
    List.cons_append]

/-! ### Ending a container -/

/-- Closing the innermost container changes only where its subtree ends. -/
theorem close_layout (frame : Frame) (outer : List Frame) :
    Builder.close (layout (frame :: outer) none).toArray (extent outer) =
      (layout outer (some (extent outer)) ++
        frame.rows (extent outer) (innermost outer) (latestChild outer) none none
          (extent outer + frame.size)).toArray := by
  have atFrame := modify_layout outer (some (extent outer))
    (frame.rows (extent outer) (innermost outer) (latestChild outer) none none (openStop outer)) 0
    fun node => { node with stop := extent outer + frame.size }
  rw [Builder.close, List.modify_toArray, List.size_toArray, length_layout, layout]
  exact congrArg List.toArray atFrame

/-! ### One call -/

namespace Builder

theorem openHandles_cons (frame other : Frame) (outer : List Frame) :
    openHandles (frame :: outer) = openHandles (other :: outer) := by
  cases outer <;> rfl

@[simp] theorem current_within (frame : Frame) (outer : List Frame) :
    (within (frame :: outer)).current = extent outer := by
  cases outer <;> rfl

theorem append_within (frame : Frame) (outer : List Frame) (content : Content) :
    (within (frame :: outer)).append content =
      { nodes := (layout (frame :: outer) (some (extent (frame :: outer))) ++
          [leafRow content (extent (frame :: outer)) (extent outer)
            (frame.lastChild (extent outer)) none]).toArray
        opened := openHandles (frame :: outer) } := by
  rw [append, current_within, within, appendTo_layout]

/-- A child that is a single row. -/
theorem append_leaf (frame : Frame) (outer : List Frame) (content : Content) {node : Document}
    (single : node.Single)
    (row : ∀ first parent previous, node.rows first parent previous none =
      [leafRow content first parent previous none]) :
    (within (frame :: outer)).append content =
      within ({ frame with children := frame.children ++ node } :: outer) := by
  rw [append_within, within, layout_add frame outer single, row,
    openHandles_cons { frame with children := frame.children ++ node } frame]

theorem element_within (frame : Frame) (outer : List Frame) (name : String) :
    (within (frame :: outer)).element name =
      within ({ content := .element name } :: frame :: outer) := by
  have counted : (layout (frame :: outer) (some (extent (frame :: outer))) ++
      [leafRow (.element name) (extent (frame :: outer)) (extent outer)
        (frame.lastChild (extent outer)) none]).toArray.size - 1 = extent (frame :: outer) := by
    rw [List.size_toArray, List.length_append, length_layout]
    rfl
  rw [element, append_within]
  show Builder.mk _ (_ :: _) = _
  rw [counted]
  rfl

/-- An attribute of a node that is no element is out of place, and so is one of an element with a
child. -/
theorem attr_within (frame : Frame) (outer : List Frame) (name value : String) :
    (within (frame :: outer)).attr name value =
      if !frame.content.isElement then .error .attributeOutsideElement
      else if frame.children = .empty then
        .ok (within ({ frame with attributes := frame.attributes ++ [(name, value)] } :: outer))
      else .error .attributeAfterChild := by
  have found : (within (frame :: outer)).nodes[extent outer]? =
      some (frame.row (extent outer) (innermost outer) (latestChild outer) none none
        (openStop outer)) := by
    rw [within, List.getElem?_toArray, layout_extent]
  rw [attr, current_within]
  simp only [found, Frame.row]
  by_cases element : frame.content.isElement
  · simp only [element, Bool.not_true, Bool.false_eq_true, if_false]
    by_cases childless : frame.children = .empty
    · have atFrame := modify_layout outer (some (extent outer))
        (frame.rows (extent outer) (innermost outer) (latestChild outer) none none (openStop outer)) 0
      have opened := openHandles_cons
        { frame with attributes := frame.attributes ++ [(name, value)] } frame outer
      have free : ¬ (frame.children.headOf (frame.start (extent outer)) none).isSome = true := by
        rw [childless]
        exact Bool.false_ne_true
      rw [if_pos childless, if_neg free, within, within, opened]
      refine congrArg (fun nodes => Except.ok (Builder.mk nodes (openHandles (frame :: outer)))) ?_
      rw [List.modify_toArray, List.push_toArray, List.size_toArray, length_layout, layout, layout,
        ← Frame.rows_attr frame childless, ← List.append_assoc, ← atFrame]
      rfl
    · rw [if_neg childless, Document.headOf_of_nonempty childless]
      rfl
  · simp [element]

/-- Ending an element makes it a child of the container around it. -/
theorem finish_within (opened : OpenElement) (frame : Frame) (outer : List Frame) :
    (within (opened.frame :: frame :: outer)).finish =
      .ok (within ({ frame with children := frame.children ++ opened.ended } :: outer)) := by
  have single : opened.ended.Single := .element opened.name opened.attributes opened.children
  have rows : opened.ended.rows (extent (frame :: outer)) (extent outer)
        (frame.lastChild (extent outer)) none =
      opened.frame.rows (extent (frame :: outer)) (some (extent outer))
        (frame.lastChild (extent outer)) none none
        (extent (frame :: outer) + opened.frame.size) := by
    rw [OpenElement.ended, Document.rows_element]
    exact List.append_nil _
  show Except.ok (Builder.mk
    (close (layout (opened.frame :: frame :: outer) none).toArray (extent (frame :: outer)))
    (openHandles (frame :: outer))) = _
  rw [within, close_layout, layout_add frame outer single, rows,
    openHandles_cons { frame with children := frame.children ++ opened.ended } frame]
  rfl

end Builder

/-! ### Runs of calls -/

namespace Draft

/-- **One call.** The builder at a draft takes a call to the builder at the next draft, or finds the
call out of place for the same reason. -/
theorem perform_builder (draft : Draft) (call : BuildCall) :
    draft.builder.perform call = (draft.perform call).map builder := by
  obtain ⟨opened, children⟩ := draft
  cases opened with
  | nil =>
    cases call with
    | element name =>
      exact congrArg Except.ok (Builder.element_within children.frame [] name)
    | attr name value =>
      exact Builder.attr_within children.frame [] name value
    | text value =>
      exact congrArg Except.ok (Builder.append_leaf children.frame [] (.text value) (.text value)
        fun _ _ _ => rfl)
    | comment value =>
      exact congrArg Except.ok (Builder.append_leaf children.frame [] (.comment value)
        (.comment value) fun _ _ _ => rfl)
    | finish => rfl
  | cons inner outer =>
    have split : frames ⟨inner :: outer, children⟩ = inner.frame :: frames ⟨outer, children⟩ := rfl
    cases call with
    | element name =>
      refine congrArg Except.ok ?_
      rw [builder, split, Builder.element_within]
      rfl
    | attr name value =>
      show Builder.attr (builder _) name value = _
      rw [builder, split, Builder.attr_within, perform]
      by_cases childless : inner.children = .empty
      · rw [if_pos childless]
        show (if inner.children = .empty then _ else _) = _
        rw [if_pos childless]
        rfl
      · rw [if_neg childless]
        show (if inner.children = .empty then _ else _) = _
        rw [if_neg childless]
        rfl
    | text value =>
      refine congrArg Except.ok ?_
      rw [builder, split, Builder.append_leaf inner.frame _ (.text value) (.text value)
        fun _ _ _ => rfl]
      rfl
    | comment value =>
      refine congrArg Except.ok ?_
      rw [builder, split, Builder.append_leaf inner.frame _ (.comment value) (.comment value)
        fun _ _ _ => rfl]
      rfl
    | finish =>
      show Builder.finish (builder _) = _
      cases outer with
      | nil => exact Builder.finish_within inner children.frame []
      | cons next others => exact Builder.finish_within inner next.frame (frames ⟨others, children⟩)

/-- **Calls in a row.** -/
theorem run_builder (draft : Draft) (calls : List BuildCall) :
    draft.builder.run calls = (draft.run calls).map builder := by
  induction calls generalizing draft with
  | nil => rfl
  | cons call rest ih =>
    show draft.builder.perform call >>= _ = _
    rw [perform_builder, run_cons]
    cases draft.perform call with
    | error fault => rfl
    | ok next => exact ih next

/-- Building a draft without open elements gives the tree of its document. -/
theorem build_builder (document : Document) :
    (builder ⟨[], document⟩).build.value = Tree.ofDocument document := by
  show Tree.mk (Builder.close (layout [document.frame] none).toArray (extent [])) = _
  rw [close_layout]
  simp [Tree.ofDocument, layout, extent, innermost, latestChild, Handle.root]

end Draft

/-! ### Building -/

namespace Builder

/-- Ending an open element does not change what is built. -/
theorem build_finish {builder next : Builder} (ended : builder.finish = .ok next) :
    next.build = builder.build := by
  obtain ⟨nodes, opened⟩ := builder
  cases opened with
  | nil => cases ended
  | cons handle outer =>
    cases ended
    rfl

/-- Ending open elements does not change what is built. -/
theorem build_run_finish {builder last : Builder} {count : Nat}
    (ended : builder.run (List.replicate count .finish) = .ok last) :
    last.build = builder.build := by
  induction count generalizing builder with
  | zero =>
    cases ended
    rfl
  | succ count ih =>
    rw [List.replicate_succ] at ended
    cases first : builder.finish with
    | error fault =>
      have refused : builder.run (.finish :: List.replicate count .finish) = .error fault := by
        show builder.finish >>= _ = _
        rw [first]
        rfl
      rw [refused] at ended
      cases ended
    | ok next =>
      have continued : builder.run (.finish :: List.replicate count .finish) =
          next.run (List.replicate count .finish) := by
        show builder.finish >>= _ = _
        rw [first]
        rfl
      rw [continued] at ended
      rw [ih ended, build_finish first]

end Builder

namespace Tree

/-- **The calls of a document** write its tree down. -/
theorem ofCalls_calls (document : Document) :
    ofCalls document.calls =
      .ok { value := ofDocument document, log := [.treeBuilt (ofDocument document).size] } := by
  have start : ({} : Builder) = Draft.builder {} := rfl
  have ran : Builder.run {} document.calls = .ok (Draft.builder ⟨[], document⟩) := by
    rw [start, Draft.run_builder, Draft.run_calls]
    rfl
  have built := Draft.build_builder document
  rw [ofCalls, ran]
  show Except.ok (Builder.build _) = _
  rw [← built]
  rfl

/-- **Accepted calls** are those of a document, up to ends that are missing at the end, and the
missing ends do not change what is built. -/
theorem exists_document_of_ofCalls {calls : List BuildCall} {built : Logged Tree}
    (accepted : ofCalls calls = .ok built) :
    ∃ (document : Document) (missing : Nat),
      calls ++ List.replicate missing .finish = document.calls ∧
        ofCalls (calls ++ List.replicate missing .finish) = .ok built := by
  have start : ({} : Builder) = Draft.builder {} := rfl
  rw [ofCalls, start, Draft.run_builder] at accepted
  cases ran : Draft.run {} calls with
  | error fault =>
    rw [ran] at accepted
    cases accepted
  | ok draft =>
    rw [ran] at accepted
    cases accepted
    obtain ⟨document, ended⟩ := draft.exists_run_finish
    have whole : Draft.run {} (calls ++ List.replicate draft.opened.length .finish) =
        .ok ⟨[], document⟩ := by
      rw [Draft.run_append, ran]
      exact ended
    have endedTable : draft.builder.run (List.replicate draft.opened.length .finish) =
        .ok (Draft.builder ⟨[], document⟩) := by
      rw [Draft.run_builder, ended]
      rfl
    refine ⟨document, draft.opened.length, ?_, ?_⟩
    · have held := Draft.calls_of_run whole
      rw [Draft.calls, Draft.openCalls, List.append_nil] at held
      exact held.symm
    · rw [ofCalls, start, Draft.run_builder, whole]
      exact congrArg Except.ok (Builder.build_run_finish endedTable)

end Tree

end XPathWalk

/-
**Half-written documents.**

A draft is a document with some elements still open, each with the attributes and children that it
has so far. The calls act on drafts without any table of nodes.

* `Draft.perform`: the effect of one call, or the fault of a call that is out of place;
* `Draft.calls_of_run`: a draft holds the calls that made it;
* `Draft.run_calls`: every call of a document is in place and the calls add the document;
* `Draft.exists_run_finish`: ending the open elements leaves a whole document.
-/

import XPathWalk.Proofs.Document

namespace XPathWalk

/-- An element that is still open. -/
structure OpenElement where
  name : String
  attributes : List (String × String) := []
  children : Document := .empty
  deriving DecidableEq, Repr

/-- The container that an open element is. -/
def OpenElement.frame (opened : OpenElement) : Frame where
  content := .element opened.name
  attributes := opened.attributes
  children := opened.children

/-- An open element, ended. -/
def OpenElement.ended (opened : OpenElement) : Document :=
  .element opened.name opened.attributes opened.children .empty

/-- A half-written document. -/
structure Draft where
  /-- The open elements, innermost first. -/
  opened : List OpenElement := []
  /-- The document's own children so far. -/
  children : Document := .empty
  deriving DecidableEq, Repr

namespace Draft

/-- Adds nodes to the innermost open node. -/
def add (draft : Draft) (nodes : Document) : Draft :=
  match draft with
  | ⟨[], children⟩ => ⟨[], children ++ nodes⟩
  | ⟨inner :: outer, children⟩ => ⟨{ inner with children := inner.children ++ nodes } :: outer, children⟩

/-- The effect of one call. -/
def perform : Draft → BuildCall → Except Fault Draft
  | ⟨opened, children⟩, .element name => .ok ⟨{ name } :: opened, children⟩
  | ⟨[], _⟩, .attr _ _ => .error .attributeOutsideElement
  | ⟨inner :: outer, children⟩, .attr name value =>
    if inner.children = .empty then
      .ok ⟨{ inner with attributes := inner.attributes ++ [(name, value)] } :: outer, children⟩
    else .error .attributeAfterChild
  | draft, .text value => .ok (draft.add (.text value .empty))
  | draft, .comment value => .ok (draft.add (.comment value .empty))
  | ⟨[], _⟩, .finish => .error .nothingToEnd
  | ⟨inner :: outer, children⟩, .finish => .ok (add ⟨outer, children⟩ inner.ended)

/-- The effect of calls in a row. -/
def run (draft : Draft) (calls : List BuildCall) : Except Fault Draft := calls.foldlM perform draft

/-- The calls that open the open elements and fill them as far as they are filled. -/
def openCalls : List OpenElement → List BuildCall
  | [] => []
  | inner :: outer =>
    openCalls outer ++ .element inner.name ::
      (inner.attributes.map fun pair => .attr pair.1 pair.2) ++ inner.children.calls

/-- The calls that write a draft down. -/
def calls (draft : Draft) : List BuildCall := draft.children.calls ++ openCalls draft.opened

/-! ### The calls of a draft -/

@[simp] theorem calls_add (draft : Draft) (nodes : Document) :
    (draft.add nodes).calls = draft.calls ++ nodes.calls := by
  obtain ⟨opened, children⟩ := draft
  cases opened with
  | nil => simp [add, calls, openCalls]
  | cons inner outer => simp [add, calls, openCalls]

theorem add_add (draft : Draft) (first second : Document) :
    (draft.add first).add second = draft.add (first ++ second) := by
  obtain ⟨opened, children⟩ := draft
  cases opened with
  | nil => simp [add, Document.append_assoc]
  | cons inner outer => simp [add, Document.append_assoc]

@[simp] theorem add_empty (draft : Draft) : draft.add .empty = draft := by
  obtain ⟨opened, children⟩ := draft
  cases opened <;> simp [add]

/-- A call that is in place becomes the last call of the draft. -/
theorem calls_of_perform {draft next : Draft} {call : BuildCall}
    (performed : draft.perform call = .ok next) : next.calls = draft.calls ++ [call] := by
  obtain ⟨opened, children⟩ := draft
  cases call with
  | element name =>
    cases performed
    simp [calls, openCalls, Document.calls]
  | text value =>
    cases performed
    simp [Document.calls]
  | comment value =>
    cases performed
    simp [Document.calls]
  | attr name value =>
    cases opened with
    | nil => cases performed
    | cons inner outer =>
      by_cases childless : inner.children = .empty
      · rw [perform, if_pos childless] at performed
        cases performed
        simp [calls, openCalls, childless, Document.calls]
      · rw [perform, if_neg childless] at performed
        cases performed
  | finish =>
    cases opened with
    | nil => cases performed
    | cons inner outer =>
      cases performed
      rw [calls_add]
      simp [calls, openCalls, OpenElement.ended, Document.calls]

theorem run_cons (draft : Draft) (call : BuildCall) (rest : List BuildCall) :
    draft.run (call :: rest) = draft.perform call >>= fun next => next.run rest := rfl

theorem run_append (draft : Draft) (before after : List BuildCall) :
    draft.run (before ++ after) = draft.run before >>= fun next => next.run after :=
  List.foldlM_append

/-- **A draft holds the calls that made it.** -/
theorem calls_of_run {draft last : Draft} {calls : List BuildCall}
    (ran : draft.run calls = .ok last) : last.calls = draft.calls ++ calls := by
  induction calls generalizing draft with
  | nil =>
    cases ran
    simp
  | cons call rest ih =>
    rw [run_cons] at ran
    cases performed : draft.perform call with
    | error fault =>
      rw [performed] at ran
      cases ran
    | ok next =>
      rw [performed] at ran
      rw [ih ran, calls_of_perform performed, List.append_assoc]
      rfl

/-! ### Writing a document down -/

/-- Attributes can be added in a row to an element without children. -/
theorem run_attributes (attributes : List (String × String)) (inner : OpenElement)
    (outer : List OpenElement) (children : Document) (childless : inner.children = .empty) :
    run ⟨inner :: outer, children⟩ (attributes.map fun pair => .attr pair.1 pair.2) =
      .ok ⟨{ inner with attributes := inner.attributes ++ attributes } :: outer, children⟩ := by
  induction attributes generalizing inner with
  | nil =>
    rw [List.append_nil]
    rfl
  | cons pair rest ih =>
    rw [List.map_cons, run_cons, perform, if_pos childless]
    refine (ih { inner with attributes := inner.attributes ++ [pair] } childless).trans ?_
    rw [List.append_assoc]
    rfl

/-- **Every call of a document is in place**, and the calls add the document to the draft. -/
theorem run_calls (document : Document) (draft : Draft) :
    draft.run document.calls = .ok (draft.add document) := by
  induction document generalizing draft with
  | empty =>
    rw [add_empty]
    rfl
  | element name attributes children rest ihChildren ihRest =>
    obtain ⟨opened, before⟩ := draft
    have filled := run_attributes attributes { name } opened before rfl
    rw [Document.calls, List.cons_append, run_cons, perform]
    show run ⟨{ name } :: opened, before⟩ _ = _
    rw [run_append, filled]
    show run ⟨{ name, attributes } :: opened, before⟩ _ = _
    rw [run_append, ihChildren]
    show run ⟨{ name, attributes, children } :: opened, before⟩ _ = _
    rw [run_cons, perform]
    show run (add ⟨opened, before⟩ (.element name attributes children .empty)) _ = _
    rw [ihRest, add_add]
    rfl
  | text value rest ih =>
    rw [Document.calls, run_cons]
    show run (draft.add (.text value .empty)) _ = _
    rw [ih, add_add]
    rfl
  | comment value rest ih =>
    rw [Document.calls, run_cons]
    show run (draft.add (.comment value .empty)) _ = _
    rw [ih, add_add]
    rfl

theorem length_opened_add (draft : Draft) (nodes : Document) :
    (draft.add nodes).opened.length = draft.opened.length := by
  obtain ⟨opened, children⟩ := draft
  cases opened <;> rfl

/-- As many ends as there are open elements are in place and leave a whole document. -/
theorem exists_run_finish (draft : Draft) :
    ∃ document, draft.run (List.replicate draft.opened.length .finish) = .ok ⟨[], document⟩ := by
  generalize counted : draft.opened.length = count
  induction count generalizing draft with
  | zero =>
    obtain ⟨opened, children⟩ := draft
    cases List.length_eq_zero_iff.mp counted
    exact ⟨children, rfl⟩
  | succ count ih =>
    obtain ⟨opened, children⟩ := draft
    obtain ⟨inner, outer, rfl⟩ := List.exists_cons_of_length_eq_add_one counted
    rw [List.replicate_succ, run_cons, perform]
    exact ih (add ⟨outer, children⟩ inner.ended)
      ((length_opened_add _ _).trans (Nat.succ.inj counted))

end Draft

end XPathWalk

/-
**Which calls write a document down.**

Whether calls are in place can be told from the calls alone: up to every point there are no more
ends than elements were opened, and every attribute comes right behind an element that was opened or
behind another attribute. A builder looks at its table instead, at the kind of its innermost open
node and at whether that has a child. Both come to the same, since an open element without children
is exactly what an element or an attribute leaves behind.

* `BuildCall.WellFormed`: the rule for calls in a row;
* `BuildCall.MayFollow`: the same rule call by call;
* `BuildCall.Complaint`: what is said of the first call that breaks the rule;
* `Draft.Accounts`: what a draft shows of the calls that made it, kept by every call;
* `accepted_iff_wellFormed`: a new builder performs calls in a row, and a tree is made of them, if
  and only if they keep the rule. Otherwise everything in front of the first call that breaks it is
  performed, and that call fails with its complaint: an end for which nothing is open, an attribute
  while nothing is open, or an attribute while something is.
-/

import Mathlib.Data.List.Induction
import XPathWalk.Proofs.DraftTable

namespace XPathWalk

namespace BuildCall

/-! ### Definitions -/

/-- Whether a call opens an element. -/
def opens : BuildCall → Bool
  | element _ => true
  | attr _ _ | text _ | comment _ | finish => false

/-- Whether a call ends an element. -/
def ends : BuildCall → Bool
  | finish => true
  | element _ | attr _ _ | text _ | comment _ => false

/-- Whether an attribute may come right behind a call. -/
def admitsAttr : BuildCall → Bool
  | element _ | attr _ _ => true
  | text _ | comment _ | finish => false

/-- The number of elements that calls leave open. -/
def depth (calls : List BuildCall) : Nat := calls.countP opens - calls.countP ends

/-- Calls that are in place: nothing is ended that was not opened, and attributes come right behind
an element that was opened or behind another attribute. -/
structure WellFormed (calls : List BuildCall) : Prop where
  ends_le_opens : ∀ before, before <+: calls → before.countP ends ≤ before.countP opens
  attr : ∀ before name value, before ++ [.attr name value] <+: calls →
    ∃ call ∈ before.getLast?, call.admitsAttr

/-- Whether a call is in place behind calls that are. -/
def MayFollow (before : List BuildCall) : BuildCall → Prop
  | finish => before.countP ends < before.countP opens
  | attr _ _ => ∃ call ∈ before.getLast?, call.admitsAttr
  | element _ | text _ | comment _ => True

/-- What is said of a call that is out of place behind calls that are in place. -/
inductive Complaint (before : List BuildCall) : BuildCall → String → Prop
  | finish : Complaint before .finish "no open element to end"
  | outside {name value : String} : depth before = 0 →
    Complaint before (.attr name value) "attributes can only be added to elements"
  | late {name value : String} : 0 < depth before →
    Complaint before (.attr name value) "attributes must precede the element's children"

variable {before calls : List BuildCall} {call : BuildCall}

/-! ### The rule call by call -/

theorem wellFormed_nil : WellFormed [] where
  ends_le_opens before within := by
    rw [List.prefix_nil.mp within]
    exact Nat.le_refl 0
  attr before name value within := by simp at within

/-- What comes first of calls that are in place is in place. -/
theorem WellFormed.of_prefix (wellFormed : WellFormed calls) (within : before <+: calls) :
    WellFormed before where
  ends_le_opens first shorter := wellFormed.ends_le_opens first (shorter.trans within)
  attr first name value shorter := wellFormed.attr first name value (shorter.trans within)

/-- **A further call** keeps calls in place exactly if it may follow them. -/
theorem wellFormed_concat_iff :
    WellFormed (calls ++ [call]) ↔ WellFormed calls ∧ MayFollow calls call := by
  constructor
  · intro wellFormed
    refine ⟨wellFormed.of_prefix (List.prefix_append calls [call]), ?_⟩
    cases call with
    | element name => exact trivial
    | text value => exact trivial
    | comment value => exact trivial
    | attr name value => exact wellFormed.attr calls name value List.prefix_rfl
    | finish =>
      have counted := wellFormed.ends_le_opens _ List.prefix_rfl
      rw [List.countP_append, List.countP_append] at counted
      exact counted
  · rintro ⟨wellFormed, follows⟩
    refine ⟨fun before within => ?_, fun before name value within => ?_⟩
    · rcases List.prefix_concat_iff.mp within with rfl | shorter
      · have counted := wellFormed.ends_le_opens calls List.prefix_rfl
        rw [List.countP_append, List.countP_append]
        cases call with
        | finish => exact follows
        | element name => exact Nat.le_succ_of_le counted
        | attr name value => exact counted
        | text value => exact counted
        | comment value => exact counted
      · exact wellFormed.ends_le_opens before shorter
    · rcases List.prefix_concat_iff.mp within with same | shorter
      · obtain ⟨rfl, last⟩ := List.append_inj' same rfl
        cases last
        exact follows
      · exact wellFormed.attr before name value shorter

end BuildCall

/-! ### What a draft shows of its calls -/

/-- A draft has open what its calls opened and did not end, and its innermost open element has no
child exactly if an attribute may come next. -/
structure Draft.Accounts (draft : Draft) (calls : List BuildCall) : Prop where
  opened : draft.opened.length + calls.countP BuildCall.ends = calls.countP BuildCall.opens
  childless : (∃ inner ∈ draft.opened.head?, inner.children = .empty) ↔
    ∃ call ∈ calls.getLast?, call.admitsAttr

namespace Draft

open BuildCall

variable {draft : Draft} {calls : List BuildCall} {call : BuildCall}

theorem accounts_new : Accounts {} [] where
  opened := rfl
  childless := by simp

/-- As many elements are open as the calls left open. -/
theorem Accounts.depth_eq (accounts : draft.Accounts calls) :
    depth calls = draft.opened.length := by
  have counted := accounts.opened
  rw [depth]
  omega

/-- Behind a child that was added, no attribute may come. -/
theorem accounts_add {nodes : Document} (nonempty : nodes ≠ .empty)
    (opened : draft.opened.length + (calls ++ [call]).countP ends = (calls ++ [call]).countP opens)
    (filling : call.admitsAttr = false) : (draft.add nodes).Accounts (calls ++ [call]) where
  opened := by rw [length_opened_add, opened]
  childless := by
    have filled : ∀ earlier : Document, earlier ++ nodes ≠ .empty := by
      intro earlier
      cases earlier <;> simp [nonempty]
    obtain ⟨elements, children⟩ := draft
    cases elements <;> simp [add, filling, filled]

/-- **A call that may come next is taken**, and the draft accounts for it. -/
theorem Accounts.perform (accounts : draft.Accounts calls) (follows : MayFollow calls call) :
    ∃ next, draft.perform call = .ok next ∧ next.Accounts (calls ++ [call]) := by
  have counted := accounts.opened
  obtain ⟨elements, children⟩ := draft
  cases call with
  | element name =>
    refine ⟨⟨{ name } :: elements, children⟩, rfl, ?_, by simp [admitsAttr]⟩
    simp only [List.length_cons, List.countP_append, List.countP_singleton, opens, ends] at counted ⊢
    grind
  | text value =>
    refine ⟨_, rfl, accounts_add (by simp) ?_ rfl⟩
    simpa [opens, ends] using counted
  | comment value =>
    refine ⟨_, rfl, accounts_add (by simp) ?_ rfl⟩
    simpa [opens, ends] using counted
  | attr name value =>
    obtain ⟨inner, innermost, childless⟩ := accounts.childless.mpr follows
    cases elements with
    | nil => cases innermost
    | cons first outer =>
      cases innermost
      refine ⟨_, if_pos childless, ?_, by simp [admitsAttr, childless]⟩
      simpa [opens, ends] using counted
  | finish =>
    have some_open : calls.countP ends < calls.countP opens := follows
    cases elements with
    | nil => simp at counted; omega
    | cons inner outer =>
      refine ⟨_, rfl, accounts_add (by simp [OpenElement.ended]) ?_ rfl⟩
      simp [opens, ends] at counted ⊢
      omega

/-- **Any other call is refused** with what is to be said of it. -/
theorem Accounts.perform_error (accounts : draft.Accounts calls)
    (refused : ¬ MayFollow calls call) :
    ∃ fault text, draft.perform call = .error fault ∧ fault.message = some text ∧
      Complaint calls call text := by
  have counted := accounts.opened
  have depth := accounts.depth_eq
  obtain ⟨elements, children⟩ := draft
  cases call with
  | element name => exact absurd trivial refused
  | text value => exact absurd trivial refused
  | comment value => exact absurd trivial refused
  | attr name value =>
    cases elements with
    | nil => exact ⟨_, _, rfl, rfl, .outside depth⟩
    | cons inner outer =>
      have parent : inner.children ≠ .empty := fun childless =>
        refused (accounts.childless.mp ⟨inner, rfl, childless⟩)
      refine ⟨_, _, if_neg parent, rfl, .late ?_⟩
      rw [depth]
      exact Nat.succ_pos _
  | finish =>
    cases elements with
    | nil => exact ⟨_, _, rfl, rfl, .finish⟩
    | cons inner outer =>
      refine absurd ?_ refused
      show calls.countP ends < calls.countP opens
      rw [List.length_cons] at counted
      omega

/-- **A run of calls.** Calls that are in place lead to a draft that accounts for them. Otherwise
there is a first call that is out of place, and the run fails there. -/
theorem accounts_run (calls : List BuildCall) :
    (WellFormed calls ∧ ∃ draft, Draft.run {} calls = .ok draft ∧ draft.Accounts calls) ∨
    ∃ before call after draft fault text, calls = before ++ call :: after ∧ WellFormed before ∧
      ¬ WellFormed (before ++ [call]) ∧ Draft.run {} before = .ok draft ∧
      draft.perform call = .error fault ∧ fault.message = some text ∧
      Complaint before call text := by
  induction calls using List.reverseRecOn with
  | nil => exact .inl ⟨wellFormed_nil, {}, rfl, accounts_new⟩
  | append_singleton calls call ih =>
    rcases ih with ⟨wellFormed, draft, ran, accounts⟩ |
      ⟨before, first, after, draft, fault, text, rfl, found⟩
    · by_cases follows : MayFollow calls call
      · obtain ⟨next, performed, kept⟩ := accounts.perform follows
        refine .inl ⟨wellFormed_concat_iff.mpr ⟨wellFormed, follows⟩, next, ?_, kept⟩
        rw [run_append, ran]
        show draft.run [call] = _
        rw [run_cons, performed]
        rfl
      · obtain ⟨fault, text, failed, said, complaint⟩ := accounts.perform_error follows
        exact .inr ⟨calls, call, [], draft, fault, text, rfl, wellFormed,
          fun whole => follows (wellFormed_concat_iff.mp whole).2, ran, failed, said, complaint⟩
    · exact .inr ⟨before, first, after ++ [call], draft, fault, text, by simp, found⟩

/-- A run ends at the first call that fails. -/
theorem run_of_error {before after : List BuildCall} {next : Draft} {fault : Fault}
    (ran : draft.run before = .ok next) (failed : next.perform call = .error fault) :
    draft.run (before ++ call :: after) = .error fault := by
  rw [run_append, ran]
  show next.run (call :: after) = _
  rw [run_cons, failed]
  rfl

end Draft

namespace Builder

open BuildCall

/-! ### What a builder takes -/

/-- **A builder takes exactly the calls that are in place.** Otherwise everything in front of the
first call that is not is performed, and that call fails with the text that says what is wrong. -/
theorem accepted_iff_wellFormed (calls : List BuildCall) :
    ((∃ builder, Builder.run {} calls = .ok builder) ↔ WellFormed calls) ∧
    ((∃ built, Tree.ofCalls calls = .ok built) ↔ WellFormed calls) ∧
    (¬ WellFormed calls → ∃ before call after builder fault text,
      calls = before ++ call :: after ∧ WellFormed before ∧ ¬ WellFormed (before ++ [call]) ∧
        Builder.run {} before = .ok builder ∧ builder.perform call = .error fault ∧
        Builder.run {} calls = .error fault ∧ Tree.ofCalls calls = .error fault ∧
        fault.message = some text ∧ Complaint before call text) := by
  have start : ({} : Builder) = Draft.builder {} := rfl
  rcases Draft.accounts_run calls with ⟨wellFormed, draft, ran, _⟩ |
    ⟨before, call, after, draft, fault, text, rfl, sound, broken, ran, failed, said, complaint⟩
  · have performed : Builder.run {} calls = .ok draft.builder := by
      rw [start, Draft.run_builder, ran]
      rfl
    have built : Tree.ofCalls calls = .ok draft.builder.build := by
      rw [Tree.ofCalls, performed]
      rfl
    exact ⟨iff_of_true ⟨_, performed⟩ wellFormed, iff_of_true ⟨_, built⟩ wellFormed,
      fun broken => absurd wellFormed broken⟩
  · have stopped : Builder.run {} (before ++ call :: after) = .error fault := by
      rw [start, Draft.run_builder, Draft.run_of_error ran failed]
      rfl
    have unbuilt : Tree.ofCalls (before ++ call :: after) = .error fault := by
      rw [Tree.ofCalls, stopped]
      rfl
    have unfit : ¬ WellFormed (before ++ call :: after) := fun whole =>
      broken (whole.of_prefix ⟨after, by simp⟩)
    refine ⟨iff_of_false ?_ unfit, iff_of_false ?_ unfit, fun _ => ?_⟩
    · rintro ⟨builder, performed⟩
      rw [stopped] at performed
      cases performed
    · rintro ⟨built, performed⟩
      rw [unbuilt] at performed
      cases performed
    · refine ⟨before, call, after, draft.builder, fault, text, rfl, sound, broken, ?_, ?_, stopped,
        unbuilt, said, complaint⟩
      · rw [start, Draft.run_builder, ran]
        rfl
      · rw [Draft.perform_builder, failed]
        rfl

/-- An attribute behind the end of a child comes too late, and everything before it is performed. -/
theorem accepted_iff_wellFormed_late :
    ∃ before call after builder,
      [.element "a", .element "b", .finish, .attr "k" "v", .finish, .finish] =
          before ++ call :: after ∧
        WellFormed before ∧ ¬ WellFormed (before ++ [call]) ∧
        Builder.run {} before = .ok builder ∧
        builder.perform call = .error .attributeAfterChild ∧
        Complaint before call "attributes must precede the element's children" := by
  have late : ¬ WellFormed
      [.element "a", .element "b", .finish, .attr "k" "v", .finish, .finish] := by
    intro wellFormed
    obtain ⟨call, last, admits⟩ :=
      wellFormed.attr [.element "a", .element "b", .finish] "k" "v" ⟨[.finish, .finish], rfl⟩
    cases last
    cases admits
  obtain ⟨before, call, after, builder, fault, text, split, sound, broken, ran, failed, _, unbuilt,
    said, complaint⟩ := (accepted_iff_wellFormed _).2.2 late
  have known : Tree.ofCalls
      [.element "a", .element "b", .finish, .attr "k" "v", .finish, .finish] =
        .error .attributeAfterChild := rfl
  rw [known] at unbuilt
  cases unbuilt
  cases said
  exact ⟨before, call, after, builder, split, sound, broken, ran, failed, complaint⟩

end Builder

end XPathWalk

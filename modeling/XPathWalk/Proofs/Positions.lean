/-
**Positions count along the whole sequence.**

Reading shows one node after another until there are no more or until a fault is met. Behind a
rewinding, the position of an iterator tells how many nodes of its sequence it has yielded, so the
counter of an iterator can be used to look for a node. The questions for the size and for a node at
a position do so on a rewound clone. They are answered about the sequence of the iterator itself,
wherever that stands.

* `NodeIterator.Reads`: what calls for the next node show, to the end or to a fault;
* `reads_of_sees`, `Reads.unique`: that is what is ahead, and nothing else;
* `NodeIterator.Along`: an iterator has a sequence ahead of it from its position on;
* `Along.next`, `along_rewind`: reading goes along the sequence, and rewinding begins it;
* `NodeIterator.seek`, `seek_eq_entry`: a search by the counter finds the node at the position;
* `answers_of_cloneable`: what every reachable iterator that can be cloned is asked for, if it is
  rewound and read to the end or to a fault. The size is the number of these nodes, or else the
  fault behind them. The node for a position, counting from 1, is the one at that place of them, and
  the one with which the counter of the clone that is asked comes to the position. Where there is
  none it says so, or it fails with the fault behind them.
-/

import XPathWalk.Proofs.Marks
import XPathWalk.Proofs.WholeSequence

namespace XPathWalk

/-- What is left of an outlook behind its first nodes. -/
def Outlook.behind (outlook : Outlook) (count : Nat) : Outlook :=
  ⟨outlook.nodes.drop count, outlook.fault⟩

namespace NodeIterator

/-! ### Definitions -/

/-- What calls for the next node show from here on, until one says that there is none or fails. -/
inductive Reads : NodeIterator → Outlook → Prop
  | node {iterator rest : NodeIterator} {node : Handle} {nodes : List Handle}
      {fault : Option Fault} :
    iterator.next = .ok (some node, rest) → Reads rest ⟨nodes, fault⟩ →
    Reads iterator ⟨node :: nodes, fault⟩
  | ended {iterator rest : NodeIterator} : iterator.next = .ok (none, rest) → Reads iterator .ended
  | failed {iterator : NodeIterator} {fault : Fault} : iterator.next = .error fault →
    Reads iterator (.failed fault)

/-- A sound iterator that has yielded as many nodes of a sequence as its position says. -/
structure Along (base : Outlook) (iterator : NodeIterator) : Prop where
  sound : iterator.Sound
  ahead : iterator.ahead = base.behind iterator.progress.position

/-- Of the next `left` nodes the one with which the counter comes to a position. -/
def seek (position : Nat) : (left : Nat) → NodeIterator → Except Fault (Option Handle)
  | 0, _ => .ok none
  | left + 1, iterator => do
    match ← iterator.next with
    | (none, _) => return none
    | (some node, rest) =>
      if rest.progress.position = position then return some node else seek position left rest

/-- The node at a 1-based position, looked for on a rewound clone by the counter of the clone. -/
def nodeCounted (iterator : NodeIterator) (position : Nat) :
    Except Fault (Except IterationError (Option Handle)) :=
  if position = 0 then .ok (.ok none)
  else
    match iterator.clone with
    | .error error => .ok (.error error)
    | .ok probe => do
      let rewound ← probe.rewind
      return .ok (← rewound.seek position (rewound.reach + 1))

variable {iterator rest : NodeIterator} {base : Outlook}

/-! ### Reading -/

/-- **Reading shows what is ahead.** -/
theorem reads_of_sees {outlook : Outlook} (sees : iterator.Sees outlook) :
    iterator.Reads outlook := by
  obtain ⟨nodes, fault⟩ := outlook
  -- Every node that is read leaves one less ahead.
  induction nodes generalizing iterator with
  | nil =>
    have step := sees.foresees
    generalize advanced : iterator.next = result at step
    cases step with
    | done _ => exact .ended advanced
    | fault => exact .failed advanced
  | cons node others ih =>
    have step := sees.foresees
    generalize advanced : iterator.next = result at step
    cases step with
    | node seen => exact .node advanced (ih seen)

/-- Reading shows one outlook only. -/
theorem Reads.unique {first second : Outlook} (reads : iterator.Reads first)
    (again : iterator.Reads second) : first = second := by
  induction reads generalizing second with
  | node advanced _ ih =>
    cases again with
    | node same others =>
      cases advanced.symm.trans same
      cases ih others
      rfl
    | ended same => cases advanced.symm.trans same
    | failed same => cases advanced.symm.trans same
  | ended advanced =>
    cases again with
    | node same _ => cases advanced.symm.trans same
    | ended _ => rfl
    | failed same => cases advanced.symm.trans same
  | failed advanced =>
    cases again with
    | node same _ => cases advanced.symm.trans same
    | ended same => cases advanced.symm.trans same
    | failed same =>
      cases advanced.symm.trans same
      rfl

/-- The node that is read is the one at the position, and reading goes on behind it. -/
theorem Along.next {found : Option Handle} (along : iterator.Along base)
    (advanced : iterator.next = .ok (found, rest)) :
    rest.Along base ∧ found = base.nodes[iterator.progress.position]? := by
  have counted := progress_next advanced
  have step := next_foresees along.sound
  rw [along.ahead, Outlook.behind, List.drop_eq_getElem?_toList_append, advanced] at step
  cases entry : base.nodes[iterator.progress.position]? with
  | none =>
    rw [entry] at step
    have nothing : base.nodes.drop iterator.progress.position = [] :=
      List.drop_eq_nil_of_le (List.getElem?_eq_none_iff.mp entry)
    have further : base.nodes.drop (iterator.progress.position + 1) = [] :=
      List.drop_eq_nil_of_le (Nat.le_succ_of_le (List.getElem?_eq_none_iff.mp entry))
    rw [further] at step
    generalize left : base.fault = fault at step
    cases step with
    | done seen =>
      refine ⟨⟨seen.sound, ?_⟩, rfl⟩
      rw [seen.ahead, counted, Outlook.behind, left]
      exact congrArg (Outlook.mk · none) nothing.symm
  | some node =>
    rw [entry] at step
    cases step with
    | node seen =>
      refine ⟨⟨seen.sound, ?_⟩, rfl⟩
      rw [seen.ahead, counted]
      rfl

/-- Reading fails where all nodes of the sequence have been yielded and a fault lies behind them. -/
theorem Along.next_error_iff (along : iterator.Along base) (fault : Fault) :
    iterator.next = .error fault ↔
      base.nodes.length ≤ iterator.progress.position ∧ base.fault = some fault := by
  have step := next_foresees along.sound
  rw [along.ahead, Outlook.behind] at step
  rw [← List.drop_eq_nil_iff]
  generalize base.nodes.drop iterator.progress.position = nodes at step ⊢
  generalize base.fault = behind at step ⊢
  generalize iterator.next = result at step ⊢
  cases step with
  | node _ => simp
  | done _ => simp
  | fault => simp

/-- **A rewound iterator begins its sequence.** -/
theorem along_rewind (sound : iterator.Sound) (rewound : iterator.rewind = .ok rest) :
    rest.Along iterator.contents ∧
      (iterator.contents.nodes ≠ [] → rest.progress.position = 0) := by
  obtain ⟨_, same, seen⟩ := rewind_sees sound
  rw [rewound] at same
  cases same
  have atStart : rest.progress.position = 0 → rest.Along iterator.contents := fun zero =>
    ⟨seen.sound, by rw [seen.ahead, zero]; rfl⟩
  cases rewinds_of_rewind rewound with
  | @unbound walk unbound =>
    -- A walk without a start node keeps its position, but there is nothing to be counted.
    have failed : (axis walk).contents = .failed (.unboundAxis walk.axis) := by
      rw [contents, AxisWalk.contents, unbound]
      rfl
    rw [failed] at seen ⊢
    refine ⟨⟨seen.sound, ?_⟩, fun some => absurd rfl some⟩
    rw [seen.ahead, Outlook.behind, Outlook.failed, List.drop_nil]
  | axis _ _ => exact ⟨atStart rfl, fun _ => rfl⟩
  | fixed => exact ⟨atStart rfl, fun _ => rfl⟩
  | union _ => exact ⟨atStart rfl, fun _ => rfl⟩
  | nodeSet => exact ⟨atStart rfl, fun _ => rfl⟩

/-! ### Looking for a node by the counter -/

/-- Where the end or a fault comes next, there is no node at any later index. -/
theorem Along.entry_eq (along : iterator.Along base) {index : Nat}
    (yet : base.nodes ≠ [] → iterator.progress.position ≤ index)
    (ended : base.nodes.length ≤ iterator.progress.position) :
    base.entry index = iterator.next.map fun _ => none := by
  have beyond : base.nodes.length ≤ index := by
    by_cases nothing : base.nodes = []
    · rw [nothing]
      exact Nat.zero_le index
    · exact Nat.le_trans ended (yet nothing)
  rw [Outlook.entry, List.getElem?_eq_none beyond, Outlook.list]
  cases behind : base.fault with
  | some fault =>
    rw [(along.next_error_iff fault).mpr ⟨ended, behind⟩]
    rfl
  | none =>
    cases advanced : iterator.next with
    | ok answer => rfl
    | error fault => cases behind.symm.trans ((along.next_error_iff fault).mp advanced).2

/-- **A search by the counter finds the node at the position**, or the fault before it, provided
that it may go on to the end. -/
theorem seek_eq_entry (index left : Nat) (along : iterator.Along base)
    (yet : base.nodes ≠ [] → iterator.progress.position ≤ index)
    (enough : iterator.ahead.nodes.length < left) :
    iterator.seek (index + 1) left = base.entry index := by
  induction left generalizing iterator with
  | zero => cases enough
  | succ left ih =>
    have ended := along.entry_eq yet
    cases advanced : iterator.next with
    | error fault =>
      rw [advanced] at ended
      rw [seek, advanced, ended ((along.next_error_iff fault).mp advanced).1]
      rfl
    | ok answer =>
      obtain ⟨found, rest⟩ := answer
      obtain ⟨onward, entry⟩ := along.next advanced
      cases found with
      | none =>
        rw [advanced] at ended
        rw [seek, advanced, ended (List.getElem?_eq_none_iff.mp entry.symm)]
        rfl
      | some node =>
        have counted : rest.progress.position = iterator.progress.position + 1 :=
          congrArg Progress.position (progress_next advanced)
        have inside : iterator.progress.position < base.nodes.length :=
          (List.getElem?_eq_some_iff.mp entry.symm).1
        have before := yet (List.ne_nil_of_length_pos (Nat.zero_lt_of_lt inside))
        rw [seek, advanced]
        show (if rest.progress.position = index + 1 then _ else _) = _
        split
        · rename_i reached
          have here : iterator.progress.position = index := by omega
          rw [Outlook.entry, ← here, ← entry]
          rfl
        · rename_i earlier
          refine ih onward (fun _ => by omega) ?_
          rw [along.ahead, Outlook.behind, List.length_drop] at enough
          rw [onward.ahead, Outlook.behind, List.length_drop]
          omega

/-! ### Asking a clone -/

/-- The node at a position is the one that comes when the counter of the clone shows the
position. -/
theorem nodeAt_eq_nodeCounted (sound : iterator.Sound) (position : Nat) :
    iterator.nodeAt position = iterator.nodeCounted position := by
  cases position with
  | zero => rfl
  | succ index =>
    rw [nodeCounted, if_neg (Nat.succ_ne_zero index)]
    cases cloned : iterator.clone with
    | error error => rw [nodeAt, cloned]
    | ok probe =>
      have soundProbe := sound.clone cloned
      obtain ⟨rewound, begun, _⟩ := rewind_sees soundProbe
      obtain ⟨along, zero⟩ := along_rewind soundProbe begun
      have found := seek_eq_entry index (rewound.reach + 1) along
        (fun some => by rw [zero some]; exact Nat.zero_le index)
        (Nat.lt_succ_of_le (length_ahead_le_reach along.sound))
      rw [nodeAt_of_clone sound cloned, ← contents_clone cloned, ← found]
      show _ = (probe.rewind >>= fun rewound => _)
      rw [begun]
      show Except.map _ _ = (rewound.seek _ _ >>= _)
      cases rewound.seek (index + 1) (rewound.reach + 1) <;> rfl

/-- **The size and the nodes at positions are those of the receiver's own sequence**, read from the
beginning to the end or to a fault, wherever the receiver stands. -/
theorem answers_of_cloneable {copy : NodeIterator} (reachable : Reachable iterator)
    (cloned : iterator.clone = .ok copy) :
    ∃ rewound whole, iterator.rewind = .ok rewound ∧ rewound.Reads whole ∧
      (whole.fault = none → iterator.last = .ok (.ok whole.nodes.length)) ∧
      (∀ fault, whole.fault = some fault → iterator.last = .error fault) ∧
      ∀ position, 1 ≤ position →
        iterator.nodeAt position = iterator.nodeCounted position ∧
        (∀ node, whole.nodes[position - 1]? = some node →
          iterator.nodeAt position = .ok (.ok (some node))) ∧
        (whole.nodes.length < position → whole.fault = none →
          iterator.nodeAt position = .ok (.ok none)) ∧
        ∀ fault, whole.nodes.length < position → whole.fault = some fault →
          iterator.nodeAt position = .error fault := by
  have sound := reachable.sound
  obtain ⟨rewound, begun, seen⟩ := rewind_sees sound
  have last := last_of_clone sound cloned
  refine ⟨rewound, iterator.contents, begun, reads_of_sees seen, fun ends => ?_,
    fun fault behind => ?_, fun position positive => ?_⟩
  · rw [last, Outlook.list, ends]
    rfl
  · rw [last, Outlook.list, behind]
    rfl
  · obtain ⟨index, rfl⟩ := Nat.exists_eq_add_of_le' positive
    rw [Nat.add_sub_cancel]
    have told := nodeAt_of_clone sound cloned index
    refine ⟨nodeAt_eq_nodeCounted sound _, fun node entry => ?_, fun beyond ends => ?_,
      fun fault beyond behind => ?_⟩
    · rw [told, Outlook.entry, entry]
      rfl
    · rw [told, Outlook.entry, List.getElem?_eq_none (Nat.le_of_lt_succ beyond), Outlook.list, ends]
      rfl
    · rw [told, Outlook.entry, List.getElem?_eq_none (Nat.le_of_lt_succ beyond), Outlook.list,
        behind]
      rfl

/-- The children of a document and a list are three nodes, also behind the first of them. -/
theorem answers_of_cloneable_midway :
    ∃ bound iterator copy,
      (ofBranches [.ofAxis (.ofDocument (.text "a" (.comment "b" .empty))) .child,
        .ofList [7]]).bind Handle.root = .ok bound ∧
      bound.value.next = .ok (some 1, iterator) ∧ iterator.clone = .ok copy ∧
      iterator.last = .ok (.ok 3) ∧ iterator.nodeAt 3 = .ok (.ok (some 7)) ∧
      iterator.nodeAt 4 = .ok (.ok none) := by
  have made : Reachable (ofBranches
      [.ofAxis (.ofDocument (.text "a" (.comment "b" .empty))) .child, .ofList [7]]) :=
    .ofPair (.ofAxis (Tree.built_ofDocument _) .child) (.ofList [7])
  have taken : (ofBranches [.ofAxis (.ofDocument (.text "a" (.comment "b" .empty))) .child,
      .ofList [7]]).bind Handle.root = .ok _ := rfl
  refine ⟨_, _, _, taken, rfl, rfl, ?_⟩
  have reached := (made.bind taken).next rfl
  obtain ⟨rewound, whole, begun, reads, size, _, entries⟩ := answers_of_cloneable reached rfl
  obtain ⟨_, again, seen⟩ := rewind_sees reached.sound
  cases begun.symm.trans again
  have nodes : whole = ⟨[1, 2, 7], none⟩ := reads.unique (reads_of_sees seen)
  subst nodes
  obtain ⟨_, third, _⟩ := entries 3 (by decide)
  obtain ⟨_, _, fourth, _⟩ := entries 4 (by decide)
  exact ⟨size rfl, third 7 rfl, fourth (by decide) rfl⟩

end NodeIterator

end XPathWalk

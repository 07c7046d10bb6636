/-
**Asking for the whole sequence.**

The size of the whole sequence and the node at a position of it are asked of a rewound clone. A
clone has the contents of its original, so the answers hang on the contents alone: neither on where
an iterator stands nor on what is saved.

* `Outlook.list`, `Outlook.entry`: all nodes of an outlook, and the node at an index of it;
* `whole_eq_list`: the whole sequence is the list of the contents;
* `last_of_clone`, `nodeAt_of_clone`: so are the answers of an iterator that can be cloned.
-/

import XPathWalk.NodeIterator.Whole
import XPathWalk.Proofs.Reachable

namespace XPathWalk

namespace Outlook

/-- All nodes, unless there is a fault behind them. -/
def list (outlook : Outlook) : Except Fault (List Handle) :=
  match outlook.fault with
  | none => .ok outlook.nodes
  | some fault => .error fault

/-- The node at an index. The fault is met only where there is none. -/
def entry (outlook : Outlook) (index : Nat) : Except Fault (Option Handle) :=
  match outlook.nodes[index]? with
  | some node => .ok (some node)
  | none => outlook.list.map fun _ => none

theorem list_eq_ok_iff {outlook : Outlook} {items : List Handle} :
    outlook.list = .ok items ↔ outlook = ⟨items, none⟩ := by
  obtain ⟨nodes, _ | fault⟩ := outlook
  · simp [list]
  · simp [list]

end Outlook

namespace NodeIterator

variable {iterator copy : NodeIterator} {outlook : Outlook}

/-- Draining yields the list of what is ahead. -/
theorem drain_eq_list (sees : iterator.Sees outlook) :
    iterator.drain.map Prod.fst = outlook.list := by
  unfold Outlook.list
  rcases drain_of_sees sees with ⟨rest, whole, drained, _⟩ | ⟨failure, behind, failed⟩
  · rw [drained, whole]
    rfl
  · rw [failed, behind]
    rfl

/-- Taking one node more than an index yields the entry there as the last. -/
theorem take_eq_entry (sees : iterator.Sees outlook) (index : Nat) :
    (iterator.take (index + 1)).map (fun answer => answer.1[index]?) = outlook.entry index := by
  unfold Outlook.entry
  by_cases enough : index + 1 ≤ outlook.nodes.length
  · obtain ⟨rest, taken, _⟩ := take_within (index + 1) outlook.nodes outlook.fault sees enough
    rw [taken, List.getElem?_eq_getElem enough]
    show Except.ok (outlook.nodes.take (index + 1))[index]? = _
    rw [List.getElem?_take_of_lt (Nat.lt_succ_self index), List.getElem?_eq_getElem enough]
  · have beyond : outlook.nodes.length < index + 1 := Nat.lt_of_not_le enough
    have nothing : outlook.nodes[index]? = none :=
      List.getElem?_eq_none (Nat.le_of_lt_succ beyond)
    unfold Outlook.list
    rw [nothing]
    rcases take_beyond (index + 1) outlook.nodes outlook.fault sees beyond with
      ⟨rest, whole, taken, _⟩ | ⟨failure, behind, failed⟩
    · rw [taken, whole]
      exact congrArg Except.ok nothing
    · rw [failed, behind]
      rfl

/-- **The whole sequence is the list of the contents.** -/
theorem whole_eq_list (sound : iterator.Sound) : iterator.whole = iterator.contents.list := by
  obtain ⟨rewound, begun, seen⟩ := rewind_sees sound
  rw [← drain_eq_list seen, whole, begun]
  show (rewound.drain >>= _) = _
  cases rewound.drain <;> rfl

/-- An iterator has a whole sequence if its contents end without a fault. -/
theorem whole_eq_iff (sound : iterator.Sound) (items : List Handle) :
    iterator.whole = .ok items ↔ iterator.contents = ⟨items, none⟩ := by
  rw [whole_eq_list sound, Outlook.list_eq_ok_iff]

/-- The size of the whole sequence is told by the contents. -/
theorem last_of_clone (sound : iterator.Sound) (cloned : iterator.clone = .ok copy) :
    iterator.last = iterator.contents.list.map fun nodes => .ok nodes.length := by
  rw [last, cloned, ← contents_clone cloned, ← whole_eq_list (sound.clone cloned)]
  show (copy.whole >>= _) = _
  cases copy.whole <;> rfl

/-- The node at a position is told by the contents. -/
theorem nodeAt_of_clone (sound : iterator.Sound) (cloned : iterator.clone = .ok copy)
    (index : Nat) :
    iterator.nodeAt (index + 1) = (iterator.contents.entry index).map Except.ok := by
  obtain ⟨rewound, begun, seen⟩ := rewind_sees (sound.clone cloned)
  rw [nodeAt, cloned, ← contents_clone cloned, ← take_eq_entry seen index]
  show (copy.rewind >>= _) = _
  rw [begun]
  show (rewound.take (index + 1) >>= _) = _
  cases rewound.take (index + 1) <;> rfl

end NodeIterator

end XPathWalk

/-
**Where a clone stands.**

A clone of an axis or of a list stands where the iterator stands, and a clone of a node set stands
at its beginning, at position 0. Both go with their position. A clone of a union keeps the number of
the present branch and the position, but the node sets among its branches begin again: what these
had already yielded comes once more, and the position runs ahead of the nodes.

* `NodeIterator.copied`: what a clone has ahead of it;
* `NodeIterator.upcoming`: the node sets among the branches that are yet to be read to their end;
* `ahead_clone`, `remains_copied`: a clone has this ahead of it, and it is the same as ahead of the
  iterator exactly if all of these node sets are at their beginning;
* `place_of_clone`: the clone of an iterator that stands in its whole sequence where its position
  says has the same whole sequence and yields the nodes behind its own position. It yields no others
  exactly if the node sets among the branches that are yet to be read all stand at their beginning.
  Then it is a cursor over the whole sequence from its position on, whatever is called;
* `clone_repeats_node`: a clone whose first node has the wrong position.
-/

import XPathWalk.Proofs.Leftovers
import XPathWalk.Proofs.ListCursor
import XPathWalk.Proofs.WholeSequence

namespace XPathWalk

/-- What is appended without a fault has no fault in either part. -/
theorem Outlook.exists_parts_of_append {first second : Outlook} {nodes : List Handle}
    (whole : first ++ second = ⟨nodes, none⟩) :
    ∃ left right, first = ⟨left, none⟩ ∧ second = ⟨right, none⟩ ∧ nodes = left ++ right := by
  obtain ⟨left, fault⟩ := first
  obtain ⟨right, behind⟩ := second
  cases fault with
  | some fault => cases whole
  | none =>
    cases whole
    exact ⟨left, right, rfl, rfl, rfl⟩

namespace NodeIterator

/-! ### Definitions -/

mutual

/-- What a clone has ahead of it: what the iterator has, except that node sets begin again. -/
def copied : NodeIterator → Outlook
  | .axis walk => walk.ahead
  | .fixed list => ⟨list.nodes.toList.drop list.place.current, none⟩
  | .union branches place => copiedFrom branches place.current
  | .nodeSet _ replay => replay.contents

/-- What clones of branches have ahead of them from number `current` on. -/
def copiedFrom : List NodeIterator → (current : Nat) → Outlook
  | [], _ => .ended
  | _ :: rest, current + 1 => copiedFrom rest current
  | branch :: rest, 0 => branch.copied ++ copiedFrom rest 0

end

mutual

/-- The node sets in an iterator that are yet to be read to their end. -/
def pending : NodeIterator → List NodeIterator
  | .axis _ | .fixed _ => []
  | .union branches place => pendingFrom branches place.current
  | .nodeSet source replay => [.nodeSet source replay]

/-- Those in branches from number `current` on. -/
def pendingFrom : List NodeIterator → (current : Nat) → List NodeIterator
  | [], _ => []
  | _ :: rest, current + 1 => pendingFrom rest current
  | branch :: rest, 0 => branch.pending ++ pendingFrom rest 0

end

/-- The node sets among the branches of an iterator that are yet to be read to their end. -/
def upcoming : NodeIterator → List NodeIterator
  | .union branches place => pendingFrom branches place.current
  | .axis _ | .fixed _ | .nodeSet _ _ => []

/-! ### What is ahead of a clone -/

theorem aheadFrom_cloneAll {branches copies : List NodeIterator} (current : Nat)
    (each : ∀ branch ∈ branches, ∀ copy, branch.clone = .ok copy → copy.ahead = branch.copied)
    (cloned : cloneAll branches = .ok copies) :
    aheadFrom copies current = copiedFrom branches current := by
  induction branches generalizing copies current with
  | nil =>
    cases cloned
    rfl
  | cons branch rest ih =>
    obtain ⟨here, others⟩ := List.forall_mem_cons.mp each
    obtain ⟨_, first, more⟩ := exists_of_bind_ok cloned
    obtain ⟨_, later, done⟩ := exists_of_bind_ok more
    cases done
    cases current with
    | zero => rw [aheadFrom, copiedFrom, here _ first, ih 0 others later]
    | succ current => exact ih current others later

/-- **What a clone has ahead of it.** -/
theorem ahead_clone {iterator copy : NodeIterator} (cloned : iterator.clone = .ok copy) :
    copy.ahead = iterator.copied := by
  induction iterator generalizing copy with
  | axis walk =>
    cases cloned
    rfl
  | fixed list =>
    cases clones_of_clone cloned
    rfl
  | union branches place ih =>
    cases clones_of_clone cloned with
    | union step =>
      exact aheadFrom_cloneAll place.current (fun branch member _ => ih branch member) step
  | nodeSet source replay _ =>
    cases clones_of_clone cloned
    exact replay.ahead_frozen

theorem remains_copiedFrom {branches : List NodeIterator} (current : Nat) {nodes : List Handle}
    (each : ∀ branch ∈ branches, ∀ nodes, branch.ahead = ⟨nodes, none⟩ →
      ∃ whole, branch.copied = ⟨whole, none⟩ ∧ Remains nodes whole branch.pending)
    (ahead : aheadFrom branches current = ⟨nodes, none⟩) :
    ∃ whole, copiedFrom branches current = ⟨whole, none⟩ ∧
      Remains nodes whole (pendingFrom branches current) := by
  induction branches generalizing current nodes with
  | nil =>
    cases ahead
    exact ⟨[], rfl, remains_self []⟩
  | cons branch rest ih =>
    obtain ⟨here, others⟩ := List.forall_mem_cons.mp each
    cases current with
    | zero =>
      obtain ⟨left, right, aheadHere, aheadLater, rfl⟩ := Outlook.exists_parts_of_append ahead
      obtain ⟨whole, copied, first⟩ := here left aheadHere
      obtain ⟨more, copiedLater, second⟩ := ih 0 others aheadLater
      refine ⟨whole ++ more, ?_, first.append second⟩
      rw [copiedFrom, copied, copiedLater, Outlook.complete_append]
    | succ current => exact ih current others ahead

/-- **A clone yields what the iterator has ahead of it**, and besides what the node sets that are
yet to be read had already yielded. -/
theorem remains_copied {iterator : NodeIterator} {nodes : List Handle}
    (ahead : iterator.ahead = ⟨nodes, none⟩) :
    ∃ whole, iterator.copied = ⟨whole, none⟩ ∧ Remains nodes whole iterator.pending := by
  induction iterator generalizing nodes with
  | axis walk => exact ⟨nodes, ahead, remains_self nodes⟩
  | fixed list => exact ⟨nodes, ahead, remains_self nodes⟩
  | union branches place ih =>
    exact remains_copiedFrom place.current (fun branch member _ => ih branch member) ahead
  | nodeSet source replay _ =>
    have left : replay.ahead = ⟨nodes, none⟩ := ahead
    have contents : replay.contents = ⟨replay.contents.nodes, none⟩ := by
      have faultless := replay.ahead_suffix.2
      rw [left] at faultless
      exact congrArg (Outlook.mk replay.contents.nodes) faultless.symm
    have remains := remains_replay source contents
    rw [left] at remains
    exact ⟨_, contents, remains⟩

/-- What a clone has ahead of it, compared with the rest of the whole sequence behind its own
position. -/
theorem remains_clone {iterator copy : NodeIterator} {items : List Handle}
    (contents : iterator.contents = ⟨items, none⟩)
    (ahead : iterator.ahead = ⟨items.drop iterator.progress.position, none⟩)
    (cloned : iterator.clone = .ok copy) :
    ∃ nodes, copy.ahead = ⟨nodes, none⟩ ∧
      Remains (items.drop copy.progress.position) nodes iterator.upcoming := by
  rw [ahead_clone cloned]
  cases clones_of_clone cloned with
  | axis => exact ⟨_, ahead, remains_self _⟩
  | fixed => exact ⟨_, ahead, remains_self _⟩
  | union _ => exact remains_copied ahead
  | nodeSet _ => exact ⟨items, contents, remains_self items⟩

/-- **When a clone stands where its position says**: exactly if the node sets among the branches
that are yet to be read all stand at their beginning. -/
theorem place_of_clone {iterator rest copy : NodeIterator} {items : List Handle}
    (reachable : Reachable iterator) (whole : iterator.whole = .ok items)
    (drained : iterator.drain = .ok (items.drop iterator.progress.position, rest))
    (cloned : iterator.clone = .ok copy) :
    copy.whole = .ok items ∧
      ∃ nodes last, copy.drain = .ok (nodes, last) ∧
        (items.drop copy.progress.position).Sublist nodes ∧
        (nodes = items.drop copy.progress.position ↔
          ∀ set ∈ iterator.upcoming, set.ahead = set.contents) ∧
        ((∀ set ∈ iterator.upcoming, set.ahead = set.contents) →
          ∀ moves, (∀ before after, moves = before ++ .restore :: after → .mark ∈ before) →
            copy.observe moves =
              .ok (({ index := copy.progress.position } : ListCursor).observe items moves)) := by
  have sound := reachable.sound
  have soundCopy := sound.clone cloned
  have contents := (whole_eq_iff sound items).mp whole
  have contentsCopy := (contents_clone cloned).trans contents
  obtain ⟨nodes, ahead, remains⟩ :=
    remains_clone contents (ahead_of_drain sound drained).1 cloned
  obtain ⟨last, drainedCopy, _⟩ := drain_complete ⟨soundCopy, ahead⟩
  refine ⟨(whole_eq_iff soundCopy items).mpr contentsCopy, nodes, last, drainedCopy,
    remains.sublist, eq_comm.trans remains.eq_iff, fun atStart moves allowed => ?_⟩
  rw [← remains.eq_iff.mpr atStart] at ahead
  have there : copy.At items copy.progress.position := ⟨soundCopy, contentsCopy, ahead, rfl⟩
  have tracks : copy.Tracks items false { index := copy.progress.position } :=
    ⟨there, fun done => by cases done⟩
  exact observe_of_tracks moves tracks fun before after split => .inr (allowed before after split)

/-- A clone of a union of two lists goes on in the second. -/
theorem place_of_clone_list :
    ∃ bound read copy last,
      (ofBranches [ofList [4], ofList [6, 8]]).bind Handle.root = .ok bound ∧
        bound.value.next = .ok (some 4, read) ∧ read.clone = .ok copy ∧
        copy.progress.position = 1 ∧ copy.whole = .ok [4, 6, 8] ∧
        copy.drain = .ok ([6, 8], last) := by
  have made : Reachable (ofBranches [ofList [4], ofList [6, 8]]) :=
    .ofPair (.ofList [4]) (.ofList [6, 8])
  have taken : (ofBranches [ofList [4], ofList [6, 8]]).bind Handle.root = .ok _ := rfl
  obtain ⟨whole, nodes, last, drained, _, same, _⟩ :=
    place_of_clone ((made.bind taken).next rfl) rfl rfl rfl
  have remains := same.mpr fun set member => absurd member List.not_mem_nil
  subst remains
  exact ⟨_, _, _, last, taken, rfl, rfl, rfl, whole, drained⟩

/-- **A clone yields a node again and counts on.** A union of one node set over a list is bound and
read to its end, at position 1. Its clone says that it is at position 1, and yet the only node of
the whole sequence comes next, at position 2. -/
theorem clone_repeats_node :
    ∃ fresh bound read rest copy after,
      (ofList [5]).toNodeSet = .ok fresh ∧
        Reachable (ofBranches [fresh.value]) ∧
        (ofBranches [fresh.value]).bind Handle.root = .ok bound ∧
        bound.value.next = .ok (some 5, read) ∧ read.whole = .ok [5] ∧
        read.progress.position = 1 ∧ read.drain = .ok ([], rest) ∧
        read.clone = .ok copy ∧ copy.whole = .ok [5] ∧ copy.progress.position = 1 ∧
        copy.next = .ok (some 5, after) ∧ after.progress.position = 2 := by
  have made : Reachable (ofBranches [.nodeSet (ofList [5]) {}]) :=
    .ofBranches (List.forall_mem_singleton.mpr (.toNodeSet (.ofList [5]) rfl))
  have taken : (NodeIterator.nodeSet (ofList [5]) {}).bind Handle.root = .ok _ :=
    bind_of_single rfl rfl rfl
  have takenAll : (ofBranches [.nodeSet (ofList [5]) {}]).bind Handle.root = .ok _ :=
    bind_union rfl (bindAll_cons taken rfl)
  exact ⟨_, _, _, _, _, _, rfl, made, takenAll, rfl, rfl, rfl, rfl, rfl, rfl, rfl, rfl, rfl⟩

end NodeIterator

end XPathWalk

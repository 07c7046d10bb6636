/-
**A sorted buffer without its repeats.**

Skipping every handle that equals the one before it leaves each handle of a sorted list once. What a
replay has left is its buffer from the present index on, so reduced and without the handle that came
last.

* `ascending`: the handles of a list, each once and in ascending order;
* `withoutRepeats_sort`: reducing a sorted list gives just these;
* `changes_eq_length`: counting the neighbours that differ counts just these;
* `Replay.next_foresees`: a replay yields what is left of its buffer.
-/

import Mathlib.Data.List.Dedup
import Mathlib.Data.List.Sort
import XPathWalk.Proofs.Outlook
import XPathWalk.Replay

namespace XPathWalk

/-- The handles of a list, each once and in ascending order. -/
def ascending (nodes : List Handle) : List Handle := (nodes.mergeSort (· ≤ ·)).dedup

/-- A list without those handles that equal the one before. Before the first comes `last`. -/
def withoutRepeats : (last : Option Handle) → List Handle → List Handle
  | _, [] => []
  | last, node :: rest =>
    if some node = last then withoutRepeats last rest else node :: withoutRepeats (some node) rest

/-! ### The handles of a list -/

theorem pairwise_sort (nodes : List Handle) : (nodes.mergeSort (· ≤ ·)).Pairwise (· ≤ ·) := by
  have sorted := Buffer.sort_ascending { nodes := nodes.toArray }
  rwa [Buffer.toList_sort] at sorted

theorem mem_ascending {nodes : List Handle} {node : Handle} :
    node ∈ ascending nodes ↔ node ∈ nodes := by
  rw [ascending, List.mem_dedup, (List.mergeSort_perm nodes _).mem_iff]

theorem pairwise_ascending (nodes : List Handle) : (ascending nodes).Pairwise (· < ·) := by
  have sorted := (pairwise_sort nodes).sublist (List.dedup_sublist _)
  have once : (ascending nodes).Pairwise (· ≠ ·) := List.nodup_dedup _
  exact (sorted.and once).imp fun ⟨below, other⟩ => Nat.lt_of_le_of_ne below other

/-- Nothing else is ascending and has the same handles. -/
theorem eq_ascending {nodes list : List Handle} (sorted : list.Pairwise (· < ·))
    (same : ∀ node, node ∈ list ↔ node ∈ nodes) : list = ascending nodes :=
  List.Pairwise.eq_of_mem_iff sorted (pairwise_ascending nodes) fun node =>
    (same node).trans mem_ascending.symm

/-! ### Skipping repeats -/

theorem length_withoutRepeats_le (last : Option Handle) (nodes : List Handle) :
    (withoutRepeats last nodes).length ≤ nodes.length := by
  induction nodes generalizing last with
  | nil => exact Nat.le_refl _
  | cons node rest ih =>
    rw [withoutRepeats, List.length_cons]
    split
    · exact Nat.le_succ_of_le (ih last)
    · exact Nat.succ_le_succ (ih (some node))

/-- What is kept comes from the list. -/
theorem mem_of_mem_withoutRepeats {last : Option Handle} {nodes : List Handle} {node : Handle}
    (kept : node ∈ withoutRepeats last nodes) : node ∈ nodes := by
  induction nodes generalizing last with
  | nil => exact kept
  | cons first rest ih =>
    rw [withoutRepeats] at kept
    split at kept
    · exact List.mem_cons_of_mem _ (ih kept)
    · rcases List.mem_cons.mp kept with rfl | kept
      · exact List.mem_cons_self
      · exact List.mem_cons_of_mem _ (ih kept)

/-- Every handle of the list is kept, unless it is the one that came before. -/
theorem mem_withoutRepeats (last : Option Handle) {nodes : List Handle} {node : Handle}
    (member : node ∈ nodes) : some node = last ∨ node ∈ withoutRepeats last nodes := by
  induction nodes generalizing last with
  | nil => cases member
  | cons first rest ih =>
    rw [withoutRepeats]
    split
    · rename_i same
      rcases List.mem_cons.mp member with rfl | member
      · exact .inl same
      · exact ih last member
    · rcases List.mem_cons.mp member with rfl | member
      · exact .inr List.mem_cons_self
      · rcases ih (some first) member with same | kept
        · cases same
          exact .inr List.mem_cons_self
        · exact .inr (List.mem_cons_of_mem _ kept)

/-- **A sorted list without repeats ascends**, and stays above the handle that came before. -/
theorem pairwise_withoutRepeats (last : Option Handle) {nodes : List Handle}
    (sorted : nodes.Pairwise (· ≤ ·)) (above : ∀ before ∈ last, ∀ node ∈ nodes, before ≤ node) :
    (withoutRepeats last nodes).Pairwise (· < ·) ∧
      ∀ before ∈ last, ∀ node ∈ withoutRepeats last nodes, before < node := by
  induction nodes generalizing last with
  | nil => exact ⟨List.Pairwise.nil, fun _ _ _ kept => by cases kept⟩
  | cons first rest ih =>
    obtain ⟨least, sortedRest⟩ := List.pairwise_cons.mp sorted
    rw [withoutRepeats]
    split
    · exact ih last sortedRest fun before came node member =>
        above before came node (List.mem_cons_of_mem _ member)
    · rename_i other
      obtain ⟨ascends, higher⟩ := ih (some first) sortedRest fun before came node member => by
        cases came
        exact least node member
      refine ⟨List.pairwise_cons.mpr ⟨higher first rfl, ascends⟩, fun before came node kept => ?_⟩
      have lower : before < first := by
        have bound := above before came first List.mem_cons_self
        have different : before ≠ first := fun equal => other (equal ▸ came.symm)
        exact Nat.lt_of_le_of_ne bound different
      rcases List.mem_cons.mp kept with rfl | kept
      · exact lower
      · exact Nat.lt_trans lower (higher first rfl node kept)

/-- **A sorted list without repeats** has the handles of the list, each once and ascending. -/
theorem withoutRepeats_sort (nodes : List Handle) :
    withoutRepeats none (nodes.mergeSort (· ≤ ·)) = ascending nodes := by
  refine eq_ascending (pairwise_withoutRepeats none (pairwise_sort nodes) ?_).1 fun node => ?_
  · rintro before ⟨⟩
  · rw [← (List.mergeSort_perm nodes (· ≤ ·)).mem_iff]
    refine ⟨mem_of_mem_withoutRepeats, fun member => ?_⟩
    exact (mem_withoutRepeats none member).resolve_left (Option.some_ne_none node)

/-! ### Counting -/

/-- Counting the changes in a list counts what is kept of it: a handle that comes behind an equal
one is skipped, and the one kept last is always the one just before. -/
theorem changes_cons (first : Handle) (rest : List Handle) :
    Buffer.changes (first :: rest) = (withoutRepeats (some first) rest).length + 1 := by
  induction rest generalizing first with
  | nil => rfl
  | cons second rest ih =>
    rw [Buffer.changes, ih, withoutRepeats]
    by_cases same : first = second
    · rw [if_pos same, if_pos (congrArg some same.symm), same, Nat.zero_add]
    · have other : ¬ some second = some first := fun equal => same (Option.some.inj equal).symm
      rw [if_neg same, if_neg other, List.length_cons, Nat.add_comm]

/-- **The two tests for repeats agree**: neighbours are counted as different exactly where a replay
does not skip. -/
theorem changes_eq_length (nodes : List Handle) :
    Buffer.changes nodes = (withoutRepeats none nodes).length := by
  cases nodes with
  | nil => rfl
  | cons first rest => rw [changes_cons, withoutRepeats, if_neg (Option.some_ne_none first),
      List.length_cons]

/-! ### Replaying -/

namespace Replay

/-- What a replay yields from here on. -/
def ahead (replay : Replay) : Outlook :=
  if replay.progress.start.isNone then .failed .unboundFilter
  else ⟨withoutRepeats replay.last (replay.buffer.toList.drop replay.current), none⟩

/-- Seeking from an index on finds the first handle that differs from the last one. -/
theorem seek_eq (buffer : Buffer) (last : Option Handle) (left current : Nat)
    (counted : left = buffer.size - current) :
    ∃ found behind, seek buffer last left current = .ok (found, behind) ∧
      withoutRepeats last (buffer.toList.drop current) =
        found.toList ++ withoutRepeats (found <|> last) (buffer.toList.drop behind) ∧
      (found = none → buffer.size ≤ behind) := by
  induction left generalizing current with
  | zero => exact ⟨none, current, rfl, rfl, fun _ => by omega⟩
  | succ left ih =>
    have inside : current < buffer.toList.length := by
      rw [Buffer.length_toList]
      omega
    have got : buffer.get current = .ok buffer.toList[current] := by
      rw [Buffer.get, ← Array.getElem?_toList, ← Buffer.toList, List.getElem?_eq_getElem inside]
    rw [List.drop_eq_getElem_cons inside, withoutRepeats, seek, got]
    by_cases same : some buffer.toList[current] = last
    · obtain ⟨found, behind, sought, kept, ended⟩ := ih (current + 1) (by omega)
      rw [if_pos same]
      refine ⟨found, behind, ?_, kept, ended⟩
      show (if some buffer.toList[current] = last then _ else _) = _
      rw [if_pos same, sought]
    · rw [if_neg same]
      refine ⟨some buffer.toList[current], current + 1, ?_, rfl, ?_⟩
      · show (if some buffer.toList[current] = last then _ else _) = _
        rw [if_neg same]
        rfl
      · rintro ⟨⟩

theorem ahead_of_start {replay : Replay} {start : Handle}
    (bound : replay.progress.start = some start) :
    replay.ahead =
      ⟨withoutRepeats replay.last (replay.buffer.toList.drop replay.current), none⟩ := by
  rw [ahead, bound]
  rfl

/-- **A replay yields what is left of its buffer**, reduced and without the handle yielded last. -/
theorem next_foresees (replay : Replay) :
    Outlook.Foresees (fun (rest : Replay) outlook => rest.ahead = outlook) replay.ahead
      replay.next := by
  cases bound : replay.progress.start with
  | none =>
    rw [ahead, next, bound]
    exact .fault
  | some start =>
    obtain ⟨found, behind, sought, kept, ended⟩ := seek_eq replay.buffer replay.last
      (replay.buffer.size - replay.current) replay.current rfl
    have still : (replay.progress.count found).start = some start := by
      rw [Progress.start_count, bound]
    rw [ahead_of_start bound, next, bound, sought, kept]
    cases found with
    | none =>
      have nothing : replay.buffer.toList.drop behind = [] := List.drop_eq_nil_of_le (ended rfl)
      rw [nothing]
      refine .done ((ahead_of_start (by exact still)).trans ?_)
      exact congrArg (fun rest => Outlook.mk (withoutRepeats replay.last rest) none) nothing
    | some node => exact .node (ahead_of_start still)

/-- A replay that has a start node can be advanced, and keeps its start node and its buffer. -/
theorem exists_next {replay : Replay} {start : Handle}
    (bound : replay.progress.start = some start) :
    ∃ found after, replay.next = .ok (found, after) ∧ after.progress.start = some start ∧
      after.buffer = replay.buffer := by
  obtain ⟨found, current, sought, _⟩ := seek_eq replay.buffer replay.last
    (replay.buffer.size - replay.current) replay.current rfl
  rw [next, bound, sought]
  exact ⟨found, _, rfl, (Progress.start_count _ _).trans bound, rfl⟩

/-- No more handles are left than the reach of the replay. -/
theorem length_ahead_le_reach (replay : Replay) : replay.ahead.nodes.length ≤ replay.reach := by
  rw [ahead]
  split
  · exact Nat.zero_le _
  · refine Nat.le_trans (length_withoutRepeats_le _ _) (Nat.le_of_eq ?_)
    rw [List.length_drop, Buffer.length_toList]
    rfl

end Replay

end XPathWalk

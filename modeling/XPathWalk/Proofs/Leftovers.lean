/-
**What is left of node sets that were read.**

A node set always has the end of its contents ahead of it. So where some node sets are read on while
everything around them begins again, no node comes out of order, and none is missing exactly if each
of these node sets still has all of its contents ahead.

* `withoutRepeats_drop_suffix`: reducing the rest of a list gives the rest of the reduced list;
* `Replay.ahead_suffix`: a replay has the end of its contents ahead of it;
* `Remains`: a part of a sequence that is the whole of it under this condition.
-/

import XPathWalk.Proofs.Contents

namespace XPathWalk

/-! ### Repeats in the rest of a list -/

/-- Skipping the handle that came before drops the first of the others or none of them. -/
theorem withoutRepeats_suffix (last : Option Handle) (nodes : List Handle) :
    withoutRepeats last nodes <:+ withoutRepeats none nodes := by
  cases nodes with
  | nil => exact List.suffix_rfl
  | cons node rest =>
    rw [withoutRepeats, withoutRepeats, if_neg (Option.some_ne_none node)]
    split
    · rename_i same
      rw [← same]
      exact List.suffix_cons _ _
    · exact List.suffix_rfl

theorem withoutRepeats_tail_suffix (node : Handle) (rest : List Handle) :
    withoutRepeats none rest <:+ withoutRepeats none (node :: rest) := by
  rw [withoutRepeats, if_neg (Option.some_ne_none node)]
  cases rest with
  | nil => exact List.nil_suffix
  | cons next others =>
    rw [withoutRepeats, withoutRepeats, if_neg (Option.some_ne_none next)]
    split
    · rename_i same
      cases same
      exact List.suffix_rfl
    · exact List.suffix_cons _ _

theorem withoutRepeats_drop_suffix (count : Nat) (nodes : List Handle) :
    withoutRepeats none (nodes.drop count) <:+ withoutRepeats none nodes := by
  induction nodes generalizing count with
  | nil => cases count <;> exact List.suffix_rfl
  | cons node rest ih =>
    cases count with
    | zero => exact List.suffix_rfl
    | succ count => exact (ih count).trans (withoutRepeats_tail_suffix node rest)

/-- **A replay has the end of its contents ahead of it.** -/
theorem Replay.ahead_suffix (replay : Replay) :
    replay.ahead.nodes <:+ replay.contents.nodes ∧ replay.ahead.fault = replay.contents.fault := by
  cases bound : replay.progress.start with
  | none =>
    rw [ahead, contents, bound]
    exact ⟨List.suffix_rfl, rfl⟩
  | some start =>
    rw [ahead_of_start bound, contents, bound]
    exact ⟨(withoutRepeats_suffix _ _).trans (withoutRepeats_drop_suffix _ _), rfl⟩

/-! ### Parts of sequences -/

/-- Two lists with parts left out make up the whole lists only if nothing is left out of either. -/
theorem append_eq_append_iff_of_sublist {first second whole more : List Handle}
    (here : first.Sublist whole) (later : second.Sublist more) :
    first ++ second = whole ++ more ↔ first = whole ∧ second = more := by
  constructor
  · intro same
    have counted := congrArg List.length same
    rw [List.length_append, List.length_append] at counted
    have shorter := here.length_le
    have fewer := later.length_le
    exact ⟨here.eq_of_length (by omega), later.eq_of_length (by omega)⟩
  · rintro ⟨rfl, rfl⟩
    rfl

/-- What remains of a whole sequence when some node sets are read on: nodes of it in order, and all
of them exactly if each of these node sets has all of its contents ahead of it. -/
structure Remains (left whole : List Handle) (sets : List NodeIterator) : Prop where
  sublist : left.Sublist whole
  eq_iff : left = whole ↔ ∀ set ∈ sets, set.ahead = set.contents

theorem remains_self (nodes : List Handle) : Remains nodes nodes [] :=
  ⟨List.Sublist.refl nodes, fun _ _ member => absurd member List.not_mem_nil, fun _ => rfl⟩

theorem Remains.append {left whole more rest : List Handle} {sets others : List NodeIterator}
    (first : Remains left whole sets) (second : Remains rest more others) :
    Remains (left ++ rest) (whole ++ more) (sets ++ others) := by
  refine ⟨first.sublist.append second.sublist, ?_⟩
  rw [append_eq_append_iff_of_sublist first.sublist second.sublist, first.eq_iff, second.eq_iff,
    List.forall_mem_append]

/-- What remains of the contents of a node set when it is read on. -/
theorem remains_replay {whole : List Handle} (source : NodeIterator) {replay : Replay}
    (contents : replay.contents = ⟨whole, none⟩) :
    Remains replay.ahead.nodes whole [.nodeSet source replay] := by
  obtain ⟨suffix, faultless⟩ := replay.ahead_suffix
  rw [contents] at suffix faultless
  refine ⟨suffix.sublist, ?_⟩
  rw [List.forall_mem_singleton]
  show replay.ahead.nodes = whole ↔ replay.ahead = replay.contents
  have known : replay.ahead = ⟨replay.ahead.nodes, none⟩ :=
    congrArg (Outlook.mk replay.ahead.nodes) faultless
  rw [contents]
  exact ⟨fun same => known.trans (congrArg (Outlook.mk · none) same), congrArg Outlook.nodes⟩

end XPathWalk

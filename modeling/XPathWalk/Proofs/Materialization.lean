/-
**A node set holds the whole sequence of its source, whatever was done to the source before.**

A source may ignore the start node that it is handed, each of its levels on its own account, and
then stays where it stood. The rewinding that follows takes every level to its beginning. So what a
node set is filled with hangs on the bare form of its source, which no move changes.

* `NodeIterator.refill`: rewinding and draining, as a node set does with its source;
* `Alike`: iterators that differ only in where they stand and in what they have saved;
* `Alike.bind`, `Alike.bindEach`: they take start nodes alike, at any depth;
* `fill_of_heeded`: a node set that takes a start node yields what its source has there;
* `fill_of_moved`: make a node set over a reachable source, and another over what moves in a row
  have made of that source. The same start nodes in a row give both the same buffers, or lead both
  into the same fault. Whatever was called on either of them since, when it takes a start node it
  yields, in ascending order and each once, the handles that its source, told this node, has from
  the beginning.
-/

import XPathWalk.Proofs.Returns
import XPathWalk.Proofs.Runs
import XPathWalk.Proofs.WholeSequence

namespace XPathWalk

namespace NodeIterator

/-! ### Definitions -/

/-- Takes start nodes in a row. -/
def bindEach (iterator : NodeIterator) : List Handle → Except Fault NodeIterator
  | [] => .ok iterator
  | node :: rest => do
    let bound ← iterator.bind node
    bound.value.bindEach rest

/-- Makes moves in a row. -/
def performAll (iterator : NodeIterator) : List Move → Except Fault NodeIterator
  | [] => .ok iterator
  | move :: rest => do
    let (_, after) ← iterator.perform move
    after.performAll rest

/-- The buffer of a node set. Nothing else has one. -/
def buffered : NodeIterator → List Handle
  | .nodeSet _ replay => replay.buffer.toList
  | _ => []

/-- All nodes from the first on, and the iterator behind them. -/
def refill (iterator : NodeIterator) : Except Fault (List Handle × NodeIterator) := do
  (← iterator.rewind).drain

/-- Sound iterators that differ only in where they stand and in what they have saved. -/
structure Alike (iterator other : NodeIterator) : Prop where
  sound : iterator.Sound
  soundOther : other.Sound
  same : iterator.bare = other.bare

variable {iterator other : NodeIterator}

/-! ### Filling -/

/-- The whole sequence is what an iterator is refilled with. -/
theorem whole_eq_refill (iterator : NodeIterator) :
    iterator.whole = iterator.refill.map Prod.fst := by
  unfold whole refill
  cases iterator.rewind with
  | error fault => rfl
  | ok rewound =>
    show (rewound.drain >>= _) = Except.map _ rewound.drain
    cases rewound.drain <;> rfl

/-- What an iterator is refilled with is told by its contents. -/
theorem refill_eq (sound : iterator.Sound) :
    iterator.refill.map (fun answer => (answer.1, answer.2.bare)) =
      iterator.contents.list.map fun nodes => (nodes, iterator.bare) := by
  obtain ⟨rewound, begun, seen⟩ := rewind_sees sound
  unfold refill Outlook.list
  rw [begun, ok_bind]
  rcases drain_of_sees seen with ⟨rest, whole, drained, _⟩ | ⟨failure, behind, failed⟩
  · rw [drained, whole]
    show Except.ok (iterator.contents.nodes, rest.bare) = .ok (_, iterator.bare)
    rw [bare_drain drained, bare_rewind begun]
  · rw [failed, behind]
    rfl

theorem Alike.refill (alike : iterator.Alike other) :
    iterator.refill.map (fun answer => (answer.1, answer.2.bare)) =
      other.refill.map fun answer => (answer.1, answer.2.bare) := by
  rw [refill_eq alike.sound, refill_eq alike.soundOther, alike.same,
    contents_eq_of_bare alike.same]

/-- A node set that takes a start node refills its buffer from its source there. -/
theorem bind_eq_refill {source : NodeIterator} {replay : Replay} {node : Handle}
    (heeded : ignoredStart? source replay node = none) :
    (nodeSet source replay).bind node = source.bind node >>= fun told =>
      told.value.refill >>= fun answer =>
        .ok { value := .nodeSet answer.2 (replay.load node answer.1)
              log := told.log ++ [(replay.load node answer.1).materialized node] } := by
  rw [NodeIterator.bind, heeded]
  unfold NodeIterator.refill
  cases source.bind node with
  | error fault => rfl
  | ok told =>
    show (told.value.rewind >>= _) = (told.value.rewind >>= _) >>= _
    cases told.value.rewind <;> rfl

/-! ### The bare form -/

theorem bare_bare (iterator : NodeIterator) : iterator.bare.bare = iterator.bare := by
  induction iterator with
  | axis walk => rfl
  | fixed list => rfl
  | union branches place ih =>
    have same : branches.map (bare ∘ bare) = branches.map bare := List.map_congr_left ih
    rw [bare, bare, bareAll_eq_map, bareAll_eq_map, List.map_map, same]
    rfl
  | nodeSet source replay ih =>
    rw [bare, bare, ih, Buffer.copy, Buffer.copy, Buffer.toList_ofList]
    rfl

theorem Sound.bare (sound : iterator.Sound) : iterator.bare.Sound := by
  induction iterator with
  | axis walk =>
    obtain ⟨linked, _, _, start, _⟩ := sound.walk
    refine .axis ⟨linked, trivial, ?_, start, fun _ => ⟨rfl, ?_⟩⟩
    · rintro saved ⟨⟩
    · rintro saved ⟨⟩
  | fixed list => exact .fixed
  | union branches place ih =>
    refine .union fun branch member => ?_
    rw [bareAll_eq_map] at member
    obtain ⟨before, within, rfl⟩ := List.mem_map.mp member
    exact ih before within (sound.branches before within)
  | nodeSet source replay ih => exact .nodeSet (ih sound.source)

/-- What binding shows of an iterator that forgets where it stands. -/
def boundForm (bound : Logged NodeIterator) : NodeIterator × List LogEvent :=
  (bound.value.bare, bound.log)

theorem bindAll_bareAll {branches : List NodeIterator} {node : Handle}
    (each : ∀ branch ∈ branches,
      (branch.bare.bind node).map boundForm = (branch.bind node).map boundForm) :
    (bindAll node (bareAll branches)).map (fun bound => (bareAll bound.value, bound.log)) =
      (bindAll node branches).map fun bound => (bareAll bound.value, bound.log) := by
  induction branches with
  | nil => rfl
  | cons branch rest ih =>
    obtain ⟨first, others⟩ := List.forall_mem_cons.mp each
    refine map_bind_congr first fun here there _ _ same => ?_
    refine map_bind_congr (ih others) fun later laterOther _ _ sameLater => ?_
    injection same with form log
    injection sameLater with formLater logLater
    show Except.ok (here.value.bare :: bareAll later.value, here.log ++ later.log) =
      Except.ok (there.value.bare :: bareAll laterOther.value, there.log ++ laterOther.log)
    rw [form, log, formLater, logLater]

theorem ignoredStart_bare (source : NodeIterator) (replay : Replay) (node : Handle) :
    ignoredStart? source.bare
        { progress := replay.progress.rewind, buffer := replay.buffer.copy } node =
      ignoredStart? source replay node := by
  unfold ignoredStart?
  rw [dependence_bare]
  rfl

/-- Node sets take a start node as their bare forms do if their sources do. -/
theorem bind_bare_nodeSet {source : NodeIterator} {replay : Replay} {node : Handle}
    (sound : source.Sound)
    (told : (source.bare.bind node).map boundForm = (source.bind node).map boundForm) :
    ((nodeSet source replay).bare.bind node).map boundForm =
      ((nodeSet source replay).bind node).map boundForm := by
  have ignored := ignoredStart_bare source replay node
  cases heeded : ignoredStart? source replay node with
  | some reason =>
    rw [NodeIterator.bare, NodeIterator.bind, NodeIterator.bind, ignored, heeded]
    exact congrArg (fun form => Except.ok (form, [LogEvent.startIgnored reason node]))
      (bare_bare (.nodeSet source replay))
  | none =>
    -- Both sources are told the node and refilled, which nothing sees of where they stood.
    rw [NodeIterator.bare, bind_eq_refill (ignored.trans heeded), bind_eq_refill heeded]
    refine map_bind_congr told fun bound boundOther here there same => ?_
    injection same with form log
    have alike : bound.value.Alike boundOther.value :=
      ⟨sound.bare.bind here, sound.bind there, form⟩
    refine map_bind_congr alike.refill fun answer answerOther _ _ same => ?_
    obtain ⟨handles, drained⟩ := answer
    injection same with handles form
    subst handles
    show Except.ok (NodeIterator.nodeSet drained.bare _, bound.log ++ _) =
      Except.ok (NodeIterator.nodeSet answerOther.2.bare _, boundOther.log ++ _)
    rw [form, log]
    rfl

/-- **The bare form of an iterator takes a start node as the iterator does.** -/
theorem bind_bare (sound : iterator.Sound) (node : Handle) :
    (iterator.bare.bind node).map boundForm = (iterator.bind node).map boundForm := by
  induction iterator with
  | axis walk =>
    have accepts : walk.progress.rewind.accepts node = walk.progress.accepts node := rfl
    rw [NodeIterator.bare, NodeIterator.bind, NodeIterator.bind, AxisWalk.bind, AxisWalk.bind,
      accepts]
    split
    · cases Cursor.start walk.tree walk.axis node <;> rfl
    · rfl
  | fixed list =>
    have accepts : list.place.progress.rewind.accepts node = list.place.progress.accepts node := rfl
    rw [NodeIterator.bare, NodeIterator.bind, NodeIterator.bind, FixedList.bind, FixedList.bind,
      accepts]
    split <;> rfl
  | union branches place ih =>
    have accepts : place.progress.rewind.accepts node = place.progress.accepts node := rfl
    rw [NodeIterator.bare, NodeIterator.bind, NodeIterator.bind, accepts]
    split
    · have each := bindAll_bareAll fun branch member =>
        ih branch member (sound.branches branch member)
      refine map_bind_congr each fun here there _ _ same => ?_
      injection same with forms log
      show Except.ok (NodeIterator.union (bareAll here.value) _, here.log) =
        Except.ok (NodeIterator.union (bareAll there.value) _, there.log)
      rw [forms, log]
      rfl
    · exact congrArg (fun form => Except.ok (form, [])) (bare_bare (.union branches place))
  | nodeSet source replay ih => exact bind_bare_nodeSet sound.source (ih sound.source)

/-! ### Iterators that are alike -/

/-- **Alike iterators take a start node alike**, down to what is logged, or both meet one fault. -/
theorem Alike.bind (alike : iterator.Alike other) (node : Handle) :
    (iterator.bind node).map boundForm = (other.bind node).map boundForm := by
  rw [← bind_bare alike.sound, alike.same, bind_bare alike.soundOther]

/-- Node sets over alike sources are alike, also where they are filled when they are made. -/
theorem Alike.toNodeSet (alike : iterator.Alike other) :
    iterator.toNodeSet.map boundForm = other.toNodeSet.map boundForm := by
  have fresh : (nodeSet iterator {}).Alike (.nodeSet other {}) := by
    refine ⟨.nodeSet alike.sound, .nodeSet alike.soundOther, ?_⟩
    rw [NodeIterator.bare, NodeIterator.bare, alike.same]
  have hangs : iterator.dependence = other.dependence := by
    rw [← dependence_bare, alike.same, dependence_bare]
  unfold NodeIterator.toNodeSet
  rw [hangs]
  cases other.dependence with
  | independent => exact fresh.bind Handle.root
  | startNode => exact congrArg (fun form => Except.ok (form, [])) fresh.same

/-- The buffer of a node set can be told from its bare form. -/
theorem buffered_bare (iterator : NodeIterator) : iterator.bare.buffered = iterator.buffered := by
  cases iterator with
  | axis walk => rfl
  | fixed list => rfl
  | union branches place => rfl
  | nodeSet source replay => exact Buffer.toList_copy replay.buffer

/-- Alike iterators have the same buffers after the same start nodes. -/
theorem Alike.bindEach (alike : iterator.Alike other) (nodes : List Handle) :
    (iterator.bindEach nodes).map buffered = (other.bindEach nodes).map buffered := by
  induction nodes generalizing iterator other with
  | nil =>
    have same : iterator.buffered = other.buffered := by
      rw [← buffered_bare, alike.same, buffered_bare]
    exact congrArg Except.ok same
  | cons node rest ih =>
    refine map_bind_congr (alike.bind node) fun here there taken takenOther same => ?_
    exact ih ⟨alike.sound.bind taken, alike.soundOther.bind takenOther, congrArg Prod.fst same⟩

/-- **Node sets over alike sources have the same buffers** after the same start nodes. -/
theorem Alike.buffers (alike : iterator.Alike other) (nodes : List Handle) :
    (iterator.toNodeSet >>= fun set => set.value.bindEach nodes).map buffered =
      (other.toNodeSet >>= fun set => set.value.bindEach nodes).map buffered := by
  refine map_bind_congr alike.toNodeSet fun set setOther made madeOther same => ?_
  have forms : set.value.Alike setOther.value :=
    ⟨alike.sound.toNodeSet made, alike.soundOther.toNodeSet madeOther, congrArg Prod.fst same⟩
  exact forms.bindEach nodes

/-! ### Moving -/

theorem Alike.trans {third : NodeIterator} (alike : iterator.Alike other)
    (more : other.Alike third) : iterator.Alike third :=
  ⟨alike.sound, more.soundOther, alike.same.trans more.same⟩

/-- An iterator is alike to what a move makes of it. -/
theorem Sound.alike_perform {move : Move} {answer : Option (Option Handle)}
    (sound : iterator.Sound) (performed : iterator.perform move = .ok (answer, other)) :
    iterator.Alike other := by
  cases move with
  | next =>
    obtain ⟨_, advanced, done⟩ := exists_of_bind_ok performed
    cases done
    exact ⟨sound, sound.next advanced, (bare_next advanced).symm⟩
  | rewind =>
    obtain ⟨_, rewound, done⟩ := exists_of_bind_ok performed
    cases done
    exact ⟨sound, sound.rewind rewound, (bare_rewind rewound).symm⟩
  | mark =>
    cases performed
    exact ⟨sound, sound.setMark, (bare_setMark iterator).symm⟩
  | restore =>
    cases performed
    exact ⟨sound, sound.restore, (bare_restore iterator).symm⟩

/-- An iterator is alike to what moves in a row make of it. -/
theorem Sound.alike_performAll {moves : List Move} (sound : iterator.Sound)
    (performed : iterator.performAll moves = .ok other) : iterator.Alike other := by
  induction moves generalizing iterator with
  | nil =>
    cases performed
    exact ⟨sound, sound, rfl⟩
  | cons move rest ih =>
    obtain ⟨⟨_, after⟩, here, later⟩ := exists_of_bind_ok performed
    have moved := sound.alike_perform here
    exact moved.trans (ih moved.soundOther later)

/-! ### What a node set yields -/

/-- What a node set yields whose buffer was just loaded. -/
theorem ahead_load (replay : Replay) (node : Handle) (handles : List Handle) :
    (replay.load node handles).ahead = ⟨ascending handles, none⟩ := by
  have begun : (replay.load node handles).progress.start = some node := rfl
  rw [Replay.ahead_of_start begun, Replay.toList_load]
  exact congrArg (fun nodes => Outlook.mk nodes none) (withoutRepeats_sort handles)

/-- **A node set that takes a start node yields what its source has there**: the whole sequence of
the source once it was told the node, in ascending order and each handle once. If there is a fault
on the way to the end of that sequence, the node set meets the same one. -/
theorem fill_of_heeded {source : NodeIterator} {replay : Replay} {node : Handle}
    (sound : source.Sound) (heeded : ignoredStart? source replay node = none) :
    (∃ told handles bound rest, source.bind node = .ok told ∧ told.value.whole = .ok handles ∧
      (nodeSet source replay).bind node = .ok bound ∧
      bound.value.drain = .ok (ascending handles, rest)) ∨
    ∃ fault, (source.bind node >>= fun told => told.value.whole) = .error fault ∧
      (nodeSet source replay).bind node = .error fault := by
  have step := bind_eq_refill heeded
  cases taken : source.bind node with
  | error fault =>
    rw [taken] at step
    exact .inr ⟨fault, rfl, step⟩
  | ok told =>
    have whole := whole_eq_refill told.value
    rw [taken, ok_bind] at step
    cases filled : told.value.refill with
    | error fault =>
      rw [filled] at whole step
      exact .inr ⟨fault, whole, step⟩
    | ok answer =>
      obtain ⟨handles, drained⟩ := answer
      rw [filled] at whole step
      have seen : (nodeSet drained (replay.load node handles)).Sees ⟨ascending handles, none⟩ := by
        obtain ⟨rewound, begun, all⟩ := exists_of_bind_ok filled
        have left := (ahead_of_drain ((sound.bind taken).rewind begun) all).2
        exact ⟨.nodeSet left, ahead_load replay node handles⟩
      obtain ⟨rest, yielded, _⟩ := drain_complete seen
      exact .inl ⟨told, handles, _, rest, rfl, whole, step, yielded⟩

/-! ### Sources that were moved -/

/-- **A node set holds the whole sequence of its source, whatever was done to the source before.**
The same start nodes give the same buffers, or the same fault, over the source and what moves made
of it. -/
theorem fill_of_moved {source moved : NodeIterator} {moves : List Move}
    (reachable : Reachable source) (performed : source.performAll moves = .ok moved) :
    (∀ nodes, (source.toNodeSet >>= fun set => set.value.bindEach nodes).map buffered =
      (moved.toNodeSet >>= fun set => set.value.bindEach nodes).map buffered) ∧
    ∀ set, source.toNodeSet = .ok set ∨ moved.toNodeSet = .ok set →
      ∀ part replay, set.value.Run (.nodeSet part replay) →
      ∀ node, ignoredStart? part replay node = none →
        (∃ told handles bound list rest, part.bind node = .ok told ∧
          told.value.whole = .ok handles ∧ (nodeSet part replay).bind node = .ok bound ∧
          bound.value.drain = .ok (list, rest) ∧ list.Pairwise (· < ·) ∧
          ∀ handle, handle ∈ list ↔ handle ∈ handles) ∨
        ∃ fault, (part.bind node >>= fun told => told.value.whole) = .error fault ∧
          (nodeSet part replay).bind node = .error fault := by
  have alike := reachable.sound.alike_performAll performed
  refine ⟨alike.buffers, fun set made part replay run node heeded => ?_⟩
  have sound : set.value.Sound := by
    rcases made with made | made
    · exact alike.sound.toNodeSet made
    · exact alike.soundOther.toNodeSet made
  rcases fill_of_heeded (sound.run run).source heeded with
    ⟨told, handles, bound, rest, taken, whole, filled, yielded⟩ | failed
  · exact .inl ⟨told, handles, bound, ascending handles, rest, taken, whole, filled, yielded,
      pairwise_ascending handles, fun _ => mem_ascending⟩
  · exact .inr failed

/-- A list is read to the middle, and ignores the start node that it has already. The node set over
it still holds all of its handles. -/
theorem fill_of_moved_list :
    ∃ source moved after list rest,
      (ofList [5, 3, 3, 7]).bind Handle.root = .ok source ∧
      source.value.performAll [.next, .mark, .next] = .ok moved ∧
      (source.value.toNodeSet >>= fun set => set.value.bindEach [Handle.root, 2]).map buffered =
        (moved.toNodeSet >>= fun set => set.value.bindEach [Handle.root, 2]).map buffered ∧
      (nodeSet moved {}).bind Handle.root = .ok after ∧ after.value.drain = .ok (list, rest) ∧
      list.Pairwise (· < ·) ∧ ∀ handle, handle ∈ list ↔ handle ∈ [5, 3, 3, 7] := by
  have taken : (ofList [5, 3, 3, 7]).bind Handle.root = .ok
      { value := .fixed
          { nodes := #[5, 3, 3, 7], place := { progress := { start := some Handle.root } } } } := rfl
  have moved : performAll (.fixed
      { nodes := #[5, 3, 3, 7], place := { progress := { start := some Handle.root } } })
      [.next, .mark, .next] = .ok (.fixed
        { nodes := #[5, 3, 3, 7]
          place :=
            { progress := { start := some Handle.root, position := 2 }
              current := 2
              mark := (1, 1) } }) := rfl
  obtain ⟨same, filled⟩ := fill_of_moved (.bind (.ofList [5, 3, 3, 7]) taken) moved
  obtain ⟨told, handles, after, list, rest, again, whole, bound, drained, sorted, members⟩ |
    ⟨fault, failed, _⟩ := filled _ (.inr rfl) _ _ .refl Handle.root rfl
  · cases again
    cases whole
    exact ⟨_, _, after, list, rest, taken, moved, same _, bound, drained, sorted, members⟩
  · cases failed

end NodeIterator

end XPathWalk

/-
**Every iterator is a cursor over a list.**

Between two bindings an iterator of any make, however deeply composed, cannot be told from an index
into a plain list: the list that it yields after rewinding. The proof relates each state of the
iterator to a state of the list cursor and shows that every move keeps them related.

* `Move`: the calls that move an iterator or save its place;
* `ListCursor`: an index into a list and a saved index;
* `NodeIterator.Tracks`: the relation, which `tracks_perform` carries over one move;
* `observe_eq_listCursor`: whatever is asked in any order behind a rewinding, the answers and
  positions are those of the list cursor.
-/

import XPathWalk.Proofs.Marks
import XPathWalk.Proofs.Reachable

namespace XPathWalk

/-- A call that moves an iterator or saves its place. -/
inductive Move where
  | next
  | rewind
  | mark
  | restore
  deriving DecidableEq, Repr

/-- What a caller sees of a move: the answer, if it was a call for the next node, and the position
afterwards. -/
structure Observation where
  answer : Option (Option Handle)
  position : Nat
  deriving DecidableEq, Repr

/-- An index into a list and a saved index. -/
structure ListCursor where
  index : Nat := 0
  saved : Nat := 0
  deriving DecidableEq, Repr

namespace ListCursor

/-- A move of a list cursor, and its answer. -/
def perform (items : List Handle) (cursor : ListCursor) : Move → Option (Option Handle) × ListCursor
  | .next =>
    match items[cursor.index]? with
    | none => (some none, cursor)
    | some node => (some (some node), { cursor with index := cursor.index + 1 })
  | .rewind => (none, { cursor with index := 0 })
  | .mark => (none, { cursor with saved := cursor.index })
  | .restore => (none, { cursor with index := cursor.saved })

/-- What moves in a row show of a list cursor. -/
def observe (items : List Handle) (cursor : ListCursor) : List Move → List Observation
  | [] => []
  | move :: rest =>
    let (answer, cursor) := cursor.perform items move
    ⟨answer, cursor.index⟩ :: observe items cursor rest

end ListCursor

namespace NodeIterator

/-- A move of an iterator, and its answer. -/
def perform (iterator : NodeIterator) :
    Move → Except Fault (Option (Option Handle) × NodeIterator)
  | .next => do
    let (found, iterator) ← iterator.next
    return (some found, iterator)
  | .rewind => return (none, ← iterator.rewind)
  | .mark => .ok (none, iterator.setMark)
  | .restore => .ok (none, iterator.restore)

/-- What moves in a row show of an iterator. -/
def observe (iterator : NodeIterator) : List Move → Except Fault (List Observation)
  | [] => .ok []
  | move :: rest => do
    let (answer, iterator) ← iterator.perform move
    let others ← observe iterator rest
    return ⟨answer, iterator.progress.position⟩ :: others

/-! ### The relation to a list cursor -/

/-- An iterator stands at an index of the list that it yields from the beginning. -/
structure At (items : List Handle) (iterator : NodeIterator) (index : Nat) : Prop where
  sound : iterator.Sound
  contents : iterator.contents = ⟨items, none⟩
  ahead : iterator.ahead = ⟨items.drop index, none⟩
  position : iterator.progress.position = index

/-- An iterator stands where a list cursor stands and, once a place was saved, has saved the place
that the list cursor has saved. -/
structure Tracks (items : List Handle) (saved : Bool) (iterator : NodeIterator)
    (cursor : ListCursor) : Prop where
  here : iterator.At items cursor.index
  place : saved → iterator.Marked ∧ iterator.restore.At items cursor.saved

variable {items : List Handle} {iterator : NodeIterator} {cursor : ListCursor} {saved : Bool}

/-- Saving the place where an iterator stands does not move it. -/
theorem At.setMark {index : Nat} (here : iterator.At items index) :
    iterator.setMark.At items index where
  sound := here.sound.setMark
  contents := (contents_eq_of_bare (bare_setMark iterator)).trans here.contents
  ahead := iterator.ahead_setMark.trans here.ahead
  position := (congrArg Progress.position iterator.progress_setMark).trans here.position

/-- Advancing goes on to where the position says. -/
theorem At.after {index behind : Nat} {found : Option Handle} {rest : NodeIterator}
    (here : iterator.At items index) (step : iterator.next = .ok (found, rest))
    (seen : rest.Sees ⟨items.drop behind, none⟩)
    (counted : (iterator.progress.count found).position = behind) : rest.At items behind where
  sound := seen.sound
  contents := (contents_eq_of_bare (bare_next step)).trans here.contents
  ahead := seen.ahead
  position := (congrArg Progress.position (progress_next step)).trans counted

/-- The next node is the one at the index. -/
theorem At.next_some {index : Nat} {node : Handle} (here : iterator.At items index)
    (entry : items[index]? = some node) :
    ∃ rest, iterator.next = .ok (some node, rest) ∧ rest.At items (index + 1) := by
  have step := next_foresees here.sound
  rw [here.ahead, List.drop_eq_getElem?_toList_append, entry] at step
  cases result : iterator.next with
  | error fault => rw [result] at step; cases step
  | ok answer =>
    rw [result] at step
    cases step with
    | node seen =>
      refine ⟨_, rfl, here.after result seen ?_⟩
      exact congrArg (· + 1) here.position

/-- Behind the last node there is none. -/
theorem At.next_none {index : Nat} (here : iterator.At items index)
    (entry : items[index]? = none) :
    ∃ rest, iterator.next = .ok (none, rest) ∧ rest.At items index := by
  have nothing : items.drop index = [] :=
    List.drop_eq_nil_of_le (List.getElem?_eq_none_iff.mp entry)
  have step := next_foresees here.sound
  rw [here.ahead, nothing] at step
  cases result : iterator.next with
  | error fault => rw [result] at step; cases step
  | ok answer =>
    rw [result] at step
    cases step with
    | done seen =>
      refine ⟨_, rfl, here.after result ?_ here.position⟩
      rw [nothing]
      exact seen

/-- Rewinding goes to index 0. -/
theorem At.rewind {index : Nat} (here : iterator.At items index) :
    ∃ rewound, iterator.rewind = .ok rewound ∧ rewound.At items 0 := by
  obtain ⟨rewound, step, seen⟩ := rewind_sees here.sound
  refine ⟨rewound, step, seen.sound, ?_, seen.ahead.trans here.contents, ?_⟩
  · exact (contents_eq_of_bare (bare_rewind step)).trans here.contents
  · exact position_rewind here.contents step

/-! ### The simulation -/

/-- A move that leaves the saved place alone keeps the relation if it ends at the right index. -/
theorem Tracks.after {rest : NodeIterator} {index : Nat} (tracks : iterator.Tracks items saved cursor)
    (there : rest.At items index) (kept : iterator.Marked → rest.SavedAs iterator) :
    rest.Tracks items saved { cursor with index } where
  here := there
  place done := by
    obtain ⟨marked, back⟩ := tracks.place done
    have same := kept marked
    exact ⟨same.marked, same.restore ▸ back⟩

/-- **One move keeps the relation**, with the same answer on both sides. A place must have been
saved before it is gone back to. -/
theorem tracks_perform (tracks : iterator.Tracks items saved cursor) (move : Move)
    (allowed : move = .restore → saved) :
    ∃ after, iterator.perform move = .ok ((cursor.perform items move).1, after) ∧
      after.Tracks items (move == .mark || saved) (cursor.perform items move).2 := by
  cases move with
  | next =>
    rw [perform, ListCursor.perform]
    cases entry : items[cursor.index]? with
    | none =>
      obtain ⟨rest, step, there⟩ := tracks.here.next_none entry
      rw [step]
      exact ⟨rest, rfl, tracks.after there fun marked => restore_next marked step⟩
    | some node =>
      obtain ⟨rest, step, there⟩ := tracks.here.next_some entry
      rw [step]
      exact ⟨rest, rfl, tracks.after there fun marked => restore_next marked step⟩
  | rewind =>
    obtain ⟨rewound, step, there⟩ := tracks.here.rewind
    rw [perform, step]
    exact ⟨rewound, rfl, tracks.after there fun marked => restore_rewind marked step⟩
  | mark =>
    have there := tracks.here.setMark
    refine ⟨iterator.setMark, rfl, there, fun _ => ⟨iterator.marked_setMark, ?_⟩⟩
    rw [restore_setMark]
    exact there
  | restore =>
    obtain ⟨marked, back⟩ := tracks.place (allowed rfl)
    exact ⟨iterator.restore, rfl, tracks.after back fun _ => ⟨marked.restore, restore_restore _⟩⟩

/-- **A run of moves shows the same on both sides.** Whatever is gone back to has been saved, in the
run or before it. -/
theorem observe_of_tracks (moves : List Move) (tracks : iterator.Tracks items saved cursor)
    (allowed : ∀ before after, moves = before ++ .restore :: after → saved ∨ .mark ∈ before) :
    iterator.observe moves = .ok (cursor.observe items moves) := by
  induction moves generalizing iterator cursor saved with
  | nil => rfl
  | cons move rest ih =>
    have here : move = .restore → saved := by
      rintro rfl
      exact (allowed [] rest rfl).resolve_right List.not_mem_nil
    obtain ⟨after, step, tracksAfter⟩ := tracks_perform tracks move here
    have later : ∀ before behind, rest = before ++ .restore :: behind →
        (move == .mark || saved) ∨ .mark ∈ before := by
      intro before behind split
      rcases allowed (move :: before) behind (congrArg (move :: ·) split) with done | member
      · exact .inl (by simp [done])
      · rcases List.mem_cons.mp member with same | member
        · exact .inl (by simp [← same])
        · exact .inr member
    rw [observe, step]
    show (after.observe rest >>= fun others => _) = _
    rw [ih tracksAfter later]
    show Except.ok (_ :: _) = _
    rw [tracksAfter.here.position]
    rfl

/-- **Between two bindings every iterator is a cursor over a list**: that which it yields when it is
rewound and drained, provided that a place is saved before it is gone back to. -/
theorem observe_eq_listCursor {rewound rest : NodeIterator} (reachable : Reachable iterator)
    (begun : iterator.rewind = .ok rewound) (drained : rewound.drain = .ok (items, rest))
    (moves : List Move)
    (allowed : ∀ before after, moves = before ++ .restore :: after → .mark ∈ before) :
    rewound.progress.position = 0 ∧
      rewound.observe moves = .ok (({} : ListCursor).observe items moves) := by
  obtain ⟨other, same, seen⟩ := rewind_sees reachable.sound
  rw [begun] at same
  cases same
  have whole := (ahead_of_drain seen.sound drained).1
  have contents := seen.ahead.symm.trans whole
  have first : rewound.At items 0 := by
    refine ⟨seen.sound, ?_, whole, position_rewind contents begun⟩
    exact (contents_eq_of_bare (bare_rewind begun)).trans contents
  have tracks : rewound.Tracks items false {} := ⟨first, fun done => by cases done⟩
  refine ⟨first.position, observe_of_tracks moves tracks ?_⟩
  exact fun before after split => .inr (allowed before after split)

/-- A union of an axis and a list is read across its branches and taken back into the first. -/
theorem observe_eq_listCursor_union :
    ∃ bound rewound rest,
      ((ofBranches [ofAxis (.ofDocument (.text "a" (.comment "b" .empty))) .child, ofList [7]]).bind
            Handle.root = .ok bound ∧
          bound.value.rewind = .ok rewound ∧ rewound.drain = .ok ([1, 2, 7], rest)) ∧
        rewound.progress.position = 0 ∧
        rewound.observe [.next, .mark, .next, .next, .next, .restore, .next] =
          .ok [⟨some (some 1), 1⟩, ⟨none, 1⟩, ⟨some (some 2), 2⟩, ⟨some (some 7), 3⟩,
            ⟨some none, 3⟩, ⟨none, 1⟩, ⟨some (some 2), 2⟩] := by
  have made : Reachable
      (ofBranches [ofAxis (.ofDocument (.text "a" (.comment "b" .empty))) .child, ofList [7]]) :=
    .ofPair (.ofAxis (Tree.built_ofDocument _) .child) (.ofList [7])
  have taken : bind Handle.root
      (ofBranches [ofAxis (.ofDocument (.text "a" (.comment "b" .empty))) .child, ofList [7]]) =
        .ok _ := rfl
  refine ⟨_, _, _, ⟨taken, rfl, rfl⟩, observe_eq_listCursor (made.bind taken) rfl rfl
    [.next, .mark, .next, .next, .next, .restore, .next] fun before after split => ?_⟩
  -- The one restoring move has the mark two places before it.
  rcases before with _ | ⟨first, _ | ⟨second, before⟩⟩
  · cases split
  · cases split
  · injection split with _ split
    injection split with same
    exact List.mem_cons_of_mem _ (same ▸ List.mem_cons_self)

end NodeIterator

end XPathWalk

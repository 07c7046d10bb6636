/-
**What a call that succeeds has done.**

Every operation of a walk, a list, a replay or a whole iterator is read backwards once: from its
success it is told what has become of each field. Everything that holds along runs is derived from
these statements, and none of them unfolds an operation again.

* `exists_of_bind_ok`: a computation that succeeds does so in each of its steps;
* `AxisWalk.bind_ok`, `next_ok`, `rewind_ok`: the operations of a walk;
* `Replay.next_ok`: the next handle of a replay;
* `NodeIterator.Advances`, `Rewinds`, `Clones`: reading, rewinding and cloning, for each kind of
  iterator;
* `mem_nextFrom`, `mem_rewindAll`, `mem_cloneAll`: what becomes of each branch of a union.
-/

import XPathWalk.NodeIterator.Basic

namespace XPathWalk

/-- A computation that succeeds does so in each of its steps. -/
theorem exists_of_bind_ok {ε α β : Type} {first : Except ε α} {rest : α → Except ε β} {result : β}
    (done : (first >>= rest) = .ok result) : ∃ value, first = .ok value ∧ rest value = .ok result := by
  cases first with
  | error error => cases done
  | ok value => exact ⟨value, rfl, done⟩

theorem ok_bind {ε α β : Type} (value : α) (rest : α → Except ε β) :
    ((.ok value : Except ε α) >>= rest) = rest value := rfl

namespace AxisWalk

variable {walk after : AxisWalk}

/-- A walk takes a start node by setting up the cursor there, or ignores it. -/
theorem bind_ok {node : Handle} (taken : walk.bind node = .ok after) :
    (walk.progress.accepts node ∧ ∃ cursor, Cursor.start walk.tree walk.axis node = .ok cursor ∧
      after = { walk with progress := walk.progress.bind node, cursor }) ∨
    ¬ walk.progress.accepts node ∧ after = walk := by
  rw [bind] at taken
  by_cases accepted : walk.progress.accepts node
  · rw [if_pos accepted] at taken
    obtain ⟨cursor, begun, same⟩ := exists_of_bind_ok taken
    cases same
    exact .inl ⟨accepted, cursor, begun, rfl⟩
  · rw [if_neg accepted] at taken
    cases taken
    exact .inr ⟨accepted, rfl⟩

/-- A walk goes on by advancing its cursor. -/
theorem next_ok {found : Option Handle} (advanced : walk.next = .ok (found, after)) :
    ∃ cursor, walk.cursor.advance walk.tree walk.axis = .ok (found, cursor) ∧
      after = { walk with progress := walk.progress.count found, cursor } := by
  obtain ⟨⟨_, cursor⟩, step, same⟩ := exists_of_bind_ok advanced
  cases same
  exact ⟨cursor, step, rfl⟩

/-- A walk begins again by setting up the cursor at its start node, if it has one. -/
theorem rewind_ok (rewound : walk.rewind = .ok after) :
    walk.progress.start = none ∧ after = walk ∨
    ∃ node cursor, walk.progress.start = some node ∧
      Cursor.start walk.tree walk.axis node = .ok cursor ∧
      after = { walk with progress := walk.progress.rewind, cursor } := by
  rw [rewind] at rewound
  cases bound : walk.progress.start with
  | none =>
    rw [bound] at rewound
    cases rewound
    exact .inl ⟨rfl, rfl⟩
  | some node =>
    rw [bound] at rewound
    obtain ⟨cursor, begun, same⟩ := exists_of_bind_ok rewound
    cases same
    exact .inr ⟨node, cursor, rfl, begun, rfl⟩

end AxisWalk

/-- A list goes on by moving its place. -/
theorem FixedList.next_ok {list after : FixedList} {found : Option Handle}
    (advanced : list.next = (found, after)) :
    ∃ current, after = { list with place := list.place.move found current } := by
  rw [next] at advanced
  cases entry : list.nodes[list.place.current]? with
  | none =>
    rw [entry] at advanced
    cases advanced
    exact ⟨list.place.current, rfl⟩
  | some node =>
    rw [entry] at advanced
    cases advanced
    exact ⟨list.place.current + 1, rfl⟩

/-- A replay goes on by seeking in its buffer. It must have a start node. -/
theorem Replay.next_ok {replay after : Replay} {found : Option Handle}
    (advanced : replay.next = .ok (found, after)) :
    ∃ start current, replay.progress.start = some start ∧
      seek replay.buffer replay.last (replay.buffer.size - replay.current) replay.current =
        .ok (found, current) ∧
      after =
        { replay with
          progress := replay.progress.count found, current, last := found <|> replay.last } := by
  rw [next] at advanced
  cases bound : replay.progress.start with
  | none =>
    rw [bound] at advanced
    cases advanced
  | some start =>
    rw [bound] at advanced
    obtain ⟨⟨_, current⟩, sought, same⟩ := exists_of_bind_ok advanced
    cases same
    exact ⟨start, current, rfl, sought, rfl⟩

namespace NodeIterator

/-- What reading one node does to an iterator. -/
inductive Advances : NodeIterator → Option Handle → NodeIterator → Prop
  | axis {walk : AxisWalk} {found : Option Handle} {cursor : Cursor} :
    walk.cursor.advance walk.tree walk.axis = .ok (found, cursor) →
    Advances (.axis walk) found
      (.axis { walk with progress := walk.progress.count found, cursor })
  | fixed {list : FixedList} {found : Option Handle} {current : Nat} :
    Advances (.fixed list) found (.fixed { list with place := list.place.move found current })
  | union {branches rest : List NodeIterator} {place : Place} {found : Option Handle}
    {current : Nat} : nextFrom branches place.current = .ok (found, rest, current) →
    Advances (.union branches place) found (.union rest (place.move found current))
  | nodeSet {source : NodeIterator} {replay : Replay} {found : Option Handle} {current : Nat} :
    Advances (.nodeSet source replay) found
      (.nodeSet source
        { replay with
          progress := replay.progress.count found, current, last := found <|> replay.last })

/-- Reading a node does this and nothing else. -/
theorem advances_of_next {iterator rest : NodeIterator} {found : Option Handle}
    (advanced : iterator.next = .ok (found, rest)) : iterator.Advances found rest := by
  cases iterator with
  | axis walk =>
    obtain ⟨⟨_, _⟩, step, done⟩ := exists_of_bind_ok advanced
    cases done
    obtain ⟨cursor, moved, rfl⟩ := AxisWalk.next_ok step
    exact .axis moved
  | fixed list =>
    rw [next] at advanced
    cases step : list.next with
    | mk answer after =>
      rw [step] at advanced
      cases advanced
      obtain ⟨current, rfl⟩ := FixedList.next_ok step
      exact .fixed
  | union branches place =>
    obtain ⟨⟨_, _, _⟩, step, done⟩ := exists_of_bind_ok advanced
    cases done
    exact .union step
  | nodeSet source replay =>
    obtain ⟨⟨_, _⟩, step, done⟩ := exists_of_bind_ok advanced
    cases done
    obtain ⟨_, current, _, _, rfl⟩ := Replay.next_ok step
    exact .nodeSet

/-- What beginning again does to an iterator. -/
inductive Rewinds : NodeIterator → NodeIterator → Prop
  | unbound {walk : AxisWalk} : walk.progress.start = none → Rewinds (.axis walk) (.axis walk)
  | axis {walk : AxisWalk} {node : Handle} {cursor : Cursor} : walk.progress.start = some node →
    Cursor.start walk.tree walk.axis node = .ok cursor →
    Rewinds (.axis walk) (.axis { walk with progress := walk.progress.rewind, cursor })
  | fixed {list : FixedList} : Rewinds (.fixed list) (.fixed list.rewind)
  | union {branches rest : List NodeIterator} {place : Place} : rewindAll branches = .ok rest →
    Rewinds (.union branches place) (.union rest place.rewind)
  | nodeSet {source : NodeIterator} {replay : Replay} :
    Rewinds (.nodeSet source replay) (.nodeSet source replay.rewind)

/-- Beginning again does this and nothing else. -/
theorem rewinds_of_rewind {iterator rest : NodeIterator} (rewound : iterator.rewind = .ok rest) :
    iterator.Rewinds rest := by
  cases iterator with
  | axis walk =>
    obtain ⟨_, step, done⟩ := exists_of_bind_ok rewound
    cases done
    rcases AxisWalk.rewind_ok step with ⟨unbound, rfl⟩ | ⟨node, cursor, bound, begun, rfl⟩
    · exact .unbound unbound
    · exact .axis bound begun
  | fixed list =>
    cases rewound
    exact .fixed
  | union branches place =>
    obtain ⟨_, step, done⟩ := exists_of_bind_ok rewound
    cases done
    exact .union step
  | nodeSet source replay =>
    cases rewound
    exact .nodeSet

/-- What a clone of an iterator is. -/
inductive Clones : NodeIterator → NodeIterator → Prop
  | axis {walk : AxisWalk} : Clones (.axis walk) (.axis walk.frozen)
  | fixed {list : FixedList} :
    Clones (.fixed list) (.fixed { list with place := list.place.frozen })
  | union {branches copies : List NodeIterator} {place : Place} :
    cloneAll branches = .ok copies → Clones (.union branches place) (.union copies place.frozen)
  | nodeSet {source copy : NodeIterator} {replay : Replay} : source.clone = .ok copy →
    Clones (.nodeSet source replay) (.nodeSet copy replay.frozen)

/-- A clone is this and nothing else. -/
theorem clones_of_clone {iterator copy : NodeIterator} (cloned : iterator.clone = .ok copy) :
    iterator.Clones copy := by
  cases iterator with
  | axis walk =>
    cases cloned
    exact .axis
  | fixed list =>
    obtain ⟨after, step, done⟩ := exists_of_bind_ok cloned
    cases done
    unfold FixedList.clone at step
    split at step
    · cases step
    · cases step
      exact .fixed
  | union branches place =>
    obtain ⟨_, step, done⟩ := exists_of_bind_ok cloned
    cases done
    exact .union step
  | nodeSet source replay =>
    obtain ⟨_, step, done⟩ := exists_of_bind_ok cloned
    cases done
    exact .nodeSet step

/-! ### What becomes of each branch -/

/-- After a call for the next node, every branch is as it was or has been asked for a node
itself. -/
theorem mem_nextFrom {branches rest : List NodeIterator} {current behind : Nat}
    {found : Option Handle} (advanced : nextFrom branches current = .ok (found, rest, behind)) :
    ∀ part ∈ rest, part ∈ branches ∨
      ∃ branch ∈ branches, ∃ answer, branch.next = .ok (answer, part) := by
  induction branches generalizing current rest behind with
  | nil =>
    cases advanced
    exact fun part member => .inl member
  | cons branch branches ih =>
    -- What happens to a later branch is told by the induction, also seen from the longer list.
    have later : ∀ {current behind rest}, nextFrom branches current = .ok (found, rest, behind) →
        ∀ part ∈ rest, part ∈ branch :: branches ∨
          ∃ before ∈ branch :: branches, ∃ answer, before.next = .ok (answer, part) := by
      intro current behind rest step part member
      rcases ih step part member with same | ⟨before, within, moved⟩
      · exact .inl (List.mem_cons_of_mem _ same)
      · exact .inr ⟨before, List.mem_cons_of_mem _ within, moved⟩
    cases current with
    | succ current =>
      obtain ⟨⟨_, _, _⟩, step, done⟩ := exists_of_bind_ok advanced
      cases done
      exact List.forall_mem_cons.mpr ⟨.inl List.mem_cons_self, later step⟩
    | zero =>
      obtain ⟨⟨answer, after⟩, step, done⟩ := exists_of_bind_ok advanced
      have first : ∃ before ∈ branch :: branches, ∃ answer, before.next = .ok (answer, after) :=
        ⟨branch, List.mem_cons_self, answer, step⟩
      cases answer with
      | some node =>
        cases done
        refine List.forall_mem_cons.mpr ⟨.inr first, fun part member => ?_⟩
        exact .inl (List.mem_cons_of_mem _ member)
      | none =>
        obtain ⟨⟨_, _, _⟩, more, done⟩ := exists_of_bind_ok done
        cases done
        exact List.forall_mem_cons.mpr ⟨.inr first, later more⟩

theorem mem_rewindAll {branches rest : List NodeIterator} (rewound : rewindAll branches = .ok rest) :
    ∀ part ∈ rest, ∃ branch ∈ branches, branch.rewind = .ok part := by
  induction branches generalizing rest with
  | nil =>
    cases rewound
    exact fun _ member => absurd member List.not_mem_nil
  | cons branch branches ih =>
    obtain ⟨_, here, more⟩ := exists_of_bind_ok rewound
    obtain ⟨_, later, done⟩ := exists_of_bind_ok more
    cases done
    refine List.forall_mem_cons.mpr ⟨⟨branch, List.mem_cons_self, here⟩, fun part member => ?_⟩
    obtain ⟨before, within, step⟩ := ih later part member
    exact ⟨before, List.mem_cons_of_mem _ within, step⟩

theorem mem_cloneAll {branches copies : List NodeIterator} (cloned : cloneAll branches = .ok copies) :
    ∀ part ∈ copies, ∃ branch ∈ branches, branch.clone = .ok part := by
  induction branches generalizing copies with
  | nil =>
    cases cloned
    exact fun _ member => absurd member List.not_mem_nil
  | cons branch branches ih =>
    obtain ⟨_, here, more⟩ := exists_of_bind_ok cloned
    obtain ⟨_, later, done⟩ := exists_of_bind_ok more
    cases done
    refine List.forall_mem_cons.mpr ⟨⟨branch, List.mem_cons_self, here⟩, fun part member => ?_⟩
    obtain ⟨before, within, step⟩ := ih later part member
    exact ⟨before, List.mem_cons_of_mem _ within, step⟩

end NodeIterator

end XPathWalk

/-
**Every node that is handed out is traced once.**

A loop over an iterator hands its remaining nodes to a consumer one by one and stops at the first
that the consumer fails on. What happens on the way is a list of events: every node visited is
handed out, and if nodes are traced, its start comes right before that and its end right behind it,
also if the consumer fails. Calling tracer and consumer in the order of these events, and nothing
else, leads to the same state of the observers.

* `Evaluation.Event`, `Evaluation.around`: the events of one node;
* `Evaluation.play`: what tracer and consumer make of events in a row;
* `Evaluation.Stops`: the first error ends a loop, and without one no node is left;
* `play_around`: visiting one node plays its events;
* `forEachOf_of_sees`: a loop plays the events of the nodes that it visits;
* `collect_of_sees`: collecting is a loop whose consumer never fails;
* `forEach_of_drain`: the same for every reachable iterator, whatever was observed before. A loop
  hands out a first part of the nodes that are left, in order, and its observers end in the state to
  which the events of this part lead. The part ends with the first node that the consumer fails on,
  whose error is returned, or has all nodes, and the iterator has just the other nodes left.
  Collecting returns all nodes, with their events.
-/

import XPathWalk.Evaluation
import XPathWalk.Proofs.Reachable

namespace XPathWalk

namespace Evaluation

/-! ### Definitions -/

/-- One call of a tracer or of a consumer. -/
inductive Event where
  | started (node : Handle)
  | handed (node : Handle)
  | ended (node : Handle)
  deriving DecidableEq, Repr

variable {σ : Type}

/-- The events of a node: it is handed out, between its start and its end if nodes are traced. -/
def around (evaluation : Evaluation σ) (node : Handle) : List Event :=
  if evaluation.traces then [.started node, .handed node, .ended node] else [.handed node]

/-- Makes the calls of events in a row. There is an outcome for each node that is handed out. -/
def play (evaluation : Evaluation σ) (consume : Handle → σ → Except IterationError Unit × σ) :
    List Event → σ → List (Except IterationError Unit) × σ
  | [], seen => ([], seen)
  | .started node :: rest, seen =>
    let seen := evaluation.tracer.elim seen fun tracer => tracer.started node seen
    play evaluation consume rest seen
  | .ended node :: rest, seen =>
    let seen := evaluation.tracer.elim seen fun tracer => tracer.ended node seen
    play evaluation consume rest seen
  | .handed node :: rest, seen =>
    let (outcome, seen) := consume node seen
    let (outcomes, seen) := play evaluation consume rest seen
    (outcome :: outcomes, seen)

/-- The first error ends a loop, whatever nodes are left, and is returned. Without an error no node
is left. -/
inductive Stops : (outcomes : List (Except IterationError Unit)) → (left : List Handle) →
    (result : Except IterationError Unit) → Prop
  | exhausted : Stops [] [] (.ok ())
  | failed (error : IterationError) (left : List Handle) :
    Stops [.error error] left (.error error)
  | later {outcomes : List (Except IterationError Unit)} {left : List Handle}
    {result : Except IterationError Unit} :
    Stops outcomes left result → Stops (.ok () :: outcomes) left result

/-- A consumer that does nothing. -/
def ignore (_ : Handle) (seen : σ) : Except IterationError Unit × σ := (.ok (), seen)

/-- Services that write every start and every end down, if they trace at all. -/
def recording (tracing : Bool) : Evaluation (List Event) where
  report _ events := events
  tracer := some
    { started := fun node events => events ++ [.started node]
      ended := fun node events => events ++ [.ended node] }
  tracing := tracing

/-- A consumer that writes every node down and fails as it is told to. -/
def record (verdict : Handle → Except IterationError Unit) (node : Handle) (events : List Event) :
    Except IterationError Unit × List Event :=
  (verdict node, events ++ [.handed node])

variable {evaluation : Evaluation σ} {iterator : NodeIterator} {nodes : List Handle}

/-! ### One node -/

/-- **Visiting a node plays its events.** -/
theorem play_around {consume : Handle → σ → Except IterationError Unit × σ} {node : Handle}
    {outcome : Except IterationError Unit} {seen after : σ}
    (visited : evaluation.visit consume node seen = (outcome, after)) (rest : List Event) :
    evaluation.play consume (evaluation.around node ++ rest) seen =
      (outcome :: (evaluation.play consume rest after).1,
        (evaluation.play consume rest after).2) := by
  obtain ⟨report, tracer, tracing⟩ := evaluation
  cases visited
  cases tracing with
  | false => rfl
  | true => cases tracer <;> rfl

/-! ### A loop -/

/-- **A loop plays the events of the nodes that it visits**, and leaves the others. -/
theorem forEachOf_of_sees (evaluation : Evaluation σ)
    (consume : Handle → σ → Except IterationError Unit × σ) {count : Nat}
    (sees : iterator.Sees ⟨nodes, none⟩) (enough : nodes.length < count) (seen : σ) :
    ∃ visited left outcomes result rest after, nodes = visited ++ left ∧
      evaluation.forEachOf consume count iterator seen = .ok (result, rest, after) ∧
      evaluation.play consume (visited.flatMap evaluation.around) seen = (outcomes, after) ∧
      Stops outcomes left result ∧ rest.Sees ⟨left, none⟩ := by
  induction count generalizing iterator nodes seen with
  | zero => cases enough
  | succ count ih =>
    have step := sees.foresees
    generalize advanced : iterator.next = answer at step
    rw [forEachOf, advanced]
    cases step with
    | @done state ended => exact ⟨[], [], [], .ok (), state, seen, rfl, rfl, rfl, .exhausted, ended⟩
    | @node node others _ state ahead =>
      have fewer : others.length < count := Nat.lt_of_succ_lt_succ enough
      rw [ok_bind]
      cases handed : evaluation.visit consume node seen with
      | mk outcome after =>
        cases outcome with
        | error error =>
          refine ⟨[node], others, [.error error], .error error, state, after, rfl, ?_, ?_,
            .failed error others, ahead⟩
          · simp only [handed]
            rfl
          · exact play_around handed []
        | ok =>
          obtain ⟨visited, left, outcomes, result, rest, last, same, driven, played, stops,
            behind⟩ := ih ahead fewer after
          refine ⟨node :: visited, left, .ok () :: outcomes, result, rest, last, ?_, ?_, ?_,
            .later stops, behind⟩
          · rw [same, List.cons_append]
          · simp only [handed]
            exact driven
          · rw [List.flatMap_cons, play_around handed, played]

/-! ### Collecting -/

theorem Stops.of_forall_ok {outcomes : List (Except IterationError Unit)} {left : List Handle}
    {result : Except IterationError Unit} (stops : Stops outcomes left result)
    (fine : ∀ outcome ∈ outcomes, outcome = .ok ()) : left = [] ∧ result = .ok () := by
  induction stops with
  | exhausted => exact ⟨rfl, rfl⟩
  | failed error left => cases fine _ List.mem_cons_self
  | later _ ih => exact ih fun outcome member => fine outcome (List.mem_cons_of_mem _ member)

/-- Collecting one node is visiting it with a consumer that does nothing. -/
theorem visit_widen (evaluation : Evaluation σ) (node : Handle) (seen : σ)
    (handles : Array Handle) :
    (evaluation.widen (Array Handle)).visit
        (fun node (seen, handles) => (.ok (), seen, handles.push node)) node (seen, handles) =
      (.ok (), (evaluation.visit ignore node seen).2, handles.push node) := by
  obtain ⟨report, tracer, tracing⟩ := evaluation
  cases tracing with
  | false => rfl
  | true => cases tracer <;> rfl

/-- So collecting plays the events of such visits. -/
theorem play_widen (evaluation : Evaluation σ) (visited : List Handle) (seen : σ)
    (handles : Array Handle) :
    (evaluation.widen (Array Handle)).play
        (fun node (seen, handles) => (.ok (), seen, handles.push node))
        (visited.flatMap (evaluation.widen (Array Handle)).around) (seen, handles) =
      (visited.map fun _ => .ok (),
        (evaluation.play ignore (visited.flatMap evaluation.around) seen).2,
        handles ++ visited.toArray) := by
  induction visited generalizing seen handles with
  | nil => exact congrArg (fun handles => ([], seen, handles)) Array.append_empty.symm
  | cons node rest ih =>
    have idle : evaluation.visit ignore node seen = (.ok (), _) := rfl
    rw [List.flatMap_cons, play_around (visit_widen evaluation node seen handles), ih,
      List.flatMap_cons, play_around idle, List.map_cons, List.push_append_toArray]
    rfl

/-- **Collecting yields all nodes that are left**, with the events of each. -/
theorem collect_of_sees (evaluation : Evaluation σ) (sees : iterator.Sees ⟨nodes, none⟩)
    (seen : σ) :
    ∃ rest, evaluation.collect iterator seen =
        .ok (.ok nodes, rest, (evaluation.play ignore (nodes.flatMap evaluation.around) seen).2) ∧
      rest.Sees ⟨[], none⟩ := by
  obtain ⟨visited, left, outcomes, result, rest, after, same, driven, played, stops, behind⟩ :=
    forEachOf_of_sees (evaluation.widen (Array Handle))
      (fun node (seen, handles) => (.ok (), seen, handles.push node)) sees
      (NodeIterator.length_lt_reach sees) (seen, #[])
  rw [play_widen] at played
  cases played
  obtain ⟨rfl, rfl⟩ := stops.of_forall_ok (List.forall_mem_map.mpr fun _ _ => rfl)
  rw [List.append_nil] at same
  subst same
  refine ⟨rest, ?_, behind⟩
  rw [collect, forEach, driven, ok_bind, Array.empty_append]
  rfl

/-! ### Reachable iterators -/

/-- **Driving an iterator visits each of its nodes once**, in order and with its events, up to the
first node that the consumer fails on. Collecting returns all nodes. -/
theorem forEach_of_drain {σ : Type} {iterator behind : NodeIterator} {nodes : List Handle}
    (reachable : NodeIterator.Reachable iterator) (drained : iterator.drain = .ok (nodes, behind))
    (evaluation : Evaluation σ) (seen : σ) :
    (∀ consume, ∃ visited left outcomes result rest after final, nodes = visited ++ left ∧
      evaluation.forEach consume iterator seen = .ok (result, rest, after) ∧
      evaluation.play consume (visited.flatMap evaluation.around) seen = (outcomes, after) ∧
      Stops outcomes left result ∧ rest.drain = .ok (left, final)) ∧
    ∃ outcomes rest after final, evaluation.collect iterator seen = .ok (.ok nodes, rest, after) ∧
      evaluation.play ignore (nodes.flatMap evaluation.around) seen = (outcomes, after) ∧
      rest.drain = .ok ([], final) := by
  have sees : iterator.Sees ⟨nodes, none⟩ :=
    ⟨reachable.sound, (NodeIterator.ahead_of_drain reachable.sound drained).1⟩
  constructor
  · intro consume
    obtain ⟨visited, left, outcomes, result, rest, after, same, driven, played, stops, others⟩ :=
      forEachOf_of_sees evaluation consume sees (NodeIterator.length_lt_reach sees) seen
    obtain ⟨final, drains, _⟩ := NodeIterator.drain_complete others
    exact ⟨visited, left, outcomes, result, rest, after, final, same, driven, played, stops, drains⟩
  · obtain ⟨rest, collected, others⟩ := collect_of_sees evaluation sees seen
    obtain ⟨final, drains, _⟩ := NodeIterator.drain_complete others
    exact ⟨_, rest, _, final, collected, rfl, drains⟩

/-- Everything is written down while three nodes are driven through, and the consumer fails on the
second. Then the third is left. Collecting reaches all of them. -/
theorem forEach_of_drain_failing :
    ∃ (failure : IterationError) (behind rest final stop : NodeIterator),
      (NodeIterator.ofList [5, 2, 3]).drain = .ok ([5, 2, 3], behind) ∧
      (recording true).forEach (record fun node => if node = 2 then .error failure else .ok ())
        (.ofList [5, 2, 3]) [] = .ok (.error failure, rest,
          [.started 5, .handed 5, .ended 5, .started 2, .handed 2, .ended 2]) ∧
      rest.drain = .ok ([3], final) ∧
      (recording true).collect (.ofList [5, 2, 3]) [] = .ok (.ok [5, 2, 3], stop,
        [.started 5, .ended 5, .started 2, .ended 2, .started 3, .ended 3]) := by
  have drained : (NodeIterator.ofList [5, 2, 3]).drain = .ok ([5, 2, 3], _) := rfl
  obtain ⟨each, _, stop, _, _, collected, played, _⟩ :=
    forEach_of_drain (.ofList [5, 2, 3]) drained (recording true) []
  cases played
  obtain ⟨visited, left, _, _, rest, after, final, _, driven, _, _, others⟩ := each
    (record fun node => if node = 2 then .error (.failure .internal "consumer failed") else .ok ())
  cases driven
  cases others
  exact ⟨.failure .internal "consumer failed", _, _, _, stop, drained, rfl, rfl, collected⟩

end Evaluation

end XPathWalk

/-
**Binding an iterator to a start node.**

Every level of an iterator decides for itself whether it takes a start node, and hands it on to its
parts if it does. A node set that takes one drains its source, sorts what came out and replays it.

* `NodeIterator.ignoredStart?`: the three reasons for which a node set keeps its start node, in the
  order in which they are looked for;
* `NodeIterator.bind`: taking a start node, with the events that this logs;
* `NodeIterator.toNodeSet`: a node set over a source. One over a source that is independent of the
  start node is materialized at once, relative to the document.
-/

import XPathWalk.NodeIterator.Basic
import XPathWalk.LogEvent

namespace XPathWalk

/-- The event of a materialization: where it started and how many handles it found. -/
def Replay.materialized (replay : Replay) (node : Handle) : LogEvent :=
  .materialized node replay.buffer.size replay.buffer.distinct

namespace NodeIterator

/-- Why a node set ignores a start node, if it does. -/
def ignoredStart? (source : NodeIterator) (replay : Replay) (node : Handle) :
    Option IgnoredStart :=
  if !replay.progress.restartable then some .notRestartable
  else if source.dependence = .independent ∧ replay.progress.start = some Handle.root then
    some .contextIndependent
  else if replay.progress.start = some node then some .alreadyBound
  else none

mutual

/-- Takes a start node or ignores it. A source that is already bound to the node would ignore it, so
a node set rewinds its source before draining it. -/
def bind (node : Handle) : NodeIterator → Except Fault (Logged NodeIterator)
  | .axis walk => return { value := .axis (← walk.bind node) }
  | .fixed list => .ok { value := .fixed (list.bind node) }
  | .union branches place =>
    if place.progress.accepts node then do
      let bound ← bindAll node branches
      return { value := .union bound.value (place.bind node), log := bound.log }
    else
      .ok { value := .union branches place }
  | .nodeSet source replay =>
    match ignoredStart? source replay node with
    | some reason =>
      .ok { value := .nodeSet source replay, log := [.startIgnored reason node] }
    | none => do
      let bound ← source.bind node
      let rewound ← bound.value.rewind
      let (handles, drained) ← rewound.drain
      let replay := replay.load node handles
      return {
        value := .nodeSet drained replay
        log := bound.log ++ [replay.materialized node] }

/-- Hands a start node to every branch, first to last. -/
def bindAll (node : Handle) : List NodeIterator → Except Fault (Logged (List NodeIterator))
  | [] => .ok { value := [] }
  | branch :: rest => do
    let first ← branch.bind node
    let others ← bindAll node rest
    return { value := first.value :: others.value, log := first.log ++ others.log }

end

/-- The node set of a source. -/
def toNodeSet (source : NodeIterator) : Except Fault (Logged NodeIterator) :=
  let fresh := NodeIterator.nodeSet source {}
  match source.dependence with
  | .independent => fresh.bind Handle.root
  | .startNode => .ok { value := fresh }

end NodeIterator

end XPathWalk

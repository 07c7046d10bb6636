/-
**The whole sequence of an iterator, wherever it stands.**

The whole sequence is what comes out after rewinding. Its size and the node at a position of it are
found on a rewound clone, so the iterator itself does not move. Where cloning is refused, the error
of the refusal is the answer.

* `NodeIterator.whole`: the whole sequence;
* `NodeIterator.last`: how many nodes it has;
* `NodeIterator.nodeAt`: the node at a 1-based position.
-/

import XPathWalk.NodeIterator.Basic

namespace XPathWalk

namespace NodeIterator

/-- All nodes from the first on. -/
def whole (iterator : NodeIterator) : Except Fault (List Handle) := do
  let (nodes, _) ← (← iterator.rewind).drain
  return nodes

/-- The size of the whole sequence. -/
def last (iterator : NodeIterator) : Except Fault (Except IterationError Nat) :=
  match iterator.clone with
  | .error error => .ok (.error error)
  | .ok probe => return .ok (← probe.whole).length

/-- The node at a 1-based position of the whole sequence. There is none at position 0, which does
not even need a clone. Nodes behind the position are not asked for. -/
def nodeAt (iterator : NodeIterator) :
    (position : Nat) → Except Fault (Except IterationError (Option Handle))
  | 0 => .ok (.ok none)
  | index + 1 =>
    match iterator.clone with
    | .error error => .ok (.error error)
    | .ok probe => do
      let (nodes, _) ← (← probe.rewind).take (index + 1)
      return .ok nodes[index]?

end NodeIterator

end XPathWalk

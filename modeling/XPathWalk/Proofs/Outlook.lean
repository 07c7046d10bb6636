/-
**What an iterator still has ahead of it.**

An outlook is a list of nodes and, if reading does not end well behind them, the fault that it meets
there. It is what a state of any iterator comes down to for a reader who only ever asks for the next
node.

* `Outlook.append`: one outlook and then another, unless the first ends in a fault;
* `Outlook.Foresees`: a step that goes as an outlook says;
* `Foresees.lift`: the same step of something that holds the iterator.
-/

import XPathWalk.Fault
import XPathWalk.Handle

namespace XPathWalk

/-- The nodes that are left, and the fault behind them if there is one. -/
structure Outlook where
  nodes : List Handle
  fault : Option Fault := none
  deriving DecidableEq, Repr

namespace Outlook

/-- Nothing is left, and reading on only says so again. -/
def ended : Outlook := ⟨[], none⟩

/-- Reading on is a fault. -/
def failed (fault : Fault) : Outlook := ⟨[], some fault⟩

/-- One outlook and then another. Nothing is read behind a fault. -/
def append : Outlook → Outlook → Outlook
  | ⟨nodes, some fault⟩, _ => ⟨nodes, some fault⟩
  | ⟨nodes, none⟩, second => ⟨nodes ++ second.nodes, second.fault⟩

instance : Append Outlook := ⟨append⟩

@[simp] theorem complete_append (first second : List Handle) :
    (⟨first, none⟩ : Outlook) ++ ⟨second, none⟩ = ⟨first ++ second, none⟩ := rfl

theorem cons_append (node : Handle) (nodes : List Handle) (fault : Option Fault)
    (second : Outlook) :
    (⟨node :: nodes, fault⟩ : Outlook) ++ second =
      ⟨node :: (⟨nodes, fault⟩ ++ second : Outlook).nodes,
        (⟨nodes, fault⟩ ++ second : Outlook).fault⟩ := by
  cases fault <;> rfl

/-- Appending yields no node that neither part has. -/
theorem length_append_le (first second : Outlook) :
    (first ++ second).nodes.length ≤ first.nodes.length + second.nodes.length := by
  obtain ⟨nodes, fault⟩ := first
  cases fault with
  | some fault => exact Nat.le_add_right _ _
  | none => exact Nat.le_of_eq List.length_append

variable {σ τ : Type}

/-- A step goes as an outlook says: it yields the first node that is left, says that there is none,
or meets the fault. States are related to outlooks by `sees`. -/
inductive Foresees (sees : σ → Outlook → Prop) :
    Outlook → Except Fault (Option Handle × σ) → Prop where
  | node {node : Handle} {rest : List Handle} {fault : Option Fault} {state : σ} :
    sees state ⟨rest, fault⟩ → Foresees sees ⟨node :: rest, fault⟩ (.ok (some node, state))
  | done {state : σ} : sees state ended → Foresees sees ended (.ok (none, state))
  | fault {fault : Fault} : Foresees sees (failed fault) (.error fault)

/-- A step of a part is a step of the whole that holds it. -/
theorem Foresees.lift {sees : σ → Outlook → Prop} {sees' : τ → Outlook → Prop}
    {outlook : Outlook} {step : Except Fault (Option Handle × σ)}
    (hold : Option Handle → σ → τ) (foreseen : Foresees sees outlook step)
    (kept : ∀ found state outlook, sees state outlook → sees' (hold found state) outlook) :
    Foresees sees' outlook (do
      let (found, state) ← step
      return (found, hold found state)) := by
  cases foreseen with
  | node seen => exact .node (kept _ _ _ seen)
  | done seen => exact .done (kept _ _ _ seen)
  | fault => exact .fault

end Outlook

end XPathWalk

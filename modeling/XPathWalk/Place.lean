/-
**A place among numbered items.**

Fixed lists and unions stand at a numbered item, a handle of the list or a branch of the union, and
save their place as that number and the position.

* `Place.bind`, `Place.rewind`: going to the first item;
* `Place.setMark`, `Place.restore`: the saved place is the first item until one is saved.
-/

import XPathWalk.Progress

namespace XPathWalk

/-- Bookkeeping with the number of an item. -/
structure Place where
  progress : Progress := {}
  current : Nat := 0
  /-- The saved item number and position. -/
  mark : Nat × Nat := (0, 0)
  deriving DecidableEq, Repr

namespace Place

/-- Takes a start node and goes to the first item. -/
def bind (place : Place) (node : Handle) : Place :=
  { place with progress := place.progress.bind node, current := 0 }

/-- Goes to the first item. -/
def rewind (place : Place) : Place :=
  { place with progress := place.progress.rewind, current := 0 }

/-- Goes to the given item after yielding what was found on the way there. -/
def move (place : Place) (found : Option Handle) (current : Nat) : Place :=
  { place with progress := place.progress.count found, current }

/-- Saves the item number and the position. -/
def setMark (place : Place) : Place :=
  { place with mark := (place.current, place.progress.position) }

/-- Goes back to what was saved. -/
def restore (place : Place) : Place :=
  { place with current := place.mark.1, progress := place.progress.restore place.mark.2 }

/-- Allows or forbids taking further start nodes. -/
def setRestartable (place : Place) (restartable : Bool) : Place :=
  { place with progress := place.progress.setRestartable restartable }

/-- The same place, with no further start node taken. -/
def frozen (place : Place) : Place := { place with progress := place.progress.frozen }

end Place

end XPathWalk

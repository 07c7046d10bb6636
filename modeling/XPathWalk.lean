import XPathWalk.Builder
import XPathWalk.Evaluation
import XPathWalk.KeyTable
import XPathWalk.NodeIterator.Bind
import XPathWalk.NodeIterator.Whole
import XPathWalk.Proofs.ListCursor
import XPathWalk.Proofs.Rebinding
import XPathWalk.Proofs.Subtrees
import XPathWalk.Proofs.Numbering
import XPathWalk.Proofs.Surroundings
import XPathWalk.Proofs.Leftovers
import XPathWalk.Proofs.Restarts
import XPathWalk.Proofs.Copies
import XPathWalk.Proofs.Regions
import XPathWalk.Proofs.Independence
import XPathWalk.Proofs.Returns
import XPathWalk.Proofs.WholeSequence
import XPathWalk.Proofs.SetCursor
import XPathWalk.Proofs.Reshaping
import XPathWalk.Proofs.Parts
import XPathWalk.Proofs.Refusals
import XPathWalk.Proofs.Materialization
import XPathWalk.Proofs.Endings
import XPathWalk.Proofs.KeyedElements
import XPathWalk.Proofs.Positions
import XPathWalk.Proofs.LostPlaces
import XPathWalk.Proofs.LateBranches
import XPathWalk.Proofs.UnsavedPlaces
import XPathWalk.Proofs.Siblings
import XPathWalk.Proofs.Descendants
import XPathWalk.Proofs.AxisOrder
import XPathWalk.Proofs.Visits
import XPathWalk.Proofs.CallOrder
import XPathWalk.Proofs.LoggedSizes
import XPathWalk.Proofs.StringValue
import XPathWalk.Proofs.ReadOnce
import XPathWalk.Proofs.Levels
import XPathWalk.Proofs.Dialogues
import XPathWalk.Proofs.References

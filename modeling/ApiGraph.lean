import ApiGraph.Main
import ApiGraph.Proofs.Canonical
import ApiGraph.Proofs.Pruning
import ApiGraph.Proofs.Members
import ApiGraph.Proofs.Grouping
import ApiGraph.Proofs.Orphans
import ApiGraph.Proofs.Traversal
import ApiGraph.Proofs.Allocation
import ApiGraph.Proofs.Refusal
import ApiGraph.Proofs.TypeRoundTrip
import ApiGraph.Proofs.Readable
import ApiGraph.Proofs.Unseen
import ApiGraph.Proofs.SignatureSlots
import ApiGraph.Proofs.Essence
import ApiGraph.Proofs.Lossless
import ApiGraph.Proofs.Listing
import ApiGraph.Proofs.Atomic
import ApiGraph.Proofs.Operands
import ApiGraph.Proofs.OwnedClosure
import ApiGraph.Proofs.ShortCircuit
import ApiGraph.Proofs.SiblingOrder
import ApiGraph.Proofs.Integers
import ApiGraph.Proofs.Shortest
import ApiGraph.Proofs.LiteralText
import ApiGraph.Proofs.Packages
import ApiGraph.Proofs.QualifiedNames

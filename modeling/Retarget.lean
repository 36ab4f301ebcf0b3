import Retarget.Json.Parser
import Retarget.Main
import Retarget.Proofs.Run
import Retarget.Proofs.Growth
import Retarget.Proofs.WellTyped
import Retarget.Proofs.Visits
import Retarget.Proofs.Simulation
import Retarget.Proofs.Compatible
import Retarget.Proofs.Sharing
import Retarget.Proofs.Matching
import Retarget.Proofs.Stale
import Retarget.Proofs.Tree
import Retarget.Proofs.Unfolding
import Retarget.Proofs.Transparency
import Retarget.Proofs.TreeWalk
import Retarget.Proofs.Isomorphism
import Retarget.Proofs.Restoration
import Retarget.Proofs.Idempotence
import Retarget.Proofs.Stages
import Retarget.Proofs.Failure
import Retarget.Proofs.Grammar
import Retarget.Proofs.Scanning
import Retarget.Proofs.Printing
import Retarget.Proofs.Tables
import Retarget.Proofs.Documents
import Retarget.Proofs.Checking
import Retarget.Proofs.Display
import Retarget.Proofs.ClosedWorld
import Retarget.Proofs.Retyping
import Retarget.Proofs.Coherence
import Retarget.Proofs.Partition
import Retarget.Proofs.FaultPlaces
import Retarget.Proofs.Freshness
import Retarget.Proofs.Rebuilding
import Retarget.Proofs.Instantiation
import Retarget.Proofs.Manifests
import Retarget.Proofs.FaultSpans
import Retarget.Proofs.FirstRecords

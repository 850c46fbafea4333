import NeighborSearch.Main
import NeighborSearch.Proofs.Code.Mismatch
import NeighborSearch.Proofs.CommandLine.Program
import NeighborSearch.Proofs.Device.Isolation
import NeighborSearch.Proofs.Device.Progress
import NeighborSearch.Proofs.Device.Rows
import NeighborSearch.Proofs.Run.Checksum
import NeighborSearch.Proofs.Run.Edit
import NeighborSearch.Proofs.Run.Routes
import NeighborSearch.Proofs.Selection.Comparison
import NeighborSearch.Proofs.Selection.Pushes
import NeighborSearch.Proofs.Selection.Representation
import NeighborSearch.Proofs.Selection.Reuse
import NeighborSearch.Proofs.Selection.Sift
import NeighborSearch.Proofs.Selection.Stability

import Rhiza.Fencing.Complete
import Rhiza.Materializer.Faults
import Rhiza.Materializer.GraphRestart
import Rhiza.Materializer.RestoreAtomic
import Rhiza.QLog.Manifest
import Rhiza.QLog.Sync
import Rhiza.QuePaxa.Allocator
import Rhiza.QuePaxa.Availability
import Rhiza.QuePaxa.CouncilRuns
import Rhiza.QuePaxa.Evidence
import Rhiza.QuePaxa.Linearizable
import Rhiza.Recovery.Packing
import Rhiza.Recovery.RoundTrip

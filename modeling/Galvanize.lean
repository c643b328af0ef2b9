import Galvanize.SyncCompleteness
import Galvanize.SyncSoundness
import Galvanize.ReplyCompleteness
import Galvanize.LastSeqAgreement
import Galvanize.IngestRuns
import Galvanize.BufferClearing
import Galvanize.GapReconciliation
import Galvanize.StreamContinuity
import Galvanize.ViewMaintenance
import Galvanize.OwnershipKept
import Galvanize.ReplayCompleteness
import Galvanize.SealedRoundTrip
import Galvanize.ContiguousSequence
import Galvanize.PathIndependence
import Galvanize.RingConnectivity
import Galvanize.GossipDelivery
import Galvanize.MissingRecovery
import Galvanize.MembershipEffects
import Galvanize.WireArithmetic
import Galvanize.GapArithmetic
import Galvanize.IdentityConflict
import Galvanize.BroadcastTransmissions
import Galvanize.Publication
import Galvanize.ClusterIsolation
import Galvanize.Unlock
import Galvanize.WriterLocks
import Galvanize.RemoteUnlock

import RemoteFs.Storage.Listing
import RemoteFs.ObjectStore.Failures
import RemoteFs.Advisory.Uses
import RemoteFs.Advisory.ClaimHistory
import RemoteFs.Advisory.Audit
import RemoteFs.Transport.Calls
import RemoteFs.Locking.Cancellation
import RemoteFs.Locking.Fairness
import RemoteFs.Locking.Recovery
import RemoteFs.Locking.Cover
import RemoteFs.Limited.Balance
import RemoteFs.ObjectStore.CloseGenerations
import RemoteFs.ObjectStore.FileActions
import RemoteFs.Metastore.ChangePages
import RemoteFs.Smb.Credits
import RemoteFs.Smb.Enumeration
import RemoteFs.Smb.FileGateRuns
import RemoteFs.Smb.MutationOnce
import RemoteFs.Smb.CloseEvidence
import RemoteFs.Metastore.ReplicaGate
import RemoteFs.Transport.BodyAdmission
import RemoteFs.Replicated.Confirmations
import RemoteFs.Metastore.OpenDescendants
import RemoteFs.Smb.Utf16
import RemoteFs.Sqliteschema.Structure

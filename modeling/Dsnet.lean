import Dsnet.VR.Recovery
import Dsnet.VR.ClientTable
import Dsnet.VR.SingleView
import Dsnet.Eris.Replicated
import Dsnet.Eris.Decision
import Dsnet.FastPaxos.Safety
import Dsnet.Spec.InView
import Dsnet.Tapir.Finalize
import Dsnet.Tapir.Commit
import Dsnet.Spanner.Atomic
import Dsnet.PBFT.Agreement
import Dsnet.Common.StartLog
import Dsnet.NIStore.OCCInverse
import Dsnet.NIStore.LockRollback
import Dsnet.Transaction.KVQueues
import Dsnet.Eris.Rewind
import Dsnet.VR.Completion
import Dsnet.NOPaxos.Merge
import Dsnet.Spec.MergedLog
import Dsnet.Spec.InstallLog
import Dsnet.Eris.Pending
import Dsnet.Eris.Wire
import Dsnet.NOPaxos.Completion
import Dsnet.NOPaxos.Answers
import Dsnet.Eris.Acks
import Dsnet.Granola.Retry
import Dsnet.Tapir.SlowPath
import Dsnet.Tapir.Proposals
import Dsnet.Transaction.KVOrder
import Dsnet.Transaction.Wakeups
import Dsnet.Transaction.VersionReads
import Dsnet.NIStore.Versions
import Dsnet.NIStore.LockRuns
import Dsnet.Latency.Sum
import Dsnet.Transport.Assertions
import Dsnet.MinBFT.Delivery
import Dsnet.RequestNumbers
import Dsnet.TOMBFT.Adapter
import Dsnet.BftClients
import Dsnet.PBFT.Batches
import Dsnet.PBFT.Addressee
import Dsnet.VoteOrder
import Dsnet.TPCC.Distributed
import Dsnet.Granola.Fates
import Dsnet.NIStore.Serial
import Dsnet.Eris.Confluence

import LibIvy.Contracts.Coherence
import LibIvy.Contracts.SingleWriter
import LibIvy.Contracts.Callbacks
import LibIvy.Contracts.ManagerNode
import LibIvy.Contracts.Locality
import LibIvy.Contracts.Acknowledged
import LibIvy.Contracts.Deadlock
import LibIvy.Contracts.Retry
import LibIvy.Contracts.Wire
import LibIvy.Contracts.NodeAddress
import LibIvy.Contracts.MemPerm
import LibIvy.Contracts.NodeNumbers
import LibIvy.Contracts.FailedServe
import LibIvy.Contracts.WriteGrant
import LibIvy.Contracts.PsortOutput
import LibIvy.Contracts.MergeWorker
import LibIvy.Contracts.PdotResult
import LibIvy.Contracts.Handshake
import LibIvy.Contracts.Invalidations
import LibIvy.Contracts.SortWorker
import LibIvy.Contracts.InputFile
import LibIvy.Contracts.Pingpong
import LibIvy.Contracts.AllNodes
import LibIvy.Contracts.PsortRun
import LibIvy.Contracts.Hosted
import LibIvy.Contracts.Realised
import LibIvy.Contracts.PsortCluster
import LibIvy.Contracts.PdotCluster
import LibIvy.Contracts.Messages
import LibIvy.Contracts.Progress

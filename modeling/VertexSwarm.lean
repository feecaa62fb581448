import VertexSwarm.Lib.BigEndian
import VertexSwarm.Lib.Checked
import VertexSwarm.Lib.Saturating
import VertexSwarm.Lib.OrderedTable
import VertexSwarm.Lib.NewestWins
import VertexSwarm.Lib.Keyed
import VertexSwarm.Lib.ReverseIndex
import VertexSwarm.Lib.Run
import VertexSwarm.Lib.Cumulative
import VertexSwarm.Lib.SmallestKeys
import VertexSwarm.Lib.Select
import VertexSwarm.Lib.LruList
import VertexSwarm.Lib.Tiling
import VertexSwarm.Lib.EState
import VertexSwarm.Lib.Projection
import VertexSwarm.Lib.LruCache
import VertexSwarm.Lib.FixedWindow
import VertexSwarm.Lib.FloatOrder
import VertexSwarm.Api.Au
import VertexSwarm.Accounting.Peer
import VertexSwarm.Accounting.Ledger
import VertexSwarm.Accounting.Conservation
import VertexSwarm.Accounting.Threshold
import VertexSwarm.Accounting.Bands
import VertexSwarm.Swap.Service
import VertexSwarm.Swap.Receiver
import VertexSwarm.Swap.Issuer
import VertexSwarm.Pseudosettle.Service
import VertexSwarm.Pseudosettle.Allowance
import VertexSwarm.Pseudosettle.Debtor
import VertexSwarm.Postage.StampIndex
import VertexSwarm.Storer.Schema
import VertexSwarm.Storer.Tx
import VertexSwarm.Storer.Store
import VertexSwarm.Storer.Invariant
import VertexSwarm.Storer.Reachable
import VertexSwarm.Storer.Replay
import VertexSwarm.Storer.Footprint
import VertexSwarm.Storer.Evict
import VertexSwarm.Storer.Radius
import VertexSwarm.Storer.Intervals
import VertexSwarm.Storer.Expiry
import VertexSwarm.Pullsync.Range
import VertexSwarm.Pullsync.Puller
import VertexSwarm.Codec.Amount
import VertexSwarm.Redistribution.Sample
import VertexSwarm.Redistribution.Witness
import VertexSwarm.Peers.Index
import VertexSwarm.Peers.Manager
import VertexSwarm.Peers.Bans
import VertexSwarm.Peers.Membership
import VertexSwarm.Peers.Score
import VertexSwarm.Peers.Scored
import VertexSwarm.Topology.Forward
import VertexSwarm.Topology.Limits
import VertexSwarm.Topology.Depth
import VertexSwarm.Topology.Routing
import VertexSwarm.Topology.Trim
import VertexSwarm.Topology.Behaviour
import VertexSwarm.Topology.CandidateQueues
import VertexSwarm.Topology.Candidates
import VertexSwarm.Topology.Phase
import VertexSwarm.Topology.Intake
import VertexSwarm.Net.RateLimiter
import VertexSwarm.Net.PerKey
import VertexSwarm.Net.SelfLimiter
import VertexSwarm.Net.DialTracker
import VertexSwarm.Net.PeerRegistry
import VertexSwarm.Store.BoundedLru
import VertexSwarm.Chain.Index
import VertexSwarm.Chain.Sync
import VertexSwarm.Chain.Follow
import VertexSwarm.Node.StaggeredRace

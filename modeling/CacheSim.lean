import CacheSim.Remove
import CacheSim.Belady
import CacheSim.Merlin.Runs
import CacheSim.Lirs.Charged
import CacheSim.ClockPro.Proofs
import CacheSim.Mq.Proofs
import CacheSim.Pinning
import CacheSim.HashTable.Proofs
import CacheSim.Lcp.RoundTrip
import CacheSim.Trace.RoundTrip
import CacheSim.Session.Belady
import CacheSim.Session.Ghosts
import CacheSim.Session.Order
import CacheSim.Session.Removal
import CacheSim.PartialNode.Preview
import CacheSim.Binary.RoundTrip
import CacheSim.Binary.Positions
import CacheSim.S3fifod.Sizes
import CacheSim.Arc.Bound
import CacheSim.Car.Bound
import CacheSim.WorkloadAware.Victims
import CacheSim.AsymCache.Runs
import CacheSim.SmallQueues
import CacheSim.WTinyLFU.Proofs
import CacheSim.Cacheus.Minimum
import CacheSim.Cacheus.Marks
import CacheSim.Cbf
import CacheSim.Profiler.Distances
import CacheSim.Previews
import CacheSim.SplayTree.Runs
import CacheSim.Shards.Sample
import CacheSim.LeCaR.Bound
import CacheSim.Readers.Counts
import CacheSim.Readers.GoBack
import CacheSim.Ttl
import CacheSim.Lfu.Lfuda
import CacheSim.QueueCache
import CacheSim.FifoMerge
import CacheSim.Gdsf
import CacheSim.LruK.Single

import MountpointS3.Foundations.Run
import MountpointS3.Foundations.SortedDedup
import MountpointS3.Foundations.Prog
import MountpointS3.Foundations.Evict
import MountpointS3.Foundations.Split
import MountpointS3.Foundations.Slice
import MountpointS3.Foundations.Bitmask
import MountpointS3.Foundations.Count
import MountpointS3.Foundations.Bincode
import MountpointS3.Foundations.LinkedHashMap
import MountpointS3.Foundations.Encoding
import MountpointS3.Foundations.Atomic
import MountpointS3.Metablock.Types
import MountpointS3.Metablock.Path
import MountpointS3.Client
import MountpointS3.Superblock.Inode
import MountpointS3.Superblock.HandlesMap
import MountpointS3.Superblock.NegativeCache
import MountpointS3.Superblock.ReaddirIter
import MountpointS3.Superblock.State
import MountpointS3.Superblock.Lookup
import MountpointS3.Superblock.Readdir
import MountpointS3.Superblock.Operations
import MountpointS3.Superblock.Invariant.Heap
import MountpointS3.Superblock.Invariant.Lookup
import MountpointS3.Superblock.Invariant.Consistent
import MountpointS3.Superblock.Invariant.Rename
import MountpointS3.Superblock.Invariant.Calls
import MountpointS3.Superblock.Invariant.Handles
import MountpointS3.Superblock.Invariant.NegativeCache
import MountpointS3.Superblock.Invariant.Remote
import MountpointS3.Memory.Pool
import MountpointS3.Memory.Pages
import MountpointS3.Memory.Bookkeeping
import MountpointS3.Memory.Limiter
import MountpointS3.Prefetch.Part
import MountpointS3.Prefetch.SeekWindow
import MountpointS3.Prefetch.Backpressure
import MountpointS3.Prefetch.CachingStream
import MountpointS3.Prefetch.PartQueue
import MountpointS3.Prefetch.GetObject
import MountpointS3.Prefetch.PartStream
import MountpointS3.Prefetch.Prefetcher
import MountpointS3.Checksums
import MountpointS3.Client.Objects
import MountpointS3.DataCache.Types
import MountpointS3.DataCache.DiskBlock
import MountpointS3.DataCache.Usage
import MountpointS3.DataCache.DiskCache
import MountpointS3.DataCache.Coherence
import MountpointS3.DataCache.Express
import MountpointS3.DataCache.SharedBucket
import MountpointS3.DataCache.Multilevel
import MountpointS3.Mount.Arguments
import MountpointS3.Upload.Atomic

import MountpointS3.Checksums

/-!
# Keys and errors of the data caches

`data_cache.rs` and `object.rs`: a cached block is the block of some index of an object, and the
object is known by its `ObjectId`, its S3 key and its ETag. Both caches, on disk and on S3
Express, report their failures as a `DataCacheError`.
-/

namespace MountpointS3.DataCache

/-- `BlockIndex`. -/
abbrev BlockIndex := UInt64

/-- `ObjectId`: an object's key and its ETag (the string `ETag::as_str` gives). -/
structure ObjectId where
  key : String
  etag : String
  deriving DecidableEq, Repr

/-- `DataCacheError`, without the I/O error an `IoFailure` carries. -/
inductive DataCacheError
  | ioFailure
  | invalidBlockHeader (message : String)
  | invalidBlockChecksum
  | invalidBlockContent
  | invalidBlockOffset
  | evictionFailure
  deriving DecidableEq, Repr

end MountpointS3.DataCache

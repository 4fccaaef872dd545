import Mathlib.Data.List.Basic
import Mathlib.Order.Basic

/-!
# The metablock's core types

The data the file system layer exchanges with a metablock (`metablock.rs` and the modules
`stat.rs`, `expiry.rs`, `error.rs`, `lookup.rs`): inode numbers and kinds, cached stat records
with their expiry, the write status of an inode, open modes and flags, and the error type.

Time is explicit. `Instant::now()` and `OffsetDateTime::now_utc()` are the argument `now : ℕ`
(the monotonic clock, in any unit); an `Expiry` is the instant it runs out, and a stat is valid
while that instant is not before `now`.
-/

namespace MountpointS3.Metablock

/-- Inode numbers (`u64`; the counter that hands them out never wraps in practice). -/
abbrev InodeNo := ℕ

/-- `ROOT_INODE_NO`, the FUSE root inode. -/
def ROOT_INODE_NO : InodeNo := 1

inductive InodeKind
  | file
  | directory
  deriving DecidableEq, Repr

/-- `Expiry`: the instant a cached value runs out. -/
abbrev Expiry := ℕ

/-- `Expiry::from_now`. -/
def Expiry.fromNow (now ttl : ℕ) : Expiry := now + ttl

/-- `Expiry::is_expired`: the expiry instant is strictly before now. -/
def Expiry.isExpired (e : Expiry) (now : ℕ) : Bool := decide (e < now)

/-- `NEVER_EXPIRE_TTL`: 200 years, in the clock's unit the model never reaches. -/
def NEVER_EXPIRE_TTL : ℕ := 200 * 365 * 24 * 60 * 60

/-- `RestoreStatus` of an object in a flexible retrieval storage class. -/
inductive RestoreStatus
  | inProgress
  | restored (expiry : ℕ)
  deriving DecidableEq, Repr

/-- `InodeStat`: the cached attributes of an inode. -/
structure InodeStat where
  expiry : Expiry
  size : ℕ
  mtime : ℕ
  ctime : ℕ
  atime : ℕ
  etag : Option String
  isReadable : Bool
  deriving DecidableEq, Repr

namespace InodeStat

/-- `InodeStat::is_valid`. -/
def isValid (s : InodeStat) (now : ℕ) : Bool := !s.expiry.isExpired now

/-- `InodeStat::update_validity`. -/
def updateValidity (s : InodeStat) (now validity : ℕ) : InodeStat :=
  { s with expiry := Expiry.fromNow now validity }

/-- `InodeStat::is_readable`: objects in GLACIER and DEEP_ARCHIVE are readable only while
restored. -/
def isReadableFor (storageClass : Option String) (restoreStatus : Option RestoreStatus)
    (now : ℕ) : Bool :=
  match storageClass with
  | some "GLACIER" | some "DEEP_ARCHIVE" =>
    match restoreStatus with
    | some (.restored expiry) => decide (now < expiry)
    | _ => false
  | _ => true

/-- `InodeStat::for_file`. -/
def forFile (size datetime : ℕ) (etag : Option String) (storageClass : Option String)
    (restoreStatus : Option RestoreStatus) (validity now : ℕ) : InodeStat where
  expiry := Expiry.fromNow now validity
  size := size
  atime := datetime
  ctime := datetime
  mtime := datetime
  etag := etag
  isReadable := isReadableFor storageClass restoreStatus now

/-- `InodeStat::for_directory`. -/
def forDirectory (datetime validity now : ℕ) : InodeStat where
  expiry := Expiry.fromNow now validity
  size := 0
  atime := datetime
  ctime := datetime
  mtime := datetime
  etag := none
  isReadable := true

@[simp] theorem updateValidity_etag (s : InodeStat) (now v : ℕ) :
    (s.updateValidity now v).etag = s.etag := rfl

@[simp] theorem updateValidity_size (s : InodeStat) (now v : ℕ) :
    (s.updateValidity now v).size = s.size := rfl

@[simp] theorem updateValidity_isReadable (s : InodeStat) (now v : ℕ) :
    (s.updateValidity now v).isReadable = s.isReadable := rfl

end InodeStat

/-- `WriteStatus`: whether an inode's contents are local or in sync with S3. -/
inductive WriteStatus
  /-- Local inode created but not yet opened. -/
  | localUnopened
  /-- Local inode currently opened for writing. -/
  | localOpenForWriting
  /-- Remote inode, with internal state in sync with S3. -/
  | remote
  /-- Originally remote inode now pending a rename (as the source or destination). -/
  | pendingRename
  deriving DecidableEq, Repr

/-- `ReadWriteMode`. -/
inductive ReadWriteMode
  | read
  | write
  deriving DecidableEq, Repr

/-- `WriteMode`: the mount options that allow modifying existing files. -/
structure WriteMode where
  allowOverwrite : Bool
  incrementalUpload : Bool
  deriving DecidableEq, Repr

/-- `WriteMode::is_inode_writable`. -/
def WriteMode.isInodeWritable (m : WriteMode) (isTruncate : Bool) : Bool :=
  m.incrementalUpload || (m.allowOverwrite && isTruncate)

/-- `OpenFlags`, the flags the metablock reads (the bit set of `libc` flags otherwise). -/
structure OpenFlags where
  wronly : Bool
  rdwr : Bool
  append : Bool
  trunc : Bool
  direct : Bool
  deriving DecidableEq, Repr

/-- `OpenFlags::direct_io` (on Linux). -/
def OpenFlags.directIo (f : OpenFlags) : Bool := f.direct

/-- `InodeErrorInfo`: the inode number and partial key an error names. -/
structure InodeErrorInfo where
  ino : InodeNo
  key : String
  deriving DecidableEq, Repr

/-- `InodeError`, with the payload of each variant the superblock builds. A client error keeps
the context message and the key it names. -/
inductive InodeError
  | clientError (context : String) (key : String)
  | fileDoesNotExist (name : String) (parent : InodeErrorInfo)
  | inodeDoesNotExist (ino : InodeNo)
  | invalidFileName (name : String)
  | notADirectory (info : InodeErrorInfo)
  | isDirectory (info : InodeErrorInfo)
  | fileAlreadyExists (info : InodeErrorInfo)
  | inodeNotWritable (info : InodeErrorInfo)
  | inodeInvalidWriteStatus (info : InodeErrorInfo)
  | inodeAlreadyWriting (info : InodeErrorInfo)
  | inodeNotReadableWhileWriting (info : InodeErrorInfo)
  | inodeNotWritableWhileReading (info : InodeErrorInfo)
  | cannotRemoveRemoteDirectory (info : InodeErrorInfo)
  | directoryNotEmpty (info : InodeErrorInfo)
  | unlinkNotPermittedWhileWriting (info : InodeErrorInfo)
  | cannotRenameDirectory (info : InodeErrorInfo)
  | renameNotPermittedWhileWriting (info : InodeErrorInfo)
  | renameDestinationExists (destKey : String) (srcInode : InodeErrorInfo)
  | renameNotSupported
  | nameTooLong (key : String)
  | corruptedMetadata (info : InodeErrorInfo)
  | setAttrNotPermittedOnRemoteInode (info : InodeErrorInfo)
  | staleInode (remoteKey : String) (oldInode newInode : InodeErrorInfo)
  | outOfOrderReadDir (expected actual : Int) (fh : ℕ)
  | noSuchDirHandle (fh : ℕ)
  | flexibleRetrievalObjectNotAccessible (info : InodeErrorInfo)
  deriving DecidableEq, Repr

/-- `AddDirEntryResult`: whether the kernel's reply buffer took an entry. -/
inductive AddDirEntryResult
  | entryAdded
  | replyBufferFull
  deriving DecidableEq, Repr

/-- `PendingUploadHook`, by identity: the run-once future itself lives in the file system
layer, which supplies a fresh identity each time it builds one. -/
abbrev PendingUploadHook := ℕ

/-- `Lookup`: what a metablock call returns about an inode. The location is the inode's
partial key. -/
structure Lookup where
  ino : InodeNo
  stat : InodeStat
  kind : InodeKind
  location : Option String
  deriving DecidableEq, Repr

end MountpointS3.Metablock

import MountpointS3.Foundations.Run
import MountpointS3.Superblock.Readdir

/-!
# The superblock's operations

`impl Metablock for Superblock` in `superblock.rs`, with the helpers it calls
(`start_reading`, `start_writing`, `PendingRenameGuard`), and the superblock as a state machine:
an event is an operation and the world it runs in, `step` runs it.

A `PendingUploadHook` is awaited by `open_handle` and `release_writer` once the inode's lock is
released; its completion calls `finish_writing` from the file system layer. Here each call ends
where the wait starts and returns the hook: the completion is a later `finishWriting` event, and
other events may come in between, as other calls do while one awaits.

Where the source panics (`unreachable!`, `debug_assert!(false)`, `assert!`), the model fails
with `corruptedMetadata` of the inode at hand and changes nothing more.
-/

namespace MountpointS3.Superblock

open Metablock Client Foundations

/-- The `Lookup` a metablock call returns for an inode and a stat. -/
def lookupOf (i : Inode) (stat : InodeStat) : Lookup := ⟨i.ino, stat, i.kind, some i.key⟩

/-- `impl From<LookedUpInode> for Lookup`. -/
def LookedUpInode.toLookup (l : LookedUpInode) : Lookup := lookupOf l.inode l.stat

/-- The open handles after `f`, which also answers. -/
def withHandles {α : Type} (f : InodeHandleMap → α × InodeHandleMap) : SbM α :=
  modifyGet fun s => ((f s.openHandles).1, { s with openHandles := (f s.openHandles).2 })

/-! ## Lookups and attributes -/

/-- `Metablock::lookup`: a reply that hands the inode to the kernel, so it is remembered. -/
def lookup (cfg : Config) (env : Env) (parentIno : InodeNo) (name : String) : SbM Lookup := do
  let lookup ← SuperblockInner.lookupByName cfg env parentIno name
    cfg.cacheConfig.serveLookupFromCache
  SuperblockInner.remember lookup.inode
  pure lookup.toLookup

/-- `Metablock::getattr`. -/
def getattr (cfg : Config) (env : Env) (ino : InodeNo) (forceRevalidateIfRemote : Bool) :
    SbM Lookup :=
  LookedUpInode.toLookup <$> getattrWithInode cfg env ino forceRevalidateIfRemote

/-- `Metablock::setattr`: only a local inode; its stat is renewed, with the new times. -/
def setattr (cfg : Config) (env : Env) (ino : InodeNo) (atime mtime : Option ℕ) : SbM Lookup := do
  let inode ← SuperblockInner.get cfg ino
  let st ← getInodeState inode
  if st.writeStatus = .remote then throw (.setAttrNotPermittedOnRemoteInode inode.err)
  let stat := st.stat.updateValidity env.now (cfg.cacheConfig.validityFor inode.kind)
  let stat := match atime with
    | some t => { stat with atime := t }
    | none => stat
  let stat := match mtime with
    | some t => { stat with mtime := t }
    | none => stat
  modifyInodeState inode fun st => { st with stat := stat }
  pure (lookupOf inode stat)

/-- `Metablock::create`: the name must not exist, remotely or locally; the new inode is local,
unopened, a writing child of its parent, and remembered. -/
def create (cfg : Config) (env : Env) (dir : InodeNo) (name : String) (kind : InodeKind) :
    SbM Lookup := do
  let existing ← tryCatch
    (Except.ok <$> SuperblockInner.lookupByName cfg env dir name cfg.cacheConfig.serveLookupFromCache)
    (fun e => pure (Except.error e))
  match existing with
  | .ok lookup => throw (.fileAlreadyExists lookup.inode.err)
  | .error (.fileDoesNotExist _ _) => pure ()
  | .error e => throw e
  let name ← Prog.fromExcept (ValidName.parseStr name)
  let parent ← SuperblockInner.get cfg dir
  let pst ← getInodeState parent
  match pst.kindData with
  | .file => throw (.notADirectory parent.err)
  | .directory children _ _ =>
    match children.lookup name.name with
    | some inode => throw (.fileAlreadyExists inode.err)
    | none => pure ()
  let s ← getThe State
  let stat := match kind with
    | .file => InodeStat.forFile 0 env.now none none none cfg.cacheConfig.fileTtl env.now
    | .directory => InodeStat.forDirectory s.mountTime cfg.cacheConfig.dirTtl env.now
  let inode ← SuperblockInner.createInodeLocked cfg parent name kind (.new stat kind .localUnopened) true
  SuperblockInner.remember inode
  pure (lookupOf inode stat)

/-! ## Removing -/

/-- `Metablock::rmdir`: only an empty local directory, which is marked deleted and unlinked. -/
def rmdir (cfg : Config) (env : Env) (parentIno : InodeNo) (name : String) : SbM Unit := do
  let inode := (← SuperblockInner.lookupByName cfg env parentIno name
    cfg.cacheConfig.serveLookupFromCache).inode
  if inode.kind = .file then throw (.notADirectory inode.err)
  let parent ← SuperblockInner.get cfg parentIno
  let pst ← getInodeState parent
  let st ← getInodeState inode
  match st.writeStatus with
  | .remote => throw (.cannotRemoveRemoteDirectory inode.err)
  | .localUnopened =>
    match st.kindData with
    | .directory children writingChildren _ =>
      if writingChildren ≠ [] then throw (.directoryNotEmpty inode.err)
      modifyInodeState inode fun st => { st with kindData := .directory children writingChildren true }
    | .file => throw (.corruptedMetadata inode.err)
  | _ => throw (.corruptedMetadata inode.err)
  match pst.kindData with
  | .directory .. =>
    modifyInodeState parent fun st => (st.eraseWritingChild inode.ino).removeChild inode.name
  | .file => throw (.notADirectory parent.err)

/-- `Metablock::unlink`: only a remote file, deleted from S3 and then from its parent, unless
another inode has taken the name meanwhile, whose stat is then invalidated. -/
def unlink (cfg : Config) (env : Env) (parentIno : InodeNo) (name : String) : SbM Unit := do
  let parent ← SuperblockInner.get cfg parentIno
  let inode := (← SuperblockInner.lookupByName cfg env parentIno name
    cfg.cacheConfig.serveLookupFromCache).inode
  if inode.kind = .directory then throw (.isDirectory inode.err)
  let st ← getInodeState inode
  match st.writeStatus with
  | .remote =>
    let s3Key := (SuperblockInner.fullKeyForInode cfg inode).key
    match env.client.deleteObject s3Key with
    | .ok () => pure ()
    | .error _ => throw (.clientError "DeleteObject failed" s3Key)
  | _ => throw (.unlinkNotPermittedWhileWriting inode.err)
  let pst ← getInodeState parent
  match pst.kindData with
  | .file => throw (.notADirectory parent.err)
  | .directory children _ _ =>
    match children.lookup inode.name with
    | some existing =>
      if existing.ino = inode.ino then modifyInodeState parent (·.removeChild inode.name)
      else modifyInodeState existing fun st => { st with stat := st.stat.updateValidity env.now 0 }
    | none => pure ()

/-! ## Rename -/

/-- `PendingRenameGuard::try_transition`: only a remote inode, which becomes `PendingRename`. -/
def tryTransition (i : Inode) : SbM Unit := do
  let st ← getInodeState i
  match st.writeStatus with
  | .remote => modifyInodeState i fun st => { st with writeStatus := .pendingRename }
  | _ => throw (.renameNotPermittedWhileWriting i.err)

/-- The drop of a `PendingRenameGuard` not confirmed: back to `Remote` if still `PendingRename`. -/
def dropGuard (i : Inode) : SbM Unit := do
  let st ← getInodeState i
  if st.writeStatus = .pendingRename then
    modifyInodeState i fun st => { st with writeStatus := .remote }

/-- The part of `rename` after the `RenameObject` succeeded: the source leaves its parent, and a
clone of it, with the same number, takes the destination name and the source's number in the
`InodeMap` (`replace_or_insert`). -/
def renameLocally (cfg : Config) (env : Env) (srcParent dstParent srcInode : Inode)
    (dstParentIno : InodeNo) (dstName : String) (destFullValidName : ValidKey) : SbM Unit := do
  modify fun s => { s with renameSupported := s.renameSupported.orElse fun _ => some true }
  modify fun s => { s with negativeCache := s.negativeCache.remove dstParent.ino dstName }
  -- `RenameLockGuard::new` locks both parents
  let _ ← getInodeState srcParent
  let _ ← getInodeState dstParent
  let spst ← getInodeState srcParent
  match spst.kindData with
  | .file => throw (.notADirectory srcParent.err)
  | .directory .. => modifyInodeState srcParent (·.removeChild srcInode.name)
  let dpst ← getInodeState dstParent
  match dpst.kindData with
  | .file => throw (.notADirectory srcParent.err)
  | .directory .. =>
    let old ← getInodeState srcInode
    let s ← getThe State
    let (newInode, newState) ← Prog.fromExcept (srcInode.tryCloneWithNewKey cfg.crc old s.nextObj
      destFullValidName cfg.pfx cfg.cacheConfig.fileTtl env.now dstParentIno)
    let _ ← modifyGet fun s => s.alloc (fun _ => newInode) newState
    -- the inode replaced at the destination, if any, only matters to a warning
    modifyInodeState dstParent fun st => (st.removeChild dstName).insertChild dstName newInode
    modify (·.replaceOrInsert newInode.ino newInode)

/-- The part of `rename` run while the guards are held: S3 renames the object, then the local
update follows. -/
def renameWithGuards (cfg : Config) (env : Env) (srcParent dstParent srcInode : Inode)
    (dstParentIno : InodeNo) (dstName : String) (allowOverwrite : Bool) : SbM Unit := do
  let srcKey := (SuperblockInner.fullKeyForInode cfg srcInode).key
  let destName ← Prog.fromExcept (ValidName.parseStr dstName)
  let destFullValidName ← match dstParent.validKey.newChild destName .file with
    | .ok k => pure k
    | .error _ => throw (.notADirectory dstParent.err)
  let destKey := cfg.pfx ++ destFullValidName.key
  match env.client.renameObject srcKey destKey allowOverwrite with
  | .ok () => pure ()
  | .error (.serviceError (.preConditionFailed .ifNoneMatch)) =>
    throw (.renameDestinationExists destKey srcInode.err)
  | .error (.serviceError .keyNotFound) => throw (.inodeDoesNotExist srcInode.ino)
  | .error (.serviceError .keyTooLong) => throw (.nameTooLong destKey)
  | .error (.serviceError .notImplementedError) =>
    modify fun s => { s with renameSupported := s.renameSupported.orElse fun _ => some false }
    throw .renameNotSupported
  | .error _ => throw (.clientError "RenameObject failed" srcKey)
  renameLocally cfg env srcParent dstParent srcInode dstParentIno dstName destFullValidName

/-- The part of `rename` holding the source's guard: the destination is looked up (an error
means there is none) and guarded, then `renameWithGuards` runs. -/
def renameGuarded (cfg : Config) (env : Env) (srcParent dstParent srcInode : Inode)
    (dstParentIno : InodeNo) (dstName : String) (allowOverwrite : Bool) : SbM Unit := do
  let destInode ← tryCatch
    (some <$> LookedUpInode.inode <$> SuperblockInner.lookupByName cfg env dstParentIno dstName
      cfg.cacheConfig.serveLookupFromCache)
    (fun _ => pure none)
  match destInode with
  | some d =>
    if !allowOverwrite then
      throw (.renameDestinationExists (SuperblockInner.fullKeyForInode cfg d).key srcInode.err)
    tryTransition d
  | none => pure ()
  -- the destination's guard is dropped first on a failure
  tryCatch (renameWithGuards cfg env srcParent dstParent srcInode dstParentIno dstName allowOverwrite)
    fun e => do
      match destInode with
      | some d => dropGuard d
      | none => pure ()
      throw e

/-- `Metablock::rename`, of a file only, while renames are not known to be unsupported. -/
def rename (cfg : Config) (env : Env) (srcParentIno : InodeNo) (srcName : String)
    (dstParentIno : InodeNo) (dstName : String) (allowOverwrite : Bool) : SbM Unit := do
  let s ← getThe State
  if s.renameSupported = some false then throw .renameNotSupported
  let srcParent ← SuperblockInner.get cfg srcParentIno
  let dstParent ← SuperblockInner.get cfg dstParentIno
  let srcInode := (← SuperblockInner.lookupByName cfg env srcParentIno srcName
    cfg.cacheConfig.serveLookupFromCache).inode
  if srcInode.kind = .directory then throw (.cannotRenameDirectory srcInode.err)
  tryTransition srcInode
  tryCatch (renameGuarded cfg env srcParent dstParent srcInode dstParentIno dstName allowOverwrite)
    fun e => do
      dropGuard srcInode
      throw e

/-! ## Handles -/

/-- `start_reading`: a reader is added unless a writer is active; an inactive writer is dropped
and the inode becomes remote. -/
def startReading (inode : Inode) (st : InodeState) (fh : ℕ) : SbM (Option PendingUploadHook) := do
  match st.writeStatus with
  | .localUnopened => throw (.inodeNotReadableWhileWriting inode.err)
  | _ =>
    if !(← withHandles (·.tryAddReader inode.ino fh)) then
      throw (.inodeNotReadableWhileWriting inode.err)
    if st.writeStatus = .localOpenForWriting then
      modifyInodeState inode fun st => { st with writeStatus := .remote }
    pure st.pendingUploadHook

/-- The closure `setup_inode_for_writing` of `start_writing`. -/
def setupInodeForWriting (inode : Inode) (fh : ℕ) : SbM Unit := do
  match ← withHandles (·.setWriter inode.ino fh) with
  | .error .activeWriter => throw (.inodeAlreadyWriting inode.err)
  | .error .activeReaders => throw (.inodeNotWritableWhileReading inode.err)
  | .ok () => modifyInodeState inode fun st => { st with writeStatus := .localOpenForWriting }

/-- `start_writing`: a new file is written from empty; an existing one only when the mode allows
(truncating empties it); never while pending a rename. -/
def startWriting (inode : Inode) (st : InodeState) (mode : WriteMode) (isTruncate : Bool)
    (fh : ℕ) : SbM (Option PendingUploadHook) := do
  match st.writeStatus with
  | .localUnopened =>
    setupInodeForWriting inode fh
    modifyInodeState inode fun st => { st with stat := { st.stat with size := 0 } }
    pure none
  | .pendingRename => throw (.inodeAlreadyWriting inode.err)
  | _ =>
    if !mode.isInodeWritable isTruncate then throw (.inodeNotWritable inode.err)
    setupInodeForWriting inode fh
    if isTruncate then modifyInodeState inode fun st => { st with stat := { st.stat with size := 0 } }
    pure st.pendingUploadHook

/-- The mode `open_handle` chooses: `O_RDWR` writes a new file, or with truncation or append
when the mount allows it, and reads otherwise. -/
def chooseMode (writeMode : WriteMode) (flags : OpenFlags) (writeStatus : WriteStatus) :
    ReadWriteMode :=
  if flags.rdwr then
    if writeStatus = .localUnopened || (writeMode.allowOverwrite && flags.trunc) ||
        (writeMode.incrementalUpload && flags.append) then .write
    else .read
  else if flags.wronly then .write
  else .read

/-- `Metablock::open_handle` up to the wait on the pending upload: the mode, the hook to await,
and the lookup before the wait. -/
def openHandle (cfg : Config) (env : Env) (ino : InodeNo) (fh : ℕ) (writeMode : WriteMode)
    (flags : OpenFlags) : SbM (ReadWriteMode × Option PendingUploadHook × Lookup) := do
  let force := !cfg.cacheConfig.serveLookupFromCache || flags.directIo
  let lookedUp ← getattrWithInode cfg env ino force
  if lookedUp.inode.kind = .directory then throw (.isDirectory lookedUp.inode.err)
  let mode := chooseMode writeMode flags lookedUp.writeStatus
  if mode = .read ∧ !lookedUp.stat.isReadable then
    throw (.flexibleRetrievalObjectNotAccessible lookedUp.inode.err)
  let inode := lookedUp.inode
  let st ← getInodeState inode
  let hook ← match mode with
    | .read => startReading inode st fh
    | .write => startWriting inode st writeMode flags.trunc fh
  let st ← getInodeState inode
  pure (mode, hook, lookupOf inode st.stat)

/-- `Metablock::inc_file_size`: only while open for writing. -/
def incFileSize (cfg : Config) (ino : InodeNo) (len : ℕ) : SbM ℕ := do
  let inode ← SuperblockInner.get cfg ino
  let st ← getInodeState inode
  if st.writeStatus ≠ .localOpenForWriting then throw (.inodeInvalidWriteStatus inode.err)
  modifyInodeState inode fun st => { st with stat := { st.stat with size := st.stat.size + len } }
  pure (st.stat.size + len)

/-- The ancestors `finish_writing` collects, from `ancestorIno` up to the root or the first
remote one; a number seen twice is the cycle its `assert!` rejects. -/
def collectAncestors (cfg : Config) : ℕ → InodeNo → List InodeNo → SbM (List Inode)
  | 0, ancestorIno, _ => throw (.corruptedMetadata ⟨ancestorIno, ""⟩)
  | fuel + 1, ancestorIno, visited => do
    if ancestorIno ∈ visited then throw (.corruptedMetadata ⟨ancestorIno, ""⟩)
    let ancestor ← SuperblockInner.get cfg ancestorIno
    if ancestor.ino = ROOT_INODE_NO then pure [ancestor]
    else
      let st ← getInodeState ancestor
      if st.writeStatus = .remote then pure [ancestor]
      else (ancestor :: ·) <$> collectAncestors cfg fuel ancestor.parent (ancestorIno :: visited)

/-- The walk of `finish_writing` up the ancestors: each drops the child below it from its
writing children and becomes remote. -/
def markAncestorsRemote : List Inode → InodeNo → SbM Unit
  | [], _ => pure ()
  | ancestor :: rest, childIno => do
    let st ← getInodeState ancestor
    match st.kindData with
    | .file => throw (.corruptedMetadata ancestor.err)
    | .directory .. =>
      modifyInodeState ancestor fun st => { st.eraseWritingChild childIno with writeStatus := .remote }
      markAncestorsRemote rest ancestor.ino

/-- `Metablock::finish_writing`: the end of an upload, with the new etag or none when it failed.
A success makes the inode remote only when `fh` is its writer; a failure makes it remote and
drops all its handles. Either way its local ancestors become remote. -/
def finishWriting (cfg : Config) (env : Env) (ino : InodeNo) (etag : Option String) (fh : ℕ) :
    SbM Lookup := do
  let inode ← SuperblockInner.get cfg ino
  let s ← getThe State
  let ancestors ← collectAncestors cfg (s.nextIno + 1) inode.parent []
  -- the ancestors are locked from the top
  let _ ← ancestors.reverse.mapM getInodeState
  let st ← getInodeState inode
  match st.writeStatus with
  | .localOpenForWriting | .remote =>
    modifyInodeState inode fun st => { st with pendingUploadHook := none }
    match etag with
    | some etag =>
      if ← withHandles (·.tryRemoveWriter ino fh) then
        modifyInodeState inode fun st => { st with writeStatus := .remote }
      modifyInodeState inode fun st =>
        { st with stat := { st.stat with etag := some etag }.updateValidity env.now cfg.cacheConfig.fileTtl }
    | none =>
      modifyInodeState inode fun st => { st with writeStatus := .remote }
      let _ ← withHandles (·.removeInode ino)
      modifyInodeState inode fun st => { st with stat := st.stat.updateValidity env.now 0 }
    markAncestorsRemote ancestors inode.ino
    let st ← getInodeState inode
    pure (lookupOf inode st.stat)
  | _ => throw (.inodeInvalidWriteStatus inode.err)

/-- `Metablock::flush_reader`: the reader becomes inactive. -/
def flushReader (cfg : Config) (ino : InodeNo) (fh : ℕ) : SbM Unit := do
  let inode ← SuperblockInner.get cfg ino
  let _ ← getInodeState inode
  modify fun s => { s with openHandles := s.openHandles.deactivateReader ino fh }

/-- `Metablock::flush_writer`: the writer of a file open for writing becomes inactive, and the
hook given becomes the pending upload unless one is pending already; that hook is returned. -/
def flushWriter (cfg : Config) (ino : InodeNo) (fh : ℕ) (hook : PendingUploadHook) :
    SbM (Option PendingUploadHook) := do
  let inode ← SuperblockInner.get cfg ino
  let st ← getInodeState inode
  match st.writeStatus with
  | .localOpenForWriting =>
    if ← withHandles (·.tryDeactivateWriter ino fh) then
      let pending := st.pendingUploadHook.getD hook
      modifyInodeState inode fun st => { st with pendingUploadHook := some pending }
      pure (some pending)
    else pure none
  | _ => pure none

/-- `Metablock::finish_reading`: the reader is removed. -/
def finishReading (cfg : Config) (ino : InodeNo) (fh : ℕ) : SbM Unit := do
  let inode ← SuperblockInner.get cfg ino
  let _ ← getInodeState inode
  modify fun s => { s with openHandles := s.openHandles.removeReader ino fh }

/-- `Metablock::release_writer` up to the wait: a flush whose failure is ignored. -/
def releaseWriter (cfg : Config) (ino : InodeNo) (fh : ℕ) (hook : PendingUploadHook) :
    SbM (Option PendingUploadHook) :=
  tryCatch (flushWriter cfg ino fh hook) fun _ => pure none

/-- `Metablock::try_reactivate_handle`: a flushed reader or the current writer becomes active
again; a writer's pending upload is dropped. -/
def tryReactivateHandle (cfg : Config) (ino : InodeNo) (fh : ℕ) (mode : ReadWriteMode) :
    SbM Bool := do
  let inode ← SuperblockInner.get cfg ino
  let _ ← getInodeState inode
  match mode with
  | .read => withHandles (·.tryActivateReader ino fh)
  | .write =>
    if ← withHandles (·.tryActivateWriter ino fh) then
      modifyInodeState inode fun st => { st with pendingUploadHook := none }
      pure true
    else pure false

/-- `Metablock::forget`: the lookup count goes down by `n`; at zero the inode leaves the
`InodeMap`, its parent (if the name still holds it, and its writing children) and the open
handles. Forgetting an inode already removed is a no-op in release builds. -/
def forget (ino : InodeNo) (n : ℕ) : SbM Unit := do
  match ← modifyGet fun s => s.decreaseLookupCount ino n with
  | some (some removed) =>
    let s ← getThe State
    match s.inodes removed.parent with
    | some (parent, _) =>
      modifyInodeState parent fun st =>
        let st := match st.child removed.name with
          | some child => if child.ino = ino then st.removeChild removed.name else st
          | none => st
        st.eraseWritingChild ino
    | none => pure ()
    let _ ← withHandles (·.removeInode ino)
  | _ => pure ()

/-! ## The state machine -/

/-- The calls of `Metablock` on a superblock. -/
inductive Op
  | lookup (parent : InodeNo) (name : String)
  | getattr (ino : InodeNo) (forceRevalidateIfRemote : Bool)
  | setattr (ino : InodeNo) (atime mtime : Option ℕ)
  | create (dir : InodeNo) (name : String) (kind : InodeKind)
  | rmdir (parent : InodeNo) (name : String)
  | unlink (parent : InodeNo) (name : String)
  | rename (srcParent : InodeNo) (srcName : String) (dstParent : InodeNo) (dstName : String)
      (allowOverwrite : Bool)
  | openHandle (ino : InodeNo) (fh : ℕ) (writeMode : WriteMode) (flags : OpenFlags)
  | incFileSize (ino : InodeNo) (len : ℕ)
  | finishWriting (ino : InodeNo) (etag : Option String) (fh : ℕ)
  | flushReader (ino : InodeNo) (fh : ℕ)
  | flushWriter (ino : InodeNo) (fh : ℕ) (hook : PendingUploadHook)
  | finishReading (ino : InodeNo) (fh : ℕ)
  | releaseWriter (ino : InodeNo) (fh : ℕ) (hook : PendingUploadHook)
  | tryReactivateHandle (ino : InodeNo) (fh : ℕ) (mode : ReadWriteMode)
  | newReaddirHandle (dirIno : InodeNo) (pageSize : ℕ)
  | readdir (parent : InodeNo) (fh : ℕ) (offset : Int) (isReaddirplus : Bool) (capacity : ℕ)
  | releasedir (fh : ℕ)
  | forget (ino : InodeNo) (n : ℕ)
  deriving DecidableEq, Repr

/-- What a call returns. -/
inductive Reply
  | lookup (l : Lookup)
  | unit
  | handle (mode : ReadWriteMode) (hook : Option PendingUploadHook) (l : Lookup)
  | size (n : ℕ)
  | hook (h : Option PendingUploadHook)
  | active (b : Bool)
  | dirHandle (fh : ℕ)
  | entries (es : List DirectoryEntryReaddir)
  deriving DecidableEq, Repr

/-- A call on the superblock. -/
def exec (cfg : Config) (env : Env) : Op → SbM Reply
  | .lookup parent name => .lookup <$> lookup cfg env parent name
  | .getattr ino force => .lookup <$> getattr cfg env ino force
  | .setattr ino atime mtime => .lookup <$> setattr cfg env ino atime mtime
  | .create dir name kind => .lookup <$> create cfg env dir name kind
  | .rmdir parent name => (fun _ => .unit) <$> rmdir cfg env parent name
  | .unlink parent name => (fun _ => .unit) <$> unlink cfg env parent name
  | .rename sp sn dp dn allowOverwrite => (fun _ => .unit) <$> rename cfg env sp sn dp dn allowOverwrite
  | .openHandle ino fh writeMode flags =>
    (fun (m, h, l) => .handle m h l) <$> openHandle cfg env ino fh writeMode flags
  | .incFileSize ino len => .size <$> incFileSize cfg ino len
  | .finishWriting ino etag fh => .lookup <$> finishWriting cfg env ino etag fh
  | .flushReader ino fh => (fun _ => .unit) <$> flushReader cfg ino fh
  | .flushWriter ino fh hook => .hook <$> flushWriter cfg ino fh hook
  | .finishReading ino fh => (fun _ => .unit) <$> finishReading cfg ino fh
  | .releaseWriter ino fh hook => .hook <$> releaseWriter cfg ino fh hook
  | .tryReactivateHandle ino fh mode => .active <$> tryReactivateHandle cfg ino fh mode
  | .newReaddirHandle dirIno pageSize => .dirHandle <$> newReaddirHandleWithPagesize cfg dirIno pageSize
  | .readdir parent fh offset plus capacity => .entries <$> readdir cfg env parent fh offset plus capacity
  | .releasedir fh => (fun _ => .unit) <$> releasedir fh
  | .forget ino n => (fun _ => .unit) <$> forget ino n

/-- One event: a call and the world it runs in. -/
def step (cfg : Config) (s : State) (e : Env × Op) : State := ((exec cfg e.1 e.2).exec s).2

/-- A local file `f` is created, opened for writing, flushed (so its upload is pending on hook
7), opened for reading (which drops the flushed writer and makes it remote, the read then waiting
on the hook), and unlinked while that wait is on, in an empty bucket. -/
def unlinkDuringUpload : List (Env × Op) :=
  let env : Env := ⟨mockClient [] false, 0, 10⟩
  [(env, .create ROOT_INODE_NO "f" .file),
    (env, .openHandle 2 1 ⟨false, false⟩ ⟨true, false, false, false, false⟩),
    (env, .flushWriter 2 1 7),
    (env, .openHandle 2 2 ⟨false, false⟩ ⟨false, false, false, false, false⟩),
    (env, .unlink ROOT_INODE_NO "f")]

/-- After `unlinkDuringUpload` the root still lists the unlinked inode 2 as a writing child,
while it has no child left. -/
theorem unlink_leaves_writing_child :
    ∃ c, (run (step plainConfig) (State.new plainConfig 0 0) unlinkDuringUpload).heap 0 = some c ∧
      ¬c.state.WritingChildrenSubset := by
  have hw : ((run (step plainConfig) (State.new plainConfig 0 0) unlinkDuringUpload).heap 0).map
      (·.state.writingChildren) = some [2] := by decide +kernel
  have hc : ((run (step plainConfig) (State.new plainConfig 0 0) unlinkDuringUpload).heap 0).map
      (·.state.childEntries) = some [] := by decide +kernel
  cases h : (run (step plainConfig) (State.new plainConfig 0 0) unlinkDuringUpload).heap 0 with
  | none => simp [h] at hw
  | some c =>
    rw [h, Option.map_some, Option.some.injEq] at hw hc
    refine ⟨c, rfl, fun hsub => ?_⟩
    obtain ⟨name, i, hchild, -⟩ := hsub 2 (by simp [hw])
    -- no child at all: the children map is empty
    have hnone : c.state.child name = none := by
      unfold InodeState.childEntries at hc
      unfold InodeState.child
      split at hc
      · rename_i children _ _ _
        have : children.entries = [] := by simpa using hc
        simp [AList.lookup, this]
      · rfl
    rw [hnone] at hchild
    cases hchild

end MountpointS3.Superblock

import MountpointS3.Superblock.State

/-!
# Looking up a name

The lookup path of `SuperblockInner` in `superblock.rs`: the cached answer (`cache_lookup`), the
remote one (`remote_lookup`, a `HeadObject` and a `ListObjectsV2` raced against each other), the
reconciliation of the remote answer with the inode already known under the name
(`update_from_remote`, by `try_update_fast_path` or `update_slow_path`) and the creation of a
child (`create_inode_locked`). `Superblock::getattr_with_inode` sits on top.

Directories shadow files: a name with both an object and a common prefix is a directory, and the
`ListObjectsV2` answer decides a lookup without waiting for the `HeadObject` once it has found
one. Which of the two requests completes first is the remote's choice (`headObjectFirst`).
-/

namespace MountpointS3.Superblock

open Metablock Client Foundations

/-- The validity of a stat of the given kind. -/
def CacheConfig.validityFor (c : CacheConfig) : InodeKind → ℕ
  | .file => c.fileTtl
  | .directory => c.dirTtl

/-- The local state of an inode: not `Remote`, or an upload still pending. -/
def InodeState.hasLocalState (st : InodeState) : Bool :=
  st.writeStatus != .remote || st.pendingUploadHook.isSome

namespace State

/-- `cache_lookup`: the known child of the name when its stat is valid; a failure when the
negative cache holds the name; otherwise no answer. A deleted parent or child gives no answer
(the `?` on `get_inode_state().ok()`). -/
def cacheLookup (cfg : Config) (s : State) (now : ℕ) (parentIno : InodeNo) (name : String) :
    Option (Except InodeError LookedUpInode) :=
  match s.getInode cfg parentIno with
  | .error _ => none
  | .ok parent =>
    match s.inodeState parent with
    | .error _ => none
    | .ok pst =>
      let negative : Option (Except InodeError LookedUpInode) :=
        if s.negativeCache.contains parent.ino name now then
          some (.error (.fileDoesNotExist name parent.err))
        else none
      match pst.child name with
      | some child =>
        match s.inodeState child with
        | .error _ => none
        | .ok cst =>
          if cst.stat.isValid now then some (.ok ⟨child, cst.stat, cst.writeStatus⟩) else negative
      | none => negative

end State

/-! ## The remote lookup -/

/-- Whether a `ListObjectsV2` page for the directory prefix of a name finds the directory: its
first common prefix, or else its first object, starts with the prefix. -/
def foundDirectory (directoryPrefix : String) (r : ListObjectsResult) : Bool :=
  (r.commonPrefixes.head?.map fun p => directoryPrefix.toList.isPrefixOf p.toList).getD false ||
    (r.objects.head?.map fun o => directoryPrefix.toList.isPrefixOf o.key.toList).getD false

/-- The outcome of the `HeadObject` of a remote lookup: the stat of the file, none when not
found, or the error. -/
def headOutcome (cfg : Config) (env : Env) (objectKey : String) :
    Except InodeError (Option InodeStat) :=
  match env.client.headObject objectKey with
  | .ok r => .ok (some (InodeStat.forFile r.size r.lastModified (some r.etag) r.storageClass
      r.restoreStatus cfg.cacheConfig.fileTtl env.now))
  | .error (.serviceError .notFound) => .ok none
  | .error _ => .error (.clientError "HeadObject failed" objectKey)

/-- The outcome of the `ListObjectsV2` of a remote lookup: whether it found a directory. -/
def listOutcome (env : Env) (objectKey directoryPrefix : String) : Except InodeError Bool :=
  match env.client.listObjects none "/" 1 directoryPrefix with
  | .ok r => .ok (foundDirectory directoryPrefix r)
  | .error _ => .error (.clientError "ListObjectsV2 failed" objectKey)

/-- The two rounds of the `select_biased!` loop of `remote_lookup`, in the order the requests
complete. A directory found ends the lookup at once; otherwise the file, if any, with its
validity renewed. -/
def raceLookups (cfg : Config) (env : Env) (mountTime : ℕ) (objectKey directoryPrefix : String) :
    Except InodeError (Option RemoteLookup) :=
  let directory : Option RemoteLookup :=
    some ⟨.directory, InodeStat.forDirectory mountTime cfg.cacheConfig.dirTtl env.now⟩
  let file (fileState : Option InodeStat) : Option RemoteLookup :=
    fileState.map fun st => ⟨.file, st.updateValidity env.now cfg.cacheConfig.fileTtl⟩
  if env.client.headObjectFirst objectKey then
    match headOutcome cfg env objectKey with
    | .error e => .error e
    | .ok fileState =>
      match listOutcome env objectKey directoryPrefix with
      | .error e => .error e
      | .ok true => .ok directory
      | .ok false => .ok (file fileState)
  else
    match listOutcome env objectKey directoryPrefix with
    | .error e => .error e
    | .ok true => .ok directory
    | .ok false =>
      match headOutcome cfg env objectKey with
      | .error e => .error e
      | .ok fileState => .ok (file fileState)

namespace SuperblockInner

/-- `remote_lookup`: the object key is the child's directory key without its `/`. -/
def remoteLookup (cfg : Config) (env : Env) (parentIno : InodeNo) (name : ValidName) : SbM (Option RemoteLookup) := do
  let parent ← get cfg parentIno
  let fullPath ← match (fullKeyForInode cfg parent).newChild name .directory with
    | .ok k => pure k.key
    | .error _ => throw (.notADirectory parent.err)
  let objectKey := String.ofList fullPath.toList.dropLast
  let s ← getThe State
  Prog.fromExcept (raceLookups cfg env s.mountTime objectKey fullPath)

/-! ## Reconciling with the known child -/

/-- `create_inode_locked`: a fresh number and allocation under the parent, replacing (and
dropping from the writing children) the inode known under the name; a new local file becomes a
writing child. -/
def createInodeLocked (cfg : Config) (parent : Inode) (name : ValidName) (kind : InodeKind) (state : InodeState)
    (isNewFile : Bool) : SbM Inode := do
  let key ← match parent.validKey.newChild name kind with
    | .ok k => pure k
    | .error _ => throw (.notADirectory parent.err)
  let nextIno ← modifyGet fun s => (s.nextIno, { s with nextIno := s.nextIno + 1 })
  let inode ← modifyGet fun s =>
    s.alloc (fun obj => Inode.new cfg.crc obj nextIno parent.ino key cfg.pfx) state
  let s ← getThe State
  match ((s.heap parent.obj).map (·.state.kindData) : Option InodeKindData) with
  | some (InodeKindData.directory children _ _) =>
    let existing := children.lookup name.name
    modifyInodeState parent fun st =>
      let st := st.insertChild name.name inode
      let st := if isNewFile then st.insertWritingChild nextIno else st
      match existing with
      | some e => st.eraseWritingChild e.ino
      | none => st
    pure inode
  | _ => throw (.notADirectory parent.err)

/-- `try_update_fast_path`: the known child of the same kind and etag, with nothing local, gets
the remote stat; any other case is left to the slow path. -/
def tryUpdateFastPath (parent : Inode) (name : String) (remote : Option RemoteLookup) :
    SbM (Option LookedUpInode) := do
  let pst ← getInodeState parent
  match remote, pst.child name with
  | none, none => throw (.fileDoesNotExist name parent.err)
  | some remote, some existing =>
    let est ← getInodeState existing
    if remote.kind = existing.kind ∧ !est.hasLocalState ∧ est.stat.etag = remote.stat.etag then
      modifyInodeState existing fun st => { st with stat := remote.stat }
      pure (some ⟨existing, remote.stat, est.writeStatus⟩)
    else pure none
  | _, _ => pure none

/-- `update_slow_path`. A name unknown remotely keeps its local child only while the child is
being written, and is forgotten otherwise. A name known remotely keeps a local child that a
remote file would shadow, updates in place a child of the same kind and etag (turning a local
directory remote), and otherwise gets a fresh inode. -/
def updateSlowPath (cfg : Config) (env : Env) (parent : Inode) (name : ValidName) (remote : Option RemoteLookup) :
    SbM LookedUpInode := do
  let pst ← getInodeState parent
  match remote, pst.child name.name with
  | none, none => throw (.fileDoesNotExist name.name parent.err)
  | none, some existing =>
    if existing.ino ∈ pst.writingChildren then
      let est ← getInodeState existing
      let validity := cfg.cacheConfig.validityFor existing.kind
      modifyInodeState existing fun st => { st with stat := st.stat.updateValidity env.now validity }
      pure ⟨existing, est.stat.updateValidity env.now validity, est.writeStatus⟩
    else
      modifyInodeState parent (·.removeChild name.name)
      throw (.fileDoesNotExist name.name parent.err)
  | some remote, none =>
    let inode ← createInodeLocked cfg parent name remote.kind (.new remote.stat remote.kind .remote) false
    pure ⟨inode, remote.stat, .remote⟩
  | some remote, some existing =>
    let est ← getInodeState existing
    if remote.kind = .file ∧ est.hasLocalState then
      pure ⟨existing, est.stat, est.writeStatus⟩
    else if remote.kind = existing.kind ∧ est.stat.etag = remote.stat.etag ∧
        (!est.hasLocalState ∨ remote.kind = .directory) then
      modifyInodeState existing fun st => { st with stat := remote.stat }
      if remote.kind = .directory ∧ est.hasLocalState then
        -- a local directory has become remote
        modifyInodeState existing fun st => { st with writeStatus := .remote }
        modifyInodeState parent (·.eraseWritingChild existing.ino)
        pure ⟨existing, remote.stat, .remote⟩
      else pure ⟨existing, remote.stat, est.writeStatus⟩
    else
      let inode ← createInodeLocked cfg parent name remote.kind (.new remote.stat remote.kind .remote) false
      pure ⟨inode, remote.stat, .remote⟩

/-- `update_from_remote`: the negative cache follows the remote answer, then the fast path, then
the slow one. -/
def updateFromRemote (cfg : Config) (env : Env) (parentIno : InodeNo) (name : ValidName) (remote : Option RemoteLookup) :
    SbM LookedUpInode := do
  let parent ← get cfg parentIno
  if parent.kind ≠ .directory then throw (.notADirectory parent.err)
  if cfg.cacheConfig.useNegativeCache then
    match remote with
    | some _ => modify fun s => { s with negativeCache := s.negativeCache.remove parentIno name.name }
    | none => modify fun s => { s with negativeCache := s.negativeCache.insert parentIno name.name env.now }
  match ← tryUpdateFastPath parent name.name remote with
  | some lookedUp => pure lookedUp
  | none => updateSlowPath cfg env parent name remote

/-- `lookup_by_name`: from the cache when allowed and it answers, else from the remote; the
answer is checked by `verify_child`. -/
def lookupByName (cfg : Config) (env : Env) (parentIno : InodeNo) (name : String) (allowCache : Bool) : SbM LookedUpInode := do
  let name ← Prog.fromExcept (ValidName.parseStr name)
  let s ← getThe State
  let cached := if allowCache then s.cacheLookup cfg env.now parentIno name.name else none
  let lookup ← match cached with
    | some r => Prog.fromExcept r
    | none => do
      let remote ← remoteLookup cfg env parentIno name
      updateFromRemote cfg env parentIno name remote
  let _ ← Prog.fromExcept (lookup.inode.verifyChild cfg.crc parentIno name.name cfg.pfx)
  pure lookup

end SuperblockInner

/-- `Superblock::getattr_with_inode`: the inode's own stat while it has local state (renewed) or
no revalidation is forced and the stat is valid; otherwise a remote lookup of its name, which must
find the same number. -/
def getattrWithInode (cfg : Config) (env : Env) (ino : InodeNo) (forceRevalidateIfRemote : Bool) :
    SbM LookedUpInode := do
  let inode ← SuperblockInner.get cfg ino
  let st ← getInodeState inode
  let cached ← if st.hasLocalState || !forceRevalidateIfRemote then do
      if st.hasLocalState then
        modifyInodeState inode fun st =>
          { st with stat := st.stat.updateValidity env.now (cfg.cacheConfig.validityFor inode.kind) }
      let st ← getInodeState inode
      pure (if st.stat.isValid env.now then some (⟨inode, st.stat, st.writeStatus⟩ : LookedUpInode)
        else none)
    else pure none
  match cached with
  | some lookedUp => pure lookedUp
  | none =>
    let lookup ← SuperblockInner.lookupByName cfg env inode.parent inode.name false
    if lookup.inode.ino ≠ ino then
      throw (.staleInode (SuperblockInner.fullKeyForInode cfg lookup.inode).key inode.err lookup.inode.err)
    else pure lookup

end MountpointS3.Superblock

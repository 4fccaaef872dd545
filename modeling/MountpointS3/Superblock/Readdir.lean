import MountpointS3.Superblock.Lookup

/-!
# Directory listings

`ReaddirHandle` in `superblock/readdir.rs` and `Superblock::readdir` in `superblock.rs`. A
handle merges the remote listing with a snapshot of the directory's writing children taken when
it is created; the entries it yields become inodes through `update_from_remote`. A `readdir`
call fills a reply of a given capacity (the kernel's buffer), starting with `.` and `..`; an
entry that does not fit is re-added to the handle, and the reply is kept to answer a repeated
offset again.

The directory handles live in the state (`State.dirHandles`); the handle a call works on is
read and written there, so that what a failing call changed stays changed.
-/

namespace MountpointS3.Superblock

open Metablock Client Foundations

namespace ReaddirHandle

/-- `ReaddirHandle::new`: the local entries are the writing children of the directory, sorted;
the merge follows the S3 personality. -/
def new (cfg : Config) (dirIno parentIno : InodeNo) (fullPath : String) (pageSize : ℕ) :
    SbM ReaddirHandle := do
  let inode ← SuperblockInner.get cfg dirIno
  let st ← getInodeState inode
  let localFiles ← match st.kindData with
    | .file => throw (.notADirectory inode.err)
    | .directory _ writingChildren _ => writingChildren.mapM fun ino => do
      let child ← SuperblockInner.get cfg ino
      let cst ← getInodeState child
      pure (ReaddirEntry.localInode ⟨child, cst.stat, cst.writeStatus⟩)
  let localEntries := localFiles.insertionSort ReaddirEntry.le
  let iter := if cfg.isListOrdered then ReaddirIter.ordered (OrderedIter.new fullPath pageSize localEntries)
    else .unordered (UnorderedIter.new fullPath pageSize localEntries)
  pure ⟨dirIno, parentIno, iter, none⟩

/-- `lookup_from_entry`: a local entry as it was snapshotted, a remote one through
`update_from_remote`. -/
def lookupFromEntry (cfg : Config) (env : Env) (dirIno : InodeNo) (entry : ReaddirEntry)
    (name : ValidName) : SbM LookedUpInode := do
  match entry with
  | .localInode lookup => pure lookup
  | .remotePrefix _ =>
    let s ← getThe State
    SuperblockInner.updateFromRemote cfg env dirIno name
      (some ⟨.directory, InodeStat.forDirectory s.mountTime cfg.cacheConfig.dirTtl env.now⟩)
  | .remoteObject _ _ size lastModified storageClass restoreStatus etag =>
    SuperblockInner.updateFromRemote cfg env dirIno name
      (some ⟨.file, InodeStat.forFile size lastModified (some etag) storageClass restoreStatus
        cfg.cacheConfig.fileTtl env.now⟩)

/-- The loop of `ReaddirHandle::next` on the handle of `fh`: entries with an invalid name are
skipped. -/
def nextLoop (cfg : Config) (env : Env) (fh : ℕ) : ℕ → SbM (Option LookedUpInode)
  | 0 => pure none
  | fuel + 1 => do
    let dh ← getDirHandle fh
    match dh.handle.iter.next env.client env.fuel with
    | none => pure none
    | some (r, iter) =>
      modifyDirHandle fh fun dh => { dh with handle := { dh.handle with iter } }
      match r with
      | .error e => throw e
      | .ok none => pure none
      | .ok (some next) =>
        match ValidName.parseStr next.name with
        | .error _ => nextLoop cfg env fh fuel
        | .ok name => some <$> lookupFromEntry cfg env dh.handle.dirIno next name

/-- `ReaddirHandle::next`: the re-added entry first. -/
def next (cfg : Config) (env : Env) (fh : ℕ) : SbM (Option LookedUpInode) := do
  let dh ← getDirHandle fh
  match dh.handle.readded with
  | some readded =>
    modifyDirHandle fh fun dh => { dh with handle := { dh.handle with readded := none } }
    pure (some readded)
  | none => nextLoop cfg env fh env.fuel

end ReaddirHandle

/-- `new_readdir_handle_with_pagesize`: a handle for a directory, registered under the next
id. (`DirHandle::new` is given the parent's number as its unused `ino`.) -/
def newReaddirHandleWithPagesize (cfg : Config) (dirIno : InodeNo) (pageSize : ℕ) : SbM ℕ := do
  let dir ← SuperblockInner.get cfg dirIno
  if dir.kind ≠ .directory then throw (.notADirectory dir.err)
  let dirKey := SuperblockInner.fullKeyForInode cfg dir
  let handle ← ReaddirHandle.new cfg dirIno dir.parent dirKey.key pageSize
  let handleId ← modifyGet fun s => (s.nextDirHandleId, { s with nextDirHandleId := s.nextDirHandleId + 1 })
  let dirHandle : DirHandle := ⟨handle.parentIno, handle, 0, none⟩
  modify fun s => { s with dirHandles := Function.update s.dirHandles handleId (some dirHandle) }
  pure handleId

/-- `Metablock::new_readdir_handle`: pages of 1000 keys. -/
def newReaddirHandle (cfg : Config) (dirIno : InodeNo) : SbM ℕ :=
  newReaddirHandleWithPagesize cfg dirIno 1000

/-- `Metablock::releasedir`. -/
def releasedir (fh : ℕ) : SbM Unit := do
  let _ ← getDirHandle fh
  modify fun s => { s with dirHandles := Function.update s.dirHandles fh none }

/-! ## `readdir` -/

/-- The entry a reply gives for a looked-up inode at the handle's next offset. -/
def DirHandle.entryFor (dh : DirHandle) (name : String) (lookup : LookedUpInode) :
    DirectoryEntryReaddir :=
  ⟨lookup, dh.offset + 1, name, 0⟩

/-- The replay of the last response from `offset` into a reply with `capacity` places: an
entry that fits is counted again for `readdirplus`, except `.` and `..`. -/
def replayEntries (isReaddirplus : Bool) :
    ℕ → List DirectoryEntryReaddir → SbM (List DirectoryEntryReaddir)
  | _, [] => pure []
  | 0, _ => pure []
  | capacity + 1, entry :: rest => do
    if isReaddirplus ∧ entry.name ≠ "." ∧ entry.name ≠ ".." then
      SuperblockInner.remember entry.lookup.inode
    let added ← replayEntries isReaddirplus capacity rest
    pure (entry :: added)

/-- The streaming loop of `readdir` with `capacity` places left: an entry that does not fit is
re-added to the handle; one that fits moves the offset, and is remembered for `readdirplus`. -/
def streamEntries (cfg : Config) (env : Env) (fh : ℕ) (isReaddirplus : Bool) :
    ℕ → SbM (List DirectoryEntryReaddir)
  | 0 => do
    match ← ReaddirHandle.next cfg env fh with
    | none => pure []
    | some next =>
      modifyDirHandle fh fun dh => { dh with handle := { dh.handle with readded := some next } }
      pure []
  | capacity + 1 => do
    match ← ReaddirHandle.next cfg env fh with
    | none => pure []
    | some next =>
      let dh ← getDirHandle fh
      let entry := dh.entryFor next.inode.name next
      if isReaddirplus then SuperblockInner.remember next.inode
      modifyDirHandle fh fun dh => { dh with offset := dh.offset + 1 }
      let rest ← streamEntries cfg env fh isReaddirplus capacity
      pure (entry :: rest)

/-- Add the entry `name` for `ino` at the next offset if the handle is before `bound`, moving
the offset when it fits; `none` when the reply is full. -/
def dotEntry (cfg : Config) (env : Env) (fh : ℕ) (bound : Int) (name : String) (ino : InodeNo)
    (capacity : ℕ) : SbM (Option (List DirectoryEntryReaddir)) := do
  let dh ← getDirHandle fh
  if dh.offset < bound then
    let lookup ← getattrWithInode cfg env ino false
    match capacity with
    | 0 => pure none
    | _ + 1 =>
      modifyDirHandle fh fun dh => { dh with offset := dh.offset + 1 }
      pure (some [dh.entryFor name lookup])
  else pure (some [])

/-- `Metablock::readdir` into a reply with `capacity` places, returning the entries added. An
offset of 0 on a used handle restarts the listing; another offset than the handle's replays the
last response; otherwise `.` and `..` come first, then the handle's entries. The entries added
are kept as the last response. -/
def readdir (cfg : Config) (env : Env) (parent : InodeNo) (fh : ℕ) (offset : Int)
    (isReaddirplus : Bool) (capacity : ℕ) : SbM (List DirectoryEntryReaddir) := do
  let dh ← getDirHandle fh
  if offset = 0 ∧ dh.offset ≠ 0 then
    let dir ← SuperblockInner.get cfg parent
    let newHandle ← ReaddirHandle.new cfg dir.ino dir.parent (SuperblockInner.fullKeyForInode cfg dir).key 1000
    modifyDirHandle fh fun dh => { dh with handle := newHandle, offset := 0, lastResponse := none }
  let dh ← getDirHandle fh
  if offset ≠ dh.offset ∧ 0 < offset then
    match dh.lastResponse with
    | some (lastOffset, entries) =>
      if lastOffset ≤ offset ∧ offset < lastOffset + entries.length then
        replayEntries isReaddirplus capacity (entries.drop (offset - lastOffset).toNat)
      else throw (.outOfOrderReadDir dh.offset offset fh)
    | none => throw (.outOfOrderReadDir dh.offset offset fh)
  else
    let finish (entries : List DirectoryEntryReaddir) : SbM (List DirectoryEntryReaddir) := do
      modifyDirHandle fh fun dh => { dh with lastResponse := some (offset, entries) }
      pure entries
    match ← dotEntry cfg env fh 1 "." parent capacity with
    | none => finish []
    | some dot =>
      match ← dotEntry cfg env fh 2 ".." dh.handle.parentIno (capacity - dot.length) with
      | none => finish dot
      | some dotdot =>
        let rest ← streamEntries cfg env fh isReaddirplus (capacity - dot.length - dotdot.length)
        finish (dot ++ dotdot ++ rest)

/-- A mount of the whole bucket that serves nothing from its caches and lists in order; the
checksum function is any (here a constant). -/
def plainConfig : Config := ⟨"", ⟨false, 1, 1, false, 0, 0⟩, true, fun _ => 0⟩

/-- Listing the root of `OrderedIter.splitListingObjects` in pages of two keys, into a reply with room for
ten entries, gives the name `a` twice: first for the object `a`, then for the directory `a/`. -/
theorem readdir_lists_name_twice :
    (((newReaddirHandleWithPagesize plainConfig ROOT_INODE_NO 2 >>= fun fh =>
        readdir plainConfig ⟨mockClient OrderedIter.splitListingObjects false, 0, 10⟩ ROOT_INODE_NO fh 0 false 10).exec
          (State.new plainConfig 0 0)).1.toOption.map (·.map (·.name))) =
      some [".", "..", "a", "a-", "a"] := by
  decide +kernel

/-- A bucket holding the objects `a` and `b` whose ListObjectsV2 fails for every page past the
first. -/
def failingListingClient : ObjectClient :=
  let client := mockClient [("a", ⟨0, 0, none, none, "e"⟩), ("b", ⟨0, 0, none, none, "e"⟩)] false
  { client with
    listObjects := fun token delimiter maxKeys pfx =>
      if token.isSome then .error .clientError else client.listObjects token delimiter maxKeys pfx }

/-- A readdirplus of the root in pages of one key fails on its second page, and FUSE answers it
with the error alone. The entry for `a` was added and remembered before that page was asked
for, so inode 2 stays in the inode map with lookup count one, though no reply handed it to the
kernel. -/
theorem readdirplus_error_remembers_entry :
    ((newReaddirHandleWithPagesize plainConfig ROOT_INODE_NO 1 >>= fun fh =>
        readdir plainConfig ⟨failingListingClient, 0, 10⟩ ROOT_INODE_NO fh 0 true 10).exec
          (State.new plainConfig 0 0)).map Except.isOk (fun s => (s.inodes 2).map (·.2)) =
      (false, some 1) := by
  decide +kernel

end MountpointS3.Superblock

import MountpointS3.Foundations.Prog
import MountpointS3.Superblock.HandlesMap
import MountpointS3.Superblock.NegativeCache
import MountpointS3.Superblock.ReaddirIter

/-!
# The superblock's state

`SuperblockInner` in `superblock.rs`: the `InodeMap` from inode numbers to inodes and their
lookup counts, the open handles, the negative cache, the rename support cache, the counters, and
the open directory handles. The states of the inodes live in a heap of allocations (`heap`),
since an `Inode` is an `Arc` whose clones share one locked state; `InodeCell` is one allocation.

The operations are programs of `Prog State InodeError`: an operation that fails keeps what it
changed before failing, as the source does. `Config` is what is fixed at mount, `Env` what one
call sees of the world: the remote and the time.

* `State.modifyState`, `State.alloc`: the two ways the heap changes, with their `@[simp]` lemmas;
* `SuperblockInner.get`, `SuperblockInner.remember`: `get` and `remember`, over the `InodeMap`
  operations `insertInode`, `replaceOrInsert`, `increaseLookupCount`, `decreaseLookupCount`.
-/

namespace MountpointS3.Superblock

open Metablock Client Foundations

/-- `CacheConfig`: the fields the superblock reads. -/
structure CacheConfig where
  serveLookupFromCache : Bool
  fileTtl : ℕ
  dirTtl : ℕ
  useNegativeCache : Bool
  negativeCacheTtl : ℕ
  negativeCacheSize : ℕ

/-- What is fixed at mount: the prefix of the `S3Path`, `SuperblockConfig` (its cache
configuration and whether the S3 personality lists in order) and the CRC32C of the checksums. -/
structure Config where
  pfx : String
  cacheConfig : CacheConfig
  isListOrdered : Bool
  crc : List UInt8 → UInt32

/-- What one call sees of the world: the remote and the time. The loops of a listing that may
fetch without end on an adversarial remote (skipping duplicates or invalid names) run at most
`fuel` rounds; past it the listing ends. -/
structure Env where
  client : ObjectClient
  now : ℕ
  fuel : ℕ

/-- `DirectoryEntryReaddir`. -/
structure DirectoryEntryReaddir where
  lookup : LookedUpInode
  offset : Int
  name : String
  generation : ℕ
  deriving DecidableEq, Repr

/-- `ReaddirHandle`. -/
structure ReaddirHandle where
  dirIno : InodeNo
  parentIno : InodeNo
  iter : ReaddirIter
  readded : Option LookedUpInode
  deriving DecidableEq, Repr

/-- `DirHandle`. -/
structure DirHandle where
  ino : InodeNo
  handle : ReaddirHandle
  offset : Int
  lastResponse : Option (Int × List DirectoryEntryReaddir)
  deriving DecidableEq, Repr

/-- One allocation of an inode: its immutable record and the state behind its lock. -/
structure InodeCell where
  inode : Inode
  state : InodeState

/-- `SuperblockInner`, with the heap of inode allocations. -/
structure State where
  heap : ObjId → Option InodeCell
  nextObj : ObjId
  inodes : InodeNo → Option (Inode × ℕ)
  openHandles : InodeHandleMap
  negativeCache : NegativeCache
  renameSupported : Option Bool
  nextIno : InodeNo
  mountTime : ℕ
  dirHandles : ℕ → Option DirHandle
  nextDirHandleId : ℕ

/-- The programs of the superblock. -/
abbrev SbM (α : Type) := Prog State InodeError α

/-- `Inode::new_root`: number and parent 1, the root key, allocated first. -/
def rootInode (cfg : Config) : Inode := Inode.new cfg.crc 0 ROOT_INODE_NO ROOT_INODE_NO ValidKey.root cfg.pfx

/-- `Superblock::new`: the root inode with lookup count 1, the next inode number 2. -/
def State.new (cfg : Config) (mountTime now : ℕ) : State where
  heap := Function.update (fun _ => none) 0 (some ⟨rootInode cfg, Inode.rootState mountTime now⟩)
  nextObj := 1
  inodes := Function.update (fun _ => none) ROOT_INODE_NO (some (rootInode cfg, 1))
  openHandles := ⟨fun _ => none⟩
  negativeCache := .new cfg.cacheConfig.negativeCacheSize cfg.cacheConfig.negativeCacheTtl
  renameSupported := none
  nextIno := 2
  mountTime := mountTime
  dirHandles := fun _ => none
  nextDirHandleId := 1

namespace State

/-! ## The heap -/

/-- Replace the state of the allocation of `i` by `f` of it. -/
def modifyState (s : State) (i : Inode) (f : InodeState → InodeState) : State :=
  { s with heap := Function.update s.heap i.obj ((s.heap i.obj).map fun c => { c with state := f c.state }) }

/-- Allocate an inode built from the fresh identity, with state `st`. -/
def alloc (s : State) (mk : ObjId → Inode) (st : InodeState) : Inode × State :=
  (mk s.nextObj,
    { s with heap := Function.update s.heap s.nextObj (some ⟨mk s.nextObj, st⟩),
             nextObj := s.nextObj + 1 })

@[simp] theorem modifyState_inodes (s : State) (i : Inode) (f : InodeState → InodeState) :
    (s.modifyState i f).inodes = s.inodes := rfl

@[simp] theorem modifyState_openHandles (s : State) (i : Inode) (f : InodeState → InodeState) :
    (s.modifyState i f).openHandles = s.openHandles := rfl

@[simp] theorem modifyState_nextIno (s : State) (i : Inode) (f : InodeState → InodeState) :
    (s.modifyState i f).nextIno = s.nextIno := rfl

@[simp] theorem modifyState_nextObj (s : State) (i : Inode) (f : InodeState → InodeState) :
    (s.modifyState i f).nextObj = s.nextObj := rfl

@[simp] theorem modifyState_dirHandles (s : State) (i : Inode) (f : InodeState → InodeState) :
    (s.modifyState i f).dirHandles = s.dirHandles := rfl

theorem modifyState_heap (s : State) (i : Inode) (f : InodeState → InodeState) (o : ObjId) :
    (s.modifyState i f).heap o =
      if o = i.obj then (s.heap o).map fun c => { c with state := f c.state } else s.heap o := by
  by_cases h : o = i.obj
  · subst h; simp [modifyState]
  · simp [modifyState, h]

@[simp] theorem alloc_inodes (s : State) (mk : ObjId → Inode) (st : InodeState) :
    (s.alloc mk st).2.inodes = s.inodes := rfl

@[simp] theorem alloc_openHandles (s : State) (mk : ObjId → Inode) (st : InodeState) :
    (s.alloc mk st).2.openHandles = s.openHandles := rfl

@[simp] theorem alloc_fst (s : State) (mk : ObjId → Inode) (st : InodeState) :
    (s.alloc mk st).1 = mk s.nextObj := rfl

theorem alloc_heap (s : State) (mk : ObjId → Inode) (st : InodeState) (o : ObjId) :
    (s.alloc mk st).2.heap o = if o = s.nextObj then some ⟨mk s.nextObj, st⟩ else s.heap o := by
  by_cases h : o = s.nextObj
  · subst h; simp [alloc]
  · simp [alloc, h]

/-- The inode of a number, checked by `verify_inode` (`SuperblockInner::get`). -/
def getInode (cfg : Config) (s : State) (ino : InodeNo) : Except InodeError Inode :=
  match s.inodes ino with
  | none => .error (.inodeDoesNotExist ino)
  | some (i, _) => (i.verifyInode cfg.crc ino cfg.pfx).map fun _ => i

/-- The state of an inode, unless it is a deleted directory (`get_inode_state`). An inode whose
allocation is missing does not occur; it fails alike. -/
def inodeState (s : State) (i : Inode) : Except InodeError InodeState :=
  match s.heap i.obj with
  | some c => if c.state.isDeleted then .error (.inodeDoesNotExist i.ino) else .ok c.state
  | none => .error (.inodeDoesNotExist i.ino)

/-! ## The `InodeMap` -/

/-- `InodeMap::insert`. -/
def insertInode (s : State) (ino : InodeNo) (i : Inode) (count : ℕ) : State :=
  { s with inodes := Function.update s.inodes ino (some (i, count)) }

/-- `InodeMap::replace_or_insert`: a present inode is replaced and keeps its count; an absent
one is inserted with count 1. -/
def replaceOrInsert (s : State) (ino : InodeNo) (i : Inode) : State :=
  match s.inodes ino with
  | some (_, count) => s.insertInode ino i count
  | none => s.insertInode ino i 1

/-- `InodeMap::increase_lookup_count`: a present inode keeps its allocation and counts one
more; an absent one is inserted with count 1. -/
def increaseLookupCount (s : State) (i : Inode) : State :=
  match s.inodes i.ino with
  | some (j, count) => s.insertInode i.ino j (count + 1)
  | none => s.insertInode i.ino i 1

/-- `InodeMap::decrease_lookup_count`: the count goes down by `n`, saturating, and the inode is
removed and returned at zero; `none` when it was not there (`InodeMapError::InodeNotFound`). -/
def decreaseLookupCount (s : State) (ino : InodeNo) (n : ℕ) : Option (Option Inode) × State :=
  match s.inodes ino with
  | some (i, count) =>
    if count - n = 0 then (some (some i), { s with inodes := Function.update s.inodes ino none })
    else (some none, s.insertInode ino i (count - n))
  | none => (none, s)

theorem insertInode_inodes (s : State) (ino : InodeNo) (i : Inode) (count : ℕ) (ino' : InodeNo) :
    (s.insertInode ino i count).inodes ino' = if ino' = ino then some (i, count) else s.inodes ino' := by
  by_cases h : ino' = ino
  · subst h; simp [insertInode]
  · simp [insertInode, h]

@[simp] theorem insertInode_heap (s : State) (ino : InodeNo) (i : Inode) (count : ℕ) :
    (s.insertInode ino i count).heap = s.heap := rfl

@[simp] theorem insertInode_openHandles (s : State) (ino : InodeNo) (i : Inode) (count : ℕ) :
    (s.insertInode ino i count).openHandles = s.openHandles := rfl

end State

namespace SuperblockInner

/-- `SuperblockInner::get`. -/
def get (cfg : Config) (ino : InodeNo) : SbM Inode := do
  let s ← getThe State
  Prog.fromExcept (s.getInode cfg ino)

/-- `SuperblockInner::full_key_for_inode`. -/
def fullKeyForInode (cfg : Config) (i : Inode) : ValidKey := i.validKey.fullKey cfg.pfx

/-- `SuperblockInner::remember`. -/
def remember (i : Inode) : SbM Unit := modify (·.increaseLookupCount i)

end SuperblockInner

/-- `Inode::get_inode_state` (and `get_mut_inode_state`). -/
def getInodeState (i : Inode) : SbM InodeState := do
  let s ← getThe State
  Prog.fromExcept (s.inodeState i)

/-- The directory handle `fh` (`dir_handles.get(&fh)`). -/
def getDirHandle (fh : ℕ) : SbM DirHandle := do
  let s ← getThe State
  match s.dirHandles fh with
  | some dh => pure dh
  | none => throw (.noSuchDirHandle fh)

/-- A change to the directory handle `fh`. -/
def modifyDirHandle (fh : ℕ) (f : DirHandle → DirHandle) : SbM Unit :=
  modify fun s => { s with dirHandles := Function.update s.dirHandles fh ((s.dirHandles fh).map f) }

/-- A change to the state of an inode, made while holding its write lock. -/
def modifyInodeState (i : Inode) (f : InodeState → InodeState) : SbM Unit :=
  modify (·.modifyState i f)

end MountpointS3.Superblock

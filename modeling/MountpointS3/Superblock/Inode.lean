import Mathlib
import MountpointS3.Metablock.Path

/-!
# Inodes

`superblock/inode.rs`. An `Inode` is an `Arc` to an immutable record (number, parent, key,
checksum) and a lock around the mutable `InodeState`. Clones of an `Inode` share the state, so
the model splits the two: an `Inode` value is the immutable record together with the identity
`obj` of its allocation, and the superblock keeps the states in a heap indexed by that identity
(`Superblock.State`). Two allocations may carry the same inode number: `rename` builds the
renamed inode as a fresh allocation with the old number (`tryCloneWithNewKey`).

The checksum is CRC32C (`crc32c::Hasher`, from the CRT bindings, whose code is not part of the
repository): it is a parameter `crc` of the functions that compute it. Nothing below depends on
which function it is; `verifyInode_new` holds for every `crc`.
-/

namespace MountpointS3.Superblock

open Metablock

/-- Identity of an `Arc<InodeInner>` allocation. -/
abbrev ObjId := ℕ

/-- The big-endian bytes of a `u64` (`to_be_bytes`). -/
def beBytes64 (n : ℕ) : List UInt8 :=
  (List.range 8).reverse.map fun i => UInt8.ofNat (n / 256 ^ i % 256)

/-- `Inode`: the immutable part of an inode and the identity of its allocation. -/
structure Inode where
  obj : ObjId
  ino : InodeNo
  parent : InodeNo
  validKey : ValidKey
  checksum : UInt32
  deriving DecidableEq, Repr

/-- `InodeKindData`: a file, or a directory with its known children. `children` maps a name to
the inode last seen under it (a `HashMap`, an `AList` here); `writingChildren` is the set of
children created locally and not yet completed (a `HashSet`, kept as a list without
repetitions); `deleted` is set by `rmdir`. -/
inductive InodeKindData
  | file
  | directory (children : AList (fun _ : String => Inode)) (writingChildren : List InodeNo)
      (deleted : Bool)

/-- `InodeKindData::default_for`. -/
def InodeKindData.defaultFor : InodeKind → InodeKindData
  | .file => .file
  | .directory => .directory ∅ [] false

/-- `InodeState`: the mutable state of an inode. -/
structure InodeState where
  stat : InodeStat
  writeStatus : WriteStatus
  kindData : InodeKindData
  pendingUploadHook : Option PendingUploadHook

/-- `InodeState::new`. -/
def InodeState.new (stat : InodeStat) (kind : InodeKind) (writeStatus : WriteStatus) :
    InodeState :=
  ⟨stat, writeStatus, .defaultFor kind, none⟩

/-- `InodeKindData::Directory { deleted: true, .. }`: the check of `get_inode_state`. -/
def InodeState.isDeleted (st : InodeState) : Bool :=
  match st.kindData with
  | .directory _ _ deleted => deleted
  | .file => false

namespace InodeState

/-- The child of a name, in a directory. -/
def child (st : InodeState) (name : String) : Option Inode :=
  match st.kindData with
  | .directory children _ _ => children.lookup name
  | .file => none

/-- The writing children, of a directory. -/
def writingChildren (st : InodeState) : List InodeNo :=
  match st.kindData with
  | .directory _ writingChildren _ => writingChildren
  | .file => []

/-- The entries of a directory's children map. -/
def childEntries (st : InodeState) : List (String × Inode) :=
  match st.kindData with
  | .directory children _ _ => children.entries.map fun e => (e.1, e.2)
  | .file => []

/-- What `writing_children` documents: "a subset of the `children` field". -/
def WritingChildrenSubset (st : InodeState) : Prop :=
  ∀ ino ∈ st.writingChildren, ∃ name i, st.child name = some i ∧ i.ino = ino

/-- Change the children and the writing children of a directory; a file stays as it is. -/
def mapDirectory (st : InodeState)
    (f : AList (fun _ : String => Inode) → AList (fun _ : String => Inode))
    (g : List InodeNo → List InodeNo) : InodeState :=
  match st.kindData with
  | .directory children writingChildren deleted =>
    { st with kindData := .directory (f children) (g writingChildren) deleted }
  | .file => st

/-- `children.insert(name, inode)`. -/
def insertChild (name : String) (i : Inode) (st : InodeState) : InodeState :=
  st.mapDirectory (·.insert name i) id

/-- `children.remove(name)`. -/
def removeChild (name : String) (st : InodeState) : InodeState :=
  st.mapDirectory (·.erase name) id

/-- `writing_children.insert(ino)`. -/
def insertWritingChild (ino : InodeNo) (st : InodeState) : InodeState :=
  st.mapDirectory id (List.insert ino)

/-- `writing_children.remove(ino)`. -/
def eraseWritingChild (ino : InodeNo) (st : InodeState) : InodeState :=
  st.mapDirectory id (·.erase ino)

end InodeState

namespace Inode

def name (i : Inode) : String := i.validKey.name

def kind (i : Inode) : InodeKind := i.validKey.kind

def key (i : Inode) : String := i.validKey.key

/-- `Inode::err`. -/
def err (i : Inode) : InodeErrorInfo := ⟨i.ino, i.key⟩

/-- `Inode::compute_checksum`: CRC32C of the inode number, the prefix and the key. -/
def computeChecksum (crc : List UInt8 → UInt32) (ino : InodeNo) (pfx key : String) : UInt32 :=
  crc (beBytes64 ino ++ pfx.toUTF8.toList ++ key.toUTF8.toList)

/-- `Inode::new`, allocated at `obj`. -/
def new (crc : List UInt8 → UInt32) (obj : ObjId) (ino parent : InodeNo) (key : ValidKey)
    (pfx : String) : Inode :=
  ⟨obj, ino, parent, key, computeChecksum crc ino pfx key.key⟩

/-- The state `Inode::new_root` allocates: a remote directory that never expires. -/
def rootState (mountTime now : ℕ) : InodeState :=
  ⟨InodeStat.forDirectory mountTime NEVER_EXPIRE_TTL now, .remote, .defaultFor .directory, none⟩

/-- `Inode::verify_inode`. -/
def verifyInode (crc : List UInt8 → UInt32) (i : Inode) (expectedIno : InodeNo) (pfx : String) :
    Except InodeError Unit :=
  if computeChecksum crc i.ino pfx i.key = i.checksum ∧ i.ino = expectedIno then .ok ()
  else .error (.corruptedMetadata i.err)

/-- `Inode::verify_child`. -/
def verifyChild (crc : List UInt8 → UInt32) (i : Inode) (expectedParent : InodeNo)
    (expectedName : String) (pfx : String) : Except InodeError Unit :=
  if computeChecksum crc i.ino pfx i.key = i.checksum ∧ i.parent = expectedParent ∧
      i.name = expectedName then .ok ()
  else .error (.corruptedMetadata i.err)

/-- `Inode::try_clone_with_new_key`, given the state of the inode cloned: a file inode with the
same number under a new key and parent, remote, keeping size, access time and etag. -/
def tryCloneWithNewKey (crc : List UInt8 → UInt32) (i : Inode) (old : InodeState) (obj : ObjId)
    (newKey : ValidKey) (pfx : String) (newValidity now : ℕ) (newParent : InodeNo) :
    Except InodeError (Inode × InodeState) :=
  if i.kind ≠ .file then .error (.isDirectory i.err)
  else if old.isDeleted then .error (.inodeDoesNotExist i.ino)
  else
    .ok (new crc obj i.ino newParent newKey pfx,
      ⟨InodeStat.forFile old.stat.size old.stat.atime old.stat.etag none none newValidity now,
        .remote, .defaultFor .file, none⟩)

@[simp] theorem new_ino (crc : List UInt8 → UInt32) (obj : ObjId) (ino parent : InodeNo)
    (key : ValidKey) (pfx : String) : (new crc obj ino parent key pfx).ino = ino := rfl

@[simp] theorem new_obj (crc : List UInt8 → UInt32) (obj : ObjId) (ino parent : InodeNo)
    (key : ValidKey) (pfx : String) : (new crc obj ino parent key pfx).obj = obj := rfl

@[simp] theorem new_parent (crc : List UInt8 → UInt32) (obj : ObjId) (ino parent : InodeNo)
    (key : ValidKey) (pfx : String) : (new crc obj ino parent key pfx).parent = parent := rfl

@[simp] theorem new_validKey (crc : List UInt8 → UInt32) (obj : ObjId) (ino parent : InodeNo)
    (key : ValidKey) (pfx : String) : (new crc obj ino parent key pfx).validKey = key := rfl

/-- An inode built by `new` passes `verify_inode` at its own number. -/
theorem verifyInode_new (crc : List UInt8 → UInt32) (obj : ObjId) (ino parent : InodeNo)
    (key : ValidKey) (pfx : String) : (new crc obj ino parent key pfx).verifyInode crc ino pfx = .ok () := by
  simp [verifyInode, new, Inode.key]

theorem tryCloneWithNewKey_ok {crc : List UInt8 → UInt32} {i : Inode} {old : InodeState}
    {obj : ObjId} {newKey : ValidKey} {pfx : String} {v now : ℕ} {p : InodeNo}
    {r : Inode × InodeState} (h : i.tryCloneWithNewKey crc old obj newKey pfx v now p = .ok r) :
    i.kind = .file ∧ r.1 = new crc obj i.ino p newKey pfx ∧ r.2.writeStatus = .remote ∧
      r.2.kindData = .file ∧ r.2.pendingUploadHook = none := by
  unfold tryCloneWithNewKey at h
  split_ifs at h with h₁ h₂
  cases h
  exact ⟨not_not.1 h₁, rfl, rfl, rfl, rfl⟩

end Inode

/-- `RemoteLookup`: what S3 says about a name. -/
structure RemoteLookup where
  kind : InodeKind
  stat : InodeStat
  deriving DecidableEq, Repr

/-- `LookedUpInode`: an inode with a snapshot of its stat and write status. (The `S3Path` it also
carries is the superblock's, fixed for a mount.) -/
structure LookedUpInode where
  inode : Inode
  stat : InodeStat
  writeStatus : WriteStatus
  deriving DecidableEq, Repr

end MountpointS3.Superblock

import Mathlib.Data.List.Lex
import Mathlib.Data.List.Sort
import Mathlib.Data.Char
import MountpointS3.Foundations.SortedDedup
import MountpointS3.Client
import MountpointS3.Superblock.Inode

/-!
# The iterators of a directory listing

`superblock/readdir.rs` below `ReaddirHandle`: the entries of a listing before inodes exist for
them, their order, the paginated remote iterator and the two merges with the local entries
(`ordered` for S3, `unordered` for S3 Express One Zone). A method on `&mut self` returning a
`Result` is a function returning the result and the iterator after the call: an error keeps what
the call changed before failing, as the source does.

The loop of `ordered::ReaddirIter::next` goes round once per duplicate it skips and each round
may fetch a page: it runs on `fuel`, and `none` means the fuel ran out.

* `RemoteIter.next` re-sorts each page on its own (`pageEntries`), not the listing as a whole.
* `OrderedIter.next` merges the remote and local peeks, the remote one first on a tie, and drops
  an entry whose name is the name of the last entry it returned.
-/

namespace MountpointS3.Superblock

open Metablock Client Foundations

/-- `ReaddirEntry`: an entry of a listing, not yet an inode. -/
inductive ReaddirEntry
  | remotePrefix (name : String)
  | remoteObject (name fullKey : String) (size lastModified : ℕ) (storageClass : Option String)
      (restoreStatus : Option RestoreStatus) (etag : String)
  | localInode (lookup : LookedUpInode)
  deriving DecidableEq, Repr

/-- `ReaddirEntryKind`, in the order of its derived `Ord`. -/
inductive ReaddirEntryKind
  | remotePrefix
  | remoteObject
  | localInode
  deriving DecidableEq, Repr

/-- The position of a kind in the derived order. -/
def ReaddirEntryKind.rank : ReaddirEntryKind → ℕ
  | .remotePrefix => 0
  | .remoteObject => 1
  | .localInode => 2

namespace ReaddirEntry

def name : ReaddirEntry → String
  | remotePrefix name => name
  | remoteObject name .. => name
  | localInode lookup => lookup.inode.name

def kind : ReaddirEntry → ReaddirEntryKind
  | remotePrefix .. => .remotePrefix
  | remoteObject .. => .remoteObject
  | localInode .. => .localInode

/-- `Ord for ReaddirEntry`: by name (as characters, which orders like the UTF-8 bytes Rust
compares), then by kind. -/
def le (a b : ReaddirEntry) : Prop :=
  KeyRankLE (fun e : ReaddirEntry => e.name.toList) (fun e => e.kind.rank) a b

instance : DecidableRel le := fun a b =>
  inferInstanceAs (Decidable (KeyRankLE (fun e : ReaddirEntry => e.name.toList) (·.kind.rank) a b))

end ReaddirEntry

/-! ## `RemoteIter` -/

/-- `RemoteIterState`. -/
inductive RemoteIterState
  | inProgress (token : Option String)
  | finished
  deriving DecidableEq, Repr

/-- `RemoteIter` (the bucket is the superblock's, and the client is for that bucket). -/
structure RemoteIter where
  entries : List ReaddirEntry
  fullPath : String
  pageSize : ℕ
  state : RemoteIterState
  ordered : Bool
  deriving DecidableEq, Repr

/-- `RemoteIter::new`. -/
def RemoteIter.new (fullPath : String) (pageSize : ℕ) (ordered : Bool) : RemoteIter :=
  ⟨[], fullPath, pageSize, .inProgress none, ordered⟩

/-- The entries of one page: the common prefixes with the listed path and the trailing `/` cut
off, then the objects with the listed path cut off; sorted (stably) when the listing is
ordered. Keys start with the listed path, so cutting its characters cuts its bytes. -/
def pageEntries (fullPath : String) (ordered : Bool) (r : ListObjectsResult) :
    List ReaddirEntry :=
  let prefixes := r.commonPrefixes.map fun p =>
    ReaddirEntry.remotePrefix (String.ofList (p.toList.drop fullPath.length).dropLast)
  let objects := r.objects.map fun o =>
    ReaddirEntry.remoteObject (String.ofList (o.key.toList.drop fullPath.length)) o.key o.size
      o.lastModified o.storageClass o.restoreStatus o.etag
  if ordered then (prefixes ++ objects).insertionSort ReaddirEntry.le else prefixes ++ objects

/-- `RemoteIter::next`. When no entry is left it takes the continuation token (so a failed
request restarts the listing) and fetches one page; an empty page ends the stream for this
call. -/
def RemoteIter.next (client : ObjectClient) (it : RemoteIter) :
    Except InodeError (Option ReaddirEntry) × RemoteIter :=
  match it.entries with
  | e :: es => (.ok (some e), { it with entries := es })
  | [] =>
    match it.state with
    | .finished => (.ok none, it)
    | .inProgress token =>
      let it := { it with state := .inProgress none }
      match client.listObjects token "/" it.pageSize it.fullPath with
      | .error _ => (.error (.clientError "ListObjectsV2 failed" it.fullPath), it)
      | .ok r =>
        let state := match r.nextContinuationToken with
          | some t => RemoteIterState.inProgress (some t)
          | none => .finished
        match pageEntries it.fullPath it.ordered r with
        | [] => (.ok none, { it with state })
        | e :: es => (.ok (some e), { it with state, entries := es })

/-! ## The ordered merge -/

/-- `ordered::ReaddirIter`. `localEntries` is its `LocalIter`, the sorted local entries. -/
structure OrderedIter where
  remote : RemoteIter
  localEntries : List ReaddirEntry
  nextRemote : Option ReaddirEntry
  nextLocal : Option ReaddirEntry
  lastEntry : Option ReaddirEntry
  deriving DecidableEq, Repr

/-- `ordered::ReaddirIter::new`. -/
def OrderedIter.new (fullPath : String) (pageSize : ℕ) (localEntries : List ReaddirEntry) :
    OrderedIter :=
  ⟨RemoteIter.new fullPath pageSize true, localEntries, none, none, none⟩

namespace OrderedIter

/-- First step of a round: refill the remote peek if it is empty. -/
def refillRemote (client : ObjectClient) (it : OrderedIter) :
    Except InodeError Unit × OrderedIter :=
  if it.nextRemote.isNone then
    match it.remote.next client with
    | (.error e, remote) => (.error e, { it with remote })
    | (.ok e, remote) => (.ok (), { it with remote, nextRemote := e })
  else (.ok (), it)

/-- Second step of a round: refill the local peek if it is empty. -/
def refillLocal (it : OrderedIter) : OrderedIter :=
  if it.nextLocal.isNone then
    match it.localEntries with
    | [] => it
    | e :: es => { it with localEntries := es, nextLocal := some e }
  else it

/-- Third step of a round: take the smaller peek, the remote one when they are equal. -/
def take (it : OrderedIter) : Option ReaddirEntry × OrderedIter :=
  match it.nextRemote, it.nextLocal with
  | some remote, some loc =>
    if ReaddirEntry.le remote loc then (some remote, { it with nextRemote := none })
    else (some loc, { it with nextLocal := none })
  | some remote, none => (some remote, { it with nextRemote := none })
  | none, _ => (it.nextLocal, { it with nextLocal := none })

/-- One round of the loop of `next`: `some r` returns `r`, `none` skips a duplicate and goes
round again. -/
def nextRound (client : ObjectClient) (it : OrderedIter) :
    Except InodeError (Option (Option ReaddirEntry)) × OrderedIter :=
  match refillRemote client it with
  | (.error e, it) => (.error e, it)
  | (.ok (), it) =>
    match take (refillLocal it) with
    | (some entry, it) =>
      match it.lastEntry with
      | some last =>
        if last.name = entry.name then (.ok none, it)
        else (.ok (some (some entry)), { it with lastEntry := some entry })
      | none => (.ok (some (some entry)), { it with lastEntry := some entry })
    | (none, it) => (.ok (some none), it)

/-- `ordered::ReaddirIter::next`, with at most `fuel` rounds. -/
def next (client : ObjectClient) : ℕ → OrderedIter →
    Option (Except InodeError (Option ReaddirEntry) × OrderedIter)
  | 0, _ => none
  | fuel + 1, it =>
    match nextRound client it with
    | (.error e, it) => some (.error e, it)
    | (.ok none, it) => next client fuel it
    | (.ok (some r), it) => some (.ok r, it)

/-- The entries returned by up to `n` successive calls of `next`, up to the end of the stream,
an error or a call that runs out of fuel. -/
def stream (client : ObjectClient) (fuel : ℕ) : ℕ → OrderedIter → List ReaddirEntry
  | 0, _ => []
  | n + 1, it =>
    match it.next client fuel with
    | some (.ok (some e), it) => e :: stream client fuel n it
    | _ => []

/-- A bucket with the objects `a`, `a-` and `a/b`. Listed from the root with pages of two keys,
its first page holds the objects `a` and `a-` and its second the common prefix `a/`: S3 lists
`a/` after `a-`, since `-` sorts before `/`. -/
def splitListingObjects : List (String × MockObject) :=
  [("a", ⟨0, 0, none, none, "e"⟩), ("a-", ⟨0, 0, none, none, "e"⟩),
    ("a/b", ⟨0, 0, none, none, "e"⟩)]

/-- The ordered merge over that bucket returns `a`, `a-`, then `a` again: each page is sorted on
its own, and the trimmed prefix `a` of the second page sorts before the `a-` already returned. -/
theorem ordered_stream_repeats_name :
    ((OrderedIter.new "" 2 []).stream (mockClient splitListingObjects false) 4 4).map
      ReaddirEntry.name = ["a", "a-", "a"] := by
  decide +kernel

end OrderedIter

/-! ## The unordered merge -/

/-- `unordered::ReaddirIter`. `localMap` is the `HashMap` from names to local entries, listed in
the order its `drain` yields them. -/
structure UnorderedIter where
  remote : RemoteIter
  localMap : List (String × ReaddirEntry)
  localIter : List ReaddirEntry
  deriving DecidableEq, Repr

/-- `unordered::ReaddirIter::new`: a later local entry of a name replaces an earlier one. -/
def UnorderedIter.new (fullPath : String) (pageSize : ℕ) (localEntries : List ReaddirEntry) :
    UnorderedIter :=
  ⟨RemoteIter.new fullPath pageSize false,
    localEntries.foldl (fun m e => (m.filter (·.1 ≠ e.name)) ++ [(e.name, e)]) [], []⟩

/-- `unordered::ReaddirIter::next`: the remote entries first, each removing the local entry of
its name, then the local entries left. -/
def UnorderedIter.next (client : ObjectClient) (it : UnorderedIter) :
    Except InodeError (Option ReaddirEntry) × UnorderedIter :=
  match it.remote.next client with
  | (.error e, remote) => (.error e, { it with remote })
  | (.ok (some r), remote) =>
    (.ok (some r), { it with remote, localMap := it.localMap.filter (·.1 ≠ r.name) })
  | (.ok none, remote) =>
    match it.localIter ++ it.localMap.map (·.2) with
    | [] => (.ok none, { it with remote, localMap := [], localIter := [] })
    | e :: es => (.ok (some e), { it with remote, localMap := [], localIter := es })

/-- `ReaddirIter`: the merge for the S3 personality. -/
inductive ReaddirIter
  | ordered (it : OrderedIter)
  | unordered (it : UnorderedIter)
  deriving DecidableEq, Repr

/-- `ReaddirIter::next`. -/
def ReaddirIter.next (client : ObjectClient) (fuel : ℕ) :
    ReaddirIter → Option (Except InodeError (Option ReaddirEntry) × ReaddirIter)
  | .ordered it => (it.next client fuel).map fun (r, it) => (r, .ordered it)
  | .unordered it => match it.next client with
    | (r, it) => some (r, .unordered it)

end MountpointS3.Superblock

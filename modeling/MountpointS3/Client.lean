import Mathlib
import MountpointS3.Metablock.Types

/-!
# The object client

The part of `mountpoint_s3_client::ObjectClient` the superblock calls, as data: the results of
`ListObjectsV2` and `HeadObject`, and the errors the superblock tells apart. An `ObjectClient` is
the remote as one call sees it: a function per request. Requests by other clients between two
calls are a change of this record.

`MockClient` is the S3 the reference tests run against; its ordered `list_objects` is modelled
here in full, since it decides where the pages of a listing split.

* `MockClient.listObjectsOrdered` walks the keys in order from the continuation token and stops
  at the first key past `max_keys`, unless that key rolls up into the common prefix in progress.
-/

namespace MountpointS3.Client

open Metablock

/-- `ObjectInfo`: one object of a `ListObjectsV2` page. -/
structure ObjectInfo where
  key : String
  size : ℕ
  lastModified : ℕ
  storageClass : Option String
  restoreStatus : Option RestoreStatus
  etag : String
  deriving DecidableEq, Repr

/-- `ListObjectsResult`: one page of a listing. -/
structure ListObjectsResult where
  objects : List ObjectInfo
  commonPrefixes : List String
  nextContinuationToken : Option String
  deriving DecidableEq, Repr

/-- `HeadObjectResult`. -/
structure HeadObjectResult where
  size : ℕ
  lastModified : ℕ
  etag : String
  storageClass : Option String
  restoreStatus : Option RestoreStatus
  deriving DecidableEq, Repr

/-- `HeadObjectError`: HeadObject cannot tell a missing bucket from a missing key. -/
inductive HeadObjectError
  | notFound
  deriving DecidableEq, Repr

/-- `RenamePreconditionTypes`. -/
inductive RenamePreconditionTypes
  | ifMatch
  | ifNoneMatch
  | other
  deriving DecidableEq, Repr

/-- `RenameObjectError`. -/
inductive RenameObjectError
  | noSuchBucket
  | keyTooLong
  | keyNotFound
  | preConditionFailed (t : RenamePreconditionTypes)
  | notImplementedError
  | internalError
  | accessDenied
  | badRequest
  deriving DecidableEq, Repr

/-- `ObjectClientError`: a service error of the request, or a failure of the client itself. -/
inductive ObjectClientError (E : Type)
  | serviceError (e : E)
  | clientError
  deriving DecidableEq, Repr

/-- The remote as one superblock call sees it. `listObjects token delimiter maxKeys prefix`
answers `ListObjectsV2`; `renameObject src dst` answers a `RenameObject` with
`if-none-match: *` set when overwriting is not allowed (the `Bool` is `allow_overwrite`).
`headObjectFirst key` says which of the two concurrent requests of a remote lookup of `key`
completes first: the superblock races them with `select_biased!`. -/
structure ObjectClient where
  listObjects : Option String → String → ℕ → String →
    Except (ObjectClientError Unit) ListObjectsResult
  headObject : String → Except (ObjectClientError HeadObjectError) HeadObjectResult
  deleteObject : String → Except (ObjectClientError Unit) Unit
  renameObject : String → String → Bool → Except (ObjectClientError RenameObjectError) Unit
  headObjectFirst : String → Bool

/-! ## `MockClient` -/

/-- The fields of a `MockObject` a listing reports. -/
structure MockObject where
  size : ℕ
  lastModified : ℕ
  storageClass : Option String
  restoreStatus : Option RestoreStatus
  etag : String
  deriving DecidableEq, Repr

/-- `str::split_once` on characters: the parts before and after the first occurrence of
`d`. -/
def splitOnce (d : List Char) : List Char → Option (List Char × List Char)
  | [] => if d = [] then some ([], []) else none
  | c :: s =>
    if d.isPrefixOf (c :: s) then some ([], (c :: s).drop d.length)
    else (splitOnce d s).map fun (pre, post) => (c :: pre, post)

/-- The state of the loop of `list_objects_ordered`. -/
structure ListAcc where
  commonPrefixes : List String
  objects : List ObjectInfo
  nextContinuationToken : Option String
  currentCommonPrefix : Option String

/-- The object of `key` as a listing reports it. -/
def MockObject.info (key : String) (o : MockObject) : ObjectInfo :=
  ⟨key, o.size, o.lastModified, o.storageClass, o.restoreStatus, o.etag⟩

/-- The loop of `list_objects_ordered` over the keys from the continuation token on. A `break`
returns the accumulator; the characters of a key are its `chars()`. -/
def listObjectsOrderedLoop (delimiter : Option String) (maxKeys : ℕ) (pfx : String) :
    List (String × MockObject) → ListAcc → ListAcc
  | [], acc => acc
  | (key, o) :: rest, acc =>
    let keyPrefix := key.toList.take pfx.length
    -- past every key that starts with the prefix
    if pfx.toList < keyPrefix then acc
    else if !pfx.toList.isPrefixOf key.toList then listObjectsOrderedLoop delimiter maxKeys pfx rest acc
    else
      let rollUp : Bool := match acc.currentCommonPrefix with
        | some ccp => ccp.toList.isPrefixOf key.toList
        | none => false
      if maxKeys ≤ acc.commonPrefixes.length + acc.objects.length ∧ rollUp then
        listObjectsOrderedLoop delimiter maxKeys pfx rest acc
      else if maxKeys ≤ acc.commonPrefixes.length + acc.objects.length then
        { acc with nextContinuationToken := some key }
      else
        match delimiter.bind fun d => splitOnce d.toList (key.toList.drop pfx.length) with
        | some (pre, _) =>
          let commonPrefix := pfx ++ String.ofList pre ++ delimiter.getD ""
          if commonPrefix ∈ acc.commonPrefixes then listObjectsOrderedLoop delimiter maxKeys pfx rest acc
          else listObjectsOrderedLoop delimiter maxKeys pfx rest
            { acc with commonPrefixes := acc.commonPrefixes ++ [commonPrefix],
                       currentCommonPrefix := some commonPrefix }
        | none => listObjectsOrderedLoop delimiter maxKeys pfx rest
            { acc with objects := acc.objects ++ [o.info key] }

/-- `MockClient::list_objects_ordered`. `objects` is the `BTreeMap` of the bucket in key order;
the listing starts at the first key not below the continuation token, and the `BTreeSet` of
common prefixes is returned sorted. -/
def listObjectsOrdered (objects : List (String × MockObject)) (continuationToken : Option String)
    (delimiter : String) (maxKeys : ℕ) (pfx : String) : ListObjectsResult :=
  let delimiter := if delimiter.isEmpty then none else some delimiter
  let start := objects.dropWhile fun e => e.1.toList < (continuationToken.getD "").toList
  let acc := listObjectsOrderedLoop delimiter maxKeys pfx start ⟨[], [], none, none⟩
  { objects := acc.objects
    commonPrefixes := acc.commonPrefixes.insertionSort fun a b => a.toList ≤ b.toList
    nextContinuationToken := acc.nextContinuationToken }

/-- `MockClient::head_object` on the bucket's objects. -/
def headObjectOf (objects : List (String × MockObject)) (key : String) :
    Except (ObjectClientError HeadObjectError) HeadObjectResult :=
  match objects.lookup key with
  | some o => .ok ⟨o.size, o.lastModified, o.etag, o.storageClass, o.restoreStatus⟩
  | none => .error (.serviceError .notFound)

/-- `MockClient::rename_object`: refused when renames are disabled, for a destination key over
1024 bytes, for an existing destination when overwriting is not allowed, and for a missing
source. -/
def renameObjectOf (objects : List (String × MockObject)) (enableRename : Bool)
    (src dst : String) (allowOverwrite : Bool) : Except (ObjectClientError RenameObjectError) Unit :=
  if !enableRename then .error (.serviceError .notImplementedError)
  else if 1024 < dst.utf8ByteSize then .error (.serviceError .keyTooLong)
  else if (objects.lookup dst).isSome && !allowOverwrite then
    .error (.serviceError (.preConditionFailed .ifNoneMatch))
  else if (objects.lookup src).isNone then .error (.serviceError .keyNotFound)
  else .ok ()

/-- A `MockClient` holding `objects`, with ordered listings. Its requests complete at once, so
the biased select of a lookup takes the HeadObject first. -/
def mockClient (objects : List (String × MockObject)) (enableRename : Bool) : ObjectClient where
  listObjects token delimiter maxKeys pfx :=
    .ok (listObjectsOrdered objects token delimiter maxKeys pfx)
  headObject := headObjectOf objects
  deleteObject _ := .ok ()
  renameObject := renameObjectOf objects enableRename
  headObjectFirst _ := true

end MountpointS3.Client

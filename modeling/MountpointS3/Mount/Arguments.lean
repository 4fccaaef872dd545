import MountpointS3.Foundations.Escaped
import MountpointS3.Foundations.Slice
import MountpointS3.Foundations.Split
import MountpointS3.Metablock.Path

/-!
# The mount's arguments: the S3 URI and the fstab options

`s3/path.rs`: the bucket named on the command line is checked, and an `s3://` URI is split into a
bucket and a prefix. `fstab.rs` (of the `mount-s3` binary): the options field of an fstab entry,
a comma-separated list with backslash escapes read by `split_commas`, becomes long options of the
command line.

* `parse_s3_uri_iff`: `parse_s3_uri` accepts exactly `s3://bucket/prefix`, and `s3://bucket` for
  the empty prefix, for a bucket name of 3 to 255 bytes of letters, digits, `-`, `.` and `_`, and
  returns that bucket and prefix;
* `splitLoop_spec`: the loop of `split_commas`, with its slices of the string, reads what the
  decoder of `Foundations.Escaped` reads;
* `split_commas_round_trip`: `split_commas` reads every nonempty list back from its escaped,
  comma-joined form, and every field it accepts is that form of what it returns.
-/

namespace MountpointS3.Mount

open Foundations Metablock

/-! ## Buckets and S3 URIs -/

/-- `S3PathError`. -/
inductive S3PathError
  | expectedS3URI
  | invalidBucketName
  | invalidBucketNameS3URI
  | invalidBucketLength
  | prefixError (e : PrefixError)
  deriving DecidableEq, Repr

/-- The texts the errors display. -/
def S3PathError.message : S3PathError → String
  | .expectedS3URI => "expected an S3 URI"
  | .invalidBucketName =>
    "the bucket must have a valid name (only letters, numbers, . and -) or a valid ARN"
  | .invalidBucketNameS3URI =>
    "the bucket must have a valid name (only letters, numbers, . and -). ARNs are not supported in s3:// URIs"
  | .invalidBucketLength => "bucket names must be 3-255 characters long"
  | .prefixError .missingFinalDelimiter => "invalid bucket prefix: prefix must end in \x27/\x27"

/-- A character of the class `[0-9a-zA-Z\-\._]`. -/
def isBucketChar (c : Char) : Bool := c.isAlphanum || c == '-' || c == '.' || c == '_'

/-- `matches_bucket_regex`: the whole name matches `^[0-9a-zA-Z\-\._]+$`. -/
def matchesBucketRegex (bucketName : String) : Bool :=
  !bucketName.toList.isEmpty && bucketName.toList.all isBucketChar

/-- `starts_with("arn:")`. -/
def isArn (bucketName : String) : Bool := "arn:".toList.isPrefixOf bucketName.toList

/-- `Bucket`: a name of 3 to 255 bytes, as `validate_bucket_length` checks, that matches the regex
or is an ARN. -/
structure Bucket where
  name : String
  valid : ¬(name.utf8ByteSize < 3 ∨ name.utf8ByteSize > 255) ∧
    (matchesBucketRegex name || isArn name) = true

/-- `Bucket::new`, with `validate_bucket_length` first. -/
def Bucket.new (bucketName : String) : Except S3PathError Bucket :=
  if hlen : bucketName.utf8ByteSize < 3 ∨ bucketName.utf8ByteSize > 255 then .error .invalidBucketLength
  else if h : (matchesBucketRegex bucketName || isArn bucketName) = true then .ok ⟨bucketName, hlen, h⟩
  else .error .invalidBucketName

/-- `S3Path`: a bucket and a prefix in it. -/
structure S3Path where
  bucket : Bucket
  pfx : Prefix

/-- `S3Path::parse_s3_uri`. -/
def S3Path.parseS3Uri (s3Uri : String) : Except S3PathError S3Path :=
  match s3Uri.toList.dropPrefix? "s3://".toList with
  | none => .error .expectedS3URI
  | some bucketPrefix =>
    let (bucket, prefixStr) :=
      match splitOnce bucketPrefix '/' with
      | some (bucket, prefixStr) => (bucket, prefixStr)
      | none => (bucketPrefix, [])
    match Bucket.new (String.ofList bucket) with
    | .error e => .error e
    | .ok bucket =>
      if isArn bucket.name then .error .invalidBucketNameS3URI
      else
        match Prefix.new (String.ofList prefixStr) with
        | .error e => .error (.prefixError e)
        | .ok pfx => .ok ⟨bucket, pfx⟩

/-- `S3Path::bucket_description`. -/
def S3Path.bucketDescription (self : S3Path) : String :=
  if self.pfx.path.isEmpty then "bucket " ++ self.bucket.name
  else "prefix " ++ self.pfx.path ++ " of bucket " ++ self.bucket.name

/-! ### What `parse_s3_uri` accepts -/

theorem matchesBucketRegex_iff (name : String) :
    matchesBucketRegex name = true ↔ name.toList ≠ [] ∧ ∀ c ∈ name.toList, isBucketChar c = true := by
  simp [matchesBucketRegex]

theorem slash_not_mem_of_matchesBucketRegex {name : String} (h : matchesBucketRegex name = true) :
    '/' ∉ name.toList := fun hmem =>
  absurd ((matchesBucketRegex_iff name).1 h |>.2 '/' hmem) (by decide)

theorem isArn_of_matchesBucketRegex {name : String} (h : matchesBucketRegex name = true) :
    isArn name = false := by
  rw [isArn, Bool.eq_false_iff]
  intro harn
  obtain ⟨rest, hrest⟩ := List.isPrefixOf_iff_prefix.1 harn
  have hcolon : ':' ∈ name.toList := by
    rw [← hrest]
    exact List.mem_append_left _ (by decide)
  exact absurd ((matchesBucketRegex_iff name).1 h |>.2 ':' hcolon) (by decide)

theorem Bucket.new_eq_ok_iff {name : String} {bucket : Bucket} :
    Bucket.new name = .ok bucket ↔ bucket.name = name := by
  constructor
  · intro h
    unfold Bucket.new at h
    split_ifs at h
    cases h
    rfl
  · rintro rfl
    obtain ⟨hlen, hvalid⟩ := bucket.valid
    simp only [Bucket.new, dif_neg hlen, dif_pos hvalid]

theorem Prefix.new_eq_ok_iff {s : String} {p : Prefix} : Prefix.new s = .ok p ↔ p.path = s := by
  constructor
  · intro h
    unfold Prefix.new at h
    split_ifs at h
    cases h
    rfl
  · rintro rfl
    simp only [Prefix.new, dif_pos p.valid]

private theorem dropPrefix_s3 (rest : List Char) : ("s3://".toList ++ rest).dropPrefix? "s3://".toList = some rest :=
  List.dropPrefix?_append_of_beq rest (beq_self_eq_true _)

/-- What `parse_s3_uri` accepts is `s3://`, a bucket name that matches the regex, and `/` and the
prefix or, for the empty prefix, nothing more. -/
theorem S3Path.parseS3Uri_sound {s3Uri : String} {path : S3Path} (h : S3Path.parseS3Uri s3Uri = .ok path) :
    matchesBucketRegex path.bucket.name = true ∧
      (s3Uri = "s3://" ++ path.bucket.name ++ "/" ++ path.pfx.path ∨
        path.pfx.path = "" ∧ s3Uri = "s3://" ++ path.bucket.name) := by
  unfold S3Path.parseS3Uri at h
  split at h
  · cases h
  rename_i bucketPrefix hdrop
  obtain ⟨p', hs, hp'⟩ := List.dropPrefix?_eq_some_iff.1 hdrop
  rw [beq_iff_eq] at hp'
  subst hp'
  split at h
  rename_i b p hbp
  split at h
  · cases h
  rename_i bucket hbucket
  split_ifs at h with harn
  split at h
  · cases h
  rename_i pfx hpfx
  cases h
  have hname := Bucket.new_eq_ok_iff.1 hbucket
  have hpath := Prefix.new_eq_ok_iff.1 hpfx
  have hre : matchesBucketRegex bucket.name = true := by
    have := bucket.valid.2
    simpa [harn] using this
  -- the bucket and the prefix are the two sides of the first slash, or the whole and nothing
  have hshape : bucketPrefix = b ++ '/' :: p ∨ p = [] ∧ b = bucketPrefix := by
    split at hbp
    · rename_i b' p' hsome
      cases hbp
      exact .inl (eq_of_splitOnce hsome).1
    · cases hbp
      exact .inr ⟨rfl, rfl⟩
  refine ⟨hre, ?_⟩
  rcases hshape with rfl | ⟨rfl, rfl⟩
  · left
    rw [← String.toList_inj]
    simp [hs, hname, hpath]
  · right
    refine ⟨by simp [hpath], ?_⟩
    rw [← String.toList_inj]
    simp [hs, hname]

theorem S3Path.parseS3Uri_with_prefix (path : S3Path) (hre : matchesBucketRegex path.bucket.name = true) :
    S3Path.parseS3Uri ("s3://" ++ path.bucket.name ++ "/" ++ path.pfx.path) = .ok path := by
  have hs : ("s3://" ++ path.bucket.name ++ "/" ++ path.pfx.path).toList =
      "s3://".toList ++ (path.bucket.name.toList ++ '/' :: path.pfx.path.toList) := by
    simp
  simp only [S3Path.parseS3Uri, hs, dropPrefix_s3,
    splitOnce_append_cons (slash_not_mem_of_matchesBucketRegex hre), String.ofList_toList,
    Bucket.new_eq_ok_iff.2 rfl, isArn_of_matchesBucketRegex hre, Bool.false_eq_true, if_false,
    Prefix.new_eq_ok_iff.2 rfl]

theorem S3Path.parseS3Uri_without_prefix (path : S3Path) (hre : matchesBucketRegex path.bucket.name = true)
    (hempty : path.pfx.path = "") : S3Path.parseS3Uri ("s3://" ++ path.bucket.name) = .ok path := by
  have hs : ("s3://" ++ path.bucket.name).toList = "s3://".toList ++ path.bucket.name.toList := by
    simp
  have hnone := splitOnce_eq_none_iff.2 (slash_not_mem_of_matchesBucketRegex hre)
  simp only [S3Path.parseS3Uri, hs, dropPrefix_s3, hnone, String.ofList_toList, String.ofList_nil,
    Bucket.new_eq_ok_iff.2 rfl, isArn_of_matchesBucketRegex hre, Bool.false_eq_true, if_false,
    Prefix.new_eq_ok_iff.2 hempty]

/-- **`parse_s3_uri` accepts exactly the well-formed URIs.** A URI is read as a bucket and a prefix
exactly when it is `s3://` followed by a bucket name of letters, digits, `-`, `.` and `_`, then
`/` and the prefix, or nothing more for the empty prefix. -/
theorem parse_s3_uri_iff (s3Uri : String) (path : S3Path) :
    S3Path.parseS3Uri s3Uri = .ok path ↔
      matchesBucketRegex path.bucket.name = true ∧
        (s3Uri = "s3://" ++ path.bucket.name ++ "/" ++ path.pfx.path ∨
          path.pfx.path = "" ∧ s3Uri = "s3://" ++ path.bucket.name) := by
  refine ⟨S3Path.parseS3Uri_sound, ?_⟩
  rintro ⟨hre, rfl | ⟨hempty, rfl⟩⟩
  · exact S3Path.parseS3Uri_with_prefix path hre
  · exact S3Path.parseS3Uri_without_prefix path hre hempty

/-! ## The options field of an fstab entry -/

/-- The errors of `split_commas`: a character after a backslash that it does not escape, with the
byte offset of that character; a quote that is not escaped, with its byte offset; a backslash at
the end. -/
inductive SplitCommasError
  | unexpectedAfterBackslash (char : Char) (idx : ℕ)
  | unexpectedQuote (idx : ℕ)
  | unexpectedEnd
  deriving DecidableEq, Repr

/-- The texts of the errors. -/
def SplitCommasError.message : SplitCommasError → String
  | .unexpectedAfterBackslash char idx =>
    "Unexpected character after backslash escape - found " ++ char.toString ++ " at index " ++ toString idx
  | .unexpectedQuote idx =>
    "Unexpected \x27\"\x27 found at index " ++ toString idx ++ " - perhaps you meant to escape it with \\"
  | .unexpectedEnd => "Unexpected end of string after \x27\\\x27"

/-- The characters a backslash escapes. -/
def escapable (c : Char) : Bool := c == ',' || c == '"' || c == '\\'

/-- The variables of the loop of `split_commas`. -/
structure SplitState where
  unescaped : List (List Char)
  currentArg : List Char
  lastWasBackslash : Bool
  prevIdx : ℕ

/-- The loop of `split_commas` over `string.char_indices()`, from the character at position `pos`,
at byte offset `idx`. Positions count characters: every slice the loop takes starts or ends next
to a comma or a backslash, one byte each, so it is the slice the byte offsets give. -/
def splitLoop (string : List Char) : List Char → ℕ → ℕ → SplitState →
    Except SplitCommasError SplitState
  | [], _, _, st => .ok st
  | char :: rest, pos, idx, st =>
    let checked : Except SplitCommasError SplitState :=
      if st.lastWasBackslash then
        if escapable char then
          .ok { st with
            currentArg := st.currentArg ++ (string.drop st.prevIdx).take (pos - 1 - st.prevIdx)
            prevIdx := pos }
        else .error (.unexpectedAfterBackslash char idx)
      else if char = ',' then
        .ok { st with
          unescaped := st.unescaped ++ [st.currentArg ++ (string.drop st.prevIdx).take (pos - st.prevIdx)]
          currentArg := []
          prevIdx := pos + 1 }
      else if char = '"' then .error (.unexpectedQuote idx)
      else .ok st
    match checked with
    | .error e => .error e
    | .ok st =>
      splitLoop string rest (pos + 1) (idx + char.utf8Size)
        { st with lastWasBackslash := !st.lastWasBackslash && char == '\\' }

/-- The end of `split_commas`, after its loop: a backslash left over, or the last argument. -/
def splitEnd (string : List Char) (st : SplitState) : Except SplitCommasError (List String) :=
  if st.lastWasBackslash then .error .unexpectedEnd
  else .ok ((st.unescaped ++ [st.currentArg ++ string.drop st.prevIdx]).map String.ofList)

/-- `split_commas`: a comma-separated list, in which a backslash escapes a comma, a quote or a
backslash. -/
def splitCommas (string : String) : Except SplitCommasError (List String) :=
  (splitLoop string.toList string.toList 0 0 ⟨[], [], false, 0⟩).bind (splitEnd string.toList)

/-- A list written as `split_commas` reads it: each escapable character escaped, the pieces
joined by commas. -/
def joinCommas (args : List String) : String :=
  String.ofList (Escaped.join ',' '\\' escapable (args.map String.toList))

/-! ### `split_commas` reads the escaped format -/

/-- One more character of the string extends the slice that ends before it. -/
private theorem take_succ_of_drop {s rest : List Char} {c : Char} {prev pos : ℕ} (hprev : prev ≤ pos)
    (hrest : s.drop pos = c :: rest) :
    (s.drop prev).take (pos + 1 - prev) = (s.drop prev).take (pos - prev) ++ [c] := by
  have h := take_drop_append_take_drop s prev (pos - prev) 1
  rw [Nat.add_sub_cancel' hprev, hrest] at h
  rw [show pos + 1 - prev = pos - prev + 1 by omega, ← h]
  rfl

/-- The loop, then the code after it, reads what the decoder reads, from the piece the loop has
between its accumulated argument and the slice not yet pushed: up to the current position, or up
to the backslash before it. -/
theorem splitLoop_spec (s : List Char) : ∀ (rest : List Char) (pos idx : ℕ) (st : SplitState),
    s.drop pos = rest → st.prevIdx + st.lastWasBackslash.toNat ≤ pos →
    ((splitLoop s rest pos idx st).bind (splitEnd s)).toOption =
    (Escaped.decodeFrom ',' '\\' escapable rest st.lastWasBackslash st.unescaped
      (st.currentArg ++ (s.drop st.prevIdx).take (pos - st.lastWasBackslash.toNat - st.prevIdx))).map
      (List.map String.ofList) := by
  intro rest
  induction rest with
  | nil =>
    intro pos idx st hrest hprev
    cases hb : st.lastWasBackslash with
    | true => simp [splitLoop, splitEnd, hb, Except.bind, Except.toOption, Escaped.decodeFrom]
    | false =>
      -- the string is read to its end: the slice not yet pushed is the rest of it
      have hlen : s.length ≤ pos := List.drop_eq_nil_iff.1 hrest
      rw [List.take_of_length_le (by rw [List.length_drop]; simp only [Bool.toNat_false]; omega)]
      simp [splitLoop, splitEnd, hb, Except.bind, Except.toOption, Escaped.decodeFrom]
  | cons c rest ih =>
    intro pos idx st hrest hprev
    have hnext : s.drop (pos + 1) = rest := by
      rw [← List.drop_drop, hrest]
      rfl
    cases hb : st.lastWasBackslash with
    | true =>
      rw [hb, Bool.toNat_true] at hprev
      by_cases hc : escapable c = true
      · -- an escaped character: the slice before the backslash is pushed, the character starts the next
        simp only [splitLoop, hb, if_true, hc]
        rw [ih (pos + 1) _ _ hnext (by simp)]
        simp only [Bool.not_true, Bool.false_and, Bool.toNat_false, Bool.toNat_true, Nat.sub_zero,
          Nat.add_sub_cancel_left, hrest, Escaped.decodeFrom, hc, if_true, List.append_assoc]
        rfl
      · simp [splitLoop, hb, hc, Except.bind, Except.toOption, Escaped.decodeFrom]
    | false =>
      rw [hb, Bool.toNat_false, Nat.add_zero] at hprev
      by_cases hcomma : c = ','
      · -- a comma: the argument is pushed, and the next starts after it
        subst hcomma
        simp only [splitLoop, hb, Bool.false_eq_true, if_false, if_true]
        rw [ih (pos + 1) _ _ hnext (by simp)]
        simp [Escaped.decodeFrom]
      by_cases hquote : c = '"'
      · subst hquote
        simp [splitLoop, hb, Except.bind, Except.toOption, Escaped.decodeFrom, escapable]
      by_cases hback : c = '\\'
      · -- a backslash: nothing is pushed, and the next character decides
        subst hback
        simp only [splitLoop, hb, Bool.false_eq_true, if_false, hcomma, hquote]
        rw [ih (pos + 1) _ _ hnext (by simp; omega)]
        simp [Escaped.decodeFrom]
      · -- any other character is written on in the current argument
        have hc : escapable c = false := by simp [escapable, hcomma, hquote, hback]
        have hbeq : (c == '\\') = false := beq_false_of_ne hback
        simp only [splitLoop, hb, Bool.false_eq_true, if_false, hcomma, hquote, Bool.not_false,
          Bool.true_and, hbeq]
        rw [ih (pos + 1) _ _ hnext (by simp; omega)]
        simp [Escaped.decodeFrom, hcomma, hback, hc, take_succ_of_drop hprev hrest]

theorem splitCommas_toOption (string : String) :
    (splitCommas string).toOption =
      (Escaped.decode ',' '\\' escapable string.toList).map (List.map String.ofList) := by
  have h := splitLoop_spec string.toList string.toList 0 0 ⟨[], [], false, 0⟩ rfl (Nat.le_refl 0)
  simpa [splitCommas, Escaped.decode] using h

private theorem eq_ok_of_toOption {e : Except SplitCommasError (List String)} {a : List String}
    (h : e.toOption = some a) : e = .ok a := by
  cases e with
  | error => cases h
  | ok b =>
    cases h
    rfl

/-- **`split_commas` reads exactly the escaped format.** Every nonempty list is read back from its
escaped, comma-joined form, and every field `split_commas` accepts is that form of what it reads. -/
theorem split_commas_round_trip :
    (∀ args : List String, args ≠ [] → splitCommas (joinCommas args) = .ok args) ∧
    (∀ (string : String) (args : List String), splitCommas string = .ok args → joinCommas args = string) := by
  have hdistinct : ',' ≠ '\\' := by decide
  constructor
  · intro args hargs
    apply eq_ok_of_toOption
    rw [splitCommas_toOption, joinCommas, String.toList_ofList,
      Escaped.decode_join hdistinct (by decide) (by decide) _ (by simpa using hargs), Option.map_some,
      List.map_map]
    simp only [Function.comp_def, String.ofList_toList, List.map_id']
  · intro string args h
    have hopt := splitCommas_toOption string
    rw [h] at hopt
    obtain ⟨pieces, hdecode, hargs⟩ := Option.map_eq_some_iff.1 hopt.symm
    rw [joinCommas, ← hargs, List.map_map]
    simp only [Function.comp_def, String.toList_ofList, List.map_id']
    rw [Escaped.join_of_decode hdecode, String.ofList_toList]

theorem split_commas_round_trip_escaped_comma :
    splitCommas (joinCommas ["user_id=1,2", "allow-other"]) = .ok ["user_id=1,2", "allow-other"] :=
  split_commas_round_trip.1 _ (by decide)

end MountpointS3.Mount

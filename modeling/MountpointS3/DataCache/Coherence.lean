import MountpointS3.DataCache.DiskCache

/-!
# What the disk cache serves

A block file holds what `write_block` wrote at the last successful put of its block key: the
cache version, the encoded header and the bytes. `read_block` accepts it only for the object,
index and offset its header names, so a `get_block` hit serves the bytes of the last successful
put of that very block, with a checksum that is right exactly when the put's was. A put of
another object whose key hashes alike replaces the file; the first object's blocks are then
rejected, never served from it. This holds for every limit, the available-space limit with
whatever `statvfs` reports among them, and whatever eviction removes or fails to remove.

* `readBlock_writeBlock`: what `read_block` accepts of a block file `put_block` wrote;
* `putBlock_cases`: the block files a put leaves;
* `Coherent`, `Coherent.step`, `Coherent.run`: every block file is the last put of its key;
* `Coherent.hit`: a hit serves the last put of its block.
-/

namespace MountpointS3.DataCache

open Foundations Checksums

/-- A put of an object whose key and ETag, and of bytes whose length, a `usize` holds. -/
def PutRepresentable (cacheKey : ObjectId) (bytes : ChecksummedBytes) : Prop :=
  cacheKey.key.utf8ByteSize < 2 ^ 64 ∧ cacheKey.etag.utf8ByteSize < 2 ^ 64 ∧ bytes.len < 2 ^ 64

instance (cacheKey : ObjectId) (bytes : ChecksummedBytes) : Decidable (PutRepresentable cacheKey bytes) :=
  inferInstanceAs (Decidable (_ ∧ _ ∧ _))

/-- A call whose object key, ETag and bytes have lengths that a `usize` holds. -/
def CacheEvent.Representable : CacheEvent → Prop
  | .getBlock .. => True
  | .putBlock cacheKey _ _ bytes _ => PutRepresentable cacheKey bytes

instance : DecidablePred CacheEvent.Representable := fun e =>
  match e with
  | .getBlock .. => isTrue trivial
  | .putBlock cacheKey _ _ bytes _ => inferInstanceAs (Decidable (PutRepresentable cacheKey bytes))

/-! ## Reading a written block file -/

section Read

variable {crc : Crc} {blockSize : UInt64}

theorem bufferSlice_newFromInnerData (bytes : List UInt8) (checksum : UInt32) :
    (ChecksummedBytes.newFromInnerData bytes checksum).bufferSlice = bytes := by
  simp [ChecksummedBytes.newFromInnerData, ChecksummedBytes.bufferSlice]

/-- `read_block` accepts the file of a put only for the object, index and offset of the put, and
then returns the bytes put, with a checksum right exactly when the put's was. -/
theorem readBlock_writeBlock {cacheKey : ObjectId} {blockIdx : BlockIndex} {blockOffset : UInt64}
    {bytes : ChecksummedBytes} {block : DiskBlock}
    (hnew : DiskBlock.new crc cacheKey blockIdx blockOffset bytes = .ok block)
    (hkey : cacheKey.key.utf8ByteSize < 2 ^ 64) (hetag : cacheKey.etag.utf8ByteSize < 2 ^ 64)
    (hlen : bytes.len < 2 ^ 64) {cacheKey' : ObjectId} {blockIdx' : BlockIndex} {blockOffset' : UInt64}
    {hit : ChecksummedBytes}
    (h : readBlock crc blockSize (some (writeBlock block).1) cacheKey' blockIdx' blockOffset' = .ok (some hit)) :
    cacheKey' = cacheKey ∧ blockIdx' = blockIdx ∧ blockOffset' = blockOffset ∧
      hit.bufferSlice = bytes.bufferSlice ∧ (hit.Sound crc ↔ bytes.Sound crc) := by
  unfold DiskBlock.new at hnew
  split at hnew
  · cases hnew
  rename_i data dataChecksum hinner
  cases hnew
  set header := DiskBlockHeader.new crc blockIdx blockOffset data.length cacheKey.etag cacheKey.key dataChecksum
  have hfile : (writeBlock ⟨header, data⟩).1 = cacheVersion ++ header.encode ++ data := by
    simp [writeBlock, DiskBlock.write]
  have hdata : data.length = bytes.len := ChecksummedBytes.length_intoInner hinner
  rw [hfile] at h
  by_cases hfit : encodedLength header.etag header.s3Key ≤ bincodeHeaderMaxSize
  · rw [readBlock_encode crc blockSize data hfit] at h
    -- the header claims the length of the bytes, which a `u64` holds
    have hblockLen : header.blockLen.toNat = data.length := by
      simp only [header, DiskBlockHeader.new, UInt64.toNat_ofNat']
      exact Nat.mod_eq_of_lt (by omega)
    split_ifs at h with hbig hshort hmatch
    obtain ⟨⟨hk, he, hidx, hoff⟩, -⟩ := hmatch
    cases h
    refine ⟨?_, hidx, hoff, ?_, ?_⟩
    · cases cacheKey'
      simp_all [header, DiskBlockHeader.new]
    · rw [bufferSlice_newFromInnerData, hblockLen, List.take_length]
      exact ChecksummedBytes.intoInner_fst hinner
    · rw [ChecksummedBytes.Sound, ← ChecksummedBytes.intoInner_snd_eq_iff hinner]
      show header.dataChecksum = crc.checksum (List.take header.blockLen.toNat data) ↔ _
      rw [hblockLen, List.take_length]
      exact Iff.rfl
  · rw [readBlock_of_lt crc blockSize data (not_le.1 hfit) hetag hkey] at h
    cases h

end Read

/-! ## The block files a call leaves -/

namespace DiskDataCache

variable {sha256 : List UInt8 → List UInt8} {crc : Crc} {c : DiskDataCache} {cacheKey : ObjectId}
  {blockIdx : BlockIndex} {blockOffset : UInt64} {bytes : ChecksummedBytes} {fs : PutFs}

@[simp] theorem files_getBlock : (c.getBlock sha256 crc cacheKey blockIdx blockOffset).2.files = c.files := by
  by_cases h : ∃ hit, (c.getBlock sha256 crc cacheKey blockIdx blockOffset).1 = .ok (some hit)
  · obtain ⟨hit, h⟩ := h
    rw [getBlock_hit h]
    unfold refreshUsage
    split <;> rfl
  · rw [getBlock_miss fun hit h' => h ⟨hit, h'⟩]

/-- A hit is what `read_block` returned for the block's file, at the block's own offset. -/
theorem readBlock_of_getBlock {hit : ChecksummedBytes}
    (h : (c.getBlock sha256 crc cacheKey blockIdx blockOffset).1 = .ok (some hit)) :
    blockOffset = blockIdx * c.config.blockSize ∧
      readBlock crc c.config.blockSize (c.files (DiskBlockKey.new sha256 cacheKey blockIdx)) cacheKey
        blockIdx blockOffset = .ok (some hit) := by
  unfold getBlock at h
  by_cases hoff : blockOffset ≠ blockIdx * c.config.blockSize
  · simp [hoff] at h
  · rw [if_neg hoff] at h
    dsimp only at h
    refine ⟨not_not.1 hoff, ?_⟩
    generalize readBlock crc c.config.blockSize (c.files (DiskBlockKey.new sha256 cacheKey blockIdx))
      cacheKey blockIdx blockOffset = r at h ⊢
    rcases r with e | _ | b
    · cases h
    · cases h
    · cases hu : c.usage <;> simp_all

/-- Eviction only removes block files, and keeps those whose removal fails. -/
theorem files_evictLoop {limit : CacheLimit} {statvfs : ℕ → Option Statvfs} {removeFails : DiskBlockKey → Bool}
    {u : UsageInfo DiskBlockKey} {files : BlockFiles} {k : DiskBlockKey} {f : List UInt8}
    (h : (evictLoop limit statvfs removeFails u files).2.2 k = some f) : files k = some f := by
  -- induction along the rounds of the loop, each of which removes one file or keeps it
  induction statvfs, u, files using evictLoop.induct limit removeFails with
  | case1 statvfs u files hnot =>
    rw [evictLoop, if_pos hnot] at h
    exact h
  | case2 statvfs u files hexceeded u' heq =>
    rw [evictLoop, if_neg hexceeded] at h
    split at h
    · exact h
    · rename_i heq'
      rw [heq] at heq'
      cases heq'
  | case3 statvfs u files hexceeded toRemove u' heq files' ih =>
    rw [evictLoop, if_neg hexceeded] at h
    split at h
    · rename_i heq'
      rw [heq] at heq'
      cases heq'
    · rename_i toRemove' u'' heq'
      rw [heq] at heq'
      obtain ⟨rfl, rfl⟩ := Prod.mk.inj heq' |>.imp Option.some.inj id
      have hkept := ih h
      simp only [files'] at hkept
      cases hf : removeFails toRemove
      · -- the file was removed: the others are as they were
        by_cases hk : k = toRemove
        · simp [hf, hk] at hkept
        · simpa [hf, Function.update, hk] using hkept
      · simpa [hf] using hkept

theorem files_evictIfNeeded {k : DiskBlockKey} {f : List UInt8} (h : (c.evictIfNeeded fs).2.files k = some f) :
    c.files k = some f := by
  unfold evictIfNeeded at h
  split at h
  · exact h
  · exact files_evictLoop h

/-- The block files a put leaves: if it fails, some of those it found; if it succeeds, the file of
its block as `write_block` wrote it, and some of the others it found. -/
theorem putBlock_cases :
    ((c.putBlock sha256 crc cacheKey blockIdx blockOffset bytes fs).1 ≠ .ok () ∧
      ∀ k f, (c.putBlock sha256 crc cacheKey blockIdx blockOffset bytes fs).2.files k = some f →
        c.files k = some f) ∨
    ((c.putBlock sha256 crc cacheKey blockIdx blockOffset bytes fs).1 = .ok () ∧
      ∃ block, blockOffset = blockIdx * c.config.blockSize ∧
        DiskBlock.new crc cacheKey blockIdx blockOffset bytes = .ok block ∧
        (c.putBlock sha256 crc cacheKey blockIdx blockOffset bytes fs).2.files
          (DiskBlockKey.new sha256 cacheKey blockIdx) = some (writeBlock block).1 ∧
        ∀ k f, k ≠ DiskBlockKey.new sha256 cacheKey blockIdx →
          (c.putBlock sha256 crc cacheKey blockIdx blockOffset bytes fs).2.files k = some f →
          c.files k = some f) := by
  by_cases hoff : blockOffset = blockIdx * c.config.blockSize
  · cases hnew : DiskBlock.new crc cacheKey blockIdx blockOffset bytes with
    | error e =>
      rw [putBlock_of_new_error hoff hnew]
      exact .inl ⟨by simp, fun k f h => h⟩
    | ok block =>
      have hev : ∀ k f, (c.evictIfNeeded fs).2.files k = some f → c.files k = some f :=
        fun k f h => files_evictIfNeeded h
      unfold putBlock
      rw [if_neg (not_not_intro hoff)]
      simp only [hnew]
      generalize c.evictIfNeeded fs = ev at hev
      obtain ⟨res, c'⟩ := ev
      rcases res with e | ⟨⟩
      · exact .inl ⟨by simp, hev⟩
      · cases fs.writeFails with
        | true => exact .inl ⟨by simp, hev⟩
        | false =>
          -- the write succeeds: the block's file is set, whatever the usage
          cases hu : c'.usage <;> simp only [hu, Bool.false_eq_true, if_false] <;>
            exact .inr ⟨by simp, block, hoff, by simp, by simp,
              fun k f hk h => hev k f (by simpa [hk] using h)⟩
  · rw [putBlock_of_offset hoff]
    exact .inl ⟨by simp, fun k f h => h⟩

end DiskDataCache

/-! ## Every block file is the last put of its key -/

variable (sha256 : List UInt8 → List UInt8) (crc : Crc)

/-- The file `f` at key `k` is the one `put_block` wrote for `put`, at the block the key names and
its offset under the block size. -/
def WrittenBy (blockSize : UInt64) (k : DiskBlockKey) (f : List UInt8) (put : ObjectId × ChecksummedBytes) :
    Prop :=
  k = DiskBlockKey.new sha256 put.1 k.blockIndex ∧
    PutRepresentable put.1 put.2 ∧
    ∃ block, DiskBlock.new crc put.1 k.blockIndex (k.blockIndex * blockSize) put.2 = .ok block ∧
      f = (writeBlock block).1

/-- Every block file is the one written by the last successful put of its key. -/
def Coherent (c : DiskDataCache) (h : History) : Prop :=
  ∀ k f, c.files k = some f → ∃ put, h.lastPut k = some put ∧ WrittenBy sha256 crc c.config.blockSize k f put

variable {sha256 crc}

theorem Coherent.init (config : DiskDataCacheConfig) : Coherent sha256 crc (DiskDataCache.new config) .init :=
  fun _ _ h => by cases h

/-- The files of a cache kept, some of them removed, under a history whose last puts are kept. -/
theorem Coherent.sub {c c' : DiskDataCache} {h h' : History} (hc : Coherent sha256 crc c h)
    (hconfig : c'.config = c.config) (hput : h'.lastPut = h.lastPut)
    (hfiles : ∀ k f, c'.files k = some f → c.files k = some f) : Coherent sha256 crc c' h' := by
  intro k f hf
  rw [hput, hconfig]
  exact hc k f (hfiles k f hf)

theorem Coherent.step {r : CacheRun} (hc : Coherent sha256 crc r.cache r.history) {e : CacheEvent}
    (he : e.Representable) : Coherent sha256 crc (r.step sha256 crc e).cache (r.step sha256 crc e).history := by
  cases e with
  | getBlock cacheKey blockIdx blockOffset =>
    -- a get changes no file and no last put
    have hput : (r.step sha256 crc (.getBlock cacheKey blockIdx blockOffset)).history.lastPut =
        r.history.lastPut := by
      simp only [CacheRun.step]
      split <;> rfl
    refine hc.sub (by rw [config_step]) hput fun k f h => ?_
    rwa [cache_step_getBlock, DiskDataCache.files_getBlock] at h
  | putBlock cacheKey blockIdx blockOffset bytes fs =>
    rcases @DiskDataCache.putBlock_cases sha256 crc r.cache cacheKey blockIdx blockOffset bytes fs
      with ⟨hfail, hsub⟩ | ⟨hok, block, hoff, hnew, hfile, hsub⟩
    · -- a failed put: only removed files, and no new last put
      obtain ⟨e, herror⟩ : ∃ e, (r.cache.putBlock sha256 crc cacheKey blockIdx blockOffset bytes fs).1 =
          .error e := by
        cases hres : (r.cache.putBlock sha256 crc cacheKey blockIdx blockOffset bytes fs).1 with
        | error e => exact ⟨e, rfl⟩
        | ok u => exact absurd hres hfail
      refine hc.sub (by rw [config_step]) (by rw [history_step_putBlock_error herror]; rfl) fun k f h => ?_
      rw [cache_step_putBlock] at h
      exact hsub k f h
    · -- a successful put: the block's file is the put's, the others are kept or removed
      intro k f hf
      rw [history_step_putBlock_ok hok, config_step]
      rw [cache_step_putBlock] at hf
      by_cases hk : k = DiskBlockKey.new sha256 cacheKey blockIdx
      · subst hk
        rw [hfile, Option.some.injEq] at hf
        subst hf
        obtain ⟨hkey, hetag, hlen⟩ := he
        refine ⟨(cacheKey, bytes), by simp [History.write], rfl, ⟨hkey, hetag, hlen⟩, block, ?_, rfl⟩
        show DiskBlock.new crc cacheKey blockIdx (blockIdx * r.cache.config.blockSize) bytes = .ok block
        rw [← hoff]
        exact hnew
      · obtain ⟨put, hput, hwritten⟩ := hc k f (hsub k f hk hf)
        exact ⟨put, by simp [History.write, Function.update, hk, hput], hwritten⟩

/-- Every run keeps every block file the last put of its key. -/
theorem Coherent.run {r : CacheRun} (hc : Coherent sha256 crc r.cache r.history) (events : List CacheEvent)
    (hevents : ∀ e ∈ events, e.Representable) :
    Coherent sha256 crc (run (CacheRun.step sha256 crc) r events).cache
      (run (CacheRun.step sha256 crc) r events).history := by
  induction events generalizing r with
  | nil => exact hc
  | cons e events ih =>
    exact ih (hc.step (hevents e (List.mem_cons_self ..)))
      fun e' he' => hevents e' (List.mem_cons_of_mem _ he')

/-- A hit serves the bytes of the last successful put of its block. -/
theorem Coherent.hit {c : DiskDataCache} {h : History} (hc : Coherent sha256 crc c h) {cacheKey : ObjectId}
    {blockIdx : BlockIndex} {blockOffset : UInt64} {hit : ChecksummedBytes}
    (hhit : (c.getBlock sha256 crc cacheKey blockIdx blockOffset).1 = .ok (some hit)) :
    ∃ bytes, h.lastPut (DiskBlockKey.new sha256 cacheKey blockIdx) = some (cacheKey, bytes) ∧
      hit.bufferSlice = bytes.bufferSlice ∧ (hit.Sound crc ↔ bytes.Sound crc) := by
  obtain ⟨hoff, hread⟩ := DiskDataCache.readBlock_of_getBlock hhit
  cases hfile : c.files (DiskBlockKey.new sha256 cacheKey blockIdx) with
  | none =>
    rw [hfile] at hread
    cases hread
  | some f =>
    rw [hfile] at hread
    obtain ⟨⟨cacheKey', bytes⟩, hput, -, ⟨hkey, hetag, hlen⟩, block, hnew, rfl⟩ := hc _ f hfile
    obtain ⟨rfl, -, -, hslice, hsound⟩ := readBlock_writeBlock hnew hkey hetag hlen hread
    exact ⟨bytes, hput, hslice, hsound⟩

/-- **A hit of the disk cache serves the last put of its block.** Under any limit, after any run of
`get_block` and `put_block` calls whose keys, ETags and bytes have lengths a `usize` holds, a
`get_block` that returns a block returns the bytes of the last successful `put_block` to the
block's file, which was a put of that very object and block index, with a checksum right exactly
when the put's was. -/
theorem disk_cache_serves_last_put (config : DiskDataCacheConfig) (events : List CacheEvent)
    (hevents : ∀ e ∈ events, e.Representable) (cacheKey : ObjectId) (blockIdx : BlockIndex)
    (blockOffset : UInt64) (hit : ChecksummedBytes)
    (hhit : ((run (CacheRun.step sha256 crc) (CacheRun.new config) events).cache.getBlock sha256 crc
      cacheKey blockIdx blockOffset).1 = .ok (some hit)) :
    ∃ bytes, (run (CacheRun.step sha256 crc) (CacheRun.new config) events).history.lastPut
        (DiskBlockKey.new sha256 cacheKey blockIdx) = some (cacheKey, bytes) ∧
      hit.bufferSlice = bytes.bufferSlice ∧ (hit.Sound crc ↔ bytes.Sound crc) :=
  ((Coherent.init config).run events hevents).hit hhit

theorem disk_cache_serves_last_put_one_put :
    (∀ e ∈ [CacheEvent.putBlock ⟨"a", "e"⟩ 0 0 (ChecksummedBytes.new byteSum [1, 2, 3])
      ⟨fun _ => none, fun _ => false, false⟩], e.Representable) ∧
    ((run (CacheRun.step id byteSum) (CacheRun.new ⟨4, .unbounded⟩)
        [.putBlock ⟨"a", "e"⟩ 0 0 (ChecksummedBytes.new byteSum [1, 2, 3])
          ⟨fun _ => none, fun _ => false, false⟩]).cache.getBlock id byteSum
          ⟨"a", "e"⟩ 0 0).1 = .ok (some (ChecksummedBytes.newFromInnerData [1, 2, 3] 6)) ∧
    ∃ bytes, (run (CacheRun.step id byteSum) (CacheRun.new ⟨4, .unbounded⟩)
        [.putBlock ⟨"a", "e"⟩ 0 0 (ChecksummedBytes.new byteSum [1, 2, 3])
          ⟨fun _ => none, fun _ => false, false⟩]).history.lastPut
          (DiskBlockKey.new id ⟨"a", "e"⟩ 0) = some (⟨"a", "e"⟩, bytes) ∧
      (ChecksummedBytes.newFromInnerData [1, 2, 3] 6).bufferSlice = bytes.bufferSlice ∧
      ((ChecksummedBytes.newFromInnerData [1, 2, 3] 6).Sound byteSum ↔ bytes.Sound byteSum) :=
  ⟨by decide, by rfl, disk_cache_serves_last_put ⟨4, .unbounded⟩ _ (by decide) ⟨"a", "e"⟩ 0 0 _ (by rfl)⟩

end MountpointS3.DataCache

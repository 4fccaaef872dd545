import Mathlib
import MountpointS3.Metablock.Types

/-!
# The open-handles map

`superblock/handles_map.rs`: for each inode, its open readers and its writer, each active or
deactivated (by `flush`). `InodeHandleMap` is a `HashMap` behind a mutex; every operation is
called with the inode's state write-locked, so each is one atomic update of the map here.

The readers of an inode are a `HashMap<u64, HandleState>`, an `AList` keyed by handle.

* `Allows`: the handles of an inode fit its write status, a writer excluding readers;
* `*_frame`, `*_allows`, `*_noHandles`, `*_writerOf`: what each operation does to the writer and
  the readers of each inode, and the write status the handles it leaves need: the facts the
  handle invariant of `Superblock.Invariant.Handles` is assembled from.
-/

namespace MountpointS3.Superblock

open Metablock

/-- `HandleState`. -/
inductive HandleState
  | active
  | inactive
  deriving DecidableEq, Repr

/-- `InodeHandles`: the readers and the writer of one inode. -/
structure InodeHandles where
  readers : AList (fun _ : ℕ => HandleState)
  writer : Option (ℕ × HandleState)

/-- `InodeHandles::default`. -/
def InodeHandles.empty : InodeHandles := ⟨∅, none⟩

/-- `InodeHandles::is_empty`. -/
def InodeHandles.isEmpty (h : InodeHandles) : Bool := h.readers.entries.isEmpty && h.writer.isNone

/-- `InodeHandleMap`. -/
structure InodeHandleMap where
  handles : InodeNo → Option InodeHandles

/-- `SetWriterError`. -/
inductive SetWriterError
  | activeWriter
  | activeReaders
  deriving DecidableEq, Repr

namespace InodeHandleMap

/-- The map with the entry of `ino` set to `v`. -/
def set (m : InodeHandleMap) (ino : InodeNo) (v : Option InodeHandles) : InodeHandleMap :=
  ⟨Function.update m.handles ino v⟩

@[simp] theorem set_handles_self (m : InodeHandleMap) (ino : InodeNo) (v : Option InodeHandles) :
    (m.set ino v).handles ino = v := by simp [set]

@[simp] theorem set_handles_of_ne (m : InodeHandleMap) {ino ino' : InodeNo} (v : Option InodeHandles)
    (h : ino' ≠ ino) : (m.set ino v).handles ino' = m.handles ino' := by
  simp [set, Function.update_of_ne h]

/-- `handles.entry(ino).or_default()`: the entry, inserted empty if absent. -/
def entryOrDefault (m : InodeHandleMap) (ino : InodeNo) : InodeHandles :=
  (m.handles ino).getD .empty

/-- `try_add_reader`: fails on an active writer; otherwise drops the writer and adds an active
reader. -/
def tryAddReader (m : InodeHandleMap) (ino : InodeNo) (fh : ℕ) : Bool × InodeHandleMap :=
  let e := m.entryOrDefault ino
  match e.writer with
  | some (_, .active) => (false, m.set ino (some e))
  | _ => (true, m.set ino (some ⟨e.readers.insert fh .active, none⟩))

/-- Sets an existing reader's state (`deactivate_reader`, `try_activate_reader`); `true` when
the reader exists. -/
def setReaderState (m : InodeHandleMap) (ino : InodeNo) (fh : ℕ) (st : HandleState) :
    Bool × InodeHandleMap :=
  match m.handles ino with
  | some e =>
    if fh ∈ e.readers then (true, m.set ino (some { e with readers := e.readers.insert fh st }))
    else (false, m)
  | none => (false, m)

/-- `deactivate_reader`. -/
def deactivateReader (m : InodeHandleMap) (ino : InodeNo) (fh : ℕ) : InodeHandleMap :=
  (m.setReaderState ino fh .inactive).2

/-- `try_activate_reader`. -/
def tryActivateReader (m : InodeHandleMap) (ino : InodeNo) (fh : ℕ) : Bool × InodeHandleMap :=
  m.setReaderState ino fh .active

/-- `remove_reader`: the entry goes once empty. -/
def removeReader (m : InodeHandleMap) (ino : InodeNo) (fh : ℕ) : InodeHandleMap :=
  match m.handles ino with
  | some e =>
    let e' : InodeHandles := { e with readers := e.readers.erase fh }
    if e'.isEmpty then m.set ino none else m.set ino (some e')
  | none => m

/-- `set_writer`: fails on an active reader or an active writer; otherwise the writer is `fh`
and the readers are cleared. -/
def setWriter (m : InodeHandleMap) (ino : InodeNo) (fh : ℕ) :
    Except SetWriterError Unit × InodeHandleMap :=
  let e := m.entryOrDefault ino
  if e.readers.entries.any (fun r => r.2 = .active) then
    (.error .activeReaders, m.set ino (some e))
  else
    match e.writer with
    | some (_, .active) => (.error .activeWriter, m.set ino (some e))
    | _ => (.ok (), m.set ino (some ⟨∅, some (fh, .active)⟩))

/-- Sets the writer's state when `fh` is the writer (`try_activate_writer`,
`try_deactivate_writer`). -/
def setWriterState (m : InodeHandleMap) (ino : InodeNo) (fh : ℕ) (st : HandleState) :
    Bool × InodeHandleMap :=
  match m.handles ino with
  | some e =>
    match e.writer with
    | some (w, _) => if fh = w then (true, m.set ino (some { e with writer := some (w, st) }))
      else (false, m)
    | none => (false, m)
  | none => (false, m)

/-- `try_activate_writer`. -/
def tryActivateWriter (m : InodeHandleMap) (ino : InodeNo) (fh : ℕ) : Bool × InodeHandleMap :=
  m.setWriterState ino fh .active

/-- `try_deactivate_writer`. -/
def tryDeactivateWriter (m : InodeHandleMap) (ino : InodeNo) (fh : ℕ) : Bool × InodeHandleMap :=
  m.setWriterState ino fh .inactive

/-- `try_remove_writer`: the entry goes once empty. -/
def tryRemoveWriter (m : InodeHandleMap) (ino : InodeNo) (fh : ℕ) : Bool × InodeHandleMap :=
  match m.handles ino with
  | some e =>
    match e.writer with
    | some (w, _) =>
      if fh = w then
        let e' : InodeHandles := { e with writer := none }
        (true, if e'.isEmpty then m.set ino none else m.set ino (some e'))
      else (false, m)
    | none => (false, m)
  | none => (false, m)

/-- `remove_inode`: `true` when the inode had an entry. -/
def removeInode (m : InodeHandleMap) (ino : InodeNo) : Bool × InodeHandleMap :=
  ((m.handles ino).isSome, m.set ino none)

/-! ## Readers and writer of an inode -/

/-- The writer of `ino`, if any. -/
def writerOf (m : InodeHandleMap) (ino : InodeNo) : Option (ℕ × HandleState) :=
  (m.handles ino).bind (·.writer)

/-- Whether `ino` has a reader. -/
def hasReaders (m : InodeHandleMap) (ino : InodeNo) : Prop :=
  ∃ e, m.handles ino = some e ∧ e.readers.entries ≠ []

/-- No handle at all for `ino`. -/
def NoHandles (m : InodeHandleMap) (ino : InodeNo) : Prop :=
  m.writerOf ino = none ∧ ¬m.hasReaders ino

/-- The handles of `ino` fit the write status `ws` of its inode: a writer excludes readers and
needs `LocalOpenForWriting`; a reader needs `Remote` or `PendingRename`. -/
def Allows (m : InodeHandleMap) (ino : InodeNo) (ws : WriteStatus) : Prop :=
  ((m.writerOf ino).isSome → ¬m.hasReaders ino ∧ ws = .localOpenForWriting) ∧
    (m.hasReaders ino → ws = .remote ∨ ws = .pendingRename)

theorem Allows.of_noHandles {m : InodeHandleMap} {ino : InodeNo} (h : m.NoHandles ino)
    (ws : WriteStatus) : m.Allows ino ws :=
  ⟨fun hw => by simp [h.1] at hw, fun hr => absurd hr h.2⟩

/-- What `Allows` reads: whether there is a writer, and whether there are readers. -/
theorem Allows.congr {m m' : InodeHandleMap} {ino : InodeNo} {ws : WriteStatus}
    (h : m.Allows ino ws) (hw : (m'.writerOf ino).isSome = (m.writerOf ino).isSome)
    (hr : m'.hasReaders ino ↔ m.hasReaders ino) : m'.Allows ino ws :=
  ⟨fun hw' => by rw [hr]; exact h.1 (hw ▸ hw'), fun hr' => h.2 (hr.1 hr')⟩

/-- Handles that fit a status other than open for writing have no writer. -/
theorem Allows.writerOf_eq_none {m : InodeHandleMap} {ino : InodeNo} {ws : WriteStatus}
    (h : m.Allows ino ws) (hws : ws ≠ .localOpenForWriting) : m.writerOf ino = none := by
  cases hw : m.writerOf ino with
  | none => rfl
  | some w => exact absurd (h.1 (by simp [hw])).2 hws

/-- Readers only: the handles fit a remote inode and one pending a rename alike. -/
theorem Allows.remote_iff_pending {m : InodeHandleMap} {ino : InodeNo} (hw : m.writerOf ino = none) :
    m.Allows ino .remote ↔ m.Allows ino .pendingRename :=
  ⟨fun _ => ⟨fun h => by simp [hw] at h, fun _ => .inr rfl⟩,
    fun _ => ⟨fun h => by simp [hw] at h, fun _ => .inl rfl⟩⟩

theorem noHandles_congr {m m' : InodeHandleMap} {ino : InodeNo}
    (hw : (m'.writerOf ino).isSome = (m.writerOf ino).isSome)
    (hr : m'.hasReaders ino ↔ m.hasReaders ino) : m'.NoHandles ino ↔ m.NoHandles ino := by
  unfold NoHandles
  rw [← Option.not_isSome_iff_eq_none, ← Option.not_isSome_iff_eq_none, hw, hr]

theorem writerOf_set (m : InodeHandleMap) (ino ino' : InodeNo) (v : Option InodeHandles) :
    (m.set ino v).writerOf ino' = if ino' = ino then v.bind (·.writer) else m.writerOf ino' := by
  by_cases h : ino' = ino
  · subst h; simp [writerOf]
  · simp [writerOf, h]

theorem hasReaders_set (m : InodeHandleMap) (ino ino' : InodeNo) (v : Option InodeHandles) :
    (m.set ino v).hasReaders ino' ↔
      if ino' = ino then ∃ e, v = some e ∧ e.readers.entries ≠ [] else m.hasReaders ino' := by
  by_cases h : ino' = ino
  · subst h; simp [hasReaders]
  · simp [hasReaders, h]

/-- `or_default` on an existing entry changes nothing. -/
theorem set_entryOrDefault {m : InodeHandleMap} {ino : InodeNo} {e : InodeHandles}
    (h : m.handles ino = some e) : m.set ino (some (m.entryOrDefault ino)) = m := by
  cases m with
  | mk hs =>
    simp only [set, InodeHandleMap.mk.injEq]
    funext x
    simp only at h
    by_cases hx : x = ino
    · subst hx; simp [entryOrDefault, h]
    · simp [Function.update_of_ne hx]

/-! ## What each operation does -/

section Ops

variable {m m' : InodeHandleMap} {ino : InodeNo} {fh : ℕ}

theorem tryAddReader_false (h : m.tryAddReader ino fh = (false, m')) :
    m' = m ∧ ∃ w, m.writerOf ino = some (w, .active) := by
  unfold tryAddReader at h
  dsimp only at h
  split at h
  · rename_i w hw
    cases h
    -- an active writer means the entry was already there
    cases hm : m.handles ino with
    | none => simp [entryOrDefault, hm, InodeHandles.empty] at hw
    | some e =>
      refine ⟨set_entryOrDefault hm, w, ?_⟩
      simp only [entryOrDefault, hm, Option.getD_some] at hw
      simp [writerOf, hm, hw]
  · cases h

theorem tryAddReader_true (h : m.tryAddReader ino fh = (true, m')) :
    m'.handles ino = some ⟨(m.entryOrDefault ino).readers.insert fh .active, none⟩ ∧
      ∀ ino', ino' ≠ ino → m'.handles ino' = m.handles ino' := by
  unfold tryAddReader at h
  dsimp only at h
  split at h
  · cases h
  · cases h
    exact ⟨by simp, fun ino' hne => set_handles_of_ne _ _ hne⟩

theorem setReaderState_frame {st : HandleState} {b : Bool}
    (h : m.setReaderState ino fh st = (b, m')) :
    ∀ ino', m'.writerOf ino' = m.writerOf ino' ∧ (m'.hasReaders ino' ↔ m.hasReaders ino') := by
  intro ino'
  unfold setReaderState at h
  split at h
  · rename_i e he
    split_ifs at h with hmem
    · cases h
      rw [writerOf_set, hasReaders_set]
      by_cases hi : ino' = ino
      · subst hi
        refine ⟨by simp [writerOf, he], ?_⟩
        rw [if_pos rfl]
        -- the reader was there, so the readers stay non-empty
        have hne : e.readers.entries ≠ [] := by
          intro hnil
          rw [AList.mem_keys, AList.keys, hnil] at hmem
          simp at hmem
        have hne' : (e.readers.insert fh st).entries ≠ [] := by simp [AList.entries_insert]
        exact ⟨fun _ => ⟨e, he, hne⟩, fun _ => ⟨_, rfl, hne'⟩⟩
      · simp [hi]
    · cases h; exact ⟨rfl, Iff.rfl⟩
  · cases h; exact ⟨rfl, Iff.rfl⟩

theorem removeReader_writerOf (ino' : InodeNo) :
    (m.removeReader ino fh).writerOf ino' = m.writerOf ino' := by
  unfold removeReader
  split
  · rename_i e he
    dsimp only
    split_ifs with hemp
    · rw [writerOf_set]
      split_ifs with hi
      · subst hi
        simp only [InodeHandles.isEmpty, Bool.and_eq_true, Option.isNone_iff_eq_none] at hemp
        simp [writerOf, he, hemp.2]
      · rfl
    · rw [writerOf_set]
      split_ifs with hi
      · subst hi; simp [writerOf, he]
      · rfl
  · rfl

theorem removeReader_hasReaders {ino' : InodeNo} (h : (m.removeReader ino fh).hasReaders ino') :
    m.hasReaders ino' := by
  unfold removeReader at h
  split at h
  · rename_i e he
    dsimp only at h
    split_ifs at h with hemp
    · rw [hasReaders_set] at h
      split_ifs at h with hi
      · simp at h
      · exact h
    · rw [hasReaders_set] at h
      split_ifs at h with hi
      · subst hi
        obtain ⟨e', he', hne⟩ := h
        obtain rfl := Option.some.inj he'
        refine ⟨e, he, fun hnil => hne ?_⟩
        simp [AList.erase, hnil]
      · exact h
  · exact h

theorem setWriter_error {err : SetWriterError} (h : m.setWriter ino fh = (.error err, m')) :
    m' = m := by
  unfold setWriter at h
  dsimp only at h
  split_ifs at h with hr
  · cases h
    -- an active reader means the entry was already there
    cases hm : m.handles ino with
    | none => simp [entryOrDefault, hm, InodeHandles.empty] at hr
    | some e => exact set_entryOrDefault hm
  · split at h
    · rename_i w hw
      cases h
      cases hm : m.handles ino with
      | none => simp [entryOrDefault, hm, InodeHandles.empty] at hw
      | some e => exact set_entryOrDefault hm
    · cases h

theorem setWriter_ok {u : Unit} (h : m.setWriter ino fh = (.ok u, m')) :
    m'.handles ino = some ⟨∅, some (fh, .active)⟩ ∧ ∀ ino', ino' ≠ ino → m'.handles ino' = m.handles ino' := by
  unfold setWriter at h
  dsimp only at h
  split_ifs at h with hr
  · cases h
  · split at h
    · cases h
    · cases h
      exact ⟨by simp, fun ino' hne => set_handles_of_ne _ _ hne⟩

theorem setWriterState_frame {st : HandleState} {b : Bool}
    (h : m.setWriterState ino fh st = (b, m')) :
    ∀ ino', (m'.writerOf ino').isSome = (m.writerOf ino').isSome ∧
      (m'.hasReaders ino' ↔ m.hasReaders ino') := by
  intro ino'
  unfold setWriterState at h
  split at h
  · rename_i e he
    split at h
    · rename_i w s hw
      split_ifs at h with hfw
      · cases h
        rw [writerOf_set, hasReaders_set]
        by_cases hi : ino' = ino
        · subst hi
          simp [writerOf, he, hw, hasReaders]
        · simp [hi]
      · cases h; exact ⟨rfl, Iff.rfl⟩
    · cases h; exact ⟨rfl, Iff.rfl⟩
  · cases h; exact ⟨rfl, Iff.rfl⟩

/-- Only a writer has its state set. -/
theorem setWriterState_writerOf {st : HandleState} (h : (m.setWriterState ino fh st).1 = true) :
    (m.writerOf ino).isSome := by
  unfold setWriterState at h
  split at h
  · rename_i e he
    split at h
    · rename_i w s hw
      simp [writerOf, he, hw]
    · cases h
  · cases h

theorem tryRemoveWriter_true (h : m.tryRemoveWriter ino fh = (true, m')) :
    m'.writerOf ino = none ∧ (m'.hasReaders ino ↔ m.hasReaders ino) ∧
      ∀ ino', ino' ≠ ino → m'.handles ino' = m.handles ino' := by
  unfold tryRemoveWriter at h
  split at h
  · rename_i e he
    split at h
    · rename_i w s hw
      split_ifs at h with hfw
      · cases h
        split_ifs with hemp
        · simp only [InodeHandles.isEmpty, Bool.and_eq_true, List.isEmpty_iff] at hemp
          refine ⟨by simp [writerOf], ?_, fun ino' hne => set_handles_of_ne _ _ hne⟩
          simp [hasReaders, he, hemp.1]
        · refine ⟨by simp [writerOf], ?_, fun ino' hne => set_handles_of_ne _ _ hne⟩
          simp [hasReaders, he]
      · simp at h
    · simp at h
  · simp at h

theorem tryRemoveWriter_false (h : m.tryRemoveWriter ino fh = (false, m')) : m' = m := by
  unfold tryRemoveWriter at h
  split at h
  · split at h
    · split_ifs at h
      · simp at h
      · exact (Prod.mk.inj h).2.symm
    · exact (Prod.mk.inj h).2.symm
  · exact (Prod.mk.inj h).2.symm

theorem removeInode_snd (ino' : InodeNo) :
    (m.removeInode ino).2.handles ino' = if ino' = ino then none else m.handles ino' := by
  by_cases h : ino' = ino
  · subst h; simp [removeInode]
  · simp [removeInode, h]

/-! ## The status each operation needs -/

/-- A reader added: the status must be remote or pending a rename. -/
theorem tryAddReader_allows {ws : WriteStatus} (h : m.tryAddReader ino fh = (true, m'))
    (hws : ws = .remote ∨ ws = .pendingRename) : m'.Allows ino ws := by
  obtain ⟨hino, -⟩ := tryAddReader_true h
  exact ⟨fun hw => by simp [writerOf, hino] at hw, fun _ => hws⟩

/-- A writer set: the status must be open for writing. -/
theorem setWriter_allows {u : Unit} (h : m.setWriter ino fh = (.ok u, m')) :
    m'.Allows ino .localOpenForWriting := by
  obtain ⟨hino, -⟩ := setWriter_ok h
  refine ⟨fun _ => ⟨fun ⟨e, he, hne⟩ => ?_, rfl⟩, fun ⟨e, he, hne⟩ => ?_⟩
  · rw [hino, Option.some.injEq] at he
    subst he
    exact hne rfl
  · rw [hino, Option.some.injEq] at he
    subst he
    exact absurd rfl hne

/-- Only a writer is removed. -/
theorem tryRemoveWriter_writerOf (h : m.tryRemoveWriter ino fh = (true, m')) :
    (m.writerOf ino).isSome := by
  unfold tryRemoveWriter at h
  split at h
  · rename_i e he
    split at h
    · rename_i w st hw'
      simp [writerOf, he, hw']
    · simp at h
  · simp at h

/-- The writer removed from handles that fit a status: no handle is left. -/
theorem tryRemoveWriter_noHandles {ws : WriteStatus} (hm : m.Allows ino ws)
    (h : m.tryRemoveWriter ino fh = (true, m')) : m'.NoHandles ino := by
  obtain ⟨hw, hr, -⟩ := tryRemoveWriter_true h
  -- a writer was there, so no reader was
  exact ⟨hw, fun h' => (hm.1 (tryRemoveWriter_writerOf h)).1 (hr.1 h')⟩

theorem removeInode_noHandles : (m.removeInode ino).2.NoHandles ino := by
  refine ⟨by simp [writerOf, removeInode_snd], fun ⟨e, he, _⟩ => ?_⟩
  rw [removeInode_snd, if_pos rfl] at he
  cases he

theorem removeReader_allows {ws : WriteStatus} {ino' : InodeNo} (hm : m.Allows ino' ws) :
    (m.removeReader ino fh).Allows ino' ws :=
  ⟨fun hw => by
    rw [removeReader_writerOf] at hw
    exact ⟨fun hr => (hm.1 hw).1 (removeReader_hasReaders hr), (hm.1 hw).2⟩,
    fun hr => hm.2 (removeReader_hasReaders hr)⟩

end Ops

end InodeHandleMap

end MountpointS3.Superblock

import MountpointS3.Superblock.Invariant.Calls
import MountpointS3.Superblock.Invariant.Rename

/-!
# The handle invariant over every run

The calls that open, flush, reactivate and close handles keep `State.Consistent`, and with them
every call of `Metablock` but a listing's: so every state a run of such calls reaches from the
mount is consistent, and its handles fit the write statuses of the inodes they are for.

* `State.ConsistentExcept.withHandles_same`, `State.ConsistentExcept.removeInode`: handles that
  keep a writer and readers where they were, or lose those of one number;
* `State.ConsistentExcept.modifyState_held`: a new state for the inode held for a number, which
  its handles fit;
* `openHandle_consistent`, from `startReading_consistent` and `startWriting_consistent`: a reader
  comes with a remote inode (an inactive writer is dropped and the inode made remote), a writer
  with one open for writing, and a failure leaves the handles as they were;
* `finishWriting_consistent`: the writer removed and the inode made remote together, or all the
  handles dropped before the inode is; the ancestors are directories, which hold no handle;
* `flushReader_consistent`, `finishReading_consistent`, `flushWriter_consistent`,
  `releaseWriter_consistent`, `tryReactivateHandle_consistent`: a handle's state changes, or a
  reader goes;
* `step_consistent`, `consistent_run`: every call but a listing, and every run of them.
-/

namespace MountpointS3.Superblock

open Metablock Foundations Prog

/-- A new write status is an edit when it is pending a rename exactly when the old one is. -/
theorem InodeState.edit_writeStatus (st : InodeState) {ws : WriteStatus}
    (h : ws = .pendingRename ↔ st.writeStatus = .pendingRename) : st.Edit { st with writeStatus := ws } :=
  ⟨rfl, fun _ _ he => he, fun _ => h⟩

namespace State

section Held

variable {X : ObjId → Prop} {s : State} {ino : InodeNo} {i : Inode} {n : ℕ}

theorem heldCell_of_inodes (hi : s.inodes ino = some (i, n)) : s.heldCell ino = s.heap i.obj := by
  simp [heldCell, hi]

/-- The handles of a number fit the write status of the allocation held there. -/
theorem ConsistentExcept.allows (h : s.ConsistentExcept X) (hi : s.inodes ino = some (i, n))
    {c : InodeCell} (hc : s.heap i.obj = some c) : s.openHandles.Allows ino c.state.writeStatus := by
  by_cases hno : s.openHandles.NoHandles ino
  · exact InodeHandleMap.Allows.of_noHandles hno _
  · obtain ⟨c', hc', -, ha⟩ := h.handles ino hno
    rw [heldCell_of_inodes hi, hc, Option.some.injEq] at hc'
    exact hc' ▸ ha

/-- A number with handles holds a file. -/
theorem ConsistentExcept.kind_of_handles (h : s.ConsistentExcept X)
    (hi : s.inodes ino = some (i, n)) (hno : ¬s.openHandles.NoHandles ino) : i.kind = .file := by
  obtain ⟨c, hc, hk, -⟩ := h.handles ino hno
  obtain ⟨n', hn', -, -⟩ := h.wf.held hc
  rw [hi, Option.some.injEq, Prod.mk.injEq] at hn'
  rw [hn'.1]
  exact hk

/-- **A new state for the inode held for a number** keeps the invariant, when it is an edit that
makes nothing pending a rename, and the handles of the number fit its write status. -/
theorem ConsistentExcept.modifyState_held (h : s.ConsistentExcept X)
    (hi : s.inodes ino = some (i, n)) {f : InodeState → InodeState}
    (hf : ∀ c, s.heap i.obj = some c → c.state.Edit (f c.state))
    (hp : ∀ c, s.heap i.obj = some c → (f c.state).writeStatus = .pendingRename →
      c.state.writeStatus = .pendingRename)
    (hallow : ∀ c, s.heap i.obj = some c → s.openHandles.Allows ino (f c.state).writeStatus) :
    (s.modifyState i f).ConsistentExcept X := by
  refine ⟨h.wf.modifyState i hf, h.current.modifyState i hf hp,
    h.mapCurrent.modifyState_held h.wf hi f, h.handles.modifyState h.wf i fun ino' c hc hobj _ _ => ?_⟩
  -- the allocation is held for `ino` alone
  have hino : ino' = ino := by
    by_contra hne
    exact h.wf.held_ne hi hc hne hobj
  subst hino
  rw [heldCell_of_inodes hi] at hc
  exact hallow c hc

end Held

section Handles

variable {X : ObjId → Prop} {s : State}

/-- New handles with a writer and with readers for the same numbers as the old keep the
invariant. -/
theorem ConsistentExcept.withHandles_same (h : s.ConsistentExcept X) {m' : InodeHandleMap}
    (hsame : ∀ ino, (m'.writerOf ino).isSome = (s.openHandles.writerOf ino).isSome ∧
      (m'.hasReaders ino ↔ s.openHandles.hasReaders ino)) :
    ({ s with openHandles := m' } : State).ConsistentExcept X :=
  h.withHandles_frame
    (fun ino hno => by rwa [InodeHandleMap.noHandles_congr (hsame ino).1 (hsame ino).2] at hno)
    fun ino _ ha => ha.congr (hsame ino).1 (hsame ino).2

/-- **The handles of one number dropped** keep the invariant. -/
theorem ConsistentExcept.removeInode (h : s.ConsistentExcept X) (ino : InodeNo) :
    ({ s with openHandles := (s.openHandles.removeInode ino).2 } : State).ConsistentExcept X := by
  -- the other numbers keep their handles
  have hsame : ∀ ino', ino' ≠ ino →
      ((s.openHandles.removeInode ino).2.writerOf ino').isSome = (s.openHandles.writerOf ino').isSome ∧
        ((s.openHandles.removeInode ino).2.hasReaders ino' ↔ s.openHandles.hasReaders ino') := by
    intro ino' hk
    simp [InodeHandleMap.writerOf, InodeHandleMap.hasReaders, InodeHandleMap.removeInode_snd, hk]
  refine h.withHandles_frame (fun ino' hno => ?_) fun ino' ws ha => ?_
  · have hk : ino' ≠ ino := fun hk => hno (hk ▸ InodeHandleMap.removeInode_noHandles)
    rwa [InodeHandleMap.noHandles_congr (hsame ino' hk).1 (hsame ino' hk).2] at hno
  · by_cases hk : ino' = ino
    · subst hk
      exact InodeHandleMap.Allows.of_noHandles InodeHandleMap.removeInode_noHandles ws
    · exact ha.congr (hsame ino' hk).1 (hsame ino' hk).2

/-- A reader's state set: the same writer and readers. -/
theorem ConsistentExcept.setReaderState (h : s.ConsistentExcept X) (ino : InodeNo) (fh : ℕ)
    (st : HandleState) :
    ({ s with openHandles := (s.openHandles.setReaderState ino fh st).2 } : State).ConsistentExcept X :=
  h.withHandles_same fun ino' =>
    let ⟨hw, hr⟩ := InodeHandleMap.setReaderState_frame
      (Prod.mk.eta (p := s.openHandles.setReaderState ino fh st)).symm ino'
    ⟨by rw [hw], hr⟩

/-- The writer's state set: the same writer and readers. -/
theorem ConsistentExcept.setWriterState (h : s.ConsistentExcept X) (ino : InodeNo) (fh : ℕ)
    (st : HandleState) :
    ({ s with openHandles := (s.openHandles.setWriterState ino fh st).2 } : State).ConsistentExcept X :=
  h.withHandles_same
    (InodeHandleMap.setWriterState_frame (Prod.mk.eta (p := s.openHandles.setWriterState ino fh st)).symm)

/-- A reader removed. -/
theorem ConsistentExcept.removeReader (h : s.ConsistentExcept X) (ino : InodeNo) (fh : ℕ) :
    ({ s with openHandles := s.openHandles.removeReader ino fh } : State).ConsistentExcept X := by
  refine h.withHandles_frame (fun ino' hno hno' => hno ?_) fun ino' ws ha =>
    InodeHandleMap.removeReader_allows ha
  exact ⟨by rw [InodeHandleMap.removeReader_writerOf]; exact hno'.1,
    fun hr => hno'.2 (InodeHandleMap.removeReader_hasReaders hr)⟩

end Handles

/-- **A new state for a directory** keeps the invariant when it is an edit that makes nothing
pending a rename: a directory holds no handle, whatever its write status. -/
theorem ConsistentExcept.modifyState_dir {X : ObjId → Prop} {s : State}
    (h : s.ConsistentExcept X) (i : Inode) {f : InodeState → InodeState}
    (hdir : ∀ c, s.heap i.obj = some c → c.state.kindData.kind = .directory)
    (hf : ∀ c, s.heap i.obj = some c → c.state.Edit (f c.state))
    (hp : ∀ c, s.heap i.obj = some c → (f c.state).writeStatus = .pendingRename →
      c.state.writeStatus = .pendingRename) :
    (s.modifyState i f).ConsistentExcept X := by
  refine h.of_calm (Calm.modifyState i fun c hc hk => ?_) ⟨h.wf.modifyState i hf, h.current.modifyState i hf hp⟩
  have := h.wf.kind_eq _ c hc
  rw [hdir c hc, hk] at this
  cases this

/-- With no child pending a rename, a child of the number held for `ino` is the inode held. -/
theorem Consistent.eq_held_of_childAt {s : State} (h : s.Consistent) {ino : InodeNo} {i : Inode}
    {n : ℕ} (hi : s.inodes ino = some (i, n)) {p : InodeNo} {name : String} {e : Inode}
    (he : s.ChildAt p name e) (hino : e.ino = ino) : e = i := by
  obtain ⟨q, m, -, hchild⟩ := he
  have hst := hchild.stored h.wf
  obtain ⟨st, hest⟩ := hst.heap_eq
  have hnp : st.writeStatus ≠ .pendingRename := fun hp =>
    hchild.not_pending h.current (by simp [Pending, hest, hp])
  exact hst.eq_of_obj (h.wf.inodes_stored ino i n hi).2 (h.mapCurrent ino i n hi e.obj ⟨e, st⟩ hest hino hnp)

end State

open State

section Calls

variable {cfg : Config} {env : Env} {s s' : State}

/-! ## Flushing, reactivating and closing -/

theorem flushReader_consistent {ino : InodeNo} {fh : ℕ} {r : Except InodeError Unit}
    (h : s.Consistent) (hx : (flushReader cfg ino fh).exec s = (r, s')) : s'.Consistent := by
  unfold flushReader at hx
  rcases SuperblockInner.get_bind_eq hx with ⟨inode, -, hx⟩ | ⟨rfl, -⟩
  swap
  · exact h
  rcases getInodeState_bind_eq hx with ⟨st, -, hx⟩ | ⟨rfl, -⟩
  swap
  · exact h
  rw [exec_modify] at hx
  obtain ⟨-, rfl⟩ := Prod.mk.inj hx
  exact h.setReaderState ino fh .inactive

theorem finishReading_consistent {ino : InodeNo} {fh : ℕ} {r : Except InodeError Unit}
    (h : s.Consistent) (hx : (finishReading cfg ino fh).exec s = (r, s')) : s'.Consistent := by
  unfold finishReading at hx
  rcases SuperblockInner.get_bind_eq hx with ⟨inode, -, hx⟩ | ⟨rfl, -⟩
  swap
  · exact h
  rcases getInodeState_bind_eq hx with ⟨st, -, hx⟩ | ⟨rfl, -⟩
  swap
  · exact h
  rw [exec_modify] at hx
  obtain ⟨-, rfl⟩ := Prod.mk.inj hx
  exact h.removeReader ino fh

theorem flushWriter_consistent {ino : InodeNo} {fh : ℕ} {hook : PendingUploadHook}
    {r : Except InodeError (Option PendingUploadHook)} (h : s.Consistent)
    (hx : (flushWriter cfg ino fh hook).exec s = (r, s')) : s'.Consistent := by
  unfold flushWriter at hx
  rcases SuperblockInner.get_bind_eq hx with ⟨inode, -, hx⟩ | ⟨rfl, -⟩
  swap
  · exact h
  rcases getInodeState_bind_eq hx with ⟨st, -, hx⟩ | ⟨rfl, -⟩
  swap
  · exact h
  dsimp only at hx
  split at hx
  · -- the writer deactivated, then the pending upload recorded
    have h₁ := h.setWriterState ino fh .inactive
    simp only [withHandles, exec_bind, exec_modifyGet] at hx
    split at hx
    · simp only [modifyInodeState_bind_exec, exec_pure] at hx
      obtain ⟨-, rfl⟩ := Prod.mk.inj hx
      exact h₁.modifyState_keepsShape inode fun _ => ⟨rfl, rfl⟩
    · rw [exec_pure] at hx
      obtain ⟨-, rfl⟩ := Prod.mk.inj hx
      exact h₁
  · rw [exec_pure] at hx
    obtain ⟨-, rfl⟩ := Prod.mk.inj hx
    exact h

theorem releaseWriter_consistent {ino : InodeNo} {fh : ℕ} {hook : PendingUploadHook}
    {r : Except InodeError (Option PendingUploadHook)} (h : s.Consistent)
    (hx : (releaseWriter cfg ino fh hook).exec s = (r, s')) : s'.Consistent := by
  unfold releaseWriter at hx
  rcases exec_tryCatch_eq hx with ⟨a, hx₁, -⟩ | ⟨e, s₁, hx₁, hx⟩
  · exact flushWriter_consistent h hx₁
  · rw [exec_pure] at hx
    obtain ⟨-, rfl⟩ := Prod.mk.inj hx
    exact flushWriter_consistent h hx₁

theorem tryReactivateHandle_consistent {ino : InodeNo} {fh : ℕ} {mode : ReadWriteMode}
    {r : Except InodeError Bool} (h : s.Consistent)
    (hx : (tryReactivateHandle cfg ino fh mode).exec s = (r, s')) : s'.Consistent := by
  unfold tryReactivateHandle at hx
  rcases SuperblockInner.get_bind_eq hx with ⟨inode, -, hx⟩ | ⟨rfl, -⟩
  swap
  · exact h
  rcases getInodeState_bind_eq hx with ⟨st, -, hx⟩ | ⟨rfl, -⟩
  swap
  · exact h
  cases mode with
  | read =>
    simp only [withHandles, exec_modifyGet] at hx
    obtain ⟨-, rfl⟩ := Prod.mk.inj hx
    exact h.setReaderState ino fh .active
  | write =>
    -- a writer reactivated drops the pending upload
    have h₁ := h.setWriterState ino fh .active
    simp only [withHandles, exec_bind, exec_modifyGet] at hx
    split at hx
    · simp only [modifyInodeState_bind_exec, exec_pure] at hx
      obtain ⟨-, rfl⟩ := Prod.mk.inj hx
      exact h₁.modifyState_keepsShape inode fun _ => ⟨rfl, rfl⟩
    · rw [exec_pure] at hx
      obtain ⟨-, rfl⟩ := Prod.mk.inj hx
      exact h₁

theorem getInodeState_readOnly (i : Inode) : ReadOnly (getInodeState i) := fun s => by
  rw [getInodeState_exec]

/-! ## Opening -/

section Open

variable {inode : Inode} {n : ℕ} {st : InodeState} {fh : ℕ}

theorem startReading_consistent {r : Except InodeError (Option PendingUploadHook)}
    (h : s.Consistent) (hi : s.inodes inode.ino = some (inode, n)) (hk : inode.kind = .file)
    (hst : s.inodeState inode = .ok st) (hx : (startReading inode st fh).exec s = (r, s')) :
    s'.Consistent := by
  obtain ⟨c, hc, rfl⟩ := inodeState_ok hst
  unfold startReading at hx
  split at hx
  · rw [exec_throw] at hx
    obtain ⟨-, rfl⟩ := Prod.mk.inj hx
    exact h
  rename_i hunopened
  simp only [withHandles, exec_bind, exec_modifyGet] at hx
  cases hadd : s.openHandles.tryAddReader inode.ino fh with
  | mk b m' =>
    rw [hadd] at hx
    cases b with
    | false =>
      -- an active writer: nothing added
      obtain ⟨rfl, -⟩ := InodeHandleMap.tryAddReader_false hadd
      simp only [Bool.not_false, ite_true, exec_bind, exec_throw] at hx
      obtain ⟨-, rfl⟩ := Prod.mk.inj hx
      exact h
    | true =>
      obtain ⟨-, hm⟩ := InodeHandleMap.tryAddReader_true hadd
      simp only [Bool.not_true, Bool.false_eq_true, ↓reduceIte] at hx
      split at hx
      · -- an inactive writer dropped: the inode becomes remote
        rename_i hw
        simp only [modifyInodeState_bind_exec, exec_pure] at hx
        obtain ⟨-, rfl⟩ := Prod.mk.inj hx
        refine h.withHandles_modifyState hi hk (fun c' hc' => ?_) hm fun _ _ =>
          InodeHandleMap.tryAddReader_allows hadd (.inl rfl)
        obtain rfl : c' = c := Option.some.inj (hc'.symm.trans hc)
        exact c'.state.edit_writeStatus (by simp [hw])
      · -- the inode was remote or pending a rename already
        rename_i hw
        rw [exec_pure] at hx
        obtain ⟨-, rfl⟩ := Prod.mk.inj hx
        refine h.withHandles hi hk hm fun c' hc' => InodeHandleMap.tryAddReader_allows hadd ?_
        obtain rfl : c' = c := Option.some.inj (hc'.symm.trans hc)
        cases hws : c'.state.writeStatus <;> simp_all

/-- A writer set makes the file open for writing; a failure leaves the handles alone. -/
theorem setupInodeForWriting_consistent {r : Except InodeError Unit} (h : s.Consistent)
    (hi : s.inodes inode.ino = some (inode, n)) (hk : inode.kind = .file)
    (hnp : ∀ c, s.heap inode.obj = some c → c.state.writeStatus ≠ .pendingRename)
    (hx : (setupInodeForWriting inode fh).exec s = (r, s')) : s'.Consistent := by
  unfold setupInodeForWriting at hx
  simp only [withHandles, exec_bind, exec_modifyGet] at hx
  cases hset : s.openHandles.setWriter inode.ino fh with
  | mk res m' =>
    rw [hset] at hx
    cases res with
    | error err =>
      obtain rfl := InodeHandleMap.setWriter_error hset
      cases err <;> simp only [exec_throw] at hx <;> obtain ⟨-, rfl⟩ := Prod.mk.inj hx <;> exact h
    | ok u =>
      simp only [modifyInodeState_exec] at hx
      obtain ⟨-, rfl⟩ := Prod.mk.inj hx
      refine h.withHandles_modifyState hi hk (fun c hc => c.state.edit_writeStatus ?_)
        (InodeHandleMap.setWriter_ok hset).2 fun _ _ => InodeHandleMap.setWriter_allows hset
      simp [hnp c hc]

theorem startWriting_consistent {mode : WriteMode} {isTruncate : Bool}
    {r : Except InodeError (Option PendingUploadHook)} (h : s.Consistent)
    (hi : s.inodes inode.ino = some (inode, n)) (hk : inode.kind = .file)
    (hst : s.inodeState inode = .ok st) (hx : (startWriting inode st mode isTruncate fh).exec s = (r, s')) :
    s'.Consistent := by
  obtain ⟨c, hc, rfl⟩ := inodeState_ok hst
  have hsetup : c.state.writeStatus ≠ .pendingRename → ∀ {r₁ : Except InodeError Unit} {s₁ : State},
      (setupInodeForWriting inode fh).exec s = (r₁, s₁) → s₁.Consistent := fun hnp _ _ h₁ =>
    setupInodeForWriting_consistent h hi hk
      (fun c' hc' => by obtain rfl : c' = c := Option.some.inj (hc'.symm.trans hc); exact hnp) h₁
  -- a new size keeps the shape
  have hsize : ∀ s₁ : State, s₁.Consistent →
      (s₁.modifyState inode fun st => { st with stat := { st.stat with size := 0 } }).Consistent :=
    fun s₁ hs₁ => hs₁.modifyState_keepsShape inode fun _ => ⟨rfl, rfl⟩
  unfold startWriting at hx
  split at hx
  · -- a new file: written from empty
    rename_i hws
    obtain ⟨u, s₁, h₁, hx⟩ | ⟨e, h₁, rfl⟩ := exec_bind_eq hx
    · simp only [modifyInodeState_bind_exec, exec_pure] at hx
      obtain ⟨-, rfl⟩ := Prod.mk.inj hx
      exact hsize s₁ (hsetup (by simp [hws]) h₁)
    · exact hsetup (by simp [hws]) h₁
  · rw [exec_throw] at hx
    obtain ⟨-, rfl⟩ := Prod.mk.inj hx
    exact h
  · rename_i hunopened hpending
    dsimp only at hx
    split at hx
    · rw [exec_bind, exec_throw] at hx
      obtain ⟨-, rfl⟩ := Prod.mk.inj hx
      exact h
    obtain ⟨u, s₁, h₁, hx⟩ | ⟨e, h₁, rfl⟩ := exec_bind_eq hx
    · have hs₁ := hsetup hpending h₁
      split at hx
      · simp only [exec_bind, modifyInodeState_exec, exec_pure] at hx
        obtain ⟨-, rfl⟩ := Prod.mk.inj hx
        exact hsize s₁ hs₁
      · rw [exec_pure] at hx
        obtain ⟨-, rfl⟩ := Prod.mk.inj hx
        exact hs₁
    · exact hsetup hpending h₁

end Open

/-! ## Finishing a write -/

theorem collectAncestors_readOnly (cfg : Config) :
    ∀ fuel ancestorIno visited, ReadOnly (collectAncestors cfg fuel ancestorIno visited)
  | 0, _, _ => ReadOnly.throw _
  | fuel + 1, ancestorIno, visited => by
    intro s
    unfold collectAncestors
    dsimp only
    split
    · rw [exec_bind, exec_throw]
    refine (ReadOnly.bind (SuperblockInner.get_readOnly cfg _) fun ancestor => ?_) s
    split
    · exact ReadOnly.pure _
    refine ReadOnly.bind (getInodeState_readOnly _) fun st => ?_
    split
    · exact ReadOnly.pure _
    · exact (collectAncestors_readOnly cfg fuel _ _).map _

/-- Each ancestor marked remote is a directory, which holds no handle. -/
theorem markAncestorsRemote_consistent (ancestors : List Inode) (childIno : InodeNo)
    {r : Except InodeError Unit} (h : s.Consistent)
    (hx : (markAncestorsRemote ancestors childIno).exec s = (r, s')) : s'.Consistent := by
  induction ancestors generalizing childIno s with
  | nil =>
    rw [markAncestorsRemote, exec_pure] at hx
    obtain ⟨-, rfl⟩ := Prod.mk.inj hx
    exact h
  | cons ancestor rest ih =>
    unfold markAncestorsRemote at hx
    rcases getInodeState_bind_eq hx with ⟨st, hst, hx⟩ | ⟨rfl, -⟩
    swap
    · exact h
    obtain ⟨c, hc, rfl⟩ := inodeState_ok hst
    split at hx
    · rw [exec_throw] at hx
      obtain ⟨-, rfl⟩ := Prod.mk.inj hx
      exact h
    rename_i hkd
    rw [modifyInodeState_bind_exec] at hx
    refine ih ancestor.ino (h.modifyState_dir ancestor (fun c' hc' => ?_) (fun c' hc' => ?_)
      fun c' _ hp => by simp at hp) hx
    · obtain rfl : c' = c := Option.some.inj (hc'.symm.trans hc)
      simp [hkd, InodeKindData.kind]
    · obtain rfl : c' = c := Option.some.inj (hc'.symm.trans hc)
      refine ⟨InodeState.kind_eraseWritingChild _ _, fun name e he => ?_, fun hfile => ?_⟩
      · -- the children are those of the kind data, which the new write status leaves alone
        have he' : (c'.state.eraseWritingChild childIno).child name = some e := he
        rwa [InodeState.child_eraseWritingChild] at he'
      · simp [hkd, InodeKindData.kind] at hfile

theorem finishWriting_consistent {ino : InodeNo} {etag : Option String} {fh : ℕ}
    {r : Except InodeError Lookup} (h : s.Consistent)
    (hx : (finishWriting cfg env ino etag fh).exec s = (r, s')) : s'.Consistent := by
  unfold finishWriting at hx
  rcases SuperblockInner.get_bind_eq hx with ⟨inode, hget, hx⟩ | ⟨rfl, -⟩
  swap
  · exact h
  obtain ⟨n, hi⟩ := getInode_ok hget
  rw [exec_bind, exec_getThe] at hx
  dsimp only at hx
  -- the ancestors are collected and locked without a change
  obtain ⟨ancestors, s₁, h₁, hx⟩ | ⟨e, h₁, rfl⟩ := exec_bind_eq hx
  swap
  · rwa [(collectAncestors_readOnly _ _ _ _).eq h₁]
  rw [(collectAncestors_readOnly _ _ _ _).eq h₁] at hx
  obtain ⟨_, s₂, h₂, hx⟩ | ⟨e, h₂, rfl⟩ := exec_bind_eq hx
  swap
  · rwa [(ReadOnly.mapM getInodeState_readOnly _).eq h₂]
  rw [(ReadOnly.mapM getInodeState_readOnly _).eq h₂] at hx
  rcases getInodeState_bind_eq hx with ⟨st, hst, hx⟩ | ⟨rfl, -⟩
  swap
  · exact h
  obtain ⟨c, hc, rfl⟩ := inodeState_ok hst
  split at hx
  case h_3 =>
    rw [exec_throw] at hx
    obtain ⟨-, rfl⟩ := Prod.mk.inj hx
    exact h
  -- open for writing or remote: the same body
  all_goals
    rename_i hws
    have hnp : c.state.writeStatus ≠ .pendingRename := by rw [hws]; decide
    -- the pending upload is dropped first
    rw [modifyInodeState_bind_exec] at hx
    have h₁ : (s.modifyState inode fun st => { st with pendingUploadHook := none }).Consistent :=
      h.modifyState_keepsShape inode fun _ => ⟨rfl, rfl⟩
    have hc₁ : (s.modifyState inode fun st => { st with pendingUploadHook := none }).heap inode.obj =
        some { c with state := { c.state with pendingUploadHook := none } } := by
      rw [modifyState_heap, if_pos rfl, hc]
      rfl
    have hi₁ : (s.modifyState inode fun st => { st with pendingUploadHook := none }).inodes ino =
        some (inode, n) := hi
    generalize s.modifyState inode (fun st => { st with pendingUploadHook := none }) = s₁ at hx h₁ hc₁ hi₁
    -- making the file remote is an edit
    have hedit : ∀ c', s₁.heap inode.obj = some c' → c'.state.Edit { c'.state with writeStatus := .remote } := by
      intro c' hc'
      obtain rfl := Option.some.inj (hc'.symm.trans hc₁)
      exact InodeState.edit_writeStatus _ (by simp [hnp])
    -- a new stat keeps the shape, and the ancestors are directories
    have htail : ∀ {s₂ : State} {g : InodeState → InodeState}, s₂.Consistent →
        (do
          modifyInodeState inode g
          markAncestorsRemote ancestors inode.ino
          let st ← getInodeState inode
          pure (lookupOf inode st.stat) : SbM Lookup).exec s₂ = (r, s') →
        InodeState.KeepsShape g → s'.Consistent := by
      intro s₂ g hs₂ h₂ hg
      rw [modifyInodeState_bind_exec] at h₂
      exact ReadOnly.of_bind (fun _ => ReadOnly.bind (getInodeState_readOnly _) fun _ => ReadOnly.pure _)
        (fun _ _ h₃ => markAncestorsRemote_consistent _ _ (hs₂.modifyState_keepsShape inode hg) h₃) h₂
    split at hx
    · -- an upload done: the writer, if it is `fh`, goes and the file becomes remote together
      simp only [withHandles, exec_bind, exec_modifyGet] at hx
      cases hrm : s₁.openHandles.tryRemoveWriter ino fh with
      | mk b m' =>
        rw [hrm] at hx
        cases b with
        | false =>
          obtain rfl := InodeHandleMap.tryRemoveWriter_false hrm
          simp only [Bool.false_eq_true, ↓reduceIte] at hx
          exact htail h₁ hx fun _ => ⟨rfl, rfl⟩
        | true =>
          -- the writer was there, so the inode is a file
          have hk : inode.kind = .file := h₁.kind_of_handles hi₁ fun hno => by
            have hw := InodeHandleMap.tryRemoveWriter_writerOf hrm
            rw [hno.1] at hw
            cases hw
          simp only [↓reduceIte, modifyInodeState_bind_exec] at hx
          refine htail (h₁.withHandles_modifyState hi₁ hk hedit (InodeHandleMap.tryRemoveWriter_true hrm).2.2
            fun c' hc' => ?_) hx fun _ => ⟨rfl, rfl⟩
          exact InodeHandleMap.Allows.of_noHandles
            (InodeHandleMap.tryRemoveWriter_noHandles (h₁.allows hi₁ hc') hrm) _
    · -- a failed upload: every handle goes, then the file becomes remote
      rw [modifyInodeState_bind_exec, withHandles, exec_bind, exec_modifyGet] at hx
      dsimp only at hx
      refine htail ((h₁.removeInode ino).modifyState_held hi₁ (f := fun st => { st with writeStatus := .remote })
        hedit (fun _ _ hp => by simp at hp) fun _ _ =>
          InodeHandleMap.Allows.of_noHandles InodeHandleMap.removeInode_noHandles _) hx fun _ => ⟨rfl, rfl⟩

theorem openHandle_consistent {ino : InodeNo} {fh : ℕ} {writeMode : WriteMode} {flags : OpenFlags}
    {r : Except InodeError (ReadWriteMode × Option PendingUploadHook × Lookup)} (h : s.Consistent)
    (hx : (openHandle cfg env ino fh writeMode flags).exec s = (r, s')) : s'.Consistent := by
  unfold openHandle at hx
  obtain ⟨l, s₁, h₁, hx⟩ | ⟨e, h₁, rfl⟩ := exec_bind_eq hx
  swap
  · exact (h.of_spec (getattrWithInode_spec _ cfg env ino _) h₁).1
  obtain ⟨hs₁, hl⟩ := h.of_spec (getattrWithInode_spec _ cfg env ino _) h₁
  obtain ⟨hino, i, n, hi, hli⟩ := hl l rfl
  -- the inode found is the one held for `ino`
  have hheld : l.inode = i := hli.elim id fun hc => Consistent.eq_held_of_childAt hs₁ hi hc hino
  rw [← hino, ← hheld] at hi
  dsimp only at hx
  split at hx
  · rw [exec_bind, exec_throw] at hx
    obtain ⟨-, rfl⟩ := Prod.mk.inj hx
    exact hs₁
  rename_i hdir
  have hk : l.inode.kind = .file := by
    cases hkind : l.inode.kind
    · rfl
    · exact absurd hkind hdir
  split at hx
  · rw [exec_bind, exec_throw] at hx
    obtain ⟨-, rfl⟩ := Prod.mk.inj hx
    exact hs₁
  rcases getInodeState_bind_eq hx with ⟨st, hst, hx⟩ | ⟨rfl, -⟩
  swap
  · exact hs₁
  -- after the reader or writer is set up, the state is only read
  have htail : ∀ hook : Option PendingUploadHook, ReadOnly (do
      let st ← getInodeState l.inode
      pure (chooseMode writeMode flags l.writeStatus, hook, lookupOf l.inode st.stat) : SbM _) :=
    fun _ => ReadOnly.bind (getInodeState_readOnly _) fun _ => ReadOnly.pure _
  split at hx
  · exact ReadOnly.of_bind htail (fun _ _ h₂ => startReading_consistent hs₁ hi hk hst h₂) hx
  · exact ReadOnly.of_bind htail (fun _ _ h₂ => startWriting_consistent hs₁ hi hk hst h₂) hx

end Calls

/-! ## Every run -/

/-- The calls of a listing: a readdir handle, its pages, and its release. -/
def Op.isListing : Op → Bool
  | .newReaddirHandle .. | .readdir .. | .releasedir _ => true
  | _ => false

section Run

variable {cfg : Config} {s : State}

/-- **Every call but a listing keeps the invariant**, whether it succeeds or fails. -/
theorem exec_consistent {env : Env} {op : Op} (hop : op.isListing = false) {r : Except InodeError Reply}
    {s' : State} (h : s.Consistent) (hx : (Superblock.exec cfg env op).exec s = (r, s')) :
    s'.Consistent := by
  cases op with
  | lookup => obtain ⟨_, hx, -⟩ := exec_map_eq hx; exact lookup_consistent h hx
  | getattr => obtain ⟨_, hx, -⟩ := exec_map_eq hx; exact getattr_consistent h hx
  | setattr => obtain ⟨_, hx, -⟩ := exec_map_eq hx; exact setattr_consistent h hx
  | create => obtain ⟨_, hx, -⟩ := exec_map_eq hx; exact create_consistent h hx
  | rmdir => obtain ⟨_, hx, -⟩ := exec_map_eq hx; exact rmdir_consistent h hx
  | unlink => obtain ⟨_, hx, -⟩ := exec_map_eq hx; exact unlink_consistent h hx
  | rename => obtain ⟨_, hx, -⟩ := exec_map_eq hx; exact rename_consistent h hx
  | openHandle => obtain ⟨_, hx, -⟩ := exec_map_eq hx; exact openHandle_consistent h hx
  | incFileSize => obtain ⟨_, hx, -⟩ := exec_map_eq hx; exact incFileSize_consistent h hx
  | finishWriting => obtain ⟨_, hx, -⟩ := exec_map_eq hx; exact finishWriting_consistent h hx
  | flushReader => obtain ⟨_, hx, -⟩ := exec_map_eq hx; exact flushReader_consistent h hx
  | flushWriter => obtain ⟨_, hx, -⟩ := exec_map_eq hx; exact flushWriter_consistent h hx
  | finishReading => obtain ⟨_, hx, -⟩ := exec_map_eq hx; exact finishReading_consistent h hx
  | releaseWriter => obtain ⟨_, hx, -⟩ := exec_map_eq hx; exact releaseWriter_consistent h hx
  | tryReactivateHandle => obtain ⟨_, hx, -⟩ := exec_map_eq hx; exact tryReactivateHandle_consistent h hx
  | forget => obtain ⟨_, hx, -⟩ := exec_map_eq hx; exact forget_consistent h hx
  | newReaddirHandle | readdir | releasedir => cases hop

theorem step_consistent (e : Env × Op) (hop : e.2.isListing = false) (h : s.Consistent) :
    (step cfg s e).Consistent :=
  exec_consistent hop h Prod.mk.eta.symm

theorem consistent_run {events : List (Env × Op)} (hops : ∀ e ∈ events, e.2.isListing = false)
    (h : s.Consistent) : (run (step cfg) s events).Consistent :=
  run_invariant_of_allowed (fun _ e hs he => step_consistent e he hs) events h (allowed_of_forall hops)

/-- A number with handles holds an inode, whose write status they fit. -/
theorem State.ConsistentExcept.statusOf_of_handles {X : ObjId → Prop} (h : s.ConsistentExcept X)
    {ino : InodeNo} (hno : ¬s.openHandles.NoHandles ino) :
    ∃ ws, s.statusOf ino = some ws ∧ s.openHandles.Allows ino ws := by
  obtain ⟨c, hc, -, ha⟩ := h.handles ino hno
  exact ⟨c.state.writeStatus, by simp [statusOf, hc], ha⟩

/-- **The handle invariant.** Over every run of calls from the mount, listings apart, the
handles of every inode number fit the write status of the inode the `InodeMap` holds for it: a
writer excludes any reader and comes with `LocalOpenForWriting`, a reader with `Remote` or
`PendingRename`. So a writer that `try_reactivate_handle` reactivates is open for writing, as its
`debug_assert!` says. -/
theorem handles_fit_write_status (cfg : Config) (mountTime now : ℕ) (events : List (Env × Op))
    (hops : ∀ e ∈ events, e.2.isListing = false) (ino : InodeNo) :
    let s := run (step cfg) (State.new cfg mountTime now) events
    ((s.openHandles.writerOf ino).isSome →
        ¬s.openHandles.hasReaders ino ∧ s.statusOf ino = some .localOpenForWriting) ∧
      (s.openHandles.hasReaders ino →
        s.statusOf ino = some .remote ∨ s.statusOf ino = some .pendingRename) ∧
      ∀ fh, (s.openHandles.tryActivateWriter ino fh).1 = true →
        s.statusOf ino = some .localOpenForWriting := by
  intro s
  have hs : s.Consistent := consistent_run hops (consistent_new cfg mountTime now)
  have hwriter : (s.openHandles.writerOf ino).isSome →
      ¬s.openHandles.hasReaders ino ∧ s.statusOf ino = some .localOpenForWriting := by
    intro hw
    obtain ⟨ws, hws, ha⟩ := hs.statusOf_of_handles fun hno => by
      rw [hno.1] at hw
      cases hw
    obtain ⟨hr, rfl⟩ := ha.1 hw
    exact ⟨hr, hws⟩
  refine ⟨hwriter, fun hr => ?_, fun fh hfh =>
    (hwriter (InodeHandleMap.setWriterState_writerOf hfh)).2⟩
  obtain ⟨ws, hws, ha⟩ := hs.statusOf_of_handles fun hno => hno.2 hr
  rcases ha.2 hr with rfl | rfl
  · exact .inl hws
  · exact .inr hws

/-- The run of `unlinkDuringUpload`, whose read of the flushed file drops its writer: the handles
of the file fit its write status after it. -/
theorem handles_fit_write_status_unlink_during_upload :
    (∀ e ∈ unlinkDuringUpload, e.2.isListing = false) ∧
      let s := run (step plainConfig) (State.new plainConfig 0 0) unlinkDuringUpload
      ((s.openHandles.writerOf 2).isSome →
          ¬s.openHandles.hasReaders 2 ∧ s.statusOf 2 = some .localOpenForWriting) ∧
        (s.openHandles.hasReaders 2 →
          s.statusOf 2 = some .remote ∨ s.statusOf 2 = some .pendingRename) ∧
        ∀ fh, (s.openHandles.tryActivateWriter 2 fh).1 = true →
          s.statusOf 2 = some .localOpenForWriting :=
  ⟨by decide, handles_fit_write_status plainConfig 0 0 unlinkDuringUpload (by decide) 2⟩

end Run

end MountpointS3.Superblock

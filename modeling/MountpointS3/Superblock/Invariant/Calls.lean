import MountpointS3.Superblock.Invariant.Consistent
import MountpointS3.Superblock.Operations

/-!
# The calls that leave the handles alone

The calls of `Metablock` that neither open, flush nor close a handle, nor rename, keep
`State.Consistent`, whether they succeed or fail: they change no write status, remember only
children, which are current, and `forget` drops the handles of a number with its entry.

* `lookup_consistent`, `getattr_consistent`, `setattr_consistent`, `incFileSize_consistent`:
  calm lookups and new stats;
* `create_consistent`, `rmdir_consistent`, `unlink_consistent`: a new child, unopened, and
  edits of directories and stats;
* `forget_consistent`: an entry of the `InodeMap` removed with the handles of its number
  (`State.ConsistentExcept.forget`), or its count decreased.
-/

namespace MountpointS3.Superblock

open Metablock Foundations Prog

namespace InodeState

theorem Edit.trans {st st' st'' : InodeState} (h : st.Edit st') (h' : st'.Edit st'') :
    st.Edit st'' :=
  ⟨h'.kind_eq.trans h.kind_eq, fun name e he => h.child_of name e (h'.child_of name e he),
    fun hk => (h'.pending_iff (h.kind_eq.trans hk)).trans (h.pending_iff hk)⟩

end InodeState

namespace State

/-! ## The `InodeMap` -/

section InodeMap

variable {X : ObjId → Prop} {s : State} {ino : InodeNo} {i : Inode} {n : ℕ}

/-- A new count for the inode held keeps the invariant. -/
theorem ConsistentExcept.insertInode_count (h : s.ConsistentExcept X)
    (hi : s.inodes ino = some (i, n)) (n' : ℕ) : (s.insertInode ino i n').ConsistentExcept X := by
  have hinodes : ∀ ino' j m, (s.insertInode ino i n').inodes ino' = some (j, m) →
      ∃ m', s.inodes ino' = some (j, m') := by
    intro ino' j m hj
    rw [insertInode_inodes] at hj
    split_ifs at hj with hk
    · cases hj
      exact ⟨n, hk ▸ hi⟩
    · exact ⟨m, hj⟩
  refine ⟨h.wf.of_cells (fun o => rfl) (fun o c c' hc hc' => ?_) rfl le_rfl
      (fun ino' j m hj => ?_) h.wf.dirHandles_stored, h.current.congr rfl,
    fun ino' j m hj => ?_, h.handles.transfer rfl fun ino' c hc _ => ⟨c, ?_, rfl, rfl⟩⟩
  · rw [insertInode_heap, hc, Option.some.injEq] at hc'
    subst hc'
    exact ⟨rfl, fun _ => Iff.rfl, fun name e h => .inl h⟩
  · obtain ⟨m', hj'⟩ := hinodes ino' j m hj
    exact h.wf.inodes_stored ino' j m' hj'
  · obtain ⟨m', hj'⟩ := hinodes ino' j m hj
    exact h.mapCurrent ino' j m' hj'
  · obtain ⟨j, m, hj, hc⟩ := heldCell_eq_some.1 hc
    refine heldCell_eq_some.2 ⟨j, if ino' = ino then n' else m, ?_, hc⟩
    rw [insertInode_inodes]
    split_ifs with hk
    · subst hk
      rw [hi, Option.some.injEq, Prod.mk.injEq] at hj
      rw [hj.1]
    · exact hj

/-- **An entry of the `InodeMap` removed with the handles of its number** keeps the invariant. -/
theorem ConsistentExcept.forget (h : s.ConsistentExcept X) :
    ({ { s with inodes := Function.update s.inodes ino none } with
        openHandles := (s.openHandles.removeInode ino).2 } : State).ConsistentExcept X := by
  have hinodes : ∀ ino' j m, Function.update s.inodes ino none ino' = some (j, m) →
      ino' ≠ ino ∧ s.inodes ino' = some (j, m) := by
    intro ino' j m hj
    by_cases hk : ino' = ino
    · subst hk
      simp at hj
    · rw [Function.update_of_ne hk] at hj
      exact ⟨hk, hj⟩
  refine ⟨h.wf.of_cells (fun o => rfl) (fun o c c' hc hc' => ?_) rfl le_rfl
      (fun ino' j m hj => h.wf.inodes_stored ino' j m (hinodes ino' j m hj).2)
      h.wf.dirHandles_stored, h.current.congr rfl,
    fun ino' j m hj => h.mapCurrent ino' j m (hinodes ino' j m hj).2, fun ino' hno => ?_⟩
  · dsimp only at hc'
    rw [hc, Option.some.injEq] at hc'
    subst hc'
    exact ⟨rfl, fun _ => Iff.rfl, fun name e h => .inl h⟩
  -- the handles of the number forgotten are gone; the others are as they were
  have hk : ino' ≠ ino := fun hk => hno (hk ▸ InodeHandleMap.removeInode_noHandles)
  have hsame : ((s.openHandles.removeInode ino).2.writerOf ino').isSome =
        (s.openHandles.writerOf ino').isSome ∧
      ((s.openHandles.removeInode ino).2.hasReaders ino' ↔ s.openHandles.hasReaders ino') := by
    simp [InodeHandleMap.writerOf, InodeHandleMap.hasReaders, InodeHandleMap.removeInode_snd, hk]
  obtain ⟨c, hc, hck, ha⟩ :=
    h.handles ino' (by rwa [← InodeHandleMap.noHandles_congr hsame.1 hsame.2])
  refine ⟨c, ?_, hck, ha.congr hsame.1 hsame.2⟩
  obtain ⟨j, m, hj, hcj⟩ := heldCell_eq_some.1 hc
  exact heldCell_eq_some.2 ⟨j, m, by dsimp only; rw [Function.update_of_ne hk]; exact hj, hcj⟩

/-- The same, with an edit of one allocation in between that keeps its write status. -/
theorem ConsistentExcept.forget_modifyState (h : s.ConsistentExcept X) (p : Inode)
    {f : InodeState → InodeState} (hf : ∀ st : InodeState, st.Edit (f st))
    (hw : ∀ st : InodeState, (f st).writeStatus = st.writeStatus) :
    ({ ({ s with inodes := Function.update s.inodes ino none } : State).modifyState p f with
        openHandles := (s.openHandles.removeInode ino).2 } : State).ConsistentExcept X :=
  h.forget.modifyState_edit p (fun c _ => hf c.state) fun c _ => hw c.state

end InodeMap

end State

/-! ## Lookups and stats -/

section Calls

open State

variable {cfg : Config} {env : Env} {s s' : State}

theorem lookup_consistent {parentIno : InodeNo} {name : String} {r : Except InodeError Lookup}
    (h : s.Consistent) (hx : (lookup cfg env parentIno name).exec s = (r, s')) : s'.Consistent := by
  unfold lookup at hx
  obtain ⟨l, s₁, h₁, hx⟩ | ⟨e, h₁, rfl⟩ := exec_bind_eq hx
  swap
  · exact (h.of_spec (lookupByName_spec _ cfg env _ _ _) h₁).1
  obtain ⟨hs₁, hl⟩ := h.of_spec (lookupByName_spec _ cfg env _ _ _) h₁
  obtain ⟨⟨p, n, -, hp⟩, -, -⟩ := hl l rfl
  -- the inode found is remembered: a child, so current
  simp only [exec_bind, SuperblockInner.remember_exec, exec_pure] at hx
  obtain ⟨-, rfl⟩ := Prod.mk.inj hx
  exact Consistent.remember_child hs₁ hp

theorem getattr_consistent {ino : InodeNo} {force : Bool} {r : Except InodeError Lookup}
    (h : s.Consistent) (hx : (getattr cfg env ino force).exec s = (r, s')) : s'.Consistent := by
  unfold getattr at hx
  obtain ⟨r₁, hx₁, -⟩ := exec_map_eq hx
  exact (h.of_spec (getattrWithInode_spec _ cfg env ino force) hx₁).1

theorem setattr_consistent {ino : InodeNo} {atime mtime : Option ℕ} {r : Except InodeError Lookup}
    (h : s.Consistent) (hx : (setattr cfg env ino atime mtime).exec s = (r, s')) : s'.Consistent := by
  unfold setattr at hx
  rcases SuperblockInner.get_bind_eq hx with ⟨inode, -, hx⟩ | ⟨rfl, -⟩
  swap
  · exact h
  rcases getInodeState_bind_eq hx with ⟨st, -, hx⟩ | ⟨rfl, -⟩
  swap
  · exact h
  dsimp only at hx
  split at hx
  · rw [exec_bind, exec_throw] at hx
    obtain ⟨-, rfl⟩ := Prod.mk.inj hx
    exact h
  · -- a new stat only
    simp only [modifyInodeState_bind_exec, exec_pure] at hx
    obtain ⟨-, rfl⟩ := Prod.mk.inj hx
    exact h.modifyState_keepsShape inode fun _ => ⟨rfl, rfl⟩

theorem incFileSize_consistent {ino : InodeNo} {len : ℕ} {r : Except InodeError ℕ}
    (h : s.Consistent) (hx : (incFileSize cfg ino len).exec s = (r, s')) : s'.Consistent := by
  unfold incFileSize at hx
  rcases SuperblockInner.get_bind_eq hx with ⟨inode, -, hx⟩ | ⟨rfl, -⟩
  swap
  · exact h
  rcases getInodeState_bind_eq hx with ⟨st, -, hx⟩ | ⟨rfl, -⟩
  swap
  · exact h
  dsimp only at hx
  split at hx
  · rw [exec_bind, exec_throw] at hx
    obtain ⟨-, rfl⟩ := Prod.mk.inj hx
    exact h
  · simp only [modifyInodeState_bind_exec, exec_pure] at hx
    obtain ⟨-, rfl⟩ := Prod.mk.inj hx
    exact h.modifyState_keepsShape inode fun _ => ⟨rfl, rfl⟩

/-! ## Creating and removing -/

theorem create_consistent {dir : InodeNo} {name : String} {kind : InodeKind}
    {r : Except InodeError Lookup} (h : s.Consistent)
    (hx : (create cfg env dir name kind).exec s = (r, s')) : s'.Consistent := by
  unfold create at hx
  -- the lookup of the name, whose failure is caught
  obtain ⟨existing, s₁, h₁, hx⟩ | ⟨e, h₁, rfl⟩ := exec_bind_eq hx
  swap
  · rcases exec_tryCatch_eq h₁ with ⟨a, -, hr⟩ | ⟨e', s₂, -, h₂⟩
    · cases hr
    · rw [exec_pure] at h₂
      cases (Prod.mk.inj h₂).1
  have hs₁ : s₁.Consistent := by
    rcases exec_tryCatch_eq h₁ with ⟨a, h₂, -⟩ | ⟨e', s₂, h₂, h₃⟩
    · obtain ⟨r₂, h₂, -⟩ := exec_map_eq h₂
      exact (h.of_spec (lookupByName_spec _ cfg env _ _ _) h₂).1
    · rw [exec_pure] at h₃
      obtain ⟨-, rfl⟩ := Prod.mk.inj h₃
      obtain ⟨r₂, h₂, -⟩ := exec_map_eq h₂
      exact (h.of_spec (lookupByName_spec _ cfg env _ _ _) h₂).1
  -- the name must be free, remotely and in the parent
  dsimp only at hx
  split at hx
  · rw [exec_bind, exec_throw] at hx
    obtain ⟨-, rfl⟩ := Prod.mk.inj hx
    exact hs₁
  swap
  · rw [exec_bind, exec_throw] at hx
    obtain ⟨-, rfl⟩ := Prod.mk.inj hx
    exact hs₁
  rcases (ReadOnly.fromExcept _).bind_eq hx with ⟨vname, -, hx⟩ | ⟨rfl, -⟩
  swap
  · exact hs₁
  rcases SuperblockInner.get_bind_eq hx with ⟨parent, hget, hx⟩ | ⟨rfl, -⟩
  swap
  · exact hs₁
  rcases getInodeState_bind_eq hx with ⟨pst, -, hx⟩ | ⟨rfl, -⟩
  swap
  · exact hs₁
  split at hx
  · rw [exec_bind, exec_throw] at hx
    obtain ⟨-, rfl⟩ := Prod.mk.inj hx
    exact hs₁
  split at hx
  · rw [exec_bind, exec_throw] at hx
    obtain ⟨-, rfl⟩ := Prod.mk.inj hx
    exact hs₁
  -- the new inode is a child of the parent, unopened: so current, with no handle
  rw [exec_bind, exec_getThe] at hx
  obtain ⟨n, hn⟩ := getInode_ok hget
  have hpre : s₁.WfExcept (fun _ => False) ∧ s₁.Stored parent :=
    ⟨hs₁.toWfExcept, (hs₁.wf.inodes_stored dir parent n hn).2⟩
  obtain ⟨inode, s₂, h₂, hx⟩ | ⟨e, h₂, rfl⟩ := exec_bind_eq hx
  · obtain ⟨hc, hw, hchild⟩ :=
      (createInodeLocked_spec _ cfg parent vname kind _ .localUnopened true (by decide)).apply hpre h₂
    simp only [exec_bind, SuperblockInner.remember_exec, exec_pure] at hx
    obtain ⟨-, rfl⟩ := Prod.mk.inj hx
    exact Consistent.remember_child (hs₁.of_calm hc hw) (hchild inode rfl)
  · obtain ⟨hc, hw, -⟩ :=
      (createInodeLocked_spec _ cfg parent vname kind _ .localUnopened true (by decide)).apply hpre h₂
    exact hs₁.of_calm hc hw

theorem rmdir_consistent {parentIno : InodeNo} {name : String} {r : Except InodeError Unit}
    (h : s.Consistent) (hx : (rmdir cfg env parentIno name).exec s = (r, s')) : s'.Consistent := by
  unfold rmdir at hx
  obtain ⟨l, s₁, h₁, hx⟩ | ⟨e, h₁, rfl⟩ := exec_bind_eq hx
  swap
  · exact (h.of_spec (lookupByName_spec _ cfg env _ _ _) h₁).1
  have hs₁ := (h.of_spec (lookupByName_spec _ cfg env _ _ _) h₁).1
  dsimp only at hx
  split at hx
  · rw [exec_bind, exec_throw] at hx
    obtain ⟨-, rfl⟩ := Prod.mk.inj hx
    exact hs₁
  rcases SuperblockInner.get_bind_eq hx with ⟨parent, -, hx⟩ | ⟨rfl, -⟩
  swap
  · exact hs₁
  rcases getInodeState_bind_eq hx with ⟨pst, -, hx⟩ | ⟨rfl, -⟩
  swap
  · exact hs₁
  rcases getInodeState_bind_eq hx with ⟨st, hst, hx⟩ | ⟨rfl, -⟩
  swap
  · exact hs₁
  obtain ⟨c, hc, rfl⟩ := inodeState_ok hst
  -- the parent loses the child, after the directory is marked deleted
  have hparent : ∀ {s₂ : State}, s₂.Consistent →
      (s₂.modifyState parent fun st => (st.eraseWritingChild l.inode.ino).removeChild l.inode.name).Consistent :=
    fun hs₂ => hs₂.modifyState_edit parent (fun c' _ => InodeState.edit_mapDirectory_erase c'.state _ _)
      fun c' _ => by simp [InodeState.removeChild, InodeState.eraseWritingChild]
  split at hx
  · rw [exec_bind, exec_throw] at hx
    obtain ⟨-, rfl⟩ := Prod.mk.inj hx
    exact hs₁
  · split at hx
    · rename_i children writingChildren deleted hkd
      split at hx
      · rw [exec_bind, exec_throw] at hx
        obtain ⟨-, rfl⟩ := Prod.mk.inj hx
        exact hs₁
      rw [modifyInodeState_bind_exec] at hx
      -- an empty local directory marked deleted: the same children
      have hs₂ := hs₁.modifyState_edit l.inode
        (f := fun st => { st with kindData := .directory children writingChildren true })
        (fun c' hc' => ?_) fun _ _ => rfl
      · split at hx
        · rw [modifyInodeState_exec] at hx
          obtain ⟨-, rfl⟩ := Prod.mk.inj hx
          exact hparent hs₂
        · rw [exec_throw] at hx
          obtain ⟨-, rfl⟩ := Prod.mk.inj hx
          exact hs₂
      obtain rfl := Option.some.inj (hc'.symm.trans hc)
      refine ⟨by simp [hkd, InodeKindData.kind], fun name e he => ?_, fun _ => Iff.rfl⟩
      simpa [InodeState.child, hkd] using he
    · rw [exec_bind, exec_throw] at hx
      obtain ⟨-, rfl⟩ := Prod.mk.inj hx
      exact hs₁
  · rw [exec_bind, exec_throw] at hx
    obtain ⟨-, rfl⟩ := Prod.mk.inj hx
    exact hs₁

theorem unlink_consistent {parentIno : InodeNo} {name : String} {r : Except InodeError Unit}
    (h : s.Consistent) (hx : (unlink cfg env parentIno name).exec s = (r, s')) : s'.Consistent := by
  unfold unlink at hx
  rcases SuperblockInner.get_bind_eq hx with ⟨parent, -, hx⟩ | ⟨rfl, -⟩
  swap
  · exact h
  obtain ⟨l, s₁, h₁, hx⟩ | ⟨e, h₁, rfl⟩ := exec_bind_eq hx
  swap
  · exact (h.of_spec (lookupByName_spec _ cfg env _ _ _) h₁).1
  have hs₁ := (h.of_spec (lookupByName_spec _ cfg env _ _ _) h₁).1
  dsimp only at hx
  split at hx
  · rw [exec_bind, exec_throw] at hx
    obtain ⟨-, rfl⟩ := Prod.mk.inj hx
    exact hs₁
  rcases getInodeState_bind_eq hx with ⟨st, -, hx⟩ | ⟨rfl, -⟩
  swap
  · exact hs₁
  -- only a remote file deleted from S3 goes on
  split at hx
  swap
  · rw [exec_bind, exec_throw] at hx
    obtain ⟨-, rfl⟩ := Prod.mk.inj hx
    exact hs₁
  split at hx
  swap
  · rw [exec_bind, exec_throw] at hx
    obtain ⟨-, rfl⟩ := Prod.mk.inj hx
    exact hs₁
  rcases getInodeState_bind_eq hx with ⟨pst, -, hx⟩ | ⟨rfl, -⟩
  swap
  · exact hs₁
  -- the parent loses the name, or the inode now under it gets an expired stat
  split at hx
  · rw [exec_throw] at hx
    obtain ⟨-, rfl⟩ := Prod.mk.inj hx
    exact hs₁
  split at hx
  · split at hx
    · rw [modifyInodeState_exec] at hx
      obtain ⟨-, rfl⟩ := Prod.mk.inj hx
      exact hs₁.modifyState_edit parent (fun c _ => c.state.edit_removeChild _)
        fun c _ => InodeState.writeStatus_mapDirectory _ _ _
    · rw [modifyInodeState_exec] at hx
      obtain ⟨-, rfl⟩ := Prod.mk.inj hx
      exact hs₁.modifyState_keepsShape _ fun _ => ⟨rfl, rfl⟩
  · rw [exec_pure] at hx
    obtain ⟨-, rfl⟩ := Prod.mk.inj hx
    exact hs₁

/-! ## Forgetting -/

/-- What `forget` does to the parent of the inode forgotten: the child goes if it is still the
one of the name, and the number leaves the writing children. -/
theorem forget_parent_edit (name : String) (ino : InodeNo) (st : InodeState) :
    st.Edit ((match st.child name with
        | some child => if child.ino = ino then st.removeChild name else st
        | none => st).eraseWritingChild ino) ∧
      ((match st.child name with
        | some child => if child.ino = ino then st.removeChild name else st
        | none => st).eraseWritingChild ino).writeStatus = st.writeStatus := by
  have hmid : st.Edit (match st.child name with
        | some child => if child.ino = ino then st.removeChild name else st
        | none => st) ∧
      (match st.child name with
        | some child => if child.ino = ino then st.removeChild name else st
        | none => st).writeStatus = st.writeStatus := by
    split
    · split_ifs
      · exact ⟨st.edit_removeChild name, InodeState.writeStatus_mapDirectory st _ _⟩
      · exact ⟨InodeState.Edit.refl st, rfl⟩
    · exact ⟨InodeState.Edit.refl st, rfl⟩
  exact ⟨hmid.1.trans (InodeState.edit_mapDirectory_id _ _),
    (InodeState.writeStatus_mapDirectory _ _ _).trans hmid.2⟩

theorem forget_consistent {ino : InodeNo} {n : ℕ} {r : Except InodeError Unit}
    (h : s.Consistent) (hx : (forget ino n).exec s = (r, s')) : s'.Consistent := by
  unfold forget at hx
  rw [exec_bind, exec_modifyGet] at hx
  dsimp only at hx
  unfold decreaseLookupCount at hx
  cases hi : s.inodes ino with
  | none =>
    simp only [hi, exec_pure] at hx
    obtain ⟨-, rfl⟩ := Prod.mk.inj hx
    exact h
  | some p =>
    obtain ⟨i, count⟩ := p
    simp only [hi] at hx
    split_ifs at hx with hzero
    · -- the entry goes, and so do the handles of its number
      rw [exec_bind, exec_getThe] at hx
      dsimp only at hx
      split at hx
      · rename_i parent _ _
        simp only [withHandles, exec_bind, exec_modifyGet, exec_pure] at hx
        obtain ⟨-, rfl⟩ := Prod.mk.inj hx
        exact h.forget_modifyState parent (fun st => (forget_parent_edit i.name ino st).1)
          fun st => (forget_parent_edit i.name ino st).2
      · simp only [withHandles, exec_bind, exec_modifyGet, exec_pure] at hx
        obtain ⟨-, rfl⟩ := Prod.mk.inj hx
        exact h.forget
    · simp only [exec_pure] at hx
      obtain ⟨-, rfl⟩ := Prod.mk.inj hx
      exact h.insertInode_count hi _

end Calls

end MountpointS3.Superblock

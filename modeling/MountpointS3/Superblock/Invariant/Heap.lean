import MountpointS3.Superblock.State

/-!
# The shape of the heap

What every call of the superblock keeps of its heap of inode allocations (`State.HeapWf`):

* each allocation holds its own record, and the identities and numbers past the counters are
  free;
* the kind of an inode's state is the kind of its key;
* a directory's number belongs to one allocation; of the allocations of a file's number all but
  one are pending a rename (`rename` leaves the renamed allocation so, and gives its number to a
  fresh one);
* every clone of an inode the superblock keeps (a directory's child, an `InodeMap` entry, an
  inode held by a directory handle) is the record of its allocation, and a child carries its
  directory's number as parent and its name.

`State.CurrentExcept X` says that no child is pending a rename but those allocated at `X`:
between its two guards, `rename` holds its source as a child pending a rename.

`State.Calm s s'` is what the calls that neither touch handles nor rename may change: each
allocation keeps its record and, for a file, its write status; new allocations take numbers no
allocation had; the `InodeMap` and the handles stay as they are.

* `State.HeapWf.of_shape`, `State.HeapWf.of_cells`: the shape carries over to a state whose
  allocations keep their records and whose inode states are edited (`InodeState.Edit`) or
  given well-formed children;
* `State.HeapWf.alloc`, `State.Calm.alloc`: a fresh allocation;
* `State.HeapWf.modifyState`, `State.Calm.modifyState`: an edit of one inode's state;
  `State.HeapWf.modifyState_status`: a new write status for an allocation whose number has no
  other current one.
-/

namespace MountpointS3.Superblock

open Metablock Foundations

/-- The kind of inode a state is for. -/
def InodeKindData.kind : InodeKindData → InodeKind
  | .file => .file
  | .directory .. => .directory

@[simp] theorem InodeKindData.kind_defaultFor (k : InodeKind) : (InodeKindData.defaultFor k).kind = k := by
  cases k <;> rfl

/-- A local entry's inode satisfies `p`; a remote entry carries none. -/
def ReaddirEntry.LocalIn (p : Inode → Prop) : ReaddirEntry → Prop
  | .localInode l => p l.inode
  | _ => True

theorem ReaddirEntry.LocalIn.mono {p q : Inode → Prop} {e : ReaddirEntry} (h : e.LocalIn p)
    (hpq : ∀ i, p i → q i) : e.LocalIn q := by
  cases e with
  | localInode l => exact hpq _ h
  | _ => trivial

/-- The entries an iterator holds, returned or not. -/
def ReaddirIter.entries : ReaddirIter → List ReaddirEntry
  | .ordered it => it.remote.entries ++ it.localEntries ++ it.nextRemote.toList ++
      it.nextLocal.toList ++ it.lastEntry.toList
  | .unordered it => it.remote.entries ++ it.localMap.map (·.2) ++ it.localIter

/-- Every inode a directory handle holds satisfies `p`. -/
structure DirHandle.Holds (p : Inode → Prop) (dh : DirHandle) : Prop where
  iter : ∀ e ∈ dh.handle.iter.entries, e.LocalIn p
  readded : ∀ l ∈ dh.handle.readded, p l.inode
  lastResponse : ∀ r ∈ dh.lastResponse, ∀ e ∈ r.2, p e.lookup.inode

theorem DirHandle.Holds.mono {p q : Inode → Prop} {dh : DirHandle} (h : dh.Holds p)
    (hpq : ∀ i, p i → q i) : dh.Holds q :=
  ⟨fun e he => (h.iter e he).mono hpq, fun l hl => hpq _ (h.readded l hl),
    fun r hr e he => hpq _ (h.lastResponse r hr e he)⟩

/-- `st'` is an edit of `st`: the same kind, no child that `st` does not have, and, for a file,
pending a rename exactly when `st` is. -/
structure InodeState.Edit (st st' : InodeState) : Prop where
  kind_eq : st'.kindData.kind = st.kindData.kind
  child_of : ∀ name e, st'.child name = some e → st.child name = some e
  pending_iff : st.kindData.kind = .file →
    (st'.writeStatus = .pendingRename ↔ st.writeStatus = .pendingRename)

namespace InodeState

theorem Edit.refl (st : InodeState) : st.Edit st := ⟨rfl, fun _ _ h => h, fun _ => Iff.rfl⟩

@[simp] theorem kind_mapDirectory (st : InodeState) f g :
    (st.mapDirectory f g).kindData.kind = st.kindData.kind := by
  rcases st with ⟨_, _, _ | _, _⟩ <;> rfl

@[simp] theorem writeStatus_mapDirectory (st : InodeState) f g :
    (st.mapDirectory f g).writeStatus = st.writeStatus := by
  rcases st with ⟨_, _, _ | _, _⟩ <;> rfl

theorem child_mapDirectory_id (st : InodeState) (g : List InodeNo → List InodeNo) (name : String) :
    (st.mapDirectory id g).child name = st.child name := by
  rcases st with ⟨_, _, _ | _, _⟩ <;> rfl

theorem child_removeChild (st : InodeState) (n name : String) :
    (st.removeChild n).child name = if name = n then none else st.child name := by
  rcases st with ⟨_, _, _ | ⟨children, _, _⟩, _⟩
  · split_ifs <;> rfl
  · simp only [removeChild, mapDirectory, child]
    split_ifs with hn
    · subst hn; simp
    · exact AList.lookup_erase_ne hn

theorem child_insertChild (st : InodeState) (n : String) (i : Inode) (name : String) :
    (st.insertChild n i).child name =
      if st.kindData.kind = .directory ∧ name = n then some i else st.child name := by
  rcases st with ⟨_, _, _ | ⟨children, _, _⟩, _⟩
  · simp [insertChild, mapDirectory, child, InodeKindData.kind]
  · simp only [insertChild, mapDirectory, child, InodeKindData.kind, true_and]
    split_ifs with hn
    · subst hn; simp
    · exact AList.lookup_insert_ne hn

@[simp] theorem child_insertWritingChild (st : InodeState) (ino : InodeNo) :
    (st.insertWritingChild ino).child = st.child :=
  funext (st.child_mapDirectory_id _)

@[simp] theorem child_eraseWritingChild (st : InodeState) (ino : InodeNo) :
    (st.eraseWritingChild ino).child = st.child :=
  funext (st.child_mapDirectory_id _)

@[simp] theorem kind_insertWritingChild (st : InodeState) (ino : InodeNo) :
    (st.insertWritingChild ino).kindData.kind = st.kindData.kind := by
  simp [insertWritingChild]

@[simp] theorem kind_eraseWritingChild (st : InodeState) (ino : InodeNo) :
    (st.eraseWritingChild ino).kindData.kind = st.kindData.kind := by
  simp [eraseWritingChild]

@[simp] theorem writeStatus_insertWritingChild (st : InodeState) (ino : InodeNo) :
    (st.insertWritingChild ino).writeStatus = st.writeStatus := by
  simp [insertWritingChild]

@[simp] theorem writeStatus_eraseWritingChild (st : InodeState) (ino : InodeNo) :
    (st.eraseWritingChild ino).writeStatus = st.writeStatus := by
  simp [eraseWritingChild]

/-- Removing a child and changing the writing children is an edit. -/
theorem edit_mapDirectory_erase (st : InodeState) (n : String) (g : List InodeNo → List InodeNo) :
    st.Edit ((st.mapDirectory id g).removeChild n) := by
  refine ⟨by simp [removeChild], fun name e h => ?_, fun _ => by simp [removeChild]⟩
  rw [child_removeChild, child_mapDirectory_id] at h
  split_ifs at h
  exact h

theorem edit_removeChild (st : InodeState) (n : String) : st.Edit (st.removeChild n) := by
  refine ⟨by simp [removeChild], fun name e h => ?_, fun _ => by simp [removeChild]⟩
  rw [child_removeChild] at h
  split_ifs at h
  exact h

theorem child_congr {st st' : InodeState} (h : st'.kindData = st.kindData) :
    st'.child = st.child := by
  funext name
  unfold child
  rw [h]

theorem edit_mapDirectory_id (st : InodeState) (g : List InodeNo → List InodeNo) :
    st.Edit (st.mapDirectory id g) :=
  ⟨by simp, fun name e h => by rwa [child_mapDirectory_id] at h, fun _ => by simp⟩

end InodeState

namespace State

/-- `i` is the record of its allocation, as every clone of an `Arc<Inode>` is. -/
def Stored (s : State) (i : Inode) : Prop := (s.heap i.obj).map (·.inode) = some i

/-- The allocation `o` is pending a rename. -/
def Pending (s : State) (o : ObjId) : Prop :=
  (s.heap o).map (·.state.writeStatus) = some .pendingRename

/-- The shape of the heap that every call keeps. -/
structure HeapWf (s : State) : Prop where
  cell_obj : ∀ o c, s.heap o = some c → c.inode.obj = o
  fresh_obj : ∀ o, s.nextObj ≤ o → s.heap o = none
  ino_lt : ∀ o c, s.heap o = some c → c.inode.ino < s.nextIno
  kind_eq : ∀ o c, s.heap o = some c → c.state.kindData.kind = c.inode.kind
  dir_unique : ∀ o o' c c', s.heap o = some c → s.heap o' = some c' →
    c.inode.ino = c'.inode.ino → c.inode.kind = .directory → o = o'
  one_current : ∀ o o' c c', s.heap o = some c → s.heap o' = some c' →
    c.inode.ino = c'.inode.ino → o ≠ o' →
      c.state.writeStatus = .pendingRename ∨ c'.state.writeStatus = .pendingRename
  child_stored : ∀ o c name e, s.heap o = some c → c.state.child name = some e →
    s.Stored e ∧ e.parent = c.inode.ino ∧ e.name = name
  inodes_stored : ∀ ino i n, s.inodes ino = some (i, n) → i.ino = ino ∧ s.Stored i
  dirHandles_stored : ∀ fh dh, s.dirHandles fh = some dh → dh.Holds s.Stored

/-- No child is pending a rename, but those allocated at `X`. -/
def CurrentExcept (X : ObjId → Prop) (s : State) : Prop :=
  ∀ o c name e, s.heap o = some c → c.state.child name = some e → X e.obj ∨ ¬s.Pending e.obj

theorem Stored.heap_eq {s : State} {i : Inode} (h : s.Stored i) : ∃ st, s.heap i.obj = some ⟨i, st⟩ := by
  unfold Stored at h
  cases hc : s.heap i.obj with
  | none => simp [hc] at h
  | some c =>
    rw [hc, Option.map_some, Option.some.injEq] at h
    exact ⟨c.state, by rw [← h]⟩

/-- Two kinds that are not the directory kind are the file kind. -/
theorem kind_eq_file_of_ne {k : InodeKind} (h : k ≠ .directory) : k = .file := by
  cases k <;> simp_all

section Transfer

variable {s s' : State}

theorem stored_iff_of_records (hrec : ∀ o, (s'.heap o).map (·.inode) = (s.heap o).map (·.inode))
    (i : Inode) : s'.Stored i ↔ s.Stored i := by
  unfold Stored
  rw [hrec]

/-- An allocation after a change that keeps records had the same record before. -/
theorem exists_cell_of_records (hrec : ∀ o, (s'.heap o).map (·.inode) = (s.heap o).map (·.inode))
    {o : ObjId} {c' : InodeCell} (h : s'.heap o = some c') :
    ∃ c, s.heap o = some c ∧ c.inode = c'.inode := by
  have := hrec o
  rw [h, Option.map_some] at this
  cases hc : s.heap o with
  | none => simp [hc] at this
  | some c =>
    rw [hc, Option.map_some, Option.some.injEq] at this
    exact ⟨c, rfl, this.symm⟩

/-- **Transfer of the shape** to a state whose allocations keep their records, whose inode
states keep their kinds, whose children are old children or well-formed inodes of the old heap,
and in which two allocations of one number are not both current. -/
theorem HeapWf.of_shape (hs : s.HeapWf)
    (hrec : ∀ o, (s'.heap o).map (·.inode) = (s.heap o).map (·.inode))
    (hcell : ∀ o c c', s.heap o = some c → s'.heap o = some c' →
      c'.state.kindData.kind = c.state.kindData.kind ∧
      ∀ name e, c'.state.child name = some e →
        c.state.child name = some e ∨ (s.Stored e ∧ e.parent = c.inode.ino ∧ e.name = name))
    (hcur : ∀ o o' c₁ c₂, s'.heap o = some c₁ → s'.heap o' = some c₂ →
      c₁.inode.ino = c₂.inode.ino → o ≠ o' →
        c₁.state.writeStatus = .pendingRename ∨ c₂.state.writeStatus = .pendingRename)
    (hobj : s'.nextObj = s.nextObj) (hino : s.nextIno ≤ s'.nextIno)
    (hinodes : ∀ ino i n, s'.inodes ino = some (i, n) → i.ino = ino ∧ s.Stored i)
    (hdir : ∀ fh dh, s'.dirHandles fh = some dh → dh.Holds s.Stored) : s'.HeapWf := by
  have hst := stored_iff_of_records hrec
  refine ⟨fun o c' h => ?_, fun o ho => ?_, fun o c' h => ?_, fun o c' h => ?_,
    fun o o' c₁' c₂' h₁ h₂ hino' hdir' => ?_, hcur, fun o c' name e h he => ?_,
    fun ino i n h => ?_, fun fh dh h => ?_⟩
  · obtain ⟨c, hc, hrc⟩ := exists_cell_of_records hrec h
    rw [← hrc]
    exact hs.cell_obj o c hc
  · have := hrec o
    rw [hs.fresh_obj o (hobj ▸ ho), Option.map_none] at this
    exact Option.map_eq_none_iff.1 this
  · obtain ⟨c, hc, hrc⟩ := exists_cell_of_records hrec h
    rw [← hrc]
    exact lt_of_lt_of_le (hs.ino_lt o c hc) hino
  · obtain ⟨c, hc, hrc⟩ := exists_cell_of_records hrec h
    rw [(hcell o c c' hc h).1, ← hrc]
    exact hs.kind_eq o c hc
  · obtain ⟨c₁, hc₁, hr₁⟩ := exists_cell_of_records hrec h₁
    obtain ⟨c₂, hc₂, hr₂⟩ := exists_cell_of_records hrec h₂
    exact hs.dir_unique o o' c₁ c₂ hc₁ hc₂ (by rw [hr₁, hr₂]; exact hino') (hr₁ ▸ hdir')
  · obtain ⟨c, hc, hrc⟩ := exists_cell_of_records hrec h
    rw [← hrc, hst]
    rcases (hcell o c c' hc h).2 name e he with hold | hnew
    · exact hs.child_stored o c name e hc hold
    · exact hnew
  · obtain ⟨hi, hstored⟩ := hinodes ino i n h
    exact ⟨hi, (hst i).2 hstored⟩
  · exact (hdir fh dh h).mono fun i hi => (hst i).2 hi

/-- Two allocations of one number are files: a directory's number is its own. -/
theorem HeapWf.file_of_same_ino (hs : s.HeapWf) {o o' : ObjId} {c c' : InodeCell}
    (hc : s.heap o = some c) (hc' : s.heap o' = some c') (hino : c.inode.ino = c'.inode.ino)
    (hne : o ≠ o') : c.inode.kind = .file :=
  kind_eq_file_of_ne fun hd => hne (hs.dir_unique o o' c c' hc hc' hino hd)

/-- **Transfer of the shape** to a state whose allocations keep their records, whose inode
states keep their kinds and (for files) whether they are pending a rename, and whose children
are old children or well-formed inodes of the old heap. -/
theorem HeapWf.of_cells (hs : s.HeapWf)
    (hrec : ∀ o, (s'.heap o).map (·.inode) = (s.heap o).map (·.inode))
    (hcell : ∀ o c c', s.heap o = some c → s'.heap o = some c' →
      c'.state.kindData.kind = c.state.kindData.kind ∧
      (c.inode.kind = .file →
        (c'.state.writeStatus = .pendingRename ↔ c.state.writeStatus = .pendingRename)) ∧
      ∀ name e, c'.state.child name = some e →
        c.state.child name = some e ∨ (s.Stored e ∧ e.parent = c.inode.ino ∧ e.name = name))
    (hobj : s'.nextObj = s.nextObj) (hino : s.nextIno ≤ s'.nextIno)
    (hinodes : ∀ ino i n, s'.inodes ino = some (i, n) → i.ino = ino ∧ s.Stored i)
    (hdir : ∀ fh dh, s'.dirHandles fh = some dh → dh.Holds s.Stored) : s'.HeapWf := by
  refine hs.of_shape hrec (fun o c c' hc h => ⟨(hcell o c c' hc h).1, (hcell o c c' hc h).2.2⟩)
    (fun o o' c₁' c₂' h₁ h₂ hino' hne => ?_) hobj hino hinodes hdir
  obtain ⟨c₁, hc₁, hr₁⟩ := exists_cell_of_records hrec h₁
  obtain ⟨c₂, hc₂, hr₂⟩ := exists_cell_of_records hrec h₂
  have hsame : c₁.inode.ino = c₂.inode.ino := by rw [hr₁, hr₂]; exact hino'
  -- the two allocations are files, whose pending renames the change keeps
  have hf₁ := hs.file_of_same_ino hc₁ hc₂ hsame hne
  have hf₂ := hs.file_of_same_ino hc₂ hc₁ hsame.symm hne.symm
  rcases hs.one_current o o' c₁ c₂ hc₁ hc₂ hsame hne with hp | hp
  · exact .inl (((hcell o c₁ c₁' hc₁ h₁).2.1 hf₁).2 hp)
  · exact .inr (((hcell o' c₂ c₂' hc₂ h₂).2.1 hf₂).2 hp)

end Transfer

/-! ## Changing one inode's state -/

theorem heap_modifyState_eq_some {s : State} {i : Inode} {f : InodeState → InodeState}
    {o : ObjId} {c' : InodeCell} (h : (s.modifyState i f).heap o = some c') :
    ∃ c, s.heap o = some c ∧ c' = if o = i.obj then { c with state := f c.state } else c := by
  rw [modifyState_heap] at h
  split_ifs at h with ho
  · obtain ⟨c, hc, rfl⟩ := Option.map_eq_some_iff.1 h
    exact ⟨c, hc, by rw [if_pos ho]⟩
  · exact ⟨c', h, by rw [if_neg ho]⟩

@[simp] theorem modifyState_records (s : State) (i : Inode) (f : InodeState → InodeState)
    (o : ObjId) : ((s.modifyState i f).heap o).map (·.inode) = (s.heap o).map (·.inode) := by
  rw [modifyState_heap]
  split_ifs
  · cases s.heap o <;> rfl
  · rfl

@[simp] theorem stored_modifyState (s : State) (i : Inode) (f : InodeState → InodeState)
    (j : Inode) : (s.modifyState i f).Stored j ↔ s.Stored j :=
  stored_iff_of_records (modifyState_records s i f) j

/-- **An edit of one inode's state keeps the shape.** -/
theorem HeapWf.modifyState {s : State} (hs : s.HeapWf) (i : Inode) {f : InodeState → InodeState}
    (hf : ∀ c, s.heap i.obj = some c → c.state.Edit (f c.state)) :
    (s.modifyState i f).HeapWf := by
  refine hs.of_cells (modifyState_records s i f) (fun o c c' hc h => ?_) rfl le_rfl
    (fun ino j n h => hs.inodes_stored ino j n h) (fun fh dh h => hs.dirHandles_stored fh dh h)
  obtain ⟨c₀, hc₀, rfl⟩ := heap_modifyState_eq_some h
  rw [hc] at hc₀
  cases hc₀
  split_ifs with ho
  · have he := hf c (ho ▸ hc)
    refine ⟨he.kind_eq, fun hk => he.pending_iff ?_, fun name e h => .inl (he.child_of name e h)⟩
    rw [hs.kind_eq o c hc, hk]
  · exact ⟨rfl, fun _ => Iff.rfl, fun name e h => .inl h⟩

/-- **A new write status keeps the shape**, when the kind data stays and the allocation is pending
a rename after the change or no other allocation of its number is current. -/
theorem HeapWf.modifyState_status {s : State} (hs : s.HeapWf) (i : Inode)
    {f : InodeState → InodeState} (hkind : ∀ st, (f st).kindData = st.kindData)
    (hcur : ∀ c, s.heap i.obj = some c → (f c.state).writeStatus = .pendingRename ∨
      ∀ o c', s.heap o = some c' → c'.inode.ino = c.inode.ino → o ≠ i.obj →
        c'.state.writeStatus = .pendingRename) :
    (s.modifyState i f).HeapWf := by
  refine hs.of_shape (modifyState_records s i f) (fun o c c' hc h => ?_)
    (fun o o' c₁' c₂' h₁ h₂ hino hne => ?_) rfl le_rfl
    (fun ino j n h => hs.inodes_stored ino j n h) (fun fh dh h => hs.dirHandles_stored fh dh h)
  · obtain ⟨c₀, hc₀, rfl⟩ := heap_modifyState_eq_some h
    rw [hc] at hc₀
    cases hc₀
    split_ifs
    · exact ⟨by rw [hkind], fun name e h => .inl (by rwa [InodeState.child_congr (hkind _)] at h)⟩
    · exact ⟨rfl, fun name e h => .inl h⟩
  · obtain ⟨c₁, hc₁, rfl⟩ := heap_modifyState_eq_some h₁
    obtain ⟨c₂, hc₂, rfl⟩ := heap_modifyState_eq_some h₂
    -- at most one of the two allocations is the one changed
    by_cases ho : o = i.obj
    · have ho' : o' ≠ i.obj := ho ▸ Ne.symm hne
      subst ho
      simp only [if_neg ho'] at hino ⊢
      rcases hcur c₁ hc₁ with hp | hothers
      · exact .inl hp
      · exact .inr (hothers o' c₂ hc₂ hino.symm ho')
    · by_cases ho' : o' = i.obj
      · subst ho'
        simp only [if_neg ho] at hino ⊢
        rcases hcur c₂ hc₂ with hp | hothers
        · exact .inr hp
        · exact .inl (hothers o c₁ hc₁ hino ho)
      · simp only [if_neg ho, if_neg ho'] at hino ⊢
        exact hs.one_current o o' c₁ c₂ hc₁ hc₂ hino hne

/-! ## A fresh allocation -/

@[simp] theorem alloc_nextObj (s : State) (mk : ObjId → Inode) (st : InodeState) :
    (s.alloc mk st).2.nextObj = s.nextObj + 1 := rfl

@[simp] theorem alloc_nextIno (s : State) (mk : ObjId → Inode) (st : InodeState) :
    (s.alloc mk st).2.nextIno = s.nextIno := rfl

@[simp] theorem alloc_dirHandles (s : State) (mk : ObjId → Inode) (st : InodeState) :
    (s.alloc mk st).2.dirHandles = s.dirHandles := rfl

theorem alloc_records_of_ne {s : State} {mk : ObjId → Inode} {st : InodeState} {o : ObjId}
    (ho : o ≠ s.nextObj) : (s.alloc mk st).2.heap o = s.heap o := by
  rw [alloc_heap, if_neg ho]

/-- **A fresh allocation keeps the shape**, when its record is its own, its state of its kind
without children, and any allocation of its number is a file pending a rename. -/
theorem HeapWf.alloc {s : State} (hs : s.HeapWf) {mk : ObjId → Inode} {st : InodeState}
    (hobj : (mk s.nextObj).obj = s.nextObj) (hino : (mk s.nextObj).ino < s.nextIno)
    (hkind : st.kindData.kind = (mk s.nextObj).kind) (hchild : ∀ name, st.child name = none)
    (hsame : ∀ o c, s.heap o = some c → c.inode.ino = (mk s.nextObj).ino →
      c.inode.kind = .file ∧ (mk s.nextObj).kind = .file ∧ c.state.writeStatus = .pendingRename) :
    (s.alloc mk st).2.HeapWf := by
  set i := mk s.nextObj with hi
  have hfree : s.heap s.nextObj = none := hs.fresh_obj _ le_rfl
  -- what the new heap holds at `o`
  have hcell : ∀ o c', (s.alloc mk st).2.heap o = some c' →
      (o = s.nextObj ∧ c' = ⟨i, st⟩) ∨ (o ≠ s.nextObj ∧ s.heap o = some c') := by
    intro o c' h
    rw [alloc_heap] at h
    split_ifs at h with ho
    · exact .inl ⟨ho, (Option.some.inj h).symm⟩
    · exact .inr ⟨ho, h⟩
  have hstored : ∀ j, s.Stored j → (s.alloc mk st).2.Stored j := by
    intro j hj
    have hne : j.obj ≠ s.nextObj := by
      intro he
      unfold Stored at hj
      rw [he, hfree] at hj
      cases hj
    unfold Stored
    rwa [alloc_records_of_ne hne]
  refine ⟨fun o c' h => ?_, fun o ho => ?_, fun o c' h => ?_, fun o c' h => ?_,
    fun o o' c₁ c₂ h₁ h₂ hino' hdir => ?_, fun o o' c₁ c₂ h₁ h₂ hino' hne => ?_,
    fun o c' name e h he => ?_, fun ino j n h => ?_, fun fh dh h => ?_⟩
  · rcases hcell o c' h with ⟨rfl, rfl⟩ | ⟨-, h⟩
    · exact hobj
    · exact hs.cell_obj o c' h
  · rw [alloc_nextObj] at ho
    rw [alloc_heap, if_neg (Nat.lt_of_succ_le ho).ne']
    exact hs.fresh_obj o (Nat.lt_of_succ_le ho).le
  · rcases hcell o c' h with ⟨rfl, rfl⟩ | ⟨-, h⟩
    · exact hino
    · exact hs.ino_lt o c' h
  · rcases hcell o c' h with ⟨rfl, rfl⟩ | ⟨-, h⟩
    · exact hkind
    · exact hs.kind_eq o c' h
  · rcases hcell o c₁ h₁ with ⟨rfl, rfl⟩ | ⟨ho, h₁⟩ <;>
      rcases hcell o' c₂ h₂ with ⟨rfl, rfl⟩ | ⟨ho', h₂⟩
    · rfl
    · exact absurd hdir (by rw [(hsame o' c₂ h₂ hino'.symm).2.1]; simp)
    · exact absurd hdir (by rw [(hsame o c₁ h₁ hino').1]; simp)
    · exact hs.dir_unique o o' c₁ c₂ h₁ h₂ hino' hdir
  · rcases hcell o c₁ h₁ with ⟨rfl, rfl⟩ | ⟨ho, h₁⟩ <;>
      rcases hcell o' c₂ h₂ with ⟨rfl, rfl⟩ | ⟨ho', h₂⟩
    · exact absurd rfl hne
    · exact .inr (hsame o' c₂ h₂ hino'.symm).2.2
    · exact .inl (hsame o c₁ h₁ hino').2.2
    · exact hs.one_current o o' c₁ c₂ h₁ h₂ hino' hne
  · rcases hcell o c' h with ⟨rfl, rfl⟩ | ⟨-, h⟩
    · rw [hchild] at he
      cases he
    · obtain ⟨hj, hp, hn⟩ := hs.child_stored o c' name e h he
      exact ⟨hstored e hj, hp, hn⟩
  · obtain ⟨hj, hs'⟩ := hs.inodes_stored ino j n h
    exact ⟨hj, hstored j hs'⟩
  · exact (hs.dirHandles_stored fh dh h).mono hstored

theorem pending_alloc_of_ne {s : State} {mk : ObjId → Inode} {st : InodeState} {o : ObjId}
    (ho : o ≠ s.nextObj) : (s.alloc mk st).2.Pending o ↔ s.Pending o := by
  unfold Pending
  rw [alloc_records_of_ne ho]

/-- A fresh allocation without children keeps the children current. -/
theorem CurrentExcept.alloc {X : ObjId → Prop} {s : State} (hs : s.HeapWf)
    (hc : s.CurrentExcept X) {mk : ObjId → Inode} {st : InodeState}
    (hchild : ∀ name, st.child name = none) : (s.alloc mk st).2.CurrentExcept X := by
  intro o c name e h he
  rw [alloc_heap] at h
  split_ifs at h with ho
  · cases h
    rw [hchild] at he
    cases he
  · -- an old child: its allocation is not the fresh one
    have hne : e.obj ≠ s.nextObj := by
      intro hobj
      have := (hs.child_stored o c name e h he).1
      unfold Stored at this
      rw [hobj, hs.fresh_obj _ le_rfl] at this
      cases this
    rw [pending_alloc_of_ne hne]
    exact hc o c name e h he

theorem stored_alloc (s : State) (mk : ObjId → Inode) (st : InodeState)
    (hobj : (mk s.nextObj).obj = s.nextObj) : (s.alloc mk st).2.Stored (mk s.nextObj) := by
  unfold Stored
  rw [hobj, alloc_heap, if_pos rfl]
  rfl

/-! ## What most calls may change -/

/-- What a call that neither touches handles nor renames may change. -/
structure Calm (s s' : State) : Prop where
  heap_keep : ∀ o c, s.heap o = some c → ∃ c', s'.heap o = some c' ∧ c'.inode = c.inode ∧
    (c.inode.kind = .file → c'.state.writeStatus = c.state.writeStatus)
  heap_new : ∀ o c', s'.heap o = some c' → s.heap o = none →
    ∀ o₀ c₀, s.heap o₀ = some c₀ → c₀.inode.ino ≠ c'.inode.ino
  inodes_eq : s'.inodes = s.inodes
  openHandles_eq : s'.openHandles = s.openHandles

theorem Calm.refl (s : State) : Calm s s :=
  ⟨fun _ c h => ⟨c, h, rfl, fun _ => rfl⟩, fun _ _ h h' => by simp [h'] at h, rfl, rfl⟩

theorem Calm.trans {s₁ s₂ s₃ : State} (h₁ : Calm s₁ s₂) (h₂ : Calm s₂ s₃) : Calm s₁ s₃ := by
  refine ⟨fun o c h => ?_, fun o c₃ h₃ h₁o o₀ c₀ h₀ => ?_, ?_, ?_⟩
  · obtain ⟨c₂, hc₂, hr₂, hw₂⟩ := h₁.heap_keep o c h
    obtain ⟨c₃, hc₃, hr₃, hw₃⟩ := h₂.heap_keep o c₂ hc₂
    exact ⟨c₃, hc₃, hr₃.trans hr₂, fun hk => (hw₃ (hr₂ ▸ hk)).trans (hw₂ hk)⟩
  · obtain ⟨c₀', hc₀', hr₀, -⟩ := h₁.heap_keep o₀ c₀ h₀
    cases h₂o : s₂.heap o with
    | none => exact hr₀ ▸ h₂.heap_new o c₃ h₃ h₂o o₀ c₀' hc₀'
    | some c₂ =>
      obtain ⟨c₃', hc₃', hr₃, -⟩ := h₂.heap_keep o c₂ h₂o
      have hc : c₃' = c₃ := Option.some.inj (hc₃'.symm.trans h₃)
      rw [← hc, hr₃]
      exact h₁.heap_new o c₂ h₂o h₁o o₀ c₀ h₀
  · rw [h₂.inodes_eq, h₁.inodes_eq]
  · rw [h₂.openHandles_eq, h₁.openHandles_eq]

instance : Std.Refl Calm := ⟨Calm.refl⟩

instance : IsTrans State Calm := ⟨fun _ _ _ => Calm.trans⟩

theorem Calm.stored {s s' : State} (h : Calm s s') {i : Inode} (hi : s.Stored i) : s'.Stored i := by
  obtain ⟨st, hc⟩ := hi.heap_eq
  obtain ⟨c', hc', hr, -⟩ := h.heap_keep _ _ hc
  unfold Stored
  rw [hc', Option.map_some, hr]

/-- A change that keeps every allocation's record and every file's write status, and the
`InodeMap` and the handles, is calm. -/
theorem Calm.of_records {s s' : State}
    (hrec : ∀ o, (s'.heap o).map (·.inode) = (s.heap o).map (·.inode))
    (hfile : ∀ o c c', s.heap o = some c → s'.heap o = some c' → c.inode.kind = .file →
      c'.state.writeStatus = c.state.writeStatus)
    (hinodes : s'.inodes = s.inodes) (hhandles : s'.openHandles = s.openHandles) : Calm s s' := by
  refine ⟨fun o c h => ?_, fun o c' h' h => ?_, hinodes, hhandles⟩
  · have := hrec o
    rw [h, Option.map_some] at this
    obtain ⟨c', hc', hr⟩ := Option.map_eq_some_iff.1 this
    exact ⟨c', hc', hr, hfile o c c' h hc'⟩
  · have := hrec o
    rw [h', h] at this
    cases this

/-- A change of one inode's state that keeps the write status of a file is calm. -/
theorem Calm.modifyState {s : State} (i : Inode) {f : InodeState → InodeState}
    (hf : ∀ c, s.heap i.obj = some c → c.inode.kind = .file →
      (f c.state).writeStatus = c.state.writeStatus) :
    Calm s (s.modifyState i f) := by
  refine Calm.of_records (modifyState_records s i f) (fun o c c' hc h hk => ?_) rfl rfl
  obtain ⟨c₀, hc₀, rfl⟩ := heap_modifyState_eq_some h
  rw [hc] at hc₀
  cases hc₀
  split_ifs with ho
  · exact hf c (ho ▸ hc) hk
  · rfl

/-- A fresh allocation whose number no allocation has is calm. -/
theorem Calm.alloc {s : State} (hs : s.HeapWf) {mk : ObjId → Inode} {st : InodeState}
    (hfresh : ∀ o c, s.heap o = some c → c.inode.ino ≠ (mk s.nextObj).ino) :
    Calm s (s.alloc mk st).2 := by
  have hfree : s.heap s.nextObj = none := hs.fresh_obj _ le_rfl
  refine ⟨fun o c h => ?_, fun o c' h' h => ?_, rfl, rfl⟩
  · have hne : o ≠ s.nextObj := by rintro rfl; rw [hfree] at h; cases h
    exact ⟨c, by rw [alloc_records_of_ne hne]; exact h, rfl, fun _ => rfl⟩
  · rw [alloc_heap] at h'
    split_ifs at h' with ho
    · cases h'
      exact hfresh
    · rw [h'] at h
      cases h

/-! ## Changes outside the heap -/

/-- The shape depends on the heap, the counters, the `InodeMap` and the directory handles only. -/
theorem HeapWf.congr {s s' : State} (hs : s.HeapWf) (hheap : s'.heap = s.heap)
    (hobj : s'.nextObj = s.nextObj) (hino : s.nextIno ≤ s'.nextIno) (hinodes : s'.inodes = s.inodes)
    (hdir : s'.dirHandles = s.dirHandles) : s'.HeapWf :=
  hs.of_cells (fun o => by rw [hheap])
    (fun o c c' hc h => by
      rw [hheap, hc, Option.some.injEq] at h
      subst h
      exact ⟨rfl, fun _ => Iff.rfl, fun name e h => .inl h⟩)
    hobj hino (fun ino i n h => hs.inodes_stored ino i n (hinodes ▸ h))
    (fun fh dh h => hs.dirHandles_stored fh dh (hdir ▸ h))

/-- A change of nothing the handles or the inodes show is calm. -/
theorem Calm.congr {s s' : State} (hheap : s'.heap = s.heap) (hinodes : s'.inodes = s.inodes)
    (hhandles : s'.openHandles = s.openHandles) : Calm s s' :=
  Calm.of_records (fun o => by rw [hheap])
    (fun o c c' hc h hk => by rw [hheap, hc, Option.some.injEq] at h; rw [h])
    hinodes hhandles

theorem CurrentExcept.congr {X : ObjId → Prop} {s s' : State} (hs : s.CurrentExcept X)
    (hheap : s'.heap = s.heap) : s'.CurrentExcept X := by
  intro o c name e h he
  rw [hheap] at h
  unfold Pending
  rw [hheap]
  exact hs o c name e h he

/-! ## Changes of one inode's state that keep its shape -/

end State

/-- A change of an inode's state that keeps its kind data and its write status (a new stat,
or a new pending upload). -/
def InodeState.KeepsShape (f : InodeState → InodeState) : Prop :=
  ∀ st, (f st).kindData = st.kindData ∧ (f st).writeStatus = st.writeStatus

theorem InodeState.KeepsShape.edit {f : InodeState → InodeState} (hf : InodeState.KeepsShape f)
    (st : InodeState) : st.Edit (f st) := by
  obtain ⟨hk, hw⟩ := hf st
  exact ⟨by rw [hk], fun name e h => by rwa [child, hk] at h, fun _ => by rw [hw]⟩

namespace State

theorem calm_modifyState_of_keepsShape (s : State) (i : Inode)
    {f : InodeState → InodeState} (hf : InodeState.KeepsShape f) : Calm s (s.modifyState i f) :=
  Calm.modifyState i fun c _ _ => (hf c.state).2

theorem pending_modifyState (s : State) (i : Inode) (f : InodeState → InodeState) (o : ObjId) :
    (s.modifyState i f).Pending o ↔
      if o = i.obj then ((s.heap o).map fun c => (f c.state).writeStatus) = some .pendingRename
      else s.Pending o := by
  unfold Pending
  rw [modifyState_heap]
  split_ifs
  · cases s.heap o <;> simp
  · rfl

/-- An edit that makes no allocation pending a rename keeps the children current. -/
theorem CurrentExcept.modifyState {X : ObjId → Prop} {s : State} (hs : s.CurrentExcept X)
    (i : Inode) {f : InodeState → InodeState}
    (hf : ∀ c, s.heap i.obj = some c → c.state.Edit (f c.state))
    (hp : ∀ c, s.heap i.obj = some c → (f c.state).writeStatus = .pendingRename →
      c.state.writeStatus = .pendingRename) :
    (s.modifyState i f).CurrentExcept X := by
  intro o c' name e h he
  obtain ⟨c, hc, rfl⟩ := heap_modifyState_eq_some h
  have hold : c.state.child name = some e := by
    split_ifs at he with ho
    · exact (hf c (ho ▸ hc)).child_of name e he
    · exact he
  refine (hs o c name e hc hold).imp_right fun hnp hpend => hnp ?_
  rw [pending_modifyState] at hpend
  split_ifs at hpend with he'
  · unfold Pending
    cases hce : s.heap e.obj with
    | none => simp [hce] at hpend
    | some ce =>
      rw [hce, Option.map_some, Option.some.injEq] at hpend
      rw [Option.map_some, hp ce (he' ▸ hce) hpend]
  · exact hpend

theorem CurrentExcept.modifyState_keepsShape {X : ObjId → Prop} {s : State}
    (hs : s.CurrentExcept X) (i : Inode) {f : InodeState → InodeState}
    (hf : InodeState.KeepsShape f) : (s.modifyState i f).CurrentExcept X :=
  hs.modifyState i (fun c _ => hf.edit c.state) fun c _ h => (hf c.state).2 ▸ h

/-! ## A new child -/

end State

/-- `f` makes `e` the child `n` of a directory, and changes no other child, no kind and no write
status. -/
def InodeState.InsertsChild (n : String) (e : Inode) (f : InodeState → InodeState) : Prop :=
  ∀ st, (f st).child = (st.insertChild n e).child ∧ (f st).kindData.kind = st.kindData.kind ∧
    (f st).writeStatus = st.writeStatus

theorem InodeState.InsertsChild.child_of {n : String} {e : Inode} {f : InodeState → InodeState}
    (hf : InodeState.InsertsChild n e f) (st : InodeState) {m : String} {e' : Inode}
    (h : (f st).child m = some e') : st.child m = some e' ∨ (m = n ∧ e' = e) := by
  rw [(hf st).1, InodeState.child_insertChild] at h
  split_ifs at h with hm
  · exact .inr ⟨hm.2, (Option.some.inj h).symm⟩
  · exact .inl h

theorem InodeState.InsertsChild.child_self {n : String} {e : Inode} {f : InodeState → InodeState}
    (hf : InodeState.InsertsChild n e f) {st : InodeState} (hst : st.kindData.kind = .directory) :
    (f st).child n = some e := by
  rw [(hf st).1, InodeState.child_insertChild, if_pos ⟨hst, rfl⟩]

namespace State

/-- **A new child keeps the shape**, when it is a stored inode carrying its directory's number
and its name. -/
theorem HeapWf.modifyState_insert {s : State} (hs : s.HeapWf) {p e : Inode} {n : String}
    (hp : s.Stored p) (he : s.Stored e) (hpar : e.parent = p.ino) (hname : e.name = n)
    {f : InodeState → InodeState} (hf : InodeState.InsertsChild n e f) :
    (s.modifyState p f).HeapWf := by
  obtain ⟨st, hps⟩ := hp.heap_eq
  refine hs.of_cells (modifyState_records s p f) (fun o c c' hc h => ?_) rfl le_rfl
    (fun ino j n h => hs.inodes_stored ino j n h) (fun fh dh h => hs.dirHandles_stored fh dh h)
  obtain ⟨c₀, hc₀, rfl⟩ := heap_modifyState_eq_some h
  rw [hc] at hc₀
  cases hc₀
  split_ifs with ho
  · refine ⟨(hf c.state).2.1, fun _ => by rw [(hf c.state).2.2], fun m e' h => ?_⟩
    rcases hf.child_of c.state h with hold | ⟨rfl, rfl⟩
    · exact .inl hold
    · -- the allocation changed is the directory's own
      rw [ho, hps, Option.some.injEq] at hc
      subst hc
      exact .inr ⟨he, hpar, hname⟩
  · exact ⟨rfl, fun _ => Iff.rfl, fun m e' h => .inl h⟩

theorem CurrentExcept.modifyState_insert {X : ObjId → Prop} {s : State} (hs : s.CurrentExcept X)
    (p : Inode) {e : Inode} {n : String} (he : ¬s.Pending e.obj) {f : InodeState → InodeState}
    (hf : InodeState.InsertsChild n e f) : (s.modifyState p f).CurrentExcept X := by
  have hpend : ∀ o, (s.modifyState p f).Pending o ↔ s.Pending o := by
    intro o
    rw [pending_modifyState]
    split_ifs
    · unfold Pending
      cases s.heap o <;> simp [(hf _).2.2]
    · rfl
  intro o c' name e' h he'
  rw [hpend]
  obtain ⟨c, hc, rfl⟩ := heap_modifyState_eq_some h
  split_ifs at he'
  · rcases hf.child_of c.state he' with hold | ⟨-, rfl⟩
    · exact hs o c name e' hc hold
    · exact .inr he
  · exact hs o c name e' hc he'

/-! ## The `InodeMap` -/

@[simp] theorem increaseLookupCount_heap (s : State) (i : Inode) :
    (s.increaseLookupCount i).heap = s.heap := by
  unfold increaseLookupCount
  split <;> rfl

@[simp] theorem increaseLookupCount_dirHandles (s : State) (i : Inode) :
    (s.increaseLookupCount i).dirHandles = s.dirHandles := by
  unfold increaseLookupCount
  split <;> rfl

@[simp] theorem increaseLookupCount_openHandles (s : State) (i : Inode) :
    (s.increaseLookupCount i).openHandles = s.openHandles := by
  unfold increaseLookupCount
  split <;> rfl

/-- `InodeMap::increase_lookup_count` changes the count of `i`'s number only, and inserts `i`
there when it is absent. -/
theorem increaseLookupCount_inodes (s : State) (i : Inode) (ino : InodeNo) :
    (s.increaseLookupCount i).inodes ino =
      if ino = i.ino then
        some (match s.inodes i.ino with
          | some (j, count) => (j, count + 1)
          | none => (i, 1))
      else s.inodes ino := by
  cases h : s.inodes i.ino with
  | none => simp [increaseLookupCount, insertInode_inodes, h]
  | some e => simp [increaseLookupCount, insertInode_inodes, h]

/-- **Remembering a stored inode keeps the shape.** -/
theorem HeapWf.increaseLookupCount {s : State} (hs : s.HeapWf) {i : Inode} (hi : s.Stored i) :
    (s.increaseLookupCount i).HeapWf := by
  refine hs.of_cells (fun o => by simp) (fun o c c' hc h => ?_) (by unfold State.increaseLookupCount; split <;> rfl)
    (by unfold State.increaseLookupCount; split <;> exact le_rfl) (fun ino j n h => ?_) (fun fh dh h => ?_)
  · rw [increaseLookupCount_heap, hc, Option.some.injEq] at h
    subst h
    exact ⟨rfl, fun _ => Iff.rfl, fun name e h => .inl h⟩
  · rw [increaseLookupCount_inodes] at h
    split_ifs at h with hino
    · subst hino
      revert h
      split
      · rename_i j' count hj
        intro h
        cases h
        exact hs.inodes_stored _ _ _ hj
      · intro h
        cases h
        exact ⟨rfl, hi⟩
    · exact hs.inodes_stored ino j n h
  · rw [increaseLookupCount_dirHandles] at h
    exact hs.dirHandles_stored fh dh h

end State

end MountpointS3.Superblock

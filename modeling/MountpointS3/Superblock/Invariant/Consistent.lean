import MountpointS3.Superblock.Invariant.Lookup

/-!
# The handle invariant

The open handles of `InodeHandleMap` and the write statuses of the inodes are two pieces of
state that the calls update separately. `State.Consistent` ties them together, over the shape of
the heap:

* no child is pending a rename (`rename` makes its source and its destination so only between
  its guards);
* of the allocations of a number the `InodeMap` holds, the one it holds is the only one not
  pending a rename (`State.MapCurrent`): the inode `get` returns is the one a lookup of its name
  finds, if it finds one of that number;
* the handles of every inode fit the write status of the inode the `InodeMap` holds for its
  number, a file (`State.HandleInv`).

The lemmas the calls are assembled from:

* `State.ConsistentExcept.of_calm`: a calm change that keeps the children current;
* `State.ConsistentExcept.increaseLookupCount`: remembering an inode not pending a rename;
* `State.MapCurrent.modifyState`, `State.HandleInv.modifyState`: a new state for one allocation;
* `State.ConsistentExcept.withHandles_modifyState`: new handles for one number and a new state,
  not pending a rename, for the file the `InodeMap` holds there, which the handles fit;
* `State.ConsistentExcept.withHandles_frame`: handles that fit every status the old ones fit;
* `State.consistent_new`: the state at mount.

`State.ConsistentExcept X` is the invariant with the children at `X` allowed to be pending a
rename, as between the guards of `rename`; `State.Consistent` allows none.
-/

namespace MountpointS3.Superblock

open Metablock Foundations

namespace State

/-- The allocation of the inode the `InodeMap` holds for a number. -/
def heldCell (s : State) (ino : InodeNo) : Option InodeCell :=
  (s.inodes ino).bind fun p => s.heap p.1.obj

/-- The write status of the inode the `InodeMap` holds for a number. -/
def statusOf (s : State) (ino : InodeNo) : Option WriteStatus :=
  (s.heldCell ino).map (·.state.writeStatus)

/-- Of the allocations of a number the `InodeMap` holds, the one it holds is the only one not
pending a rename. -/
def MapCurrent (s : State) : Prop :=
  ∀ ino i n, s.inodes ino = some (i, n) → ∀ o c, s.heap o = some c → c.inode.ino = ino →
    c.state.writeStatus ≠ .pendingRename → o = i.obj

/-- The handles of a number are those of a file the `InodeMap` holds, and fit its write status. -/
def HandleInv (s : State) : Prop :=
  ∀ ino, ¬s.openHandles.NoHandles ino →
    ∃ c, s.heldCell ino = some c ∧ c.inode.kind = .file ∧ s.openHandles.Allows ino c.state.writeStatus

/-- The invariant, with the children allocated at `X` allowed to be pending a rename. -/
structure ConsistentExcept (X : ObjId → Prop) (s : State) : Prop where
  wf : s.HeapWf
  current : s.CurrentExcept X
  mapCurrent : s.MapCurrent
  handles : s.HandleInv

/-- What every call but a listing keeps. -/
abbrev Consistent (s : State) : Prop := s.ConsistentExcept fun _ => False

theorem heldCell_eq_some {s : State} {ino : InodeNo} {c : InodeCell} :
    s.heldCell ino = some c ↔ ∃ i n, s.inodes ino = some (i, n) ∧ s.heap i.obj = some c := by
  unfold heldCell
  constructor
  · intro h
    obtain ⟨⟨i, n⟩, hi, hc⟩ := Option.bind_eq_some_iff.1 h
    exact ⟨i, n, hi, hc⟩
  · rintro ⟨i, n, hi, hc⟩
    rw [hi]
    exact hc

/-- The allocation held for a number holds the record the `InodeMap` holds, of that number. -/
theorem HeapWf.held {s : State} (hs : s.HeapWf) {ino : InodeNo} {c : InodeCell}
    (h : s.heldCell ino = some c) :
    ∃ n, s.inodes ino = some (c.inode, n) ∧ c.inode.ino = ino ∧ s.heap c.inode.obj = some c := by
  obtain ⟨i, n, hi, hc⟩ := heldCell_eq_some.1 h
  obtain ⟨hino, hst⟩ := hs.inodes_stored ino i n hi
  have hrec : c.inode = i := by
    unfold Stored at hst
    rw [hc, Option.map_some, Option.some.injEq] at hst
    exact hst
  subst hrec
  exact ⟨n, hi, hino, hc⟩

/-- An allocation other than the one of `i` is not held for `i`'s number. -/
theorem HeapWf.held_ne {s : State} (hs : s.HeapWf) {ino : InodeNo} {i : Inode} {n : ℕ}
    (hi : s.inodes ino = some (i, n)) {ino' : InodeNo} {c : InodeCell}
    (h : s.heldCell ino' = some c) (hne : ino' ≠ ino) : c.inode.obj ≠ i.obj := by
  intro hobj
  obtain ⟨n', hn', hino', hc⟩ := hs.held h
  obtain ⟨hiino, hist⟩ := hs.inodes_stored ino i n hi
  obtain ⟨st, hst⟩ := hist.heap_eq
  rw [hobj, hst, Option.some.injEq] at hc
  subst hc
  exact hne (hino'.symm.trans hiino)

/-! ## Calm changes -/

theorem Calm.held {s s' : State} (hc : Calm s s') {ino : InodeNo} {c : InodeCell}
    (h : s.heldCell ino = some c) (hk : c.inode.kind = .file) :
    ∃ c', s'.heldCell ino = some c' ∧ c'.inode = c.inode ∧
      c'.state.writeStatus = c.state.writeStatus := by
  obtain ⟨i, n, hi, hcell⟩ := heldCell_eq_some.1 h
  obtain ⟨c', hc', hr, hw⟩ := hc.heap_keep _ c hcell
  exact ⟨c', heldCell_eq_some.2 ⟨i, n, hc.inodes_eq ▸ hi, hc'⟩, hr, hw hk⟩

/-- Handles that stay, over held files that keep their records and write statuses. -/
theorem HandleInv.transfer {s s' : State} (h : s.HandleInv)
    (hm : s'.openHandles = s.openHandles)
    (hheld : ∀ ino c, s.heldCell ino = some c → c.inode.kind = .file →
      ∃ c', s'.heldCell ino = some c' ∧ c'.inode = c.inode ∧
        c'.state.writeStatus = c.state.writeStatus) : s'.HandleInv := by
  intro ino hno
  rw [hm] at hno ⊢
  obtain ⟨c, hc, hk, ha⟩ := h ino hno
  obtain ⟨c', hc', hr, hw⟩ := hheld ino c hc hk
  exact ⟨c', hc', hr ▸ hk, hw ▸ ha⟩

theorem MapCurrent.of_calm {s s' : State} (h : s.MapCurrent) (hs : s.HeapWf) (hs' : s'.HeapWf)
    (hc : Calm s s') : s'.MapCurrent := by
  intro ino i n hi o c' ho hino hnp
  rw [hc.inodes_eq] at hi
  obtain ⟨hiino, hist⟩ := hs.inodes_stored ino i n hi
  obtain ⟨st, hst⟩ := hist.heap_eq
  cases hold : s.heap o with
  | none =>
    -- a new allocation takes a number no old one had, but `i` had it
    exact absurd (hiino.trans hino.symm) (hc.heap_new o c' ho hold i.obj ⟨i, st⟩ hst)
  | some c =>
    obtain ⟨c'', hc'', hr, hw⟩ := hc.heap_keep o c hold
    rw [ho, Option.some.injEq] at hc''
    subst hc''
    by_cases hk : c.inode.kind = .file
    · exact h ino i n hi o c hold (hr ▸ hino) (hw hk ▸ hnp)
    · -- a directory's number is its own
      obtain ⟨st', hst'⟩ := (hc.stored hist).heap_eq
      exact hs'.dir_unique o i.obj c' ⟨i, st'⟩ ho hst' (hino.trans hiino.symm)
        (by rw [hr]; cases hkc : c.inode.kind <;> simp_all)

/-- **A calm change that keeps the children current keeps the invariant.** -/
theorem ConsistentExcept.of_calm {X : ObjId → Prop} {s s' : State} (h : s.ConsistentExcept X)
    (hc : Calm s s') (hw : s'.WfExcept X) : s'.ConsistentExcept X :=
  ⟨hw.1, hw.2, h.mapCurrent.of_calm h.wf hw.1 hc,
    h.handles.transfer hc.openHandles_eq fun _ _ hcell hk => hc.held hcell hk⟩

theorem ConsistentExcept.toWfExcept {X : ObjId → Prop} {s : State} (h : s.ConsistentExcept X) :
    s.WfExcept X :=
  ⟨h.wf, h.current⟩

/-- A run of a call whose spec is calm and keeps the children current keeps the invariant. -/
theorem ConsistentExcept.of_spec {X : ObjId → Prop} {s s' : State} {α : Type} {x : SbM α}
    {Q : Except InodeError α → State → Prop} {r : Except InodeError α} (h : s.ConsistentExcept X)
    (hx : RelTriple Calm (WfExcept X) x fun r s => s.WfExcept X ∧ Q r s)
    (hrun : x.exec s = (r, s')) : s'.ConsistentExcept X ∧ Q r s' :=
  let ⟨hc, hw, hq⟩ := hx.apply h.toWfExcept hrun
  ⟨h.of_calm hc hw, hq⟩

/-- **A new state for one allocation that keeps its write status** keeps the invariant, when it
is an edit. -/
theorem ConsistentExcept.modifyState_edit {X : ObjId → Prop} {s : State} (h : s.ConsistentExcept X)
    (i : Inode) {f : InodeState → InodeState}
    (hf : ∀ c, s.heap i.obj = some c → c.state.Edit (f c.state))
    (hw : ∀ c, s.heap i.obj = some c → (f c.state).writeStatus = c.state.writeStatus) :
    (s.modifyState i f).ConsistentExcept X :=
  h.of_calm (Calm.modifyState i fun c hc _ => hw c hc)
    ⟨h.wf.modifyState i hf, h.current.modifyState i hf fun c hc hp => (hw c hc) ▸ hp⟩

theorem ConsistentExcept.modifyState_keepsShape {X : ObjId → Prop} {s : State}
    (h : s.ConsistentExcept X) (i : Inode) {f : InodeState → InodeState}
    (hf : InodeState.KeepsShape f) : (s.modifyState i f).ConsistentExcept X :=
  h.modifyState_edit i (fun c _ => hf.edit c.state) fun c _ => (hf c.state).2

/-- Where no child is pending a rename, a child is not. -/
theorem ChildOf.not_pending {s : State} (h : s.CurrentExcept fun _ => False) {p e : Inode}
    {name : String} (he : s.ChildOf p name e) : ¬s.Pending e.obj := by
  obtain ⟨c, hc, hce⟩ := he
  exact (h p.obj c name e hc hce).resolve_left id

/-! ## Remembering an inode -/

theorem heldCell_increaseLookupCount {s : State} {ino : InodeNo} {c : InodeCell}
    (h : s.heldCell ino = some c) (i : Inode) : (s.increaseLookupCount i).heldCell ino = some c := by
  obtain ⟨j, n, hj, hc⟩ := heldCell_eq_some.1 h
  refine heldCell_eq_some.2 ?_
  rw [increaseLookupCount_heap, increaseLookupCount_inodes]
  split_ifs with hino
  · subst hino
    exact ⟨j, n + 1, by rw [hj], hc⟩
  · exact ⟨j, n, hj, hc⟩

/-- **Remembering a stored inode not pending a rename keeps the invariant**: where the
`InodeMap` had no entry, the inode is the only current allocation of its number. -/
theorem ConsistentExcept.increaseLookupCount {X : ObjId → Prop} {s : State}
    (h : s.ConsistentExcept X) {i : Inode} (hi : s.Stored i) (hcur : ¬s.Pending i.obj) :
    (s.increaseLookupCount i).ConsistentExcept X := by
  refine ⟨h.wf.increaseLookupCount hi, h.current.congr (by simp), fun ino j n hj o c ho hino hnp => ?_,
    h.handles.transfer (by simp) fun ino c hc _ => ⟨c, heldCell_increaseLookupCount hc i, rfl, rfl⟩⟩
  rw [increaseLookupCount_heap] at ho
  rw [increaseLookupCount_inodes] at hj
  split_ifs at hj with hk
  · subst hk
    revert hj
    split
    · rename_i j' count hj'
      intro hj
      cases hj
      exact h.mapCurrent _ j count hj' o c ho hino hnp
    · intro hj
      cases hj
      obtain ⟨st, hst⟩ := hi.heap_eq
      by_contra hne
      rcases h.wf.one_current o i.obj c ⟨i, st⟩ ho hst hino hne with hp | hp
      · exact hnp hp
      · exact hcur (by unfold Pending; rw [hst]; exact congrArg some hp)
  · exact h.mapCurrent ino j n hj o c ho hino hnp

/-- Remembering a child keeps the invariant. -/
theorem Consistent.remember_child {s : State} (h : s.Consistent) {p e : Inode} {name : String}
    (he : s.ChildOf p name e) : (s.increaseLookupCount e).Consistent :=
  h.increaseLookupCount (he.stored h.wf) (he.not_pending h.current)

/-! ## New handles and a new state for a held file -/

theorem modifyState_id (s : State) (i : Inode) : s.modifyState i (fun st => st) = s := by
  have hheap : Function.update s.heap i.obj ((s.heap i.obj).map fun c => { c with state := c.state }) =
      s.heap := by
    funext o
    by_cases ho : o = i.obj
    · subst ho
      cases s.heap i.obj <;> simp
    · simp [ho]
  unfold modifyState
  rw [hheap]

/-- A change of one allocation's state keeps `MapCurrent` when, if it leaves the allocation
current, the `InodeMap` holds that allocation wherever it holds its number. -/
theorem MapCurrent.modifyState {s : State} (h : s.MapCurrent) (i : Inode)
    {f : InodeState → InodeState}
    (hf : ∀ c, s.heap i.obj = some c → (f c.state).writeStatus ≠ .pendingRename →
      ∀ j n, s.inodes c.inode.ino = some (j, n) → j.obj = i.obj) :
    (s.modifyState i f).MapCurrent := by
  intro ino j m hj o c ho hino hnp
  obtain ⟨c₀, hc₀, rfl⟩ := heap_modifyState_eq_some ho
  rw [modifyState_inodes] at hj
  by_cases hoi : o = i.obj
  · rw [if_pos hoi] at hino hnp
    subst hoi
    exact (hf c₀ hc₀ hnp j m (hino ▸ hj)).symm
  · rw [if_neg hoi] at hino hnp
    exact h ino j m hj o c₀ hc₀ hino hnp

/-- A change of the state of the inode held for a number keeps `MapCurrent`: the held
allocation may be current. -/
theorem MapCurrent.modifyState_held {s : State} (h : s.MapCurrent) (hs : s.HeapWf) {ino : InodeNo}
    {i : Inode} {n : ℕ} (hi : s.inodes ino = some (i, n)) (f : InodeState → InodeState) :
    (s.modifyState i f).MapCurrent := by
  obtain ⟨hiino, hist⟩ := hs.inodes_stored ino i n hi
  obtain ⟨st, hst⟩ := hist.heap_eq
  refine h.modifyState i fun c hc _ j m hj => ?_
  rw [hst, Option.some.injEq] at hc
  subst hc
  rw [hiino, hi, Option.some.injEq, Prod.mk.injEq] at hj
  rw [← hj.1]

/-- A change of one allocation's state keeps `HandleInv` when the handles of each number it is
held for fit the new state as they fit the old. -/
theorem HandleInv.modifyState {s : State} (h : s.HandleInv) (hs : s.HeapWf) (i : Inode)
    {f : InodeState → InodeState}
    (hf : ∀ ino c, s.heldCell ino = some c → c.inode.obj = i.obj → c.inode.kind = .file →
      s.openHandles.Allows ino c.state.writeStatus → s.openHandles.Allows ino (f c.state).writeStatus) :
    (s.modifyState i f).HandleInv := by
  intro ino hno
  rw [modifyState_openHandles] at hno ⊢
  obtain ⟨c, hc, hk, ha⟩ := h ino hno
  obtain ⟨j, m, hj, hcj⟩ := heldCell_eq_some.1 hc
  have hobj : c.inode.obj = j.obj := hs.cell_obj _ _ hcj
  by_cases hji : j.obj = i.obj
  · refine ⟨{ c with state := f c.state }, heldCell_eq_some.2 ⟨j, m, hj, ?_⟩, hk,
      hf ino c hc (hobj.trans hji) hk ha⟩
    rw [modifyState_heap, if_pos hji, hcj]
    rfl
  · exact ⟨c, heldCell_eq_some.2 ⟨j, m, hj, by rw [modifyState_heap, if_neg hji]; exact hcj⟩, hk, ha⟩

theorem heldCell_withHandles_modifyState {s : State} {ino : InodeNo} {i : Inode} {n : ℕ}
    (hi : s.inodes ino = some (i, n)) (m' : InodeHandleMap) (f : InodeState → InodeState) :
    (({ s with openHandles := m' } : State).modifyState i f).heldCell ino =
      (s.heap i.obj).map fun c => { c with state := f c.state } := by
  unfold heldCell
  simp only [modifyState_inodes, hi, Option.bind_some, modifyState_heap, ↓reduceIte]

section Held

variable {s : State} {ino : InodeNo} {i : Inode} {n : ℕ} {f : InodeState → InodeState}
  {m' : InodeHandleMap}

/-- **New handles for a number and a new state of the file held there** keep the invariant,
when the state stays an edit and the handles fit its new write status. -/
theorem ConsistentExcept.withHandles_modifyState {X : ObjId → Prop} (h : s.ConsistentExcept X)
    (hi : s.inodes ino = some (i, n))
    (hk : i.kind = .file) (hf : ∀ c, s.heap i.obj = some c → c.state.Edit (f c.state))
    (hm : ∀ ino', ino' ≠ ino → m'.handles ino' = s.openHandles.handles ino')
    (hallow : ∀ c, s.heap i.obj = some c → m'.Allows ino (f c.state).writeStatus) :
    (({ s with openHandles := m' } : State).modifyState i f).ConsistentExcept X := by
  have hwf₁ : ({ s with openHandles := m' } : State).HeapWf := h.wf.congr rfl rfl le_rfl rfl rfl
  obtain ⟨hiino, hist⟩ := h.wf.inodes_stored ino i n hi
  obtain ⟨st, hst⟩ := hist.heap_eq
  -- the state of a file: the edit keeps it pending a rename or not
  have hpend : ∀ c, s.heap i.obj = some c → (f c.state).writeStatus = .pendingRename →
      c.state.writeStatus = .pendingRename := by
    intro c hc hp
    rw [hst, Option.some.injEq] at hc
    subst hc
    exact ((hf _ hst).pending_iff (by rw [h.wf.kind_eq _ _ hst, hk])).1 hp
  refine ⟨hwf₁.modifyState i hf, (h.current.congr rfl).modifyState i hf hpend,
    MapCurrent.modifyState_held (s := { s with openHandles := m' }) h.mapCurrent hwf₁ hi f,
    fun ino' hno => ?_⟩
  rw [modifyState_openHandles] at hno ⊢
  by_cases hino : ino' = ino
  · subst hino
    refine ⟨⟨i, f st⟩, ?_, hk, hallow _ hst⟩
    rw [heldCell_withHandles_modifyState hi m' f, hst]
    rfl
  · -- another number: the same handles, over the same allocation
    have hsame : (m'.writerOf ino').isSome = (s.openHandles.writerOf ino').isSome ∧
        (m'.hasReaders ino' ↔ s.openHandles.hasReaders ino') := by
      simp [InodeHandleMap.writerOf, InodeHandleMap.hasReaders, hm ino' hino]
    have hno' : ¬s.openHandles.NoHandles ino' := by
      rwa [← InodeHandleMap.noHandles_congr hsame.1 hsame.2]
    obtain ⟨c, hc, hck, ha⟩ := h.handles ino' hno'
    refine ⟨c, ?_, hck, ha.congr hsame.1 hsame.2⟩
    obtain ⟨j, m, hj, hcj⟩ := heldCell_eq_some.1 hc
    refine heldCell_eq_some.2 ⟨j, m, hj, ?_⟩
    rw [modifyState_heap, if_neg]
    · exact hcj
    · intro hobj
      exact h.wf.held_ne hi hc hino ((h.wf.cell_obj _ _ hcj).trans hobj)

/-- New handles for a number that fit the state of the file held there keep the invariant. -/
theorem ConsistentExcept.withHandles {X : ObjId → Prop} (h : s.ConsistentExcept X)
    (hi : s.inodes ino = some (i, n))
    (hk : i.kind = .file) (hm : ∀ ino', ino' ≠ ino → m'.handles ino' = s.openHandles.handles ino')
    (hallow : ∀ c, s.heap i.obj = some c → m'.Allows ino c.state.writeStatus) :
    ({ s with openHandles := m' } : State).ConsistentExcept X := by
  have := h.withHandles_modifyState hi hk (f := fun st => st)
    (fun c _ => InodeState.Edit.refl c.state) hm hallow
  rwa [modifyState_id] at this

end Held

/-- Handles that fit every status the old ones fit, for the numbers that had handles, keep the
invariant. -/
theorem ConsistentExcept.withHandles_frame {X : ObjId → Prop} {s : State}
    (h : s.ConsistentExcept X) {m' : InodeHandleMap}
    (hno : ∀ ino, ¬m'.NoHandles ino → ¬s.openHandles.NoHandles ino)
    (hallow : ∀ ino ws, s.openHandles.Allows ino ws → m'.Allows ino ws) :
    ({ s with openHandles := m' } : State).ConsistentExcept X := by
  refine ⟨h.wf.congr rfl rfl le_rfl rfl rfl, h.current.congr rfl, fun ino i n hi => h.mapCurrent ino i n hi,
    fun ino hino => ?_⟩
  obtain ⟨c, hc, hk, ha⟩ := h.handles ino (hno ino hino)
  exact ⟨c, hc, hk, hallow ino _ ha⟩

/-! ## The state at mount -/

theorem new_heap (cfg : Config) (mountTime now : ℕ) (o : ObjId) :
    (State.new cfg mountTime now).heap o =
      if o = 0 then some ⟨rootInode cfg, Inode.rootState mountTime now⟩ else none := by
  by_cases ho : o = 0
  · subst ho; simp [State.new]
  · simp [State.new, ho]

theorem new_inodes (cfg : Config) (mountTime now : ℕ) (ino : InodeNo) :
    (State.new cfg mountTime now).inodes ino =
      if ino = ROOT_INODE_NO then some (rootInode cfg, 1) else none := by
  by_cases hino : ino = ROOT_INODE_NO
  · subst hino; simp [State.new]
  · simp [State.new, hino]

/-- **The state at mount is consistent**: the root alone, with no child and no handle. -/
theorem consistent_new (cfg : Config) (mountTime now : ℕ) :
    (State.new cfg mountTime now).Consistent := by
  -- the one allocation is the root's
  have hcell : ∀ o c, (State.new cfg mountTime now).heap o = some c →
      o = 0 ∧ c = ⟨rootInode cfg, Inode.rootState mountTime now⟩ := by
    intro o c h
    rw [new_heap] at h
    split_ifs at h with ho
    · exact ⟨ho, (Option.some.inj h).symm⟩
  have hnochild : ∀ name, (Inode.rootState mountTime now).child name = none := fun _ => rfl
  have hroot : (State.new cfg mountTime now).Stored (rootInode cfg) := by
    unfold Stored
    rw [new_heap, if_pos (show (rootInode cfg).obj = 0 from rfl)]
    rfl
  refine ⟨⟨fun o c h => ?_, fun o ho => ?_, fun o c h => ?_, fun o c h => ?_,
    fun o o' c c' h h' _ _ => ?_, fun o o' c c' h h' _ hne => ?_, fun o c name e h he => ?_,
    fun ino i n h => ?_, fun fh dh h => ?_⟩, fun o c name e h he => ?_,
    fun ino i n h o c ho _ _ => ?_, fun ino hno => ?_⟩
  · obtain ⟨rfl, rfl⟩ := hcell o c h
    rfl
  · rw [new_heap, if_neg (Nat.one_le_iff_ne_zero.1 ho)]
  · obtain ⟨rfl, rfl⟩ := hcell o c h
    simp [State.new, rootInode, ROOT_INODE_NO]
  · obtain ⟨rfl, rfl⟩ := hcell o c h
    rfl
  · rw [(hcell o c h).1, (hcell o' c' h').1]
  · exact absurd ((hcell o c h).1.trans (hcell o' c' h').1.symm) hne
  · obtain ⟨rfl, rfl⟩ := hcell o c h
    rw [hnochild] at he
    cases he
  · rw [new_inodes] at h
    split_ifs at h with hino
    · cases h
      exact ⟨hino.symm, hroot⟩
  · simp [State.new] at h
  · obtain ⟨rfl, rfl⟩ := hcell o c h
    rw [hnochild] at he
    cases he
  · rw [new_inodes] at h
    split_ifs at h
    · cases h
      rw [(hcell o c ho).1]
      rfl
  · exact absurd ⟨by simp [InodeHandleMap.writerOf, State.new],
      fun ⟨_, he, _⟩ => by simp [State.new] at he⟩ hno

end State

end MountpointS3.Superblock

import MountpointS3.Superblock.Invariant.Heap
import MountpointS3.Superblock.Lookup

/-!
# Lookups keep the shape of the heap

The lookup path creates inodes, replaces and forgets children and renews stats; it never touches
a handle, changes the write status of a file, or makes an allocation pending a rename. So it
keeps `State.HeapWf` and `State.CurrentExcept X` for every `X`, and it is `State.Calm`.

What it returns is the child of the parent under the name, in the state it leaves:

* `createInodeLocked_spec`, `tryUpdateFastPath_spec`, `updateSlowPath_spec`,
  `updateFromRemote_spec`: the reconciliation with the known child;
* `lookupByName_spec`: the inode returned is a child of the parent's allocation, with the parent
  and name `verify_child` checked;
* `getattrWithInode_spec`: with no child pending a rename, the inode returned is the one the
  `InodeMap` holds for the number asked.
-/

namespace MountpointS3.Superblock

open Metablock Foundations Prog

/-! ## The primitive programs -/

@[simp] theorem SuperblockInner.get_exec (cfg : Config) (ino : InodeNo) (s : State) :
    (SuperblockInner.get cfg ino).exec s = (s.getInode cfg ino, s) := by
  simp [SuperblockInner.get, exec_bind]

@[simp] theorem SuperblockInner.remember_exec (i : Inode) (s : State) :
    (SuperblockInner.remember i).exec s = (.ok (), s.increaseLookupCount i) := rfl

@[simp] theorem getInodeState_exec (i : Inode) (s : State) :
    (getInodeState i).exec s = (s.inodeState i, s) := by
  simp [getInodeState, exec_bind]

@[simp] theorem modifyInodeState_exec (i : Inode) (f : InodeState → InodeState) (s : State) :
    (modifyInodeState i f).exec s = (.ok (), s.modifyState i f) := rfl

@[simp] theorem modifyInodeState_bind_exec {α : Type} (i : Inode) (f : InodeState → InodeState)
    (k : Unit → SbM α) (s : State) :
    (modifyInodeState i f >>= k).exec s = (k ()).exec (s.modifyState i f) := by
  rw [exec_bind, modifyInodeState_exec]

/-- A run that starts by reading an inode's state fails there, leaving the state as it was, or
goes on from the state read. -/
theorem getInodeState_bind_eq {α : Type} {i : Inode} {k : InodeState → SbM α} {s s' : State}
    {r : Except InodeError α} (h : (getInodeState i >>= k).exec s = (r, s')) :
    (∃ st, s.inodeState i = .ok st ∧ (k st).exec s = (r, s')) ∨ (s' = s ∧ ∃ e, r = .error e) := by
  rw [exec_bind, getInodeState_exec] at h
  cases hst : s.inodeState i with
  | ok st =>
    rw [hst] at h
    exact .inl ⟨st, rfl, h⟩
  | error e =>
    rw [hst, Prod.mk.injEq] at h
    exact .inr ⟨h.2.symm, e, h.1.symm⟩

/-- A run that starts by reading the `InodeMap` fails there, leaving the state as it was, or goes
on from the inode read. -/
theorem SuperblockInner.get_bind_eq {α : Type} {cfg : Config} {ino : InodeNo} {k : Inode → SbM α}
    {s s' : State} {r : Except InodeError α} (h : (SuperblockInner.get cfg ino >>= k).exec s = (r, s')) :
    (∃ i, s.getInode cfg ino = .ok i ∧ (k i).exec s = (r, s')) ∨ (s' = s ∧ ∃ e, r = .error e) := by
  rw [exec_bind, SuperblockInner.get_exec] at h
  cases hi : s.getInode cfg ino with
  | ok i =>
    rw [hi] at h
    exact .inl ⟨i, rfl, h⟩
  | error e =>
    rw [hi, Prod.mk.injEq] at h
    exact .inr ⟨h.2.symm, e, h.1.symm⟩

namespace State

theorem getInode_ok {cfg : Config} {s : State} {ino : InodeNo} {i : Inode}
    (h : s.getInode cfg ino = .ok i) : ∃ n, s.inodes ino = some (i, n) := by
  unfold getInode at h
  split at h
  · cases h
  · rename_i j n hj
    cases hv : j.verifyInode cfg.crc ino cfg.pfx <;> rw [hv] at h <;> cases h
    exact ⟨n, hj⟩

theorem inodeState_ok {s : State} {i : Inode} {st : InodeState} (h : s.inodeState i = .ok st) :
    ∃ c, s.heap i.obj = some c ∧ c.state = st := by
  unfold inodeState at h
  split at h
  · rename_i c hc
    split_ifs at h
    cases h
    exact ⟨c, hc, rfl⟩
  · cases h

/-- `e` is the child `name` of the allocation of `p`. -/
def ChildOf (s : State) (p : Inode) (name : String) (e : Inode) : Prop :=
  ∃ c, s.heap p.obj = some c ∧ c.state.child name = some e

/-- `e` is the child `name` of the inode the `InodeMap` holds for `parentIno`. -/
def ChildAt (s : State) (parentIno : InodeNo) (name : String) (e : Inode) : Prop :=
  ∃ p n, s.inodes parentIno = some (p, n) ∧ s.ChildOf p name e

/-- The shape of the heap, with the children at `X` allowed to be pending a rename. -/
def WfExcept (X : ObjId → Prop) (s : State) : Prop := s.HeapWf ∧ s.CurrentExcept X

theorem WfExcept.modifyState_keepsShape {X : ObjId → Prop} {s : State} (hs : s.WfExcept X)
    (i : Inode) {f : InodeState → InodeState} (hf : InodeState.KeepsShape f) :
    (s.modifyState i f).WfExcept X :=
  ⟨hs.1.modifyState i fun c _ => hf.edit c.state, hs.2.modifyState_keepsShape i hf⟩

/-- A child stays a child through a change of any inode's state that keeps the children. -/
theorem ChildOf.modifyState {s : State} {p e : Inode} {name : String}
    (h : s.ChildOf p name e) (i : Inode) {f : InodeState → InodeState}
    (hf : ∀ st, (f st).child = st.child) : (s.modifyState i f).ChildOf p name e := by
  obtain ⟨c, hc, he⟩ := h
  rw [ChildOf, modifyState_heap]
  split_ifs
  · exact ⟨_, by rw [hc]; rfl, by rw [hf]; exact he⟩
  · exact ⟨c, hc, he⟩

theorem ChildOf.modifyState_keepsShape {s : State} {p e : Inode} {name : String}
    (h : s.ChildOf p name e) (i : Inode) {f : InodeState → InodeState}
    (hf : InodeState.KeepsShape f) : (s.modifyState i f).ChildOf p name e :=
  h.modifyState i fun st => InodeState.child_congr (hf st).1

theorem ChildOf.stored {s : State} (hs : s.HeapWf) {p e : Inode} {name : String}
    (h : s.ChildOf p name e) : s.Stored e :=
  let ⟨c, hc, he⟩ := h
  (hs.child_stored _ c name e hc he).1

end State

open State SuperblockInner

/-! ## Creating a child -/

/-- The change `create_inode_locked` makes to the parent's state inserts the new child; the
writing children it updates show neither in the children, the kind nor the write status. -/
theorem createInodeLocked_insertsChild (name : String) (inode : Inode) (nextIno : InodeNo)
    (isNewFile : Bool) (existing : Option Inode) :
    InodeState.InsertsChild name inode fun st =>
      let st := st.insertChild name inode
      let st := if isNewFile then st.insertWritingChild nextIno else st
      match existing with
      | some e => st.eraseWritingChild e.ino
      | none => st := fun st => by
  cases isNewFile <;> cases existing <;> simp [InodeState.insertChild]

theorem child_defaultFor (stat : InodeStat) (kind : InodeKind) (ws : WriteStatus) (name : String) :
    (InodeState.new stat kind ws).child name = none := by
  cases kind <;> rfl

theorem createInodeLocked_spec (X : ObjId → Prop) (cfg : Config) (parent : Inode)
    (name : ValidName) (kind : InodeKind) (stat : InodeStat) (ws : WriteStatus)
    (isNewFile : Bool) (hws : ws ≠ .pendingRename) :
    RelTriple Calm (fun s => s.WfExcept X ∧ s.Stored parent)
      (createInodeLocked cfg parent name kind (.new stat kind ws) isNewFile)
      (fun r s => s.WfExcept X ∧ ∀ i, r = .ok i → s.ChildOf parent name.name i) := by
  refine RelTriple.of_exec fun s ⟨⟨hw, hc⟩, hp⟩ r s' hx => ?_
  unfold createInodeLocked at hx
  dsimp only at hx
  split at hx
  swap
  · -- no key for the child: nothing changed
    obtain ⟨_, _, h₁, -⟩ | ⟨e, h₁, rfl⟩ := exec_bind_eq hx
    · simp at h₁
    simp only [exec_throw, Prod.mk.injEq] at h₁
    obtain ⟨-, rfl⟩ := h₁
    exact ⟨Calm.refl s, ⟨hw, hc⟩, by simp⟩
  rename_i key hkey
  obtain ⟨key', s₁, h₁, hx⟩ | ⟨e, h₁, -⟩ := exec_bind_eq hx
  swap
  · simp at h₁
  simp only [exec_pure, Prod.mk.injEq, Except.ok.injEq] at h₁
  obtain ⟨rfl, rfl⟩ := h₁
  obtain ⟨ino, s₂, h₂, hx⟩ | ⟨e, h₂, -⟩ := exec_bind_eq hx
  swap
  · simp at h₂
  simp only [exec_modifyGet, Prod.mk.injEq, Except.ok.injEq] at h₂
  obtain ⟨rfl, rfl⟩ := h₂
  set s₂ : State := { s with nextIno := s.nextIno + 1 }
  have hw₂ : s₂.HeapWf := hw.congr rfl rfl (Nat.le_succ _) rfl rfl
  obtain ⟨inode, s₃, h₃, hx⟩ | ⟨e, h₃, -⟩ := exec_bind_eq hx
  swap
  · simp at h₃
  simp only [exec_modifyGet, Prod.mk.injEq, Except.ok.injEq] at h₃
  obtain ⟨rfl, rfl⟩ := h₃
  set mk : ObjId → Inode := fun obj => Inode.new cfg.crc obj s.nextIno parent.ino key cfg.pfx
  set s₃ := (s₂.alloc mk (.new stat kind ws)).2
  -- the fresh allocation: a new number, no children
  have hfresh : ∀ o c, s₂.heap o = some c → c.inode.ino ≠ (mk s₂.nextObj).ino := fun o c h =>
    (hw.ino_lt o c h).ne
  have hw₃ : s₃.HeapWf := hw₂.alloc (by simp [mk]) (by simp [mk, s₂])
    (by simp [mk, InodeState.new, Inode.kind, ValidKey.kind_newChild hkey]) (child_defaultFor stat kind ws)
    (fun o c h hino => absurd hino (hfresh o c h))
  have hc₃ : s₃.CurrentExcept X := (hc.congr rfl).alloc hw₂ (child_defaultFor stat kind ws)
  have hcalm₂ : Calm s s₂ := Calm.congr rfl rfl rfl
  have hcalm₃ : Calm s s₃ := hcalm₂.trans (Calm.alloc hw₂ hfresh)
  obtain ⟨sv, s₄, h₄, hx⟩ | ⟨e, h₄, -⟩ := exec_bind_eq hx
  swap
  · simp at h₄
  simp only [exec_getThe, Prod.mk.injEq, Except.ok.injEq] at h₄
  obtain ⟨rfl, rfl⟩ := h₄
  split at hx
  · -- the parent is a directory: the new inode becomes its child `name`
    rename_i children _ _ hdir
    obtain ⟨u, s₅, h₅, hx⟩ | ⟨e, h₅, -⟩ := exec_bind_eq hx
    swap
    · simp at h₅
    simp only [modifyInodeState_exec, Prod.mk.injEq] at h₅
    obtain ⟨-, rfl⟩ := h₅
    simp only [exec_pure, Prod.mk.injEq] at hx
    obtain ⟨rfl, rfl⟩ := hx
    have hchange := createInodeLocked_insertsChild name.name (mk s₂.nextObj) s.nextIno isNewFile
      (children.lookup name.name)
    have hstored : s₃.Stored (mk s₂.nextObj) := stored_alloc _ _ _ (by simp [mk])
    have hname : (mk s₂.nextObj).name = name.name := by
      simp [mk, Inode.name, ValidKey.name_newChild hkey]
    have hnew : ¬s₃.Pending (mk s₂.nextObj).obj := by
      unfold Pending
      rw [show (mk s₂.nextObj).obj = s₂.nextObj by simp [mk], alloc_heap, if_pos rfl]
      simpa [InodeState.new] using hws
    obtain ⟨pst, hps⟩ := (hcalm₃.stored hp).heap_eq
    refine ⟨hcalm₃.trans (Calm.modifyState parent fun c _ _ => (hchange c.state).2.2),
      ⟨hw₃.modifyState_insert (hcalm₃.stored hp) hstored (by simp [mk]) hname hchange,
        hc₃.modifyState_insert parent hnew hchange⟩, fun i hi => ?_⟩
    cases hi
    refine ⟨_, by rw [modifyState_heap, if_pos rfl, hps]; rfl, hchange.child_self ?_⟩
    simp only [hps, Option.map_some, Option.some.injEq] at hdir
    simp [hdir, InodeKindData.kind]
  · -- the parent is not a directory: the allocation stays, unused
    simp only [exec_throw, Prod.mk.injEq] at hx
    obtain ⟨rfl, rfl⟩ := hx
    exact ⟨hcalm₃, ⟨hw₃, hc₃⟩, by simp⟩

/-! ## Reconciling with the known child -/

/-- A new stat keeps the shape of an inode's state. -/
theorem keepsShape_stat (g : InodeState → InodeStat) :
    InodeState.KeepsShape fun st => { st with stat := g st } := fun _ => ⟨rfl, rfl⟩

theorem tryUpdateFastPath_spec (X : ObjId → Prop) (parent : Inode) (name : String)
    (remote : Option RemoteLookup) :
    RelTriple Calm (WfExcept X) (tryUpdateFastPath parent name remote)
      (fun r s => s.WfExcept X ∧ ∀ l, r = .ok (some l) → s.ChildOf parent name l.inode) := by
  refine RelTriple.of_exec fun s hs r s' hx => ?_
  unfold tryUpdateFastPath at hx
  obtain ⟨pst, s₁, h₁, hx⟩ | ⟨e, h₁, rfl⟩ := exec_bind_eq hx
  swap
  · simp only [getInodeState_exec, Prod.mk.injEq] at h₁
    obtain ⟨-, rfl⟩ := h₁
    exact ⟨Calm.refl s, hs, by simp⟩
  simp only [getInodeState_exec, Prod.mk.injEq] at h₁
  obtain ⟨hp, rfl⟩ := h₁
  obtain ⟨pc, hpc, rfl⟩ := inodeState_ok hp
  split at hx
  · simp only [exec_throw, Prod.mk.injEq] at hx
    obtain ⟨rfl, rfl⟩ := hx
    exact ⟨Calm.refl s, hs, by simp⟩
  · -- a known child: it gets the remote stat when nothing is local and the etag is the same
    rename_i existing hch _
    obtain ⟨est, s₂, h₂, hx⟩ | ⟨e, h₂, rfl⟩ := exec_bind_eq hx
    swap
    · simp only [getInodeState_exec, Prod.mk.injEq] at h₂
      obtain ⟨-, rfl⟩ := h₂
      exact ⟨Calm.refl s, hs, by simp⟩
    simp only [getInodeState_exec, Prod.mk.injEq] at h₂
    obtain ⟨-, rfl⟩ := h₂
    split_ifs at hx
    · obtain ⟨u, s₃, h₃, hx⟩ | ⟨e, h₃, -⟩ := exec_bind_eq hx
      swap
      · simp at h₃
      simp only [modifyInodeState_exec, Prod.mk.injEq] at h₃
      obtain ⟨-, rfl⟩ := h₃
      simp only [exec_pure, Prod.mk.injEq] at hx
      obtain ⟨rfl, rfl⟩ := hx
      refine ⟨calm_modifyState_of_keepsShape s existing (keepsShape_stat _),
        hs.modifyState_keepsShape existing (keepsShape_stat _), fun l hl => ?_⟩
      cases hl
      exact ChildOf.modifyState_keepsShape ⟨pc, hpc, hch⟩ existing (keepsShape_stat _)
    · simp only [exec_pure, Prod.mk.injEq] at hx
      obtain ⟨rfl, rfl⟩ := hx
      exact ⟨Calm.refl s, hs, by simp⟩
  · simp only [exec_pure, Prod.mk.injEq] at hx
    obtain ⟨rfl, rfl⟩ := hx
    exact ⟨Calm.refl s, hs, by simp⟩

/-- Forgetting a child keeps the shape, calmly. -/
theorem removeChild_spec {X : ObjId → Prop} {s : State} (hs : s.WfExcept X) (p : Inode)
    (n : String) : Calm s (s.modifyState p (·.removeChild n)) ∧
      (s.modifyState p (·.removeChild n)).WfExcept X :=
  ⟨Calm.modifyState p fun c _ _ => by simp [InodeState.removeChild],
    hs.1.modifyState p (fun c _ => c.state.edit_removeChild n),
    hs.2.modifyState p (fun c _ => c.state.edit_removeChild n)
      fun c _ h => by simpa [InodeState.removeChild] using h⟩

theorem updateSlowPath_spec (X : ObjId → Prop) (cfg : Config) (env : Env) (parent : Inode)
    (name : ValidName) (remote : Option RemoteLookup) :
    RelTriple Calm (fun s => s.WfExcept X ∧ s.Stored parent)
      (updateSlowPath cfg env parent name remote)
      (fun r s => s.WfExcept X ∧ ∀ l, r = .ok l → s.ChildOf parent name.name l.inode) := by
  refine RelTriple.of_exec fun s ⟨hs, hp⟩ r s' hx => ?_
  unfold updateSlowPath at hx
  obtain ⟨pst, s₁, h₁, hx⟩ | ⟨e, h₁, rfl⟩ := exec_bind_eq hx
  swap
  · simp only [getInodeState_exec, Prod.mk.injEq] at h₁
    obtain ⟨-, rfl⟩ := h₁
    exact ⟨Calm.refl s, hs, by simp⟩
  simp only [getInodeState_exec, Prod.mk.injEq] at h₁
  obtain ⟨hpst, rfl⟩ := h₁
  obtain ⟨pc, hpc, rfl⟩ := inodeState_ok hpst
  split at hx
  · simp only [exec_throw, Prod.mk.injEq] at hx
    obtain ⟨rfl, rfl⟩ := hx
    exact ⟨Calm.refl s, hs, by simp⟩
  · -- unknown remotely: a writing child is kept, any other child forgotten
    rename_i existing hch _
    split_ifs at hx
    · obtain ⟨est, s₂, h₂, hx⟩ | ⟨e, h₂, rfl⟩ := exec_bind_eq hx
      swap
      · simp only [getInodeState_exec, Prod.mk.injEq] at h₂
        obtain ⟨-, rfl⟩ := h₂
        exact ⟨Calm.refl s, hs, by simp⟩
      simp only [getInodeState_exec, Prod.mk.injEq] at h₂
      obtain ⟨-, rfl⟩ := h₂
      obtain ⟨u, s₃, h₃, hx⟩ | ⟨e, h₃, -⟩ := exec_bind_eq hx
      swap
      · simp at h₃
      simp only [modifyInodeState_exec, Prod.mk.injEq] at h₃
      obtain ⟨-, rfl⟩ := h₃
      simp only [exec_pure, Prod.mk.injEq] at hx
      obtain ⟨rfl, rfl⟩ := hx
      refine ⟨calm_modifyState_of_keepsShape s existing (keepsShape_stat _),
        hs.modifyState_keepsShape existing (keepsShape_stat _), fun l hl => ?_⟩
      cases hl
      exact ChildOf.modifyState_keepsShape ⟨pc, hpc, hch⟩ existing (keepsShape_stat _)
    · obtain ⟨u, s₂, h₂, hx⟩ | ⟨e, h₂, -⟩ := exec_bind_eq hx
      swap
      · simp at h₂
      simp only [modifyInodeState_exec, Prod.mk.injEq] at h₂
      obtain ⟨-, rfl⟩ := h₂
      simp only [exec_throw, Prod.mk.injEq] at hx
      obtain ⟨rfl, rfl⟩ := hx
      exact ⟨(removeChild_spec hs parent name.name).1, (removeChild_spec hs parent name.name).2,
        by simp⟩
  · -- known remotely, no child: a new one
    obtain ⟨inode, s₂, h₂, hx⟩ | ⟨e, h₂, rfl⟩ := exec_bind_eq hx
    · obtain ⟨hcalm, hs₂, hchild⟩ := (createInodeLocked_spec X cfg parent name _ _ _ false
        (by simp)).apply ⟨hs, hp⟩ h₂
      simp only [exec_pure, Prod.mk.injEq] at hx
      obtain ⟨rfl, rfl⟩ := hx
      exact ⟨hcalm, hs₂, fun l hl => by cases hl; exact hchild inode rfl⟩
    · obtain ⟨hcalm, hs₂, -⟩ := (createInodeLocked_spec X cfg parent name _ _ _ false
        (by simp)).apply ⟨hs, hp⟩ h₂
      exact ⟨hcalm, hs₂, by simp⟩
  · -- known remotely and a child
    rename_i remote existing hch _
    have hstored : s.Stored existing := ChildOf.stored hs.1 ⟨pc, hpc, hch⟩
    obtain ⟨est, s₂, h₂, hx⟩ | ⟨e, h₂, rfl⟩ := exec_bind_eq hx
    swap
    · simp only [getInodeState_exec, Prod.mk.injEq] at h₂
      obtain ⟨-, rfl⟩ := h₂
      exact ⟨Calm.refl s, hs, by simp⟩
    simp only [getInodeState_exec, Prod.mk.injEq] at h₂
    obtain ⟨hest, rfl⟩ := h₂
    split at hx
    · -- a local file is shadowed by nothing yet: kept as it is
      simp only [exec_pure, Prod.mk.injEq] at hx
      obtain ⟨rfl, rfl⟩ := hx
      exact ⟨Calm.refl s, hs, fun l hl => by cases hl; exact ⟨pc, hpc, hch⟩⟩
    split at hx
    · -- the same object: updated in place
      rename_i hsame
      obtain ⟨u, s₂, h₂, hx⟩ | ⟨e, h₂, -⟩ := exec_bind_eq hx
      swap
      · simp at h₂
      simp only [modifyInodeState_exec, Prod.mk.injEq] at h₂
      obtain ⟨-, rfl⟩ := h₂
      set s₂ := s.modifyState existing fun st => { st with stat := remote.stat }
      have hcalm₂ : Calm s s₂ := calm_modifyState_of_keepsShape s existing (keepsShape_stat _)
      have hs₂ : s₂.WfExcept X := hs.modifyState_keepsShape existing (keepsShape_stat _)
      have hch₂ : s₂.ChildOf parent name.name existing :=
        ChildOf.modifyState_keepsShape ⟨pc, hpc, hch⟩ existing (keepsShape_stat _)
      split at hx
      · -- a local directory has become remote
        rename_i hdir
        have hkind : existing.kind = .directory := hsame.1 ▸ hdir.1
        obtain ⟨u, s₃, h₃, hx⟩ | ⟨e, h₃, -⟩ := exec_bind_eq hx
        swap
        · simp at h₃
        simp only [modifyInodeState_exec, Prod.mk.injEq] at h₃
        obtain ⟨-, rfl⟩ := h₃
        obtain ⟨u, s₄, h₄, hx⟩ | ⟨e, h₄, -⟩ := exec_bind_eq hx
        swap
        · simp at h₄
        simp only [modifyInodeState_exec, Prod.mk.injEq] at h₄
        obtain ⟨-, rfl⟩ := h₄
        simp only [exec_pure, Prod.mk.injEq] at hx
        obtain ⟨rfl, rfl⟩ := hx
        -- the allocation of `existing` is a directory's
        have hcell : ∀ c, s₂.heap existing.obj = some c → c.inode = existing ∧
            c.state.kindData.kind = .directory := by
          intro c hc
          have hst := hcalm₂.stored hstored
          unfold Stored at hst
          rw [hc, Option.map_some, Option.some.injEq] at hst
          exact ⟨hst, by rw [hs₂.1.kind_eq _ c hc, hst, hkind]⟩
        set s₃ := s₂.modifyState existing fun st => { st with writeStatus := .remote }
        have hcalm₃ : Calm s₂ s₃ := Calm.modifyState existing fun c hc hf => by
          rw [(hcell c hc).1, hkind] at hf
          cases hf
        have hs₃ : s₃.WfExcept X :=
          ⟨hs₂.1.modifyState existing fun c hc =>
            ⟨rfl, fun _ _ h => h, fun hf => by rw [(hcell c hc).2] at hf; cases hf⟩,
            hs₂.2.modifyState existing
              (fun c hc => ⟨rfl, fun _ _ h => h, fun hf => by rw [(hcell c hc).2] at hf; cases hf⟩)
              fun c _ h => by cases h⟩
        have hch₃ : s₃.ChildOf parent name.name existing := hch₂.modifyState existing fun _ => rfl
        refine ⟨hcalm₂.trans (hcalm₃.trans (Calm.modifyState parent fun c _ _ => by simp)),
          ⟨hs₃.1.modifyState parent fun c _ => c.state.edit_mapDirectory_id _,
            hs₃.2.modifyState parent (fun c _ => c.state.edit_mapDirectory_id _)
              fun c _ h => by simpa using h⟩, fun l hl => ?_⟩
        cases hl
        exact hch₃.modifyState parent fun st => by simp
      · simp only [exec_pure, Prod.mk.injEq] at hx
        obtain ⟨rfl, rfl⟩ := hx
        exact ⟨hcalm₂, hs₂, fun l hl => by cases hl; exact hch₂⟩
    · -- another object: a new inode replaces the child
      obtain ⟨inode, s₂, h₂, hx⟩ | ⟨e, h₂, rfl⟩ := exec_bind_eq hx
      · obtain ⟨hcalm, hs₂, hchild⟩ := (createInodeLocked_spec X cfg parent name _ _ _ false
          (by simp)).apply ⟨hs, hp⟩ h₂
        simp only [exec_pure, Prod.mk.injEq] at hx
        obtain ⟨rfl, rfl⟩ := hx
        exact ⟨hcalm, hs₂, fun l hl => by cases hl; exact hchild inode rfl⟩
      · obtain ⟨hcalm, hs₂, -⟩ := (createInodeLocked_spec X cfg parent name _ _ _ false
          (by simp)).apply ⟨hs, hp⟩ h₂
        exact ⟨hcalm, hs₂, by simp⟩

theorem negativeCache_spec {X : ObjId → Prop} {s : State} (hs : s.WfExcept X)
    (nc : NegativeCache) : Calm s { s with negativeCache := nc } ∧
      State.WfExcept X { s with negativeCache := nc } :=
  ⟨Calm.congr rfl rfl rfl, hs.1.congr rfl rfl le_rfl rfl rfl, hs.2.congr rfl⟩

/-- The end of `update_from_remote`: the fast path, then the slow one. -/
theorem updateFromRemote_tail_spec (X : ObjId → Prop) (cfg : Config) (env : Env) (parent : Inode)
    (name : ValidName) (remote : Option RemoteLookup) :
    RelTriple Calm (fun s => s.WfExcept X ∧ s.Stored parent)
      (do
        match ← tryUpdateFastPath parent name.name remote with
        | some lookedUp => pure lookedUp
        | none => updateSlowPath cfg env parent name remote)
      (fun r s => s.WfExcept X ∧ ∀ l, r = .ok l → s.ChildOf parent name.name l.inode) := by
  refine RelTriple.of_exec fun s ⟨hs, hp⟩ r s' hx => ?_
  obtain ⟨fast, s₁, h₁, hx⟩ | ⟨e, h₁, rfl⟩ := exec_bind_eq hx
  swap
  · obtain ⟨hcalm, hs₁, -⟩ := (tryUpdateFastPath_spec X parent name.name remote).apply hs h₁
    exact ⟨hcalm, hs₁, by simp⟩
  obtain ⟨hcalm, hs₁, hfast⟩ := (tryUpdateFastPath_spec X parent name.name remote).apply hs h₁
  split at hx
  · rename_i lookedUp
    simp only [exec_pure, Prod.mk.injEq] at hx
    obtain ⟨rfl, rfl⟩ := hx
    exact ⟨hcalm, hs₁, fun l hl => by cases hl; exact hfast lookedUp rfl⟩
  · obtain ⟨hcalm₂, hs₂, hslow⟩ := (updateSlowPath_spec X cfg env parent name remote).apply
      ⟨hs₁, hcalm.stored hp⟩ hx
    exact ⟨hcalm.trans hcalm₂, hs₂, hslow⟩

theorem updateFromRemote_spec (X : ObjId → Prop) (cfg : Config) (env : Env)
    (parentIno : InodeNo) (name : ValidName) (remote : Option RemoteLookup) :
    RelTriple Calm (WfExcept X) (updateFromRemote cfg env parentIno name remote)
      (fun r s => s.WfExcept X ∧ ∀ l, r = .ok l → s.ChildAt parentIno name.name l.inode) := by
  refine RelTriple.of_exec fun s hs r s' hx => ?_
  unfold updateFromRemote at hx
  obtain ⟨parent, s₁, h₁, hx⟩ | ⟨e, h₁, rfl⟩ := exec_bind_eq hx
  swap
  · simp only [get_exec, Prod.mk.injEq] at h₁
    obtain ⟨-, rfl⟩ := h₁
    exact ⟨Calm.refl s, hs, by simp⟩
  simp only [get_exec, Prod.mk.injEq] at h₁
  obtain ⟨hget, rfl⟩ := h₁
  obtain ⟨n, hn⟩ := getInode_ok hget
  have hp : s.Stored parent := (hs.1.inodes_stored _ _ _ hn).2
  -- what the whole call ends with, once the negative cache is updated
  have htail : ∀ s₁, Calm s s₁ → s₁.WfExcept X →
      (do
        match ← tryUpdateFastPath parent name.name remote with
        | some lookedUp => pure lookedUp
        | none => updateSlowPath cfg env parent name remote).exec s₁ = (r, s') →
      Calm s s' ∧ s'.WfExcept X ∧ ∀ l, r = .ok l → s'.ChildAt parentIno name.name l.inode := by
    intro s₁ hcalm₁ hs₁ hx
    obtain ⟨hcalm₂, hs₂, hchild⟩ :=
      (updateFromRemote_tail_spec X cfg env parent name remote).apply ⟨hs₁, hcalm₁.stored hp⟩ hx
    have hn' : s'.inodes parentIno = some (parent, n) := (hcalm₁.trans hcalm₂).inodes_eq ▸ hn
    exact ⟨hcalm₁.trans hcalm₂, hs₂, fun l hl => ⟨parent, n, hn', hchild l hl⟩⟩
  dsimp only at hx
  split at hx
  · -- the parent is not a directory
    obtain ⟨_, _, h₂, -⟩ | ⟨e, h₂, rfl⟩ := exec_bind_eq hx
    · simp at h₂
    simp only [exec_throw, Prod.mk.injEq] at h₂
    obtain ⟨-, rfl⟩ := h₂
    exact ⟨Calm.refl s, hs, by simp⟩
  -- the negative cache follows the remote answer
  split at hx
  · split at hx <;>
    · obtain ⟨u, s₂, h₂, hx⟩ | ⟨e, h₂, -⟩ := exec_bind_eq hx
      swap
      · simp at h₂
      simp only [exec_modify, Prod.mk.injEq] at h₂
      obtain ⟨-, rfl⟩ := h₂
      exact htail _ (negativeCache_spec hs _).1 (negativeCache_spec hs _).2 hx
  · exact htail s (Calm.refl s) hs hx

/-! ## Looking up a name -/

theorem SuperblockInner.get_readOnly (cfg : Config) (ino : InodeNo) :
    ReadOnly (SuperblockInner.get cfg ino) := fun s => by simp

/-- `remote_lookup` asks the remote and changes nothing. -/
theorem remoteLookup_readOnly (cfg : Config) (env : Env) (parentIno : InodeNo) (name : ValidName) :
    ReadOnly (remoteLookup cfg env parentIno name) := by
  unfold remoteLookup
  refine ReadOnly.bind (get_readOnly cfg parentIno) fun parent => ?_
  dsimp only
  split
  · exact ReadOnly.bind (ReadOnly.pure _) fun _ =>
      ReadOnly.bind ReadOnly.getThe fun _ => ReadOnly.fromExcept _
  · exact ReadOnly.bind (ReadOnly.throw _) fun _ =>
      ReadOnly.bind ReadOnly.getThe fun _ => ReadOnly.fromExcept _

/-- A cached answer is the known child of the parent. -/
theorem cacheLookup_ok {cfg : Config} {s : State} {now : ℕ} {parentIno : InodeNo} {name : String}
    {l : LookedUpInode} (h : s.cacheLookup cfg now parentIno name = some (.ok l)) :
    s.ChildAt parentIno name l.inode := by
  unfold State.cacheLookup at h
  split at h
  · cases h
  rename_i parent hget
  obtain ⟨n, hn⟩ := getInode_ok hget
  split at h
  · cases h
  rename_i pst hpst
  obtain ⟨pc, hpc, rfl⟩ := inodeState_ok hpst
  dsimp only at h
  -- the negative cache answers only failures
  split at h
  · rename_i child hch
    split at h
    · cases h
    split at h
    · cases h
      exact ⟨parent, n, hn, pc, hpc, hch⟩
    · split at h <;> simp at h
  · split at h <;> simp at h

theorem verifyChild_ok {crc : List UInt8 → UInt32} {i : Inode} {p : InodeNo} {n pfx : String}
    (h : i.verifyChild crc p n pfx = .ok ()) : i.parent = p ∧ i.name = n := by
  unfold Inode.verifyChild at h
  split_ifs at h with hv
  exact ⟨hv.2.1, hv.2.2⟩

/-- **`lookup_by_name`** keeps the shape of the heap and returns the child of the parent under
the name, with the parent and the name `verify_child` checked. -/
theorem lookupByName_spec (X : ObjId → Prop) (cfg : Config) (env : Env) (parentIno : InodeNo)
    (name : String) (allowCache : Bool) :
    RelTriple Calm (WfExcept X) (lookupByName cfg env parentIno name allowCache)
      (fun r s => s.WfExcept X ∧ ∀ l, r = .ok l →
        s.ChildAt parentIno name l.inode ∧ l.inode.parent = parentIno ∧ l.inode.name = name) := by
  refine RelTriple.of_exec fun s hs r s' hx => ?_
  unfold lookupByName at hx
  obtain ⟨vname, s₁, h₁, hx⟩ | ⟨e, h₁, rfl⟩ := exec_bind_eq hx
  swap
  · simp only [exec_fromExcept, Prod.mk.injEq] at h₁
    obtain ⟨-, rfl⟩ := h₁
    exact ⟨Calm.refl s, hs, by simp⟩
  simp only [exec_fromExcept, Prod.mk.injEq] at h₁
  obtain ⟨hparse, rfl⟩ := h₁
  have hname : vname.name = name := ValidName.parseStr_ok hparse
  obtain ⟨sv, s₂, h₂, hx⟩ | ⟨e, h₂, -⟩ := exec_bind_eq hx
  swap
  · simp at h₂
  simp only [exec_getThe, Prod.mk.injEq, Except.ok.injEq] at h₂
  obtain ⟨rfl, rfl⟩ := h₂
  -- the end of the call: `verify_child`, which changes nothing
  have htail : ∀ s₁ l, Calm s s₁ → s₁.WfExcept X → s₁.ChildAt parentIno name l.inode →
      (do
        let _ ← Prog.fromExcept (l.inode.verifyChild cfg.crc parentIno vname.name cfg.pfx)
        pure l : SbM LookedUpInode).exec s₁ = (r, s') →
      Calm s s' ∧ s'.WfExcept X ∧ ∀ l, r = .ok l →
        s'.ChildAt parentIno name l.inode ∧ l.inode.parent = parentIno ∧ l.inode.name = name := by
    intro s₁ l hcalm hs₁ hchild hx
    obtain ⟨u, s₂, h₂, hx⟩ | ⟨e, h₂, rfl⟩ := exec_bind_eq hx
    · simp only [exec_fromExcept, Prod.mk.injEq] at h₂
      obtain ⟨hv, rfl⟩ := h₂
      simp only [exec_pure, Prod.mk.injEq] at hx
      obtain ⟨rfl, rfl⟩ := hx
      obtain ⟨hp, hn⟩ := verifyChild_ok hv
      exact ⟨hcalm, hs₁, fun l' hl => by cases hl; exact ⟨hchild, hp, hn.trans hname⟩⟩
    · simp only [exec_fromExcept, Prod.mk.injEq] at h₂
      obtain ⟨-, rfl⟩ := h₂
      exact ⟨hcalm, hs₁, by simp⟩
  dsimp only at hx
  split at hx
  · -- the cached answer
    rename_i res hcached
    obtain ⟨l, s₂, h₂, hx⟩ | ⟨e, h₂, rfl⟩ := exec_bind_eq hx
    · simp only [exec_fromExcept, Prod.mk.injEq] at h₂
      obtain ⟨rfl, rfl⟩ := h₂
      have hc : s.cacheLookup cfg env.now parentIno vname.name = some (.ok l) := by
        split_ifs at hcached
        · exact hcached
      exact htail s l (Calm.refl s) hs (hname ▸ cacheLookup_ok hc) hx
    · simp only [exec_fromExcept, Prod.mk.injEq] at h₂
      obtain ⟨-, rfl⟩ := h₂
      exact ⟨Calm.refl s, hs, by simp⟩
  · -- the remote answer, reconciled
    obtain ⟨remote, s₂, h₂, hx₂⟩ | ⟨e, h₂, rfl⟩ := exec_bind_eq hx
    swap
    · obtain rfl := (remoteLookup_readOnly cfg env parentIno vname).eq h₂
      exact ⟨Calm.refl _, hs, by simp⟩
    obtain rfl := (remoteLookup_readOnly cfg env parentIno vname).eq h₂
    obtain ⟨l, s₃, h₃, hx₃⟩ | ⟨e, h₃, rfl⟩ := exec_bind_eq hx₂
    · obtain ⟨hcalm, hs₃, hchild⟩ :=
        (updateFromRemote_spec X cfg env parentIno vname remote).apply hs h₃
      exact htail s₃ l hcalm hs₃ (hname ▸ hchild l rfl) hx₃
    · obtain ⟨hcalm, hs', -⟩ := (updateFromRemote_spec X cfg env parentIno vname remote).apply hs h₃
      exact ⟨hcalm, hs', by simp⟩

/-! ## `getattr_with_inode` -/

/-- **`getattr_with_inode`** keeps the shape of the heap; the inode it returns has the number
asked, which the `InodeMap` holds, and is either the inode held there or a child of its parent
under its name. -/
theorem getattrWithInode_spec (X : ObjId → Prop) (cfg : Config) (env : Env) (ino : InodeNo)
    (force : Bool) :
    RelTriple Calm (WfExcept X) (getattrWithInode cfg env ino force)
      (fun r s => s.WfExcept X ∧ ∀ l, r = .ok l → l.inode.ino = ino ∧
        ∃ i n, s.inodes ino = some (i, n) ∧
          (l.inode = i ∨ s.ChildAt l.inode.parent l.inode.name l.inode)) := by
  refine RelTriple.of_exec fun s hs r s' hx => ?_
  unfold getattrWithInode at hx
  obtain ⟨inode, s₁, h₁, hx⟩ | ⟨e, h₁, rfl⟩ := exec_bind_eq hx
  swap
  · simp only [get_exec, Prod.mk.injEq] at h₁
    obtain ⟨-, rfl⟩ := h₁
    exact ⟨Calm.refl s, hs, by simp⟩
  simp only [get_exec, Prod.mk.injEq] at h₁
  obtain ⟨hget, rfl⟩ := h₁
  obtain ⟨n, hn⟩ := getInode_ok hget
  have hino : inode.ino = ino := (hs.1.inodes_stored ino inode n hn).1
  obtain ⟨st, s₂, h₂, hx⟩ | ⟨e, h₂, rfl⟩ := exec_bind_eq hx
  swap
  · simp only [getInodeState_exec, Prod.mk.injEq] at h₂
    obtain ⟨-, rfl⟩ := h₂
    exact ⟨Calm.refl s, hs, by simp⟩
  simp only [getInodeState_exec, Prod.mk.injEq] at h₂
  obtain ⟨-, rfl⟩ := h₂
  -- the end of the call: the cached answer is the inode itself, else a lookup of its name
  have htail : ∀ s₁ (cached : Option LookedUpInode), Calm s s₁ → s₁.WfExcept X →
      (∀ l, cached = some l → l.inode = inode) →
      (match cached with
        | some lookedUp => pure lookedUp
        | none => do
          let lookup ← lookupByName cfg env inode.parent inode.name false
          if lookup.inode.ino ≠ ino then
            throw (InodeError.staleInode (fullKeyForInode cfg lookup.inode).key inode.err
              lookup.inode.err)
          else pure lookup : SbM LookedUpInode).exec s₁ = (r, s') →
      Calm s s' ∧ s'.WfExcept X ∧ ∀ l, r = .ok l → l.inode.ino = ino ∧
        ∃ i n, s'.inodes ino = some (i, n) ∧
          (l.inode = i ∨ s'.ChildAt l.inode.parent l.inode.name l.inode) := by
    intro s₁ cached hcalm hs₁ hcached hx
    split at hx
    · rename_i l
      simp only [exec_pure, Prod.mk.injEq] at hx
      obtain ⟨rfl, rfl⟩ := hx
      have hl : l.inode = inode := hcached l rfl
      exact ⟨hcalm, hs₁, fun l' hl' => by
        cases hl'
        exact ⟨hl ▸ hino, inode, n, hcalm.inodes_eq ▸ hn, .inl hl⟩⟩
    obtain ⟨l, s₂, h₂, hx⟩ | ⟨e, h₂, rfl⟩ := exec_bind_eq hx
    swap
    · obtain ⟨hcalm₂, hs₂, -⟩ := (lookupByName_spec X cfg env _ _ false).apply hs₁ h₂
      exact ⟨hcalm.trans hcalm₂, hs₂, by simp⟩
    obtain ⟨hcalm₂, hs₂, hchild⟩ := (lookupByName_spec X cfg env _ _ false).apply hs₁ h₂
    obtain ⟨hat, hpar, hname⟩ := hchild l rfl
    split at hx
    · simp only [exec_throw, Prod.mk.injEq] at hx
      obtain ⟨rfl, rfl⟩ := hx
      exact ⟨hcalm.trans hcalm₂, hs₂, by simp⟩
    · rename_i hsame
      simp only [exec_pure, Prod.mk.injEq] at hx
      obtain ⟨rfl, rfl⟩ := hx
      refine ⟨hcalm.trans hcalm₂, hs₂, fun l' hl' => ?_⟩
      cases hl'
      refine ⟨not_not.1 hsame, inode, n, (hcalm.trans hcalm₂).inodes_eq ▸ hn, .inr ?_⟩
      rw [hpar, hname]
      exact hat
  -- the inode's own stat, renewed while it has local state
  have hkeep := keepsShape_stat (fun st : InodeState =>
    st.stat.updateValidity env.now (cfg.cacheConfig.validityFor inode.kind))
  dsimp only at hx
  split at hx
  · -- the stat after the renewal, if valid
    have hread : ∀ s₁, Calm s s₁ → s₁.WfExcept X →
        (do
          let st ← getInodeState inode
          let cached ← pure (if st.stat.isValid env.now = true then
            some ({ inode := inode, stat := st.stat, writeStatus := st.writeStatus } : LookedUpInode)
            else none)
          match cached with
          | some lookedUp => pure lookedUp
          | none => do
            let lookup ← lookupByName cfg env inode.parent inode.name false
            if lookup.inode.ino ≠ ino then
              throw (InodeError.staleInode (fullKeyForInode cfg lookup.inode).key inode.err
                lookup.inode.err)
            else pure lookup : SbM LookedUpInode).exec s₁ = (r, s') →
        Calm s s' ∧ s'.WfExcept X ∧ ∀ l, r = .ok l → l.inode.ino = ino ∧
          ∃ i n, s'.inodes ino = some (i, n) ∧
            (l.inode = i ∨ s'.ChildAt l.inode.parent l.inode.name l.inode) := by
      intro s₁ hcalm hs₁ hx
      obtain ⟨st₁, s₂, h₂, hx⟩ | ⟨e, h₂, rfl⟩ := exec_bind_eq hx
      swap
      · simp only [getInodeState_exec, Prod.mk.injEq] at h₂
        obtain ⟨-, rfl⟩ := h₂
        exact ⟨hcalm, hs₁, by simp⟩
      simp only [getInodeState_exec, Prod.mk.injEq] at h₂
      obtain ⟨-, rfl⟩ := h₂
      obtain ⟨cached, s₂, h₂, hx⟩ | ⟨e, h₂, -⟩ := exec_bind_eq hx
      swap
      · simp at h₂
      simp only [exec_pure, Prod.mk.injEq, Except.ok.injEq] at h₂
      obtain ⟨rfl, rfl⟩ := h₂
      exact htail s₁ _ hcalm hs₁ (fun l hl => by split_ifs at hl; cases hl; rfl) hx
    split at hx
    · obtain ⟨u, s₂, h₂, hx⟩ | ⟨e, h₂, -⟩ := exec_bind_eq hx
      swap
      · simp at h₂
      simp only [modifyInodeState_exec, Prod.mk.injEq] at h₂
      obtain ⟨-, rfl⟩ := h₂
      exact hread _ (calm_modifyState_of_keepsShape s inode hkeep)
        (hs.modifyState_keepsShape inode hkeep) hx
    · exact hread s (Calm.refl s) hs hx
  · obtain ⟨cached, s₂, h₂, hx⟩ | ⟨e, h₂, -⟩ := exec_bind_eq hx
    swap
    · simp at h₂
    simp only [exec_pure, Prod.mk.injEq, Except.ok.injEq] at h₂
    obtain ⟨rfl, rfl⟩ := h₂
    exact htail s none (Calm.refl s) hs (fun l hl => by cases hl) hx

end MountpointS3.Superblock

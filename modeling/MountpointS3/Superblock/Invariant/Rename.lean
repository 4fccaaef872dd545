import MountpointS3.Superblock.Invariant.Consistent
import MountpointS3.Superblock.Operations

/-!
# Rename keeps the handle invariant

`rename` is the one call that makes inodes pending a rename, holds them so while it calls S3,
and gives the source's number to a fresh allocation. Its guards (`PendingRenameGuard`) are
modelled by `State.Guard`: an inode pending a rename whose allocation was, when the guard was
taken, the only current one of its number, the one the `InodeMap` holds for it, and had no
writer.

* `tryTransition_ok`, `State.ConsistentExcept.transition`: taking a guard, on a remote inode,
  allows that inode to be a child pending a rename;
* `dropGuard_eq`, `State.ConsistentExcept.dropGuard`: dropping a guard makes the inode remote
  and current again;
* `State.Renaming`: what holds between the guards and the local update, kept by each step
  that may fail before it (`State.Renaming.dropDest` is the way back);
* `renameLocally_spec`: the local update leaves no child pending a rename, the clone held for
  the source's number;
* `rename_consistent`: the whole call keeps `State.Consistent`, whether it succeeds or fails.
-/

namespace MountpointS3.Superblock

open Metablock Foundations Prog

namespace InodeState

@[simp] theorem isDeleted_mapDirectory (st : InodeState) f g :
    (st.mapDirectory f g).isDeleted = st.isDeleted := by
  rcases st with ⟨_, _, _ | _, _⟩ <;> rfl

/-- Replacing the child of a name inserts the new one. -/
theorem insertsChild_replace (n : String) (e : Inode) :
    InsertsChild n e fun st => (st.removeChild n).insertChild n e := by
  intro st
  refine ⟨funext fun name => ?_, by simp [insertChild, removeChild], by simp [insertChild, removeChild]⟩
  rw [child_insertChild, child_insertChild, child_removeChild]
  by_cases hn : name = n
  · subst hn
    rcases st with ⟨_, _, _ | _, _⟩ <;> simp [removeChild, mapDirectory, InodeKindData.kind, child]
  · simp [hn]

end InodeState

namespace State

/-- `g` is held by a guard of `rename`. -/
structure Guard (s : State) (g : Inode) : Prop where
  cell : ∃ st, s.heap g.obj = some ⟨g, st⟩ ∧ st.writeStatus = .pendingRename ∧ st.isDeleted = false
  others : ∀ o c, s.heap o = some c → c.inode.ino = g.ino → o ≠ g.obj →
    c.state.writeStatus = .pendingRename
  held : ∀ i n, s.inodes g.ino = some (i, n) → i = g
  noWriter : s.openHandles.writerOf g.ino = none

theorem CurrentExcept.mono {X Y : ObjId → Prop} {s : State} (h : s.CurrentExcept X)
    (hXY : ∀ o, X o → Y o) : s.CurrentExcept Y :=
  fun o c name e hc he => (h o c name e hc he).imp_left (hXY _)

theorem ConsistentExcept.mono {X Y : ObjId → Prop} {s : State} (h : s.ConsistentExcept X)
    (hXY : ∀ o, X o → Y o) : s.ConsistentExcept Y :=
  ⟨h.wf, h.current.mono hXY, h.mapCurrent, h.handles⟩

/-! ## What a guard survives -/

theorem Guard.stored {s : State} {g : Inode} (hg : s.Guard g) : s.Stored g := by
  obtain ⟨st, hst, -⟩ := hg.cell
  unfold Stored
  rw [hst]
  rfl

/-- A change of one allocation's state that keeps, on the allocations of the guarded number,
the write status and the deleted flag. -/
theorem Guard.modifyState {s : State} {g : Inode} (hg : s.Guard g) (i : Inode)
    {f : InodeState → InodeState}
    (hf : ∀ c, s.heap i.obj = some c → c.inode.ino = g.ino →
      (f c.state).writeStatus = c.state.writeStatus ∧ (f c.state).isDeleted = c.state.isDeleted) :
    (s.modifyState i f).Guard g := by
  obtain ⟨st, hst, hpend, hdel⟩ := hg.cell
  refine ⟨?_, fun o c' ho hino hne => ?_, hg.held, hg.noWriter⟩
  · rw [modifyState_heap]
    split_ifs with hgi
    · rw [hst]
      obtain ⟨hw, hd⟩ := hf ⟨g, st⟩ (hgi ▸ hst) rfl
      exact ⟨f st, rfl, hw.trans hpend, hd.trans hdel⟩
    · exact ⟨st, hst, hpend, hdel⟩
  · obtain ⟨c, hc, rfl⟩ := heap_modifyState_eq_some ho
    split_ifs at hino ⊢ with hoi
    · rw [(hf c (hoi ▸ hc) hino).1]
      exact hg.others o c hc hino hne
    · exact hg.others o c hc hino hne

theorem Guard.congr {s s' : State} {g : Inode} (hg : s.Guard g) (hheap : s'.heap = s.heap)
    (hinodes : s'.inodes = s.inodes) (hhandles : s'.openHandles = s.openHandles) : s'.Guard g :=
  ⟨hheap ▸ hg.cell, hheap ▸ hg.others, hinodes ▸ hg.held, hhandles ▸ hg.noWriter⟩

/-- A calm change keeps the guard of a file. -/
theorem Guard.of_calm {s s' : State} {g : Inode} (hg : s.Guard g) (hk : g.kind = .file)
    (hc : Calm s s') (hs' : s'.HeapWf) : s'.Guard g := by
  obtain ⟨st, hst, hpend, hdel⟩ := hg.cell
  obtain ⟨⟨g', st'⟩, hc', hr, hw⟩ := hc.heap_keep _ _ hst
  dsimp only at hr hw
  subst hr
  refine ⟨⟨st', hc', (hw hk).trans hpend, ?_⟩, fun o c₂ ho hino hne => ?_,
    fun i n h => hg.held i n (hc.inodes_eq ▸ h), hc.openHandles_eq ▸ hg.noWriter⟩
  · -- the state of a file has no deleted flag
    have hkd := hs'.kind_eq _ _ hc'
    rw [hk] at hkd
    unfold InodeState.isDeleted
    split
    · rename_i h
      rw [h] at hkd
      cases hkd
    · rfl
  · cases hold : s.heap o with
    | none => exact absurd hino.symm (hc.heap_new o c₂ ho hold g'.obj ⟨g', st⟩ hst)
    | some c =>
      obtain ⟨c₃, hc₃, hr₃, hw₃⟩ := hc.heap_keep o c hold
      rw [ho, Option.some.injEq] at hc₃
      subst hc₃
      -- another allocation of a file's number is a file's
      have hkc : c.inode.kind = .file := by
        refine kind_eq_file_of_ne fun hd => hne ?_
        rw [← hr₃] at hd
        exact hs'.dir_unique o g'.obj c₂ ⟨g', st'⟩ ho hc' hino hd
      rw [hw₃ hkc]
      exact hg.others o c hold (hr₃ ▸ hino) hne

/-! ## Taking and dropping a guard -/

theorem tryTransition_ok {s s' : State} {g : Inode} {u : Unit}
    (hx : (tryTransition g).exec s = (.ok u, s')) :
    ∃ c, s.heap g.obj = some c ∧ c.state.writeStatus = .remote ∧ c.state.isDeleted = false ∧
      s' = s.modifyState g fun st => { st with writeStatus := .pendingRename } := by
  unfold tryTransition at hx
  obtain ⟨st, s₁, h₁, hx⟩ | ⟨e, h₁, he⟩ := exec_bind_eq hx
  swap
  · cases he
  simp only [getInodeState_exec, Prod.mk.injEq] at h₁
  obtain ⟨hst, rfl⟩ := h₁
  unfold inodeState at hst
  split at hst
  · rename_i c hc
    split_ifs at hst with hdel
    cases hst
    split at hx
    · rename_i hrem
      simp only [modifyInodeState_exec, Prod.mk.injEq] at hx
      exact ⟨c, hc, hrem, by simpa using hdel, hx.2.symm⟩
    · simp at hx
  · cases hst

theorem tryTransition_error {s s' : State} {g : Inode} {e : InodeError}
    (hx : (tryTransition g).exec s = (.error e, s')) : s' = s := by
  unfold tryTransition at hx
  obtain ⟨st, s₁, h₁, hx⟩ | ⟨e', h₁, -⟩ := exec_bind_eq hx
  · simp only [getInodeState_exec, Prod.mk.injEq] at h₁
    obtain ⟨-, rfl⟩ := h₁
    split at hx
    · simp at hx
    · simp only [exec_throw, Prod.mk.injEq] at hx
      exact hx.2.symm
  · simp only [getInodeState_exec, Prod.mk.injEq] at h₁
    exact h₁.2.symm

section Transition

variable {X : ObjId → Prop} {s : State} {g : Inode} {c : InodeCell}

/-- **Taking a guard** on a remote inode allows it to be a child pending a rename, and holds it. -/
theorem ConsistentExcept.transition (h : s.ConsistentExcept X) (hg : s.Stored g)
    (hc : s.heap g.obj = some c) (hrem : c.state.writeStatus = .remote)
    (hdel : c.state.isDeleted = false) :
    (s.modifyState g fun st => { st with writeStatus := .pendingRename }).ConsistentExcept
        (fun o => X o ∨ o = g.obj) ∧
      (s.modifyState g fun st => { st with writeStatus := .pendingRename }).Guard g := by
  obtain ⟨st, hst⟩ := hg.heap_eq
  rw [hst, Option.some.injEq] at hc
  subst hc
  -- the other allocations of `g`'s number are pending a rename
  have hothers : ∀ o c', s.heap o = some c' → c'.inode.ino = g.ino → o ≠ g.obj →
      c'.state.writeStatus = .pendingRename := by
    intro o c' ho hino hne
    rcases h.wf.one_current o g.obj c' ⟨g, st⟩ ho hst hino hne with hp | hp
    · exact hp
    · rw [hrem] at hp
      cases hp
  -- and the `InodeMap` holds `g` if it holds its number
  have hheld : ∀ i n, s.inodes g.ino = some (i, n) → i = g := by
    intro i n hi
    have hobj := h.mapCurrent g.ino i n hi g.obj ⟨g, st⟩ hst rfl (by rw [hrem]; simp)
    have hist := (h.wf.inodes_stored _ _ _ hi).2
    unfold Stored at hist
    rw [← hobj, hst, Option.map_some, Option.some.injEq] at hist
    exact hist.symm
  have hcell : ∀ ino c₁, s.heldCell ino = some c₁ → c₁.inode.obj = g.obj → c₁ = ⟨g, st⟩ := by
    intro ino c₁ hc₁ hobj
    obtain ⟨-, -, -, hcell⟩ := h.wf.held hc₁
    rw [hobj, hst] at hcell
    exact (Option.some.inj hcell).symm
  refine ⟨⟨h.wf.modifyState_status g (fun _ => rfl) fun _ _ => .inl rfl,
    fun o c' name e ho he => ?_, h.mapCurrent.modifyState g fun _ _ hp => absurd rfl hp,
    h.handles.modifyState h.wf g fun ino c₁ hc₁ hobj _ ha => ?_⟩,
    ⟨⟨{ st with writeStatus := .pendingRename }, by rw [modifyState_heap, if_pos rfl, hst]; rfl,
      rfl, hdel⟩,
      fun o c' ho hino hne => ?_, fun i n hi => hheld i n hi, ?_⟩⟩
  · -- a child pending a rename now is `g` or was one before
    obtain ⟨c₀, hc₀, rfl⟩ := heap_modifyState_eq_some ho
    have hold : c₀.state.child name = some e := by
      split_ifs at he
      · exact he
      · exact he
    by_cases heg : e.obj = g.obj
    · exact .inl (.inr heg)
    · rcases h.current o c₀ name e hc₀ hold with hx | hnp
      · exact .inl (.inl hx)
      · refine .inr fun hp => hnp ?_
        rwa [pending_modifyState, if_neg heg] at hp
  · -- the held allocation is `g`'s: remote, so its handles are readers only
    obtain rfl := hcell ino c₁ hc₁ hobj
    dsimp only at ha ⊢
    rw [hrem] at ha
    exact (InodeHandleMap.Allows.remote_iff_pending (ha.writerOf_eq_none (by simp))).1 ha
  · obtain ⟨c₀, hc₀, rfl⟩ := heap_modifyState_eq_some ho
    rw [if_neg hne] at hino ⊢
    exact hothers o c₀ hc₀ hino hne
  · -- a writer of `g`'s number would need it open for writing
    rw [modifyState_openHandles]
    cases hw : s.openHandles.writerOf g.ino with
    | none => rfl
    | some w =>
      obtain ⟨c₁, hc₁, -, ha⟩ := h.handles g.ino fun hno => by rw [hno.1] at hw; cases hw
      obtain ⟨i, n, hi, hci⟩ := heldCell_eq_some.1 hc₁
      obtain rfl := hheld i n hi
      rw [hst, Option.some.injEq] at hci
      subst hci
      have := (ha.1 (by simp [hw])).2
      rw [hrem] at this
      cases this

end Transition

/-- A guard survives a change of the state of an inode of another number. -/
theorem Guard.modifyState_other {s : State} {g i : Inode} (hg : s.Guard g) (hi : s.Stored i)
    (hne : i.ino ≠ g.ino) (f : InodeState → InodeState) : (s.modifyState i f).Guard g := by
  obtain ⟨st, hst⟩ := hi.heap_eq
  refine hg.modifyState i fun c hc hino => absurd ?_ hne
  rw [hst, Option.some.injEq] at hc
  rw [← hc] at hino
  exact hino

theorem inodeState_guard {s : State} {g : Inode} (hg : s.Guard g) :
    ∃ st, s.inodeState g = .ok st ∧ st.writeStatus = .pendingRename := by
  obtain ⟨st, hst, hpend, hdel⟩ := hg.cell
  refine ⟨st, ?_, hpend⟩
  unfold inodeState
  rw [hst]
  simp [hdel]

/-- Dropping a guard makes its inode remote again. -/
theorem dropGuard_eq {s : State} {g : Inode} (hg : s.Guard g) :
    (dropGuard g).exec s = (.ok (), s.modifyState g fun st => { st with writeStatus := .remote }) := by
  obtain ⟨st, hst, hpend⟩ := inodeState_guard hg
  simp [dropGuard, exec_bind, hst, hpend]

/-- **Dropping a guard** makes its inode current again: it may no longer be a child pending a
rename. -/
theorem ConsistentExcept.dropGuard {X : ObjId → Prop} {s : State} {g : Inode}
    (h : s.ConsistentExcept X) (hg : s.Guard g) :
    (s.modifyState g fun st => { st with writeStatus := .remote }).ConsistentExcept
      fun o => X o ∧ o ≠ g.obj := by
  obtain ⟨st, hst, hpend, -⟩ := hg.cell
  refine ⟨h.wf.modifyState_status g (fun _ => rfl) fun c hc => .inr ?_,
    fun o c' name e ho he => ?_, h.mapCurrent.modifyState g fun c hc _ j n hj => ?_,
    h.handles.modifyState h.wf g fun ino c₁ hc₁ hobj _ ha => ?_⟩
  · rw [hst, Option.some.injEq] at hc
    subst hc
    exact hg.others
  · obtain ⟨c₀, hc₀, rfl⟩ := heap_modifyState_eq_some ho
    have hold : c₀.state.child name = some e := by
      split_ifs at he
      · exact he
      · exact he
    by_cases heg : e.obj = g.obj
    · refine .inr fun hp => ?_
      rw [pending_modifyState, if_pos heg, heg, hst] at hp
      simp at hp
    · refine (h.current o c₀ name e hc₀ hold).imp (fun hx => ⟨hx, heg⟩) fun hnp hp => hnp ?_
      rwa [pending_modifyState, if_neg heg] at hp
  · rw [hst, Option.some.injEq] at hc
    subst hc
    rw [hg.held j n hj]
  · -- the held allocation is `g`'s, whose number has no writer
    obtain ⟨-, -, hino, hcell⟩ := h.wf.held hc₁
    rw [hobj, hst, Option.some.injEq] at hcell
    subst hcell
    dsimp only at ha ⊢
    rw [hpend] at ha
    subst hino
    exact (InodeHandleMap.Allows.remote_iff_pending hg.noWriter).2 ha

/-! ## Between the guards -/

/-- What holds between the guards of `rename`: its source `src`, a child of `srcParent`, and
the inode `dest` found at the destination name `dstName` of `dstParent`, if any, are guarded,
and the children pending a rename are among them. -/
structure Renaming (s : State) (src srcParent dstParent : Inode) (dest : Option Inode)
    (dstName : String) : Prop where
  consistent : s.ConsistentExcept fun o => o = src.obj ∨ ∃ d ∈ dest, o = d.obj
  src_guard : s.Guard src
  src_file : src.kind = .file
  src_parent : src.parent = srcParent.ino
  srcParent_stored : s.Stored srcParent
  dstParent_stored : s.Stored dstParent
  dest_guard : ∀ d ∈ dest, s.Guard d ∧ d.parent = dstParent.ino ∧ d.name = dstName ∧ d.ino ≠ src.ino

section Renaming

variable {s : State} {src srcParent dstParent : Inode} {dest : Option Inode} {dstName : String}

theorem Renaming.congr {s' : State} (hr : s.Renaming src srcParent dstParent dest dstName)
    (hheap : s'.heap = s.heap) (hobj : s'.nextObj = s.nextObj) (hino : s'.nextIno = s.nextIno)
    (hinodes : s'.inodes = s.inodes) (hdir : s'.dirHandles = s.dirHandles)
    (hhandles : s'.openHandles = s.openHandles) : s'.Renaming src srcParent dstParent dest dstName := by
  have hst : ∀ i, s'.Stored i ↔ s.Stored i := fun i => by unfold Stored; rw [hheap]
  refine ⟨⟨hr.consistent.wf.congr hheap hobj hino.ge hinodes hdir, hr.consistent.current.congr hheap,
    fun ino i n hi => ?_, fun ino hno => ?_⟩, hr.src_guard.congr hheap hinodes hhandles, hr.src_file,
    hr.src_parent, (hst _).2 hr.srcParent_stored, (hst _).2 hr.dstParent_stored,
    fun d hd => ⟨(hr.dest_guard d hd).1.congr hheap hinodes hhandles, (hr.dest_guard d hd).2⟩⟩
  · rw [hheap]
    exact hr.consistent.mapCurrent ino i n (hinodes ▸ hi)
  · rw [hhandles] at hno ⊢
    unfold heldCell
    rw [hinodes, hheap]
    exact hr.consistent.handles ino hno

/-- An edit that keeps every write status and deleted flag keeps the state between the guards. -/
theorem Renaming.modifyState (hr : s.Renaming src srcParent dstParent dest dstName) (i : Inode)
    {f : InodeState → InodeState} (hf : ∀ st : InodeState, st.Edit (f st))
    (hw : ∀ st : InodeState, (f st).writeStatus = st.writeStatus)
    (hd : ∀ st : InodeState, (f st).isDeleted = st.isDeleted) :
    (s.modifyState i f).Renaming src srcParent dstParent dest dstName := by
  have hcalm : Calm s (s.modifyState i f) := Calm.modifyState i fun c _ _ => hw c.state
  refine ⟨hr.consistent.of_calm hcalm ⟨hr.consistent.wf.modifyState i fun c _ => hf c.state,
      hr.consistent.current.modifyState i (fun c _ => hf c.state) fun c _ h => (hw c.state) ▸ h⟩,
    hr.src_guard.modifyState i fun c _ _ => ⟨hw _, hd _⟩, hr.src_file, hr.src_parent,
    (stored_modifyState s i f _).2 hr.srcParent_stored, (stored_modifyState s i f _).2 hr.dstParent_stored,
    fun d hd' => ⟨(hr.dest_guard d hd').1.modifyState i fun c _ _ => ⟨hw _, hd _⟩,
      (hr.dest_guard d hd').2⟩⟩

/-- A failure between the guards leaves a state between the guards. -/
theorem Renaming.failed (hr : s.Renaming src srcParent dstParent dest dstName) (e : InodeError) :
    (∀ u, (.error e : Except InodeError Unit) = .ok u → s.Consistent) ∧
      (∀ e', (.error e : Except InodeError Unit) = .error e' →
        s.Renaming src srcParent dstParent dest dstName) :=
  ⟨fun _ h => (by cases h), fun _ _ => hr⟩

/-- Before the destination is guarded, a calm change keeps the state between the guards. -/
theorem Renaming.of_calm {s' : State} (hr : s.Renaming src srcParent dstParent none dstName)
    (hc : Calm s s') (hw : s'.WfExcept fun o => o = src.obj ∨ ∃ d ∈ (none : Option Inode), o = d.obj) :
    s'.Renaming src srcParent dstParent none dstName :=
  ⟨hr.consistent.of_calm hc hw, hr.src_guard.of_calm hr.src_file hc hw.1, hr.src_file,
    hr.src_parent, hc.stored hr.srcParent_stored, hc.stored hr.dstParent_stored,
    fun d hd => by cases hd⟩

/-- **Guarding the destination** `d`, a remote inode at the destination name. Its number is
not the source's, whose allocations are all pending a rename. -/
theorem Renaming.addDest {d : Inode} {c : InodeCell}
    (hr : s.Renaming src srcParent dstParent none dstName) (hd : s.Stored d)
    (hpar : d.parent = dstParent.ino) (hname : d.name = dstName) (hc : s.heap d.obj = some c)
    (hrem : c.state.writeStatus = .remote) (hdel : c.state.isDeleted = false) :
    (s.modifyState d fun st => { st with writeStatus := .pendingRename }).Renaming src srcParent
      dstParent (some d) dstName := by
  have hne : d.ino ≠ src.ino := by
    intro hino
    obtain ⟨stc, hsrc, hpend, -⟩ := hr.src_guard.cell
    obtain ⟨st, hst⟩ := hd.heap_eq
    rw [hst, Option.some.injEq] at hc
    subst hc
    by_cases ho : d.obj = src.obj
    · rw [ho, hsrc, Option.some.injEq] at hst
      rw [← hst, hpend] at hrem
      cases hrem
    · rw [hr.src_guard.others d.obj ⟨d, st⟩ hst hino ho] at hrem
      cases hrem
  obtain ⟨hce, hgd⟩ := hr.consistent.transition hd hc hrem hdel
  refine ⟨hce.mono ?_, hr.src_guard.modifyState_other hd hne _, hr.src_file, hr.src_parent,
    (stored_modifyState _ _ _ _).2 hr.srcParent_stored,
    (stored_modifyState _ _ _ _).2 hr.dstParent_stored, fun d' hd' => ?_⟩
  · rintro o ((ho | ⟨_, h, -⟩) | ho)
    · exact .inl ho
    · cases h
    · exact .inr ⟨d, rfl, ho⟩
  · cases hd'
    exact ⟨hgd, hpar, hname, hne⟩

/-- Dropping the destination's guard, if any, leaves the source's. -/
theorem Renaming.dropDest (hr : s.Renaming src srcParent dstParent (some d) dstName) :
    (s.modifyState d fun st => { st with writeStatus := .remote }).ConsistentExcept
        (fun o => o = src.obj) ∧
      (s.modifyState d fun st => { st with writeStatus := .remote }).Guard src := by
  obtain ⟨hgd, -, -, hne⟩ := hr.dest_guard d rfl
  refine ⟨(hr.consistent.dropGuard hgd).mono fun o ho => ?_,
    hr.src_guard.modifyState_other hgd.stored hne _⟩
  rcases ho with ⟨ho | ⟨d', hd', rfl⟩, hne'⟩
  · exact ho
  · cases hd'
    exact absurd rfl hne'

/-- Without a destination inode, only the source is guarded. -/
theorem Renaming.noDest (hr : s.Renaming src srcParent dstParent none dstName) :
    s.ConsistentExcept (fun o => o = src.obj) ∧ s.Guard src :=
  ⟨hr.consistent.mono fun o ho => ho.elim id (fun ⟨_, hd, _⟩ => by cases hd), hr.src_guard⟩

end Renaming

/-! ## The local update -/

theorem Stored.eq_of_obj {s : State} {e f : Inode} (he : s.Stored e) (hf : s.Stored f)
    (h : e.obj = f.obj) : e = f := by
  unfold Stored at he hf
  rw [h, hf, Option.some.injEq] at he
  exact he.symm

@[simp] theorem replaceOrInsert_heap (s : State) (ino : InodeNo) (i : Inode) :
    (s.replaceOrInsert ino i).heap = s.heap := by
  unfold replaceOrInsert
  split <;> rfl

@[simp] theorem replaceOrInsert_openHandles (s : State) (ino : InodeNo) (i : Inode) :
    (s.replaceOrInsert ino i).openHandles = s.openHandles := by
  unfold replaceOrInsert
  split <;> rfl

theorem replaceOrInsert_inodes_self (s : State) (ino : InodeNo) (i : Inode) :
    ∃ n, (s.replaceOrInsert ino i).inodes ino = some (i, n) := by
  unfold replaceOrInsert
  split <;> exact ⟨_, by rw [insertInode_inodes, if_pos rfl]⟩

theorem replaceOrInsert_inodes_of_ne (s : State) {ino ino' : InodeNo} (i : Inode) (h : ino' ≠ ino) :
    (s.replaceOrInsert ino i).inodes ino' = s.inodes ino' := by
  unfold replaceOrInsert
  split <;> rw [insertInode_inodes, if_neg h]

theorem Stored.alloc {s : State} (hs : s.HeapWf) {p : Inode} (hp : s.Stored p) (mk : ObjId → Inode)
    (st : InodeState) : (s.alloc mk st).2.Stored p := by
  have hne : p.obj ≠ s.nextObj := by
    intro he
    unfold Stored at hp
    rw [he, hs.fresh_obj _ le_rfl] at hp
    cases hp
  unfold Stored
  rwa [alloc_records_of_ne hne]

theorem HeapWf.insertInode {s : State} (hs : s.HeapWf) {i : Inode} (hi : s.Stored i) (n : ℕ) :
    (s.insertInode i.ino i n).HeapWf := by
  refine hs.of_cells (fun o => rfl) (fun o c c' hc h => ?_) rfl le_rfl (fun ino j m h => ?_)
    (fun fh dh h => hs.dirHandles_stored fh dh h)
  · rw [insertInode_heap, hc, Option.some.injEq] at h
    subst h
    exact ⟨rfl, fun _ => Iff.rfl, fun name e h => .inl h⟩
  · rw [insertInode_inodes] at h
    split_ifs at h with hino
    · cases h
      exact ⟨hino.symm, hi⟩
    · exact hs.inodes_stored ino j m h

theorem HeapWf.replaceOrInsert {s : State} (hs : s.HeapWf) {i : Inode} (hi : s.Stored i) :
    (s.replaceOrInsert i.ino i).HeapWf := by
  unfold State.replaceOrInsert
  split
  · exact hs.insertInode hi _
  · exact hs.insertInode hi _

/-- An allocation with a child is a directory's. -/
theorem HeapWf.kind_of_child {s : State} (hs : s.HeapWf) {o : ObjId} {c : InodeCell}
    {name : String} {e : Inode} (hc : s.heap o = some c) (he : c.state.child name = some e) :
    c.inode.kind = .directory := by
  rw [← hs.kind_eq o c hc]
  unfold InodeState.child at he
  split at he
  · rename_i h
    rw [h]
    rfl
  · cases he

/-- Removing a child from the directory of its parent's number leaves it no child at all. -/
theorem HeapWf.notChild_removeChild {s : State} (hs : s.HeapWf) {e p : Inode} (hp : s.Stored p)
    (hpar : e.parent = p.ino) (o : ObjId) (c : InodeCell) (name : String)
    (ho : (s.modifyState p (·.removeChild e.name)).heap o = some c) : c.state.child name ≠ some e := by
  intro he
  obtain ⟨c₀, hc₀, rfl⟩ := heap_modifyState_eq_some ho
  obtain ⟨st, hst⟩ := hp.heap_eq
  split_ifs at he with hop
  · rw [InodeState.child_removeChild] at he
    split_ifs at he with hn
    exact hn (hs.child_stored o c₀ name e hc₀ he).2.2.symm
  · -- a parent of `e` has `p`'s number, and a directory's number is its own
    obtain ⟨-, hepar, -⟩ := hs.child_stored o c₀ name e hc₀ he
    exact hop (hs.dir_unique o p.obj c₀ ⟨p, st⟩ hc₀ hst (by rw [← hepar, hpar])
      (hs.kind_of_child hc₀ he))

/-- The clone `rename` allocates for its source at the destination. -/
structure CloneOf (s : State) (src dstParent : Inode) (dstName : String) (i : Inode)
    (st : InodeState) : Prop where
  obj : i.obj = s.nextObj
  ino : i.ino = src.ino
  parent : i.parent = dstParent.ino
  name : i.name = dstName
  kind : i.kind = .file
  status : st.writeStatus = .remote
  kindData : st.kindData = .file

section Renamed

variable {s : State} {src srcParent dstParent : Inode} {dest : Option Inode} {dstName : String}
  {i : Inode} {st : InodeState}

/-- The heap after the clone is allocated and put at the destination. -/
theorem renamed_heap (hcl : CloneOf s src dstParent dstName i st) (o : ObjId) {c : InodeCell}
    (h : ((s.alloc (fun _ => i) st).2.modifyState dstParent
      fun st => (st.removeChild dstName).insertChild dstName i).heap o = some c) :
    (o = s.nextObj ∧ c = ⟨i, st⟩) ∨
      ∃ c₀, s.heap o = some c₀ ∧ c.inode = c₀.inode ∧ c.state.writeStatus = c₀.state.writeStatus ∧
        (o = dstParent.obj → c.state = (c₀.state.removeChild dstName).insertChild dstName i) ∧
        (o ≠ dstParent.obj → c = c₀) := by
  obtain ⟨c₁, hc₁, rfl⟩ := heap_modifyState_eq_some h
  rw [alloc_heap] at hc₁
  by_cases hnew : o = s.nextObj
  · rw [if_pos hnew] at hc₁
    cases hc₁
    -- the clone's state is a file's, which the destination's edit leaves alone
    refine .inl ⟨hnew, ?_⟩
    split_ifs
    · simp [InodeState.insertChild, InodeState.removeChild, InodeState.mapDirectory, hcl.kindData]
    · rfl
  · rw [if_neg hnew] at hc₁
    refine .inr ⟨c₁, hc₁, ?_⟩
    split_ifs with hdp
    · exact ⟨rfl, by simp [InodeState.insertChild, InodeState.removeChild], fun _ => rfl,
        fun h => absurd hdp h⟩
    · exact ⟨rfl, rfl, fun h => absurd h hdp, fun _ => rfl⟩

theorem renamed_heap_new (hcl : CloneOf s src dstParent dstName i st) :
    ((s.alloc (fun _ => i) st).2.modifyState dstParent
      fun st => (st.removeChild dstName).insertChild dstName i).heap s.nextObj = some ⟨i, st⟩ := by
  rw [modifyState_heap, alloc_heap, if_pos rfl]
  split_ifs
  · simp [InodeState.insertChild, InodeState.removeChild, InodeState.mapDirectory, hcl.kindData]
  · rfl

variable (dstParent dstName i st) in
theorem renamed_heap_old {o : ObjId} (ho : o ≠ s.nextObj) {c₀ : InodeCell} (hc₀ : s.heap o = some c₀) :
    ∃ c, ((s.alloc (fun _ => i) st).2.modifyState dstParent
      fun st => (st.removeChild dstName).insertChild dstName i).heap o = some c ∧
        c.inode = c₀.inode ∧ c.state.writeStatus = c₀.state.writeStatus := by
  rw [modifyState_heap, alloc_heap, if_neg ho, hc₀]
  split_ifs
  · exact ⟨_, rfl, rfl, by simp [InodeState.insertChild, InodeState.removeChild]⟩
  · exact ⟨c₀, rfl, rfl, rfl⟩

theorem pending_renamed {o : ObjId} (ho : o ≠ s.nextObj) :
    (((s.alloc (fun _ => i) st).2.modifyState dstParent
      fun st => (st.removeChild dstName).insertChild dstName i).replaceOrInsert i.ino i).Pending o ↔
      s.Pending o := by
  unfold Pending
  rw [replaceOrInsert_heap]
  cases hc₀ : s.heap o with
  | none =>
    rw [modifyState_heap, alloc_heap, if_neg ho, hc₀]
    split_ifs <;> rfl
  | some c₀ =>
    obtain ⟨c, hc, -, hw⟩ := renamed_heap_old dstParent dstName i st ho hc₀
    rw [hc, Option.map_some, Option.map_some, hw]

/-- **The shape after the local update.** -/
theorem Renaming.renamed_wf (hr : s.Renaming src srcParent dstParent dest dstName)
    (hcl : CloneOf s src dstParent dstName i st) :
    (((s.alloc (fun _ => i) st).2.modifyState dstParent
      fun st => (st.removeChild dstName).insertChild dstName i).replaceOrInsert i.ino i).HeapWf := by
  have hs := hr.consistent.wf
  obtain ⟨stc, hsrc, hpend, -⟩ := hr.src_guard.cell
  -- every allocation of the source's number is a file pending a rename
  have hsame : ∀ o c, s.heap o = some c → c.inode.ino = i.ino →
      c.inode.kind = .file ∧ i.kind = .file ∧ c.state.writeStatus = .pendingRename := by
    intro o c hc hino
    rw [hcl.ino] at hino
    by_cases ho : o = src.obj
    · subst ho
      rw [hsrc, Option.some.injEq] at hc
      subst hc
      exact ⟨hr.src_file, hcl.kind, hpend⟩
    · exact ⟨hs.file_of_same_ino hc hsrc hino ho, hcl.kind, hr.src_guard.others o c hc hino ho⟩
  have hw₂ : (s.alloc (fun _ => i) st).2.HeapWf := hs.alloc hcl.obj
    (by rw [hcl.ino]; exact hs.ino_lt _ _ hsrc) (by rw [hcl.kindData, hcl.kind]; rfl)
    (fun name => by unfold InodeState.child; rw [hcl.kindData]) hsame
  have hst₂ : (s.alloc (fun _ => i) st).2.Stored i := stored_alloc s (fun _ => i) st hcl.obj
  exact (hw₂.modifyState_insert (hr.dstParent_stored.alloc hs _ st) hst₂ hcl.parent hcl.name
    (InodeState.insertsChild_replace dstName i)).replaceOrInsert ((stored_modifyState _ _ _ _).2 hst₂)

/-- **No child is pending a rename after the local update**: the source is no child any more,
and the destination inode, a child of the destination directory only, has been replaced there
by the clone. -/
theorem Renaming.renamed_current (hr : s.Renaming src srcParent dstParent dest dstName)
    (hnc : ∀ o c name, s.heap o = some c → c.state.child name ≠ some src)
    (hcl : CloneOf s src dstParent dstName i st) :
    (((s.alloc (fun _ => i) st).2.modifyState dstParent
      fun st => (st.removeChild dstName).insertChild dstName i).replaceOrInsert i.ino i).CurrentExcept
      fun _ => False := by
  have hs := hr.consistent.wf
  -- an old child kept at a place other than the destination is current
  have hold : ∀ o c₀ name e, s.heap o = some c₀ → c₀.state.child name = some e →
      ¬(o = dstParent.obj ∧ name = dstName) →
      ¬(((s.alloc (fun _ => i) st).2.modifyState dstParent
        fun st => (st.removeChild dstName).insertChild dstName i).replaceOrInsert i.ino i).Pending
          e.obj := by
    intro o c₀ name e hc₀ he hplace
    obtain ⟨hest, hepar, hename⟩ := hs.child_stored o c₀ name e hc₀ he
    have hne : e.obj ≠ s.nextObj := by
      intro h
      unfold Stored at hest
      rw [h, hs.fresh_obj _ le_rfl] at hest
      cases hest
    rw [pending_renamed hne]
    rcases hr.consistent.current o c₀ name e hc₀ he with (hsrc | ⟨d, hd, hdo⟩) | hnp
    · exact absurd (Stored.eq_of_obj hest hr.src_guard.stored hsrc ▸ he) (hnc o c₀ name hc₀)
    · -- the destination inode is a child of the destination directory only
      obtain rfl := Stored.eq_of_obj hest (hr.dest_guard d hd).1.stored hdo
      obtain ⟨-, hdpar, hdname, -⟩ := hr.dest_guard e hd
      obtain ⟨stp, hstp⟩ := hr.dstParent_stored.heap_eq
      exact absurd ⟨hs.dir_unique o dstParent.obj c₀ ⟨dstParent, stp⟩ hc₀ hstp
        (hepar.symm.trans hdpar) (hs.kind_of_child hc₀ he), hename.symm.trans hdname⟩ hplace
    · exact hnp
  intro o c name e ho he
  right
  rw [replaceOrInsert_heap] at ho
  rcases renamed_heap hcl o ho with ⟨-, rfl⟩ | ⟨c₀, hc₀, -, -, hdp, hnd⟩
  · -- the clone has no child
    unfold InodeState.child at he
    rw [hcl.kindData] at he
    cases he
  · by_cases hod : o = dstParent.obj
    · rw [hdp hod, InodeState.child_insertChild] at he
      split_ifs at he with hn
      · -- the clone, remote
        cases he
        unfold Pending
        rw [replaceOrInsert_heap, hcl.obj, renamed_heap_new hcl]
        simp [hcl.status]
      · rw [InodeState.child_removeChild] at he
        split_ifs at he with hn'
        exact hold o c₀ name e hc₀ he fun h => hn' h.2
    · rw [hnd hod] at he
      exact hold o c₀ name e hc₀ he fun h => hod h.1

/-- After the local update the `InodeMap` holds the clone, the only current allocation of the
source's number. -/
theorem Renaming.renamed_mapCurrent (hr : s.Renaming src srcParent dstParent dest dstName)
    (hcl : CloneOf s src dstParent dstName i st) :
    (((s.alloc (fun _ => i) st).2.modifyState dstParent
      fun st => (st.removeChild dstName).insertChild dstName i).replaceOrInsert i.ino i).MapCurrent := by
  intro ino j m hj o c ho hino hnp
  rw [replaceOrInsert_heap] at ho
  by_cases hk : ino = i.ino
  · subst hk
    obtain ⟨n, hn⟩ := replaceOrInsert_inodes_self
      ((s.alloc (fun _ => i) st).2.modifyState dstParent
        fun st => (st.removeChild dstName).insertChild dstName i) i.ino i
    rw [hn, Option.some.injEq, Prod.mk.injEq] at hj
    rw [← hj.1]
    rcases renamed_heap hcl o ho with ⟨ho', -⟩ | ⟨c₀, hc₀, hrec, hw, -, -⟩
    · rw [ho', hcl.obj]
    · -- an old allocation of the source's number is pending a rename
      refine absurd ?_ hnp
      rw [hw]
      rw [hrec, hcl.ino] at hino
      obtain ⟨stc, hsrc, hpend, -⟩ := hr.src_guard.cell
      by_cases hos : o = src.obj
      · subst hos
        rw [hsrc, Option.some.injEq] at hc₀
        subst hc₀
        exact hpend
      · exact hr.src_guard.others o c₀ hc₀ hino hos
  · rw [replaceOrInsert_inodes_of_ne _ _ hk] at hj
    simp only [modifyState_inodes, alloc_inodes] at hj
    rcases renamed_heap hcl o ho with ⟨-, rfl⟩ | ⟨c₀, hc₀, hrec, hw, -, -⟩
    · exact absurd hino.symm hk
    · exact hr.consistent.mapCurrent ino j m hj o c₀ hc₀ (hrec ▸ hino) (hw ▸ hnp)

/-- After the local update the handles of the source's number fit the clone, remote. -/
theorem Renaming.renamed_handles (hr : s.Renaming src srcParent dstParent dest dstName)
    (hcl : CloneOf s src dstParent dstName i st) :
    (((s.alloc (fun _ => i) st).2.modifyState dstParent
      fun st => (st.removeChild dstName).insertChild dstName i).replaceOrInsert i.ino i).HandleInv := by
  intro ino hno
  simp only [replaceOrInsert_openHandles, modifyState_openHandles, alloc_openHandles] at hno ⊢
  obtain ⟨c, hc, hk, ha⟩ := hr.consistent.handles ino hno
  obtain ⟨j, n, hj, hcj⟩ := heldCell_eq_some.1 hc
  by_cases hk' : ino = i.ino
  · -- held before: the source, pending a rename, whose number has no writer
    subst hk'
    rw [hcl.ino] at hj ha
    obtain rfl := hr.src_guard.held j n hj
    obtain ⟨stc, hsrc, hpend, -⟩ := hr.src_guard.cell
    rw [hsrc, Option.some.injEq] at hcj
    subst hcj
    obtain ⟨m, hm⟩ := replaceOrInsert_inodes_self
      ((s.alloc (fun _ => i) st).2.modifyState dstParent
        fun st => (st.removeChild dstName).insertChild dstName i) i.ino i
    refine ⟨⟨i, st⟩, heldCell_eq_some.2 ⟨i, m, hm, ?_⟩, hcl.kind, ?_⟩
    · rw [replaceOrInsert_heap, hcl.obj, renamed_heap_new hcl]
    · dsimp only at ha ⊢
      rw [hpend] at ha
      rw [hcl.status, hcl.ino]
      exact (InodeHandleMap.Allows.remote_iff_pending hr.src_guard.noWriter).2 ha
  · have hne : j.obj ≠ s.nextObj := by
      intro h
      rw [h, hr.consistent.wf.fresh_obj _ le_rfl] at hcj
      cases hcj
    obtain ⟨c', hc', hrec, hw⟩ := renamed_heap_old dstParent dstName i st hne hcj
    refine ⟨c', heldCell_eq_some.2 ⟨j, n, ?_, ?_⟩, hrec ▸ hk, hw ▸ ha⟩
    · rw [replaceOrInsert_inodes_of_ne _ _ hk']
      exact hj
    · rw [replaceOrInsert_heap]
      exact hc'

/-- **The local update of a rename restores the invariant.** -/
theorem Renaming.renamed_consistent (hr : s.Renaming src srcParent dstParent dest dstName)
    (hnc : ∀ o c name, s.heap o = some c → c.state.child name ≠ some src)
    (hcl : CloneOf s src dstParent dstName i st) :
    (((s.alloc (fun _ => i) st).2.modifyState dstParent
      fun st => (st.removeChild dstName).insertChild dstName i).replaceOrInsert i.ino i).Consistent :=
  ⟨hr.renamed_wf hcl, hr.renamed_current hnc hcl, hr.renamed_mapCurrent hcl, hr.renamed_handles hcl⟩

end Renamed

/-! ## The calls -/

/-- **The local update of `rename`** fails only before the clone is made, in a state still
between the guards; otherwise it restores the invariant. -/
theorem renameLocally_spec {cfg : Config} {env : Env} {s s' : State}
    {src srcParent dstParent : Inode} {dest : Option Inode} {dstParentIno : InodeNo}
    {dstName : String} {key : ValidKey} {r : Except InodeError Unit}
    (hr : s.Renaming src srcParent dstParent dest dstName) (hdp : dstParentIno = dstParent.ino)
    (hname : key.name = dstName) (hkind : key.kind = .file)
    (hx : (renameLocally cfg env srcParent dstParent src dstParentIno dstName key).exec s = (r, s')) :
    (∀ u, r = .ok u → s'.Consistent) ∧
      (∀ e, r = .error e → s'.Renaming src srcParent dstParent dest dstName) := by
  unfold renameLocally at hx
  -- the two first updates touch neither the heap, the `InodeMap` nor the handles
  obtain ⟨_, s₁, h₁, hx⟩ | ⟨e, h₁, -⟩ := exec_bind_eq hx
  swap
  · simp at h₁
  obtain ⟨_, s₀, h₀, hx⟩ | ⟨e, h₀, -⟩ := exec_bind_eq hx
  swap
  · simp at h₀
  have hr₀ : s₀.Renaming src srcParent dstParent dest dstName := by
    rw [exec_modify, Prod.mk.injEq] at h₁ h₀
    rw [← h₀.2, ← h₁.2]
    exact hr.congr rfl rfl rfl rfl rfl rfl
  rcases getInodeState_bind_eq hx with ⟨-, -, hx⟩ | ⟨rfl, e, rfl⟩
  swap
  · exact hr₀.failed e
  rcases getInodeState_bind_eq hx with ⟨-, -, hx⟩ | ⟨rfl, e, rfl⟩
  swap
  · exact hr₀.failed e
  rcases getInodeState_bind_eq hx with ⟨spst, -, hx⟩ | ⟨rfl, e, rfl⟩
  swap
  · exact hr₀.failed e
  dsimp only at hx
  split at hx
  · simp only [exec_bind, exec_throw] at hx
    obtain ⟨rfl, rfl⟩ := Prod.mk.inj hx
    exact hr₀.failed _
  -- the source leaves its parent
  rw [modifyInodeState_bind_exec] at hx
  have hr₁ := hr₀.modifyState srcParent (fun st => st.edit_removeChild src.name)
    (fun st => InodeState.writeStatus_mapDirectory st _ _)
    (fun st => InodeState.isDeleted_mapDirectory st _ _)
  have hnc := hr₀.consistent.wf.notChild_removeChild hr₀.srcParent_stored hr.src_parent
  generalize (s₀.modifyState srcParent fun x => InodeState.removeChild src.name x) = s₁ at hx hr₁ hnc
  rcases getInodeState_bind_eq hx with ⟨dpst, -, hx⟩ | ⟨rfl, e, rfl⟩
  swap
  · exact hr₁.failed e
  split at hx
  · simp only [exec_throw] at hx
    obtain ⟨rfl, rfl⟩ := Prod.mk.inj hx
    exact hr₁.failed _
  rcases getInodeState_bind_eq hx with ⟨old, -, hx⟩ | ⟨rfl, e, rfl⟩
  swap
  · exact hr₁.failed e
  rw [exec_bind, exec_getThe] at hx
  dsimp only at hx
  cases hcl : Inode.tryCloneWithNewKey cfg.crc src old s₁.nextObj key cfg.pfx
    cfg.cacheConfig.fileTtl env.now dstParentIno with
  | error e =>
    rw [exec_bind, exec_fromExcept, hcl] at hx
    obtain ⟨rfl, rfl⟩ := Prod.mk.inj hx
    exact hr₁.failed e
  | ok p =>
    -- the clone: a remote file of the source's number at the destination
    obtain ⟨-, hp, hw, hkd, -⟩ := Inode.tryCloneWithNewKey_ok hcl
    have hclone : CloneOf s₁ src dstParent dstName p.1 p.2 :=
      ⟨by rw [hp]; rfl, by rw [hp]; rfl, by rw [hp, Inode.new_parent, hdp],
        by rw [hp, ← hname]; rfl, by rw [hp, ← hkind]; rfl, hw, hkd⟩
    rw [exec_bind, exec_fromExcept, hcl] at hx
    simp only [exec_bind, exec_modifyGet, modifyInodeState_exec, exec_modify] at hx
    obtain ⟨rfl, rfl⟩ := Prod.mk.inj hx
    exact ⟨fun _ _ => hr₁.renamed_consistent hnc hclone, fun e he => by cases he⟩

/-- Under the guards: S3 renames the object, then the local update. -/
theorem renameWithGuards_spec {cfg : Config} {env : Env} {s s' : State}
    {src srcParent dstParent : Inode} {dest : Option Inode} {dstParentIno : InodeNo}
    {dstName : String} {allowOverwrite : Bool} {r : Except InodeError Unit}
    (hr : s.Renaming src srcParent dstParent dest dstName) (hdp : dstParentIno = dstParent.ino)
    (hx : (renameWithGuards cfg env srcParent dstParent src dstParentIno dstName
      allowOverwrite).exec s = (r, s')) :
    (∀ u, r = .ok u → s'.Consistent) ∧
      (∀ e, r = .error e → s'.Renaming src srcParent dstParent dest dstName) := by
  unfold renameWithGuards at hx
  dsimp only at hx
  cases hp : ValidName.parseStr dstName with
  | error e =>
    rw [exec_bind, exec_fromExcept, hp] at hx
    obtain ⟨rfl, rfl⟩ := Prod.mk.inj hx
    exact hr.failed e
  | ok destName =>
    rw [exec_bind, exec_fromExcept, hp] at hx
    dsimp only at hx
    cases hk : dstParent.validKey.newChild destName .file with
    | error e =>
      rw [hk] at hx
      simp only [exec_bind, exec_throw] at hx
      obtain ⟨rfl, rfl⟩ := Prod.mk.inj hx
      exact hr.failed _
    | ok key =>
      rw [hk] at hx
      simp only [exec_bind, exec_pure] at hx
      split at hx
      · exact renameLocally_spec hr hdp (by rw [ValidKey.name_newChild hk, ValidName.parseStr_ok hp])
          (ValidKey.kind_newChild hk) hx
      · simp only [exec_bind, exec_throw] at hx
        obtain ⟨rfl, rfl⟩ := Prod.mk.inj hx
        exact hr.failed _
      · simp only [exec_bind, exec_throw] at hx
        obtain ⟨rfl, rfl⟩ := Prod.mk.inj hx
        exact hr.failed _
      · simp only [exec_bind, exec_throw] at hx
        obtain ⟨rfl, rfl⟩ := Prod.mk.inj hx
        exact hr.failed _
      · -- renames are cached as unsupported
        simp only [exec_bind, exec_modify, exec_throw] at hx
        obtain ⟨rfl, rfl⟩ := Prod.mk.inj hx
        refine Renaming.failed ?_ _
        exact hr.congr rfl rfl rfl rfl rfl rfl
      · simp only [exec_bind, exec_throw] at hx
        obtain ⟨rfl, rfl⟩ := Prod.mk.inj hx
        exact hr.failed _

/-- The destination lookup of `rename`, whose failure means that there is no destination. -/
theorem destLookup_spec (X : ObjId → Prop) (cfg : Config) (env : Env) (dstParentIno : InodeNo)
    (dstName : String) :
    RelTriple Calm (WfExcept X)
      (tryCatch (some <$> LookedUpInode.inode <$> SuperblockInner.lookupByName cfg env dstParentIno
        dstName cfg.cacheConfig.serveLookupFromCache) (fun _ => pure none) : SbM (Option Inode))
      (fun r s => s.WfExcept X ∧ ∃ dest, r = .ok dest ∧ ∀ d ∈ dest,
        s.ChildAt dstParentIno dstName d ∧ d.parent = dstParentIno ∧ d.name = dstName) := by
  -- a result found is the inode of the lookup
  have hfound : RelTriple Calm (WfExcept X)
      (some <$> LookedUpInode.inode <$> SuperblockInner.lookupByName cfg env dstParentIno dstName
        cfg.cacheConfig.serveLookupFromCache : SbM (Option Inode))
      (fun r s => s.WfExcept X ∧ ∀ dest, r = .ok dest → ∀ d ∈ dest,
        s.ChildAt dstParentIno dstName d ∧ d.parent = dstParentIno ∧ d.name = dstName) := by
    refine RelTriple.map (RelTriple.map ?_)
    refine (lookupByName_spec X cfg env dstParentIno dstName _).mono (fun _ h => h)
      fun r s h => ⟨h.1, fun dest hdest d hd => ?_⟩
    cases r with
    | error e => cases hdest
    | ok l =>
      cases hdest
      cases hd
      exact h.2 l rfl
  exact RelTriple.tryCatch hfound
    (fun e => RelTriple.pure none fun s h => ⟨h.1, none, rfl, fun d hd => by cases hd⟩)
    fun a s h => ⟨h.1, a, rfl, h.2 a rfl⟩

/-- **The guarded part of `rename`** fails with the source still guarded, the destination's guard
dropped; otherwise it restores the invariant. -/
theorem renameGuarded_spec {cfg : Config} {env : Env} {s s' : State}
    {src srcParent dstParent : Inode} {dstParentIno : InodeNo} {dstName : String}
    {allowOverwrite : Bool} {r : Except InodeError Unit}
    (hr : s.Renaming src srcParent dstParent none dstName) (hdp : dstParentIno = dstParent.ino)
    (hx : (renameGuarded cfg env srcParent dstParent src dstParentIno dstName allowOverwrite).exec s =
      (r, s')) :
    (∀ u, r = .ok u → s'.Consistent) ∧
      (∀ e, r = .error e → s'.ConsistentExcept (fun o => o = src.obj) ∧ s'.Guard src) := by
  unfold renameGuarded at hx
  obtain ⟨destInode, s₁, h₁, hx⟩ | ⟨e, h₁, rfl⟩ := exec_bind_eq hx
  swap
  · obtain ⟨-, -, dest, he, -⟩ :=
      (destLookup_spec _ cfg env dstParentIno dstName).apply ⟨hr.consistent.wf, hr.consistent.current⟩ h₁
    cases he
  obtain ⟨hc₁, hw₁, dest, hdest, hfound⟩ :=
    (destLookup_spec _ cfg env dstParentIno dstName).apply ⟨hr.consistent.wf, hr.consistent.current⟩ h₁
  cases hdest
  have hr₁ := hr.of_calm hc₁ hw₁
  dsimp only at hx
  cases destInode with
  | none =>
    dsimp only at hx
    rcases exec_tryCatch_eq hx with ⟨a, hx₁, rfl⟩ | ⟨e, t, hx₁, hx₂⟩
    · exact ⟨fun _ _ => (renameWithGuards_spec hr₁ hdp hx₁).1 a rfl, fun e h => (by cases h)⟩
    · rw [exec_throw] at hx₂
      obtain ⟨rfl, rfl⟩ := Prod.mk.inj hx₂
      exact ⟨fun _ h => (by cases h), fun _ _ => ((renameWithGuards_spec hr₁ hdp hx₁).2 e rfl).noDest⟩
  | some d =>
    obtain ⟨hat, hpar, hname⟩ := hfound d rfl
    dsimp only at hx
    split at hx
    · -- an overwrite refused
      simp only [exec_bind, exec_throw] at hx
      obtain ⟨rfl, rfl⟩ := Prod.mk.inj hx
      exact ⟨fun _ h => (by cases h), fun _ _ => hr₁.noDest⟩
    obtain ⟨_, s₂, h₂, hx⟩ | ⟨e, h₂, rfl⟩ := exec_bind_eq hx
    swap
    · -- the destination is not remote
      obtain rfl := tryTransition_error h₂
      exact ⟨fun _ h => (by cases h), fun _ _ => hr₁.noDest⟩
    obtain ⟨c, hc, hrem, hdel, rfl⟩ := tryTransition_ok h₂
    obtain ⟨p, n, -, hp⟩ := hat
    have hr₂ := hr₁.addDest (hp.stored hw₁.1) (hpar.trans hdp) hname hc hrem hdel
    rcases exec_tryCatch_eq hx with ⟨a, hx₁, rfl⟩ | ⟨e, t, hx₁, hx₂⟩
    · exact ⟨fun _ _ => (renameWithGuards_spec hr₂ hdp hx₁).1 a rfl, fun e h => (by cases h)⟩
    · -- the destination's guard is dropped
      have ht := (renameWithGuards_spec hr₂ hdp hx₁).2 e rfl
      rw [exec_bind, dropGuard_eq (ht.dest_guard d rfl).1] at hx₂
      simp only [exec_throw] at hx₂
      obtain ⟨rfl, rfl⟩ := Prod.mk.inj hx₂
      exact ⟨fun _ h => (by cases h), fun _ _ => ht.dropDest⟩

/-- **`rename` keeps the invariant**, whether it succeeds or fails: the guards it takes are
dropped on a failure, and a success leaves the source's old allocation pending a rename but a
child of no directory. -/
theorem rename_consistent {cfg : Config} {env : Env} {s s' : State} {srcParentIno : InodeNo}
    {srcName : String} {dstParentIno : InodeNo} {dstName : String} {allowOverwrite : Bool}
    {r : Except InodeError Unit} (h : s.Consistent)
    (hx : (rename cfg env srcParentIno srcName dstParentIno dstName allowOverwrite).exec s =
      (r, s')) : s'.Consistent := by
  unfold rename at hx
  rw [exec_bind, exec_getThe] at hx
  dsimp only at hx
  split at hx
  · rw [exec_bind, exec_throw] at hx
    obtain ⟨-, rfl⟩ := Prod.mk.inj hx
    exact h
  -- the two parents, read from the `InodeMap`
  obtain ⟨srcParent, s₁, h₁, hx⟩ | ⟨e, h₁, rfl⟩ := exec_bind_eq hx
  swap
  · obtain ⟨-, rfl⟩ := Prod.mk.inj (SuperblockInner.get_exec cfg srcParentIno s ▸ h₁)
    exact h
  rw [SuperblockInner.get_exec, Prod.mk.injEq] at h₁
  obtain ⟨hsp, rfl⟩ := h₁
  obtain ⟨dstParent, s₁, h₁, hx⟩ | ⟨e, h₁, rfl⟩ := exec_bind_eq hx
  swap
  · obtain ⟨-, rfl⟩ := Prod.mk.inj (SuperblockInner.get_exec cfg dstParentIno s ▸ h₁)
    exact h
  rw [SuperblockInner.get_exec, Prod.mk.injEq] at h₁
  obtain ⟨hdp, rfl⟩ := h₁
  obtain ⟨n₁, hn₁⟩ := getInode_ok hsp
  obtain ⟨n₂, hn₂⟩ := getInode_ok hdp
  obtain ⟨hspi, hsps⟩ := h.wf.inodes_stored _ _ _ hn₁
  obtain ⟨hdpi, hdps⟩ := h.wf.inodes_stored _ _ _ hn₂
  -- the source
  obtain ⟨l, s₂, h₂, hx⟩ | ⟨e, h₂, rfl⟩ := exec_bind_eq hx
  swap
  · obtain ⟨hc, hw, -⟩ := (lookupByName_spec _ cfg env _ _ _).apply ⟨h.wf, h.current⟩ h₂
    exact h.of_calm hc hw
  obtain ⟨hc₂, hw₂, hl⟩ := (lookupByName_spec _ cfg env _ _ _).apply ⟨h.wf, h.current⟩ h₂
  have hs₂ := h.of_calm hc₂ hw₂
  obtain ⟨⟨p, n, -, hp⟩, hpar, -⟩ := hl l rfl
  split at hx
  · rw [exec_bind, exec_throw] at hx
    obtain ⟨-, rfl⟩ := Prod.mk.inj hx
    exact hs₂
  rename_i hdir
  have hfile : l.inode.kind = .file := by
    cases hk : l.inode.kind
    · rfl
    · exact absurd hk hdir
  -- the source's guard
  obtain ⟨_, s₃, h₃, hx⟩ | ⟨e, h₃, rfl⟩ := exec_bind_eq hx
  swap
  · obtain rfl := tryTransition_error h₃
    exact hs₂
  obtain ⟨c, hc, hrem, hdel, rfl⟩ := tryTransition_ok h₃
  obtain ⟨hce, hg⟩ := hs₂.transition (hp.stored hs₂.wf) hc hrem hdel
  have hr : State.Renaming _ l.inode srcParent dstParent none dstName :=
    ⟨hce.mono fun o ho => ho.elim (fun hf => hf.elim) .inl, hg, hfile, hpar.trans hspi.symm,
      (stored_modifyState _ _ _ _).2 (hc₂.stored hsps),
      (stored_modifyState _ _ _ _).2 (hc₂.stored hdps), fun d hd => by cases hd⟩
  rcases exec_tryCatch_eq hx with ⟨a, hx₁, rfl⟩ | ⟨e, t, hx₁, hx₂⟩
  · exact (renameGuarded_spec hr hdpi.symm hx₁).1 a rfl
  · -- the source's guard is dropped
    obtain ⟨hce', hg'⟩ := (renameGuarded_spec hr hdpi.symm hx₁).2 e rfl
    rw [exec_bind, dropGuard_eq hg'] at hx₂
    simp only [exec_throw] at hx₂
    obtain ⟨-, rfl⟩ := Prod.mk.inj hx₂
    exact (hce'.dropGuard hg').mono fun o ho => ho.2 ho.1

end State

end MountpointS3.Superblock

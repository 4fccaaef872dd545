import MountpointS3.Superblock.Invariant.Rename

/-!
# Reconciling a name with the remote answer

`update_from_remote` in `superblock.rs` decides, from what S3 says about a name and the child the
parent knows under it, what to return and how to change the directory. It first tries
`try_update_fast_path` under a read lock, then `update_slow_path` under the write lock.

* `fastPath_then_slowPath`: where the fast path answers, it answers as the slow path would from
  the same state, and otherwise it changes nothing; so `update_from_remote` is the slow path
  after the negative cache has taken the answer (`updateFromRemote_exec`);
* `updateSlowPath_none_none`, ..., `updateSlowPath_fresh_of_some`: the slow path case by case,
  with the result and the exact state it leaves;
* `createInodeLocked_fresh`: the inode `create_inode_locked` makes has the next number, which no
  inode has, and replaces the parent's child under the name;
* `RemoteDecision`: the whole table, from a state of the right shape.
-/

namespace MountpointS3.Superblock

open Metablock Foundations Prog

theorem getInodeState_bind_of_ok {α : Type} {i : Inode} {k : InodeState → SbM α} {s : State}
    {st : InodeState} (h : s.inodeState i = .ok st) :
    (getInodeState i >>= k).exec s = (k st).exec s :=
  exec_bind_of_ok (by rw [getInodeState_exec, h])

theorem getInodeState_bind_of_error {α : Type} {i : Inode} {k : InodeState → SbM α} {s : State}
    {e : InodeError} (h : s.inodeState i = .error e) :
    (getInodeState i >>= k).exec s = (.error e, s) :=
  exec_bind_of_error (by rw [getInodeState_exec, h])

/-! ## Directory states -/

@[simp] theorem InodeState.writingChildren_insertChild (st : InodeState) (n : String)
    (i : Inode) : (st.insertChild n i).writingChildren = st.writingChildren := by
  rcases st with ⟨_, _, _ | _, _⟩ <;> rfl

@[simp] theorem InodeState.isDeleted_insertChild (st : InodeState) (n : String) (i : Inode) :
    (st.insertChild n i).isDeleted = st.isDeleted :=
  st.isDeleted_mapDirectory _ _

@[simp] theorem InodeState.isDeleted_eraseWritingChild (st : InodeState) (ino : InodeNo) :
    (st.eraseWritingChild ino).isDeleted = st.isDeleted :=
  st.isDeleted_mapDirectory _ _

@[simp] theorem InodeState.writingChildren_eraseWritingChild (st : InodeState) (ino : InodeNo) :
    (st.eraseWritingChild ino).writingChildren = st.writingChildren.erase ino := by
  rcases st with ⟨_, _, _ | _, _⟩ <;> rfl

namespace SuperblockInner

/-! ## Creating a child -/

/-- `create_inode_locked` under a directory: a fresh number and allocation, the child `name`
replaced. -/
theorem createInodeLocked_exec {cfg : Config} {p : Inode} {name : ValidName} {kind : InodeKind}
    {st : InodeState} {isNewFile : Bool} {s : State} {key : ValidKey}
    {children : AList (fun _ : String => Inode)} {wc : List InodeNo} {d : Bool}
    (hkey : p.validKey.newChild name kind = .ok key)
    (hcell : (s.heap p.obj).map (·.state.kindData) = some (.directory children wc d))
    (hobj : p.obj ≠ s.nextObj) :
    (createInodeLocked cfg p name kind st isNewFile).exec s =
      (.ok (Inode.new cfg.crc s.nextObj s.nextIno p.ino key cfg.pfx),
        (({ s with nextIno := s.nextIno + 1 }.alloc
          (fun obj => Inode.new cfg.crc obj s.nextIno p.ino key cfg.pfx) st).2).modifyState p
          fun pst =>
            let pst := pst.insertChild name.name
              (Inode.new cfg.crc s.nextObj s.nextIno p.ino key cfg.pfx)
            let pst := if isNewFile then pst.insertWritingChild s.nextIno else pst
            match children.lookup name.name with
            | some e => pst.eraseWritingChild e.ino
            | none => pst) := by
  have hheap : (({ s with nextIno := s.nextIno + 1 }.alloc
      (fun obj => Inode.new cfg.crc obj s.nextIno p.ino key cfg.pfx) st).2.heap p.obj) =
      s.heap p.obj := by
    rw [State.alloc_heap, if_neg hobj]
  -- the replaced child is looked up in both sides, each with a match of its own
  cases hlook : children.lookup name.name with
  | none =>
    simp only [createInodeLocked, hkey, monadStateOf_get_eq_get, bind_pure_comp, pure_bind, exec_bind,
      exec_modifyGet, State.alloc_fst, exec_get, hheap, hcell, exec_map, Except.map, modifyInodeState_exec, hlook]
  | some e =>
    simp only [createInodeLocked, hkey, monadStateOf_get_eq_get, bind_pure_comp, pure_bind, exec_bind,
      exec_modifyGet, State.alloc_fst, exec_get, hheap, hcell, exec_map, Except.map, modifyInodeState_exec, hlook]

/-! ## The slow path, case by case -/

section SlowPath

variable {cfg : Config} {env : Env} {p e : Inode} {name : ValidName} {s : State}
  {pst est : InodeState} {r : RemoteLookup}

theorem updateSlowPath_none_none (hp : s.inodeState p = .ok pst)
    (hc : pst.child name.name = none) :
    (updateSlowPath cfg env p name none).exec s =
      (.error (.fileDoesNotExist name.name p.err), s) := by
  rw [updateSlowPath, getInodeState_bind_of_ok hp]
  simp [hc]

theorem updateSlowPath_refresh (hp : s.inodeState p = .ok pst)
    (hc : pst.child name.name = some e) (hw : e.ino ∈ pst.writingChildren)
    (he : s.inodeState e = .ok est) :
    (updateSlowPath cfg env p name none).exec s =
      (.ok ⟨e, est.stat.updateValidity env.now (cfg.cacheConfig.validityFor e.kind),
          est.writeStatus⟩,
        s.modifyState e fun st =>
          { st with
            stat := st.stat.updateValidity env.now (cfg.cacheConfig.validityFor e.kind) }) := by
  rw [updateSlowPath, getInodeState_bind_of_ok hp]
  simp [hc, hw, getInodeState_bind_of_ok he, exec_map, Except.map]

theorem updateSlowPath_forget (hp : s.inodeState p = .ok pst)
    (hc : pst.child name.name = some e) (hw : e.ino ∉ pst.writingChildren) :
    (updateSlowPath cfg env p name none).exec s =
      (.error (.fileDoesNotExist name.name p.err), s.modifyState p (·.removeChild name.name)) := by
  rw [updateSlowPath, getInodeState_bind_of_ok hp]
  simp [hc, hw]

theorem updateSlowPath_shadowed (hp : s.inodeState p = .ok pst)
    (hc : pst.child name.name = some e) (he : s.inodeState e = .ok est)
    (hfile : r.kind = .file) (hlocal : est.hasLocalState = true) :
    (updateSlowPath cfg env p name (some r)).exec s =
      (.ok ⟨e, est.stat, est.writeStatus⟩, s) := by
  rw [updateSlowPath, getInodeState_bind_of_ok hp]
  simp [hc, getInodeState_bind_of_ok he, hfile, hlocal]

theorem updateSlowPath_in_place (hp : s.inodeState p = .ok pst)
    (hc : pst.child name.name = some e) (he : s.inodeState e = .ok est)
    (hkind : r.kind = e.kind) (hetag : est.stat.etag = r.stat.etag)
    (hlocal : est.hasLocalState = false) :
    (updateSlowPath cfg env p name (some r)).exec s =
      (.ok ⟨e, r.stat, est.writeStatus⟩,
        s.modifyState e fun st => { st with stat := r.stat }) := by
  rw [updateSlowPath, getInodeState_bind_of_ok hp]
  simp [hc, getInodeState_bind_of_ok he, hkind, hetag, hlocal, exec_map, Except.map]

theorem updateSlowPath_becomes_remote (hp : s.inodeState p = .ok pst)
    (hc : pst.child name.name = some e) (he : s.inodeState e = .ok est)
    (hkind : r.kind = e.kind) (hetag : est.stat.etag = r.stat.etag)
    (hdir : r.kind = .directory) (hlocal : est.hasLocalState = true) :
    (updateSlowPath cfg env p name (some r)).exec s =
      (.ok ⟨e, r.stat, .remote⟩,
        ((s.modifyState e fun st => { st with stat := r.stat }).modifyState e
          fun st => { st with writeStatus := .remote }).modifyState p
            (·.eraseWritingChild e.ino)) := by
  rw [updateSlowPath, getInodeState_bind_of_ok hp]
  have hedir : e.kind = .directory := hkind ▸ hdir
  simp [hc, getInodeState_bind_of_ok he, hkind, hetag, hedir, hlocal, exec_map, Except.map]

theorem updateSlowPath_fresh_of_none (hp : s.inodeState p = .ok pst)
    (hc : pst.child name.name = none) {i : Inode} {s' : State}
    (hcreate : (createInodeLocked cfg p name r.kind (.new r.stat r.kind .remote) false).exec s =
      (.ok i, s')) :
    (updateSlowPath cfg env p name (some r)).exec s = (.ok ⟨i, r.stat, .remote⟩, s') := by
  rw [updateSlowPath, getInodeState_bind_of_ok hp]
  simp [hc, exec_map, hcreate, Except.map]

theorem updateSlowPath_fresh_of_some (hp : s.inodeState p = .ok pst)
    (hc : pst.child name.name = some e) (he : s.inodeState e = .ok est)
    (hshadow : ¬(r.kind = .file ∧ est.hasLocalState = true))
    (hplace : ¬(r.kind = e.kind ∧ est.stat.etag = r.stat.etag ∧
      (est.hasLocalState = false ∨ r.kind = .directory))) {i : Inode} {s' : State}
    (hcreate : (createInodeLocked cfg p name r.kind (.new r.stat r.kind .remote) false).exec s =
      (.ok i, s')) :
    (updateSlowPath cfg env p name (some r)).exec s = (.ok ⟨i, r.stat, .remote⟩, s') := by
  rw [updateSlowPath, getInodeState_bind_of_ok hp]
  simp only [hc, getInodeState_bind_of_ok he]
  rw [if_neg (by simpa using hshadow), if_neg (by simpa using hplace)]
  simp [exec_map, hcreate, Except.map]

/-- **The fast path is the slow path's.** Where `try_update_fast_path` answers, it answers and
changes the state as `update_slow_path` would from the same state; otherwise it changes nothing
and the slow path runs. So the two in sequence are the slow path alone. -/
theorem fastPath_then_slowPath (cfg : Config) (env : Env) (p : Inode) (name : ValidName)
    (remote : Option RemoteLookup) (s : State) :
    (tryUpdateFastPath p name.name remote >>= fun r => match r with
      | some l => pure l
      | none => updateSlowPath cfg env p name remote).exec s =
      (updateSlowPath cfg env p name remote).exec s := by
  cases hp : s.inodeState p with
  | error err =>
    rw [tryUpdateFastPath, exec_bind_of_error (getInodeState_bind_of_error hp), updateSlowPath,
      getInodeState_bind_of_error hp]
  | ok pst =>
    rw [exec_bind, tryUpdateFastPath, getInodeState_bind_of_ok hp]
    cases remote with
    | none =>
      cases hc : pst.child name.name with
      | none => simp [updateSlowPath_none_none hp hc]
      | some e => simp
    | some r =>
      cases hc : pst.child name.name with
      | none => simp
      | some e =>
        cases he : s.inodeState e with
        | error err =>
          rw [updateSlowPath, getInodeState_bind_of_ok hp]
          simp [hc, getInodeState_bind_of_error he]
        | ok est =>
          simp only [getInodeState_bind_of_ok he]
          by_cases hfast : r.kind = e.kind ∧ (!est.hasLocalState) = true ∧
              est.stat.etag = r.stat.etag
          · -- nothing local, same kind and etag: the stat is updated in place
            obtain ⟨hkind, hlocal, hetag⟩ := hfast
            rw [updateSlowPath_in_place hp hc he hkind hetag (by simpa using hlocal)]
            simp [hkind, hlocal, hetag, exec_map, Except.map]
          · rw [if_neg hfast]
            simp

end SlowPath

/-! ## `update_from_remote` -/

/-- The state once the negative cache has taken the remote answer for the name, as
`update_from_remote` leaves it before it reconciles the child. -/
def noteRemote (cfg : Config) (env : Env) (parentIno : InodeNo) (name : String)
    (remote : Option RemoteLookup) (s : State) : State :=
  if cfg.cacheConfig.useNegativeCache then
    match remote with
    | some _ => { s with negativeCache := s.negativeCache.remove parentIno name }
    | none => { s with negativeCache := s.negativeCache.insert parentIno name env.now }
  else s

section NoteRemote

variable (cfg : Config) (env : Env) (parentIno : InodeNo) (name : String)
  (remote : Option RemoteLookup) (s : State)

@[simp] theorem noteRemote_heap : (noteRemote cfg env parentIno name remote s).heap = s.heap := by
  unfold noteRemote
  split
  · split <;> rfl
  · rfl

@[simp] theorem noteRemote_nextObj :
    (noteRemote cfg env parentIno name remote s).nextObj = s.nextObj := by
  unfold noteRemote
  split
  · split <;> rfl
  · rfl

@[simp] theorem noteRemote_nextIno :
    (noteRemote cfg env parentIno name remote s).nextIno = s.nextIno := by
  unfold noteRemote
  split
  · split <;> rfl
  · rfl

@[simp] theorem inodeState_noteRemote (i : Inode) :
    (noteRemote cfg env parentIno name remote s).inodeState i = s.inodeState i := by
  simp [State.inodeState]

end NoteRemote

/-- `update_from_remote` on a directory: the negative cache takes the answer, and the rest is
the slow path's. -/
theorem updateFromRemote_exec {cfg : Config} {env : Env} {parentIno : InodeNo} {name : ValidName}
    {s : State} {p : Inode} (hparent : s.getInode cfg parentIno = .ok p)
    (hdir : p.kind = .directory) (remote : Option RemoteLookup) :
    (updateFromRemote cfg env parentIno name remote).exec s =
      (updateSlowPath cfg env p name remote).exec
        (noteRemote cfg env parentIno name.name remote s) := by
  rw [updateFromRemote, exec_bind_of_ok (by rw [get_exec, hparent])]
  simp only [hdir, ne_eq, not_true_eq_false, if_false]
  unfold noteRemote
  split
  · cases remote with
    | none =>
      rw [exec_modify_bind]
      exact fastPath_then_slowPath cfg env p name none _
    | some r =>
      rw [exec_modify_bind]
      exact fastPath_then_slowPath cfg env p name (some r) _
  · exact fastPath_then_slowPath cfg env p name remote s



/-- What the fresh inode of `update_from_remote` is: the next number, which no inode of `s` has,
with the state `st` it was created with, now the parent's child under the name in place of the
one known before, whose number leaves the writing children. -/
structure FreshChild (s : State) (p : Inode) (pst : InodeState) (name : String)
    (st : InodeState) (i : Inode) (s' : State) : Prop where
  ino_eq : i.ino = s.nextIno
  unused : ∀ o c, s.heap o = some c → c.inode.ino ≠ i.ino
  nextIno_eq : s'.nextIno = s.nextIno + 1
  state_eq : s'.inodeState i = .ok st
  parent : ∃ pst', s'.inodeState p = .ok pst' ∧ pst'.child name = some i ∧
    (∀ n, n ≠ name → pst'.child n = pst.child n) ∧
    pst'.writingChildren = match pst.child name with
      | some e => pst.writingChildren.erase e.ino
      | none => pst.writingChildren

theorem FreshChild.of_eq {s s₁ : State} {p : Inode} {pst : InodeState} {name : String}
    {st : InodeState} {i : Inode} {s' : State} (h : FreshChild s₁ p pst name st i s')
    (hheap : s₁.heap = s.heap) (hino : s₁.nextIno = s.nextIno) :
    FreshChild s p pst name st i s' :=
  ⟨hino ▸ h.ino_eq, hheap ▸ h.unused, hino ▸ h.nextIno_eq, h.state_eq, h.parent⟩

/-- `create_inode_locked` under a live directory, for a child that is not new file. -/
theorem createInodeLocked_fresh {cfg : Config} {p : Inode} {name : ValidName} {kind : InodeKind}
    {st : InodeState} {s : State} {key : ValidKey} {pst : InodeState}
    {children : AList (fun _ : String => Inode)} {wc : List InodeNo}
    (hlt : ∀ o c, s.heap o = some c → c.inode.ino < s.nextIno)
    (hcell : s.heap p.obj = some ⟨p, pst⟩) (hobj : p.obj ≠ s.nextObj)
    (hkd : pst.kindData = .directory children wc false)
    (hkey : p.validKey.newChild name kind = .ok key) (hst : st.isDeleted = false) :
    ∃ i s', (createInodeLocked cfg p name kind st false).exec s = (.ok i, s') ∧
      FreshChild s p pst name.name st i s' := by
  have hkd' : (s.heap p.obj).map (·.state.kindData) = some (.directory children wc false) := by
    simp [hcell, hkd]
  refine ⟨_, _, createInodeLocked_exec hkey hkd' hobj, rfl, fun o c h => (hlt o c h).ne, rfl,
    ?_, ?_⟩
  · simp [State.inodeState, State.modifyState_heap, State.alloc_heap, Ne.symm hobj, hst]
  · have hchild : pst.child name.name = children.lookup name.name := by
      simp [InodeState.child, hkd]
    simp only [State.inodeState, State.modifyState_heap, State.alloc_heap, if_neg hobj, if_pos,
      hcell, Option.map_some, Bool.false_eq_true, if_false]
    rw [hchild]
    have hkind : pst.kindData.kind = .directory := by simp [hkd, InodeKindData.kind]
    have hdel : pst.isDeleted = false := by simp [InodeState.isDeleted, hkd]
    cases hlook : children.lookup name.name with
    | none =>
      refine ⟨pst.insertChild name.name (Inode.new cfg.crc s.nextObj s.nextIno p.ino key cfg.pfx),
        by simp [hdel], by simp [InodeState.child_insertChild, hkind], fun n hn => ?_, by simp⟩
      simp [InodeState.child_insertChild, hn]
    | some e =>
      refine ⟨(pst.insertChild name.name
          (Inode.new cfg.crc s.nextObj s.nextIno p.ino key cfg.pfx)).eraseWritingChild e.ino,
        by simp [hdel], by simp [InodeState.child_insertChild, hkind], fun n hn => ?_, by simp⟩
      simp [InodeState.child_insertChild, hn]

/-- The parent `update_from_remote` looks up, in a state of the right shape: its allocation, which
is not the next one, and a live directory's state. -/
theorem parent_cell {cfg : Config} {s : State} {parentIno : InodeNo} {p : Inode}
    {pst : InodeState} (hw : s.HeapWf) (hparent : s.getInode cfg parentIno = .ok p)
    (hdir : p.kind = .directory) (hpst : s.inodeState p = .ok pst) :
    s.heap p.obj = some ⟨p, pst⟩ ∧ p.obj ≠ s.nextObj ∧
      ∃ children wc, pst.kindData = .directory children wc false := by
  obtain ⟨n, hn⟩ := State.getInode_ok hparent
  obtain ⟨-, hstored⟩ := hw.inodes_stored _ _ _ hn
  obtain ⟨st, hst⟩ := hstored.heap_eq
  have hlive : s.inodeState p = .ok st ∧ st.isDeleted = false := by
    unfold State.inodeState at hpst ⊢
    rw [hst] at hpst ⊢
    dsimp only at hpst ⊢
    split_ifs at hpst ⊢ with hdel
    exact ⟨rfl, by simpa using hdel⟩
  obtain rfl : st = pst := Except.ok.inj (hlive.1.symm.trans hpst)
  refine ⟨hst, fun hobj => ?_, ?_⟩
  · have hnone := hw.fresh_obj p.obj (le_of_eq hobj.symm)
    rw [hst] at hnone
    cases hnone
  · have hkind := hw.kind_eq _ _ hst
    rcases st with ⟨_, _, _ | ⟨children, wc, deleted⟩, _⟩
    · simp [InodeKindData.kind, hdir] at hkind
    · cases deleted
      · exact ⟨children, wc, rfl⟩
      · simp [InodeState.isDeleted] at hlive

/-- The fresh-inode case of `update_from_remote`. -/
theorem updateFromRemote_fresh {cfg : Config} {env : Env} {parentIno : InodeNo}
    {name : ValidName} {s : State} {p : Inode} {pst : InodeState} (hw : s.HeapWf)
    (hparent : s.getInode cfg parentIno = .ok p) (hdir : p.kind = .directory)
    (hpst : s.inodeState p = .ok pst) (r : RemoteLookup)
    (hcase : pst.child name.name = none ∨ ∃ e est, pst.child name.name = some e ∧
      s.inodeState e = .ok est ∧ ¬(r.kind = .file ∧ est.hasLocalState = true) ∧
      ¬(r.kind = e.kind ∧ est.stat.etag = r.stat.etag ∧
        (est.hasLocalState = false ∨ r.kind = .directory))) :
    ∃ i s', (updateFromRemote cfg env parentIno name (some r)).exec s =
      (.ok ⟨i, r.stat, .remote⟩, s') ∧
        FreshChild s p pst name.name (.new r.stat r.kind .remote) i s' := by
  obtain ⟨hcell, hobj, children, wc, hkd⟩ := parent_cell hw hparent hdir hpst
  set s₁ := noteRemote cfg env parentIno name.name (some r) s
  have hp₁ : s₁.inodeState p = .ok pst := by simp [s₁, hpst]
  have hlt₁ : ∀ o c, s₁.heap o = some c → c.inode.ino < s₁.nextIno := by
    simpa [s₁] using hw.ino_lt
  have hcell₁ : s₁.heap p.obj = some ⟨p, pst⟩ := by simp [s₁, hcell]
  have hobj₁ : p.obj ≠ s₁.nextObj := by simpa [s₁] using hobj
  have hst : (InodeState.new r.stat r.kind .remote).isDeleted = false := by
    cases r.kind <;> rfl
  obtain ⟨i, s', hcreate, hfresh⟩ := createInodeLocked_fresh hlt₁ hcell₁ hobj₁ hkd
    (ValidKey.newChild_of_directory hdir name r.kind) hst
  refine ⟨i, s', (updateFromRemote_exec hparent hdir _).trans ?_,
    hfresh.of_eq (by simp [s₁]) (by simp [s₁])⟩
  rcases hcase with hc | ⟨e, est, hc, he, hshadow, hplace⟩
  · exact updateSlowPath_fresh_of_none hp₁ hc hcreate
  · exact updateSlowPath_fresh_of_some hp₁ hc (by simpa [s₁] using he) hshadow hplace hcreate

/-- An answer of the fast path is the slow path's. -/
theorem updateSlowPath_of_tryUpdateFastPath {cfg : Config} {env : Env} {p : Inode}
    {name : ValidName} {remote : Option RemoteLookup} {s s' : State} {l : LookedUpInode}
    (h : (tryUpdateFastPath p name.name remote).exec s = (.ok (some l), s')) :
    (updateSlowPath cfg env p name remote).exec s = (.ok l, s') := by
  rw [← fastPath_then_slowPath, exec_bind_of_ok h]
  rfl

/-- The decision of `update_from_remote` for the name `name` under the directory `p` with state
`pst`, from the state `s`, against each remote answer: what it returns and the state it leaves,
after the negative cache has taken the answer. -/
structure RemoteDecision (cfg : Config) (env : Env) (parentIno : InodeNo) (name : ValidName)
    (p : Inode) (pst : InodeState) (s : State) : Prop where
  fastPath : ∀ remote s₁ l s',
    (tryUpdateFastPath p name.name remote).exec s₁ = (.ok (some l), s') →
    (updateSlowPath cfg env p name remote).exec s₁ = (.ok l, s')
  notFound : pst.child name.name = none →
    (updateFromRemote cfg env parentIno name none).exec s =
      (.error (.fileDoesNotExist name.name p.err), noteRemote cfg env parentIno name.name none s)
  refreshed : ∀ e est, pst.child name.name = some e → e.ino ∈ pst.writingChildren →
    s.inodeState e = .ok est →
    (updateFromRemote cfg env parentIno name none).exec s =
      (.ok ⟨e, est.stat.updateValidity env.now (cfg.cacheConfig.validityFor e.kind),
          est.writeStatus⟩,
        (noteRemote cfg env parentIno name.name none s).modifyState e fun st =>
          { st with stat := st.stat.updateValidity env.now (cfg.cacheConfig.validityFor e.kind) })
  forgotten : ∀ e, pst.child name.name = some e → e.ino ∉ pst.writingChildren →
    (updateFromRemote cfg env parentIno name none).exec s =
      (.error (.fileDoesNotExist name.name p.err),
        (noteRemote cfg env parentIno name.name none s).modifyState p (·.removeChild name.name))
  shadowed : ∀ r e est, pst.child name.name = some e → s.inodeState e = .ok est →
    r.kind = .file → est.hasLocalState = true →
    (updateFromRemote cfg env parentIno name (some r)).exec s =
      (.ok ⟨e, est.stat, est.writeStatus⟩, noteRemote cfg env parentIno name.name (some r) s)
  inPlace : ∀ r e est, pst.child name.name = some e → s.inodeState e = .ok est →
    r.kind = e.kind → est.stat.etag = r.stat.etag → est.hasLocalState = false →
    (updateFromRemote cfg env parentIno name (some r)).exec s =
      (.ok ⟨e, r.stat, est.writeStatus⟩,
        (noteRemote cfg env parentIno name.name (some r) s).modifyState e
          fun st => { st with stat := r.stat })
  becomesRemote : ∀ r e est, pst.child name.name = some e → s.inodeState e = .ok est →
    r.kind = e.kind → est.stat.etag = r.stat.etag → r.kind = .directory →
    est.hasLocalState = true →
    (updateFromRemote cfg env parentIno name (some r)).exec s =
      (.ok ⟨e, r.stat, .remote⟩,
        (((noteRemote cfg env parentIno name.name (some r) s).modifyState e
          fun st => { st with stat := r.stat }).modifyState e
            fun st => { st with writeStatus := .remote }).modifyState p
              (·.eraseWritingChild e.ino))
  fresh : ∀ r, (pst.child name.name = none ∨ ∃ e est, pst.child name.name = some e ∧
      s.inodeState e = .ok est ∧ ¬(r.kind = .file ∧ est.hasLocalState = true) ∧
      ¬(r.kind = e.kind ∧ est.stat.etag = r.stat.etag ∧
        (est.hasLocalState = false ∨ r.kind = .directory))) →
    ∃ i s', (updateFromRemote cfg env parentIno name (some r)).exec s =
      (.ok ⟨i, r.stat, .remote⟩, s') ∧
        FreshChild s p pst name.name (.new r.stat r.kind .remote) i s'

theorem update_from_remote_decision (cfg : Config) (env : Env) (parentIno : InodeNo)
    (name : ValidName) (s : State) (p : Inode) (pst : InodeState) (hw : s.HeapWf)
    (hparent : s.getInode cfg parentIno = .ok p) (hdir : p.kind = .directory)
    (hpst : s.inodeState p = .ok pst) : RemoteDecision cfg env parentIno name p pst s where
  fastPath _ _ _ _ h := updateSlowPath_of_tryUpdateFastPath h
  notFound hc := by
    rw [updateFromRemote_exec hparent hdir]
    exact updateSlowPath_none_none (by simpa using hpst) hc
  refreshed e est hc hwr he := by
    rw [updateFromRemote_exec hparent hdir]
    exact updateSlowPath_refresh (by simpa using hpst) hc hwr (by simpa using he)
  forgotten e hc hwr := by
    rw [updateFromRemote_exec hparent hdir]
    exact updateSlowPath_forget (by simpa using hpst) hc hwr
  shadowed r e est hc he hfile hlocal := by
    rw [updateFromRemote_exec hparent hdir]
    exact updateSlowPath_shadowed (by simpa using hpst) hc (by simpa using he) hfile hlocal
  inPlace r e est hc he hkind hetag hlocal := by
    rw [updateFromRemote_exec hparent hdir]
    exact updateSlowPath_in_place (by simpa using hpst) hc (by simpa using he) hkind hetag hlocal
  becomesRemote r e est hc he hkind hetag hrdir hlocal := by
    rw [updateFromRemote_exec hparent hdir]
    exact updateSlowPath_becomes_remote (by simpa using hpst) hc (by simpa using he) hkind hetag
      hrdir hlocal
  fresh r hcase := updateFromRemote_fresh hw hparent hdir hpst r hcase

theorem update_from_remote_decision_root :
    (State.new plainConfig 0 0).HeapWf ∧
      (State.new plainConfig 0 0).getInode plainConfig ROOT_INODE_NO =
        .ok (rootInode plainConfig) ∧
      (rootInode plainConfig).kind = .directory ∧
      (State.new plainConfig 0 0).inodeState (rootInode plainConfig) = .ok (Inode.rootState 0 0) ∧
      RemoteDecision plainConfig ⟨Client.mockClient [] false, 0, 0⟩ ROOT_INODE_NO
        ⟨"a", by decide⟩ (rootInode plainConfig) (Inode.rootState 0 0)
        (State.new plainConfig 0 0) :=
  ⟨(State.consistent_new plainConfig 0 0).wf, rfl, rfl, rfl,
    update_from_remote_decision _ _ _ _ _ _ _ (State.consistent_new plainConfig 0 0).wf rfl rfl
      rfl⟩

end SuperblockInner

end MountpointS3.Superblock

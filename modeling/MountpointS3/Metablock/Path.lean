import MountpointS3.Metablock.Types
import MountpointS3.Foundations.Split

/-!
# Names and keys

`ValidName` and `ValidKey` (`metablock/path.rs`). A valid name is one `ValidName::parse_str`
accepts; the check travels with the name as a field, so no invalid name can be built. A key is
the S3 key of an inode below the mount prefix, with the offset at which its last component
starts; directory keys end in `'/'`.

Keys are strings and offsets count characters: Rust counts bytes, and every offset here is
the length of a string the key starts with, so the two give the same components.

* `name_newChild`, `kind_newChild`: a child key names and kinds what it was built from;
* `newChild_key`: its text is the parent's, the name and a `'/'` for a directory;
* `ofComponents_spec`: a key built from the root along names and kinds has the text, name,
  kind and components they give, `try_from` parses its text back to it, and a prefix in front
  changes neither its name nor its kind; `tryFrom_eq_ok`: every key `try_from` accepts is
  built so;
* `nameInBounds_fullKey_root`: the root's key with a prefix in front is the exception: its
  `name` slices past the end, where the source panics, unless the prefix is empty.
-/

namespace MountpointS3.Metablock

open Foundations

/-- The check of `ValidName::parse_str`: not empty, not `.` or `..`, without `/` or NUL. -/
def isValidName (name : String) : Bool :=
  !name.isEmpty && name != "." && name != ".." && !name.toList.contains '/' &&
    !name.toList.contains (Char.ofNat 0)

/-- `ValidName`: a name that `parse_str` accepted. -/
structure ValidName where
  name : String
  valid : isValidName name = true

namespace ValidName

/-- `ValidName::parse_str`. -/
def parseStr (name : String) : Except InodeError ValidName :=
  if h : isValidName name = true then .ok ⟨name, h⟩ else .error (.invalidFileName name)

theorem parseStr_ok {name : String} {v : ValidName} (h : parseStr name = .ok v) :
    v.name = name := by
  unfold parseStr at h
  split at h
  · cases h; rfl
  · cases h

theorem parseStr_of_valid {name : String} (h : isValidName name = true) :
    parseStr name = .ok ⟨name, h⟩ := by
  simp [parseStr, h]

theorem name_ne_empty (v : ValidName) : v.name ≠ "" := by
  have h := v.valid
  intro he
  simp [isValidName, he] at h

theorem slash_not_mem (v : ValidName) : '/' ∉ v.name.toList := by
  have h := v.valid
  simp only [isValidName, Bool.and_eq_true, Bool.not_eq_eq_eq_not, Bool.not_true,
    List.contains_eq_mem, decide_eq_false_iff_not] at h
  exact h.1.2

/-- A valid name ends in a character other than `/`. -/
theorem getLast?_eq (v : ValidName) : ∃ c, v.name.toList.getLast? = some c ∧ c ≠ '/' := by
  cases hl : v.name.toList.getLast? with
  | none =>
    have : v.name.toList = [] := List.getLast?_eq_none_iff.1 hl
    exact absurd (String.toList_eq_nil_iff.1 this) v.name_ne_empty
  | some c =>
    refine ⟨c, rfl, fun hc => v.slash_not_mem ?_⟩
    rw [← hc]
    exact List.mem_of_getLast? hl

theorem toList_ne_nil (v : ValidName) : v.name.toList ≠ [] := fun h =>
  v.name_ne_empty (String.toList_eq_nil_iff.1 h)

theorem slash_not_mem_of_valid {c : List Char} (h : isValidName (String.ofList c) = true) :
    '/' ∉ c := by
  simpa using slash_not_mem ⟨_, h⟩

end ValidName

/-- `PrefixError`. -/
inductive PrefixError
  | missingFinalDelimiter
  deriving DecidableEq, Repr

/-- `Prefix`: the mount prefix, empty or ending in `/`. -/
structure Prefix where
  path : String
  valid : path = "" ∨ path.toList.getLast? = some '/'

/-- `Prefix::new`. -/
def Prefix.new (pfx : String) : Except PrefixError Prefix :=
  if h : pfx = "" ∨ pfx.toList.getLast? = some '/' then .ok ⟨pfx, h⟩
  else .error .missingFinalDelimiter

/-- `ValidKeyError`. -/
inductive ValidKeyError
  | notADirectory
  | invalidKey (key : String)
  deriving DecidableEq, Repr

/-- `ValidKey`: a key and the offset of its last component. -/
structure ValidKey where
  key : String
  nameOffset : ℕ
  deriving DecidableEq, Repr

namespace ValidKey

/-- `ValidKey::root`. -/
def root : ValidKey := ⟨"", 0⟩

/-- `ValidKey::kind`: a directory when empty or ending in `/`. -/
def kind (k : ValidKey) : InodeKind :=
  match k.key.toList.getLast? with
  | none => .directory
  | some '/' => .directory
  | some _ => .file

/-- `ValidKey::name`: the last component, without the trailing `/` of a directory. The source
slices the key from `name_offset` and panics when the slice starts past its end, which
`nameInBounds` tells; in bounds, the model takes the same characters. -/
def name (k : ValidKey) : String :=
  match k.key.toList.getLast? with
  | none => ""
  | some '/' => String.ofList ((k.key.toList.drop k.nameOffset).dropLast)
  | some _ => String.ofList (k.key.toList.drop k.nameOffset)

/-- `ValidKey::new_child`: only a directory key has children. -/
def newChild (k : ValidKey) (name : ValidName) (kind : InodeKind) :
    Except ValidKeyError ValidKey :=
  match k.kind with
  | .file => .error .notADirectory
  | .directory =>
    .ok ⟨k.key ++ name.name ++ (if kind = .directory then "/" else ""), k.key.length⟩

/-- `ValidKey::full_key`: the key with the mount prefix in front. -/
def fullKey (k : ValidKey) (pfx : String) : ValidKey := ⟨pfx ++ k.key, k.nameOffset + pfx.length⟩

/-- The slice `name` takes starts within the key: the source panics otherwise. -/
def nameInBounds (k : ValidKey) : Bool :=
  match k.key.toList.getLast? with
  | none => true
  | some '/' => k.nameOffset ≤ k.key.length - 1
  | some _ => k.nameOffset ≤ k.key.length

/-- `ValidKey::components`: the components, without the empty one after a directory's `/`. -/
def components (k : ValidKey) : List String :=
  if k.key.isEmpty then [] else (splitTerminator k.key.toList '/').map String.ofList

/-- The loop of `ValidKey::try_from` over the components: the last one, if every one is a
valid name. -/
def lastValidComponent : List (List Char) → Option (List Char) → Option (Option (List Char))
  | [], last => some last
  | c :: cs, _ => if isValidName (String.ofList c) then lastValidComponent cs (some c) else none

/-- `ValidKey::try_from`: a key whose components are valid names, its offset taken from the
length of the last component, and of the `/` after it for a directory. -/
def tryFrom (fullKey : String) : Except ValidKeyError ValidKey :=
  match lastValidComponent (splitTerminator fullKey.toList '/') none with
  | none => .error (.invalidKey fullKey)
  | some lastComponent =>
    let isDir := fullKey.toList.getLast? == some '/'
    let nameLen := match lastComponent with
      | none => 0
      | some name => if isDir then name.length + 1 else name.length
    .ok ⟨fullKey, fullKey.length - nameLen⟩

theorem root_kind : root.kind = .directory := rfl

theorem getLast?_newChild_key (k : ValidKey) (n : ValidName) (kind : InodeKind) :
    (k.key ++ n.name ++ (if kind = .directory then "/" else "")).toList.getLast? =
      if kind = .directory then some '/' else n.name.toList.getLast? := by
  split_ifs with h
  · simp
  · obtain ⟨c, hc, -⟩ := n.getLast?_eq
    simp [List.getLast?_append, hc]

/-- **A child key has the kind it was built with.** -/
theorem kind_newChild {k k' : ValidKey} {n : ValidName} {kind : InodeKind}
    (h : k.newChild n kind = .ok k') : k'.kind = kind := by
  unfold newChild at h
  split at h
  · cases h
  · cases h
    unfold ValidKey.kind
    rw [getLast?_newChild_key]
    split_ifs with hd
    · exact hd.symm
    · -- a file key ends in the last character of its name, which is not `/`
      obtain ⟨c, hc, hcs⟩ := n.getLast?_eq
      rw [hc]
      cases kind with
      | directory => exact absurd rfl hd
      | file => split <;> simp_all

/-- **A child key names what it was built from.** -/
theorem name_newChild {k k' : ValidKey} {n : ValidName} {kind : InodeKind}
    (h : k.newChild n kind = .ok k') : k'.name = n.name := by
  unfold newChild at h
  split at h
  · cases h
  · cases h
    have hlen : k.key.length = k.key.toList.length := (String.length_toList).symm
    unfold ValidKey.name
    rw [getLast?_newChild_key]
    split_ifs with hd
    · simp [hlen]
    · obtain ⟨c, hc, hcs⟩ := n.getLast?_eq
      rw [hc]
      split
      · rename_i heq
        cases heq
      · rename_i heq
        exact absurd (Option.some.inj heq) hcs
      · simp [hlen]

theorem newChild_key {k k' : ValidKey} {n : ValidName} {kind : InodeKind}
    (h : k.newChild n kind = .ok k') :
    k'.key = k.key ++ n.name ++ (if kind = .directory then "/" else "") := by
  unfold newChild at h
  split at h
  · cases h
  · cases h; rfl

theorem newChild_ok_iff {k : ValidKey} {n : ValidName} {kind : InodeKind} :
    (∃ k', k.newChild n kind = .ok k') ↔ k.kind = .directory := by
  unfold newChild
  split <;> simp_all

/-! ## Keys built from the root, and parsed back -/

/-- The key built from the root by `new_child` with each name and kind in turn. -/
def ofComponents (ps : List (ValidName × InodeKind)) : Except ValidKeyError ValidKey :=
  ps.foldlM (fun k p => k.newChild p.1 p.2) root

/-- The text of such a key: each name, followed by `/` if a directory. -/
def componentsText (ps : List (ValidName × InodeKind)) : List Char :=
  ps.flatMap fun p => p.1.name.toList ++ if p.2 = .directory then ['/'] else []

section Build

variable {k k' : ValidKey} {n : ValidName} {kind : InodeKind} {cs : List (List Char)}
  {qs : List (ValidName × InodeKind)}

theorem newChild_of_directory (hk : k.kind = .directory) (n : ValidName) (kind : InodeKind) :
    k.newChild n kind =
      .ok ⟨k.key ++ n.name ++ (if kind = .directory then "/" else ""), k.key.length⟩ := by
  simp only [newChild, hk]

theorem toList_newChild_key (k : ValidKey) (n : ValidName) (kind : InodeKind) :
    (k.key ++ n.name ++ (if kind = .directory then "/" else "")).toList =
      k.key.toList ++ n.name.toList ++ (if kind = .directory then ['/'] else []) := by
  split_ifs <;> simp

theorem componentsText_append_singleton (qs : List (ValidName × InodeKind)) (n : ValidName)
    (kind : InodeKind) :
    componentsText (qs ++ [(n, kind)]) =
      componentsText qs ++ n.name.toList ++ (if kind = .directory then ['/'] else []) := by
  simp [componentsText]

theorem componentsText_of_directories (hqs : ∀ p ∈ qs, p.2 = .directory) :
    componentsText qs = (qs.map fun p => p.1.name.toList).flatMap (· ++ ['/']) := by
  induction qs with
  | nil => rfl
  | cons p qs ih =>
    have hp : p.2 = .directory := hqs p List.mem_cons_self
    have hrest := ih fun q hq => hqs q (List.mem_cons_of_mem _ hq)
    simp only [componentsText, List.flatMap_cons, List.map_cons, hp, if_true] at hrest ⊢
    rw [hrest]

theorem ofComponents_append_singleton (qs : List (ValidName × InodeKind)) (n : ValidName)
    (kind : InodeKind) :
    ofComponents (qs ++ [(n, kind)]) = ofComponents qs >>= fun k => k.newChild n kind := by
  simp [ofComponents, List.foldlM_append]

/-- A run of directories from a directory key gives a directory key, its text extended. -/
theorem foldlM_newChild_of_directories (hqs : ∀ p ∈ qs, p.2 = .directory) {k₀ : ValidKey}
    (hk₀ : k₀.kind = .directory) :
    ∃ k, qs.foldlM (fun k p => k.newChild p.1 p.2) k₀ = .ok k ∧ k.kind = .directory ∧
      k.key.toList = k₀.key.toList ++ componentsText qs := by
  induction qs generalizing k₀ with
  | nil => exact ⟨k₀, rfl, hk₀, by simp [componentsText]⟩
  | cons p qs ih =>
    obtain ⟨m, mkind⟩ := p
    have hdir : mkind = .directory := hqs _ List.mem_cons_self
    subst hdir
    have hchild := newChild_of_directory hk₀ m .directory
    obtain ⟨k, hfold, hk, hkey⟩ :=
      ih (fun p hp => hqs p (List.mem_cons_of_mem _ hp)) (kind_newChild hchild)
    refine ⟨k, ?_, hk, ?_⟩
    · rw [List.foldlM_cons, hchild]
      exact hfold
    · rw [hkey, toList_newChild_key]
      simp [componentsText]

theorem ofComponents_of_directories (hqs : ∀ p ∈ qs, p.2 = .directory) :
    ∃ k, ofComponents qs = .ok k ∧ k.kind = .directory ∧ k.key.toList = componentsText qs := by
  obtain ⟨k, hfold, hk, hkey⟩ := foldlM_newChild_of_directories hqs root_kind
  exact ⟨k, hfold, hk, by simpa [root] using hkey⟩

theorem lastValidComponent_append_singleton {c : List Char}
    (hcs : ∀ d ∈ cs, isValidName (String.ofList d) = true)
    (hc : isValidName (String.ofList c) = true) (last : Option (List Char)) :
    lastValidComponent (cs ++ [c]) last = some (some c) := by
  induction cs generalizing last with
  | nil => simp [lastValidComponent, hc]
  | cons d cs ih =>
    simp only [List.cons_append, lastValidComponent, hcs d List.mem_cons_self, if_true]
    exact ih (fun e he => hcs e (List.mem_cons_of_mem _ he)) _

theorem valid_of_lastValidComponent {last : Option (List Char)} {r : Option (List Char)}
    (h : lastValidComponent cs last = some r) :
    ∀ d ∈ cs, isValidName (String.ofList d) = true := by
  induction cs generalizing last with
  | nil => simp
  | cons c cs ih =>
    unfold lastValidComponent at h
    split at h
    · rename_i hc
      intro d hd
      rcases List.mem_cons.1 hd with rfl | hd
      · exact hc
      · exact ih h d hd
    · cases h

/-- The components of a child of a directory key, from the parent's. -/
theorem splitTerminator_newChild_key (hcs : ∀ d ∈ cs, isValidName (String.ofList d) = true)
    (n : ValidName) (kind : InodeKind) :
    splitTerminator (cs.flatMap (· ++ ['/']) ++ n.name.toList ++
      (if kind = .directory then ['/'] else [])) '/' = cs ++ [n.name.toList] := by
  have hslash : ∀ d ∈ cs, '/' ∉ d := fun d hd => ValidName.slash_not_mem_of_valid (hcs d hd)
  cases kind with
  | directory =>
    simpa using splitTerminator_flatMap_sep hslash n.slash_not_mem
  | file =>
    simpa using splitTerminator_flatMap hslash n.slash_not_mem n.toList_ne_nil

theorem nameInBounds_newChild (h : k.newChild n kind = .ok k') : k'.nameInBounds = true := by
  unfold newChild at h
  split at h
  · cases h
  · cases h
    unfold nameInBounds
    rw [getLast?_newChild_key]
    split_ifs with hd
    · have hsep : "/".length = 1 := rfl
      simp only [String.length_append, hsep, decide_eq_true_eq]
      omega
    · obtain ⟨c, hc, hcs⟩ := n.getLast?_eq
      rw [hc]
      split
      · rename_i heq
        cases heq
      · rename_i heq
        exact absurd (Option.some.inj heq) hcs
      · simp

/-- `try_from` parses the text of a child of a directory key back to it. -/
theorem tryFrom_newChild (hk : k.kind = .directory) (hK : k.key.toList = cs.flatMap (· ++ ['/']))
    (hcs : ∀ d ∈ cs, isValidName (String.ofList d) = true) (h : k.newChild n kind = .ok k') :
    tryFrom k'.key = .ok k' := by
  rw [newChild_of_directory hk] at h
  cases h
  have hsep : "/".length = 1 := rfl
  unfold tryFrom
  rw [toList_newChild_key, hK, splitTerminator_newChild_key hcs,
    lastValidComponent_append_singleton hcs (by simpa using n.valid)]
  simp only [Except.ok.injEq, ValidKey.mk.injEq, true_and]
  cases kind with
  | directory => simp [String.length_append, hsep, String.length_toList]
  | file =>
    obtain ⟨c, hc, hcs⟩ := n.getLast?_eq
    simp [hc, hcs, String.length_append, String.length_toList]

theorem components_newChild (hk : k.kind = .directory)
    (hK : k.key.toList = cs.flatMap (· ++ ['/']))
    (hcs : ∀ d ∈ cs, isValidName (String.ofList d) = true) (h : k.newChild n kind = .ok k') :
    k'.components = cs.map String.ofList ++ [n.name] := by
  rw [newChild_of_directory hk] at h
  cases h
  have hne : (k.key ++ n.name ++ (if kind = .directory then "/" else "")).isEmpty = false := by
    rw [String.isEmpty_eq_false_iff, ne_eq, ← String.toList_eq_nil_iff, toList_newChild_key]
    simp [n.toList_ne_nil]
  unfold components
  rw [hne, toList_newChild_key, hK, splitTerminator_newChild_key hcs]
  simp

/-! ### A prefix in front -/

theorem getLast?_fullKey (hk : k.key ≠ "") (pfx : String) :
    (k.fullKey pfx).key.toList.getLast? = k.key.toList.getLast? := by
  have hne : k.key.toList ≠ [] := fun h => hk (String.toList_eq_nil_iff.1 h)
  obtain ⟨c, hc⟩ := Option.ne_none_iff_exists'.1 (mt List.getLast?_eq_none_iff.1 hne)
  simp [fullKey, List.getLast?_append, hc]

theorem kind_fullKey (hk : k.key ≠ "") (pfx : String) : (k.fullKey pfx).kind = k.kind := by
  unfold kind
  rw [getLast?_fullKey hk]

theorem name_fullKey (hk : k.key ≠ "") (pfx : String) : (k.fullKey pfx).name = k.name := by
  have hdrop : (k.fullKey pfx).key.toList.drop (k.fullKey pfx).nameOffset =
      k.key.toList.drop k.nameOffset := by
    simp only [fullKey, String.toList_append]
    rw [Nat.add_comm, ← String.length_toList, List.drop_append,
      List.drop_eq_nil_of_le (by omega), List.nil_append, Nat.add_sub_cancel_left]
  unfold name
  rw [getLast?_fullKey hk, hdrop]

theorem nameInBounds_fullKey (hk : k.key ≠ "") (pfx : String) :
    (k.fullKey pfx).nameInBounds = k.nameInBounds := by
  have hpos : 0 < k.key.length := by
    rw [← String.length_toList, List.length_pos_iff]
    exact fun h => hk (String.toList_eq_nil_iff.1 h)
  unfold nameInBounds
  rw [getLast?_fullKey hk]
  simp only [fullKey, String.length_append]
  split
  · rfl
  · simp only [decide_eq_decide]
    omega
  · simp only [decide_eq_decide]
    omega

/-! ### Building a key from its components, and parsing it back -/

/-- What a key built from the root along `ps`, the last name `n` with kind `kind`, is: its
text, name, kind and components are the ones `ps` gives, `try_from` parses its text back to
it, and a prefix in front changes neither its name nor its kind. -/
structure BuiltFrom (ps : List (ValidName × InodeKind)) (n : ValidName) (kind : InodeKind)
    (k : ValidKey) : Prop where
  key_eq : k.key.toList = componentsText ps
  name_eq : k.name = n.name
  nameInBounds_eq : k.nameInBounds = true
  kind_eq : k.kind = kind
  components_eq : k.components = ps.map fun p => p.1.name
  tryFrom_eq : tryFrom k.key = .ok k
  fullKey_eq : ∀ pfx : String, (k.fullKey pfx).nameInBounds = true ∧
    (k.fullKey pfx).name = k.name ∧ (k.fullKey pfx).kind = k.kind

/-- **Building a key and parsing it agree.** Directories, then a last name of any kind, from
the root. -/
theorem ofComponents_spec (hqs : ∀ p ∈ qs, p.2 = .directory) (n : ValidName)
    (kind : InodeKind) :
    ∃ k, ofComponents (qs ++ [(n, kind)]) = .ok k ∧ BuiltFrom (qs ++ [(n, kind)]) n kind k := by
  obtain ⟨k₀, h₀, hk₀, hkey₀⟩ := ofComponents_of_directories hqs
  have hK₀ : k₀.key.toList = (qs.map fun p => p.1.name.toList).flatMap (· ++ ['/']) := by
    rw [hkey₀, componentsText_of_directories hqs]
  have hvalid : ∀ d ∈ qs.map (fun p => p.1.name.toList),
      isValidName (String.ofList d) = true := by
    intro d hd
    obtain ⟨p, -, rfl⟩ := List.mem_map.1 hd
    simpa using p.1.valid
  have hchild := newChild_of_directory hk₀ n kind
  have hne : (k₀.key ++ n.name ++ (if kind = .directory then "/" else "")) ≠ "" := by
    rw [ne_eq, ← String.toList_eq_nil_iff, toList_newChild_key]
    simp [n.toList_ne_nil]
  refine ⟨_, by rw [ofComponents_append_singleton, h₀]; exact hchild, ?_⟩
  refine ⟨?_, name_newChild hchild, nameInBounds_newChild hchild, kind_newChild hchild, ?_,
    tryFrom_newChild hk₀ hK₀ hvalid hchild, fun pfx => ?_⟩
  · rw [toList_newChild_key, hkey₀, componentsText_append_singleton]
  · rw [components_newChild hk₀ hK₀ hvalid hchild]
    simp
  · exact ⟨(nameInBounds_fullKey hne pfx).trans (nameInBounds_newChild hchild),
      name_fullKey hne pfx, kind_fullKey hne pfx⟩

/-- Every key `try_from` accepts is built from the root by `new_child`, directories first. -/
theorem tryFrom_eq_ok {s : String} {k : ValidKey} (h : tryFrom s = .ok k) :
    ∃ ps : List (ValidName × InodeKind), (∀ p ∈ ps.dropLast, p.2 = .directory) ∧
      ofComponents ps = .ok k := by
  obtain ⟨last, hlast⟩ : ∃ last,
      lastValidComponent (splitTerminator s.toList '/') none = some last := by
    unfold tryFrom at h
    split at h
    · cases h
    · exact ⟨_, ‹_›⟩
  have hvalid := valid_of_lastValidComponent hlast
  rcases List.eq_nil_or_concat (splitTerminator s.toList '/') with hnil | ⟨cs, c, hcs⟩
  · -- no component: the empty key, which is the root
    have hs : s = "" := String.toList_eq_nil_iff.1 (eq_nil_of_splitTerminator hnil)
    subst hs
    have hroot : tryFrom "" = .ok root := rfl
    exact ⟨[], by simp, by rw [Except.ok.inj (h.symm.trans hroot)]; rfl⟩
  · rw [List.concat_eq_append] at hcs
    have hcsv : ∀ d ∈ cs, isValidName (String.ofList d) = true :=
      fun d hd => hvalid d (by rw [hcs]; exact List.mem_append_left _ hd)
    have hcv : isValidName (String.ofList c) = true :=
      hvalid c (by rw [hcs]; exact List.mem_append_right _ (List.mem_singleton_self c))
    let qs : List (ValidName × InodeKind) :=
      cs.pmap (fun d hd => ((⟨String.ofList d, hd⟩ : ValidName), InodeKind.directory)) hcsv
    have hqs : ∀ p ∈ qs, p.2 = .directory := by
      intro p hp
      obtain ⟨d, hd, rfl⟩ := List.mem_pmap.1 hp
      rfl
    have hnames : qs.map (fun p => p.1.name.toList) = cs := by simp [qs, List.map_pmap]
    -- the last component is a directory exactly when the text ends in `/`
    obtain ⟨kind, hkind⟩ : ∃ kind : InodeKind, s.toList = cs.flatMap (· ++ ['/']) ++ c ++
        (if kind = .directory then ['/'] else []) := by
      rcases eq_flatMap_of_splitTerminator hcs with hs | hs
      · exact ⟨.file, by simpa using hs⟩
      · exact ⟨.directory, by simpa using hs⟩
    obtain ⟨k', hk', hb⟩ := ofComponents_spec hqs ⟨String.ofList c, hcv⟩ kind
    have hkey : k'.key = s := by
      apply String.ext
      rw [hb.key_eq, componentsText_append_singleton, componentsText_of_directories hqs, hnames,
        hkind]
      simp
    refine ⟨qs ++ [(⟨String.ofList c, hcv⟩, kind)], by simpa using hqs, ?_⟩
    have htry := hb.tryFrom_eq
    rw [hkey, h] at htry
    rw [hk', Except.ok.inj htry]

/-- The root is the exception to `name_fullKey`: with a prefix in front, its `name` slices
past the end of the key unless the prefix is empty. -/
theorem nameInBounds_fullKey_root (p : Prefix) :
    (root.fullKey p.path).nameInBounds = true ↔ p.path = "" := by
  rcases p with ⟨pfx, hpfx⟩
  rcases hpfx with rfl | hlast
  · simp only [iff_true]
    rfl
  · have hpos : 0 < pfx.length := by
      rw [← String.length_toList, List.length_pos_iff]
      intro h
      simp [h] at hlast
    have hne : pfx ≠ "" := fun h => by simp [h] at hpos
    simp only [root, fullKey, nameInBounds, String.append_empty, hlast, hne, iff_false]
    simp
    omega

/-- The root's key with a prefix in front is still a directory's. -/
theorem kind_fullKey_root (p : Prefix) : (root.fullKey p.path).kind = .directory := by
  rcases p with ⟨pfx, hpfx | hlast⟩
  · subst hpfx
    rfl
  · simp [kind, root, fullKey, hlast]

theorem full_key_root_name_out_of_range :
    ofComponents [] = .ok root ∧ (∃ p, Prefix.new "a/" = .ok p ∧ p.path = "a/") ∧
      root.fullKey "a/" = ⟨"a/", 2⟩ ∧ (root.fullKey "a/").nameInBounds = false :=
  ⟨rfl, ⟨_, rfl, rfl⟩, rfl, by decide⟩

end Build

end ValidKey

end MountpointS3.Metablock

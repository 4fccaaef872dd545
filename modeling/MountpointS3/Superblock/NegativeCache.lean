import Mathlib.Data.List.Nodup
import MountpointS3.Metablock.Types

/-!
# The negative lookup cache

`superblock/negative_cache.rs`: a bounded set of `(parent, name)` pairs known not to exist,
each with an expiry, in a `LinkedHashMap` ordered from the oldest insertion to the newest. The
map is kept as that list. Inserting a key already present replaces its expiry and moves it to
the newest end (the documented behaviour of `LinkedHashMap::insert`); inserting a new key first
drops expired entries from the oldest end, then the oldest entries beyond `max_size`.
-/

namespace MountpointS3.Superblock

open Metablock

/-- The key of a negative cache entry. -/
structure NegativeKey where
  parentIno : InodeNo
  childName : String
  deriving DecidableEq, Repr

/-- `NegativeCache`. -/
structure NegativeCache where
  map : List (NegativeKey × Expiry)
  maxSize : ℕ
  ttl : ℕ

namespace NegativeCache

/-- `NegativeCache::new`. -/
def new (maxSize ttl : ℕ) : NegativeCache := ⟨[], maxSize, ttl⟩

/-- `NegativeCache::contains`: a current entry for the pair. -/
def contains (c : NegativeCache) (parentIno : InodeNo) (childName : String) (now : ℕ) : Bool :=
  match c.map.find? (fun e => e.1 = ⟨parentIno, childName⟩) with
  | some (_, expiry) => !expiry.isExpired now
  | none => false

/-- `NegativeCache::remove`. -/
def remove (c : NegativeCache) (parentIno : InodeNo) (childName : String) : NegativeCache :=
  { c with map := c.map.filter (fun e => e.1 ≠ ⟨parentIno, childName⟩) }

/-- `NegativeCache::insert`. -/
def insert (c : NegativeCache) (parentIno : InodeNo) (childName : String) (now : ℕ) :
    NegativeCache :=
  let key : NegativeKey := ⟨parentIno, childName⟩
  let expiry := Expiry.fromNow now c.ttl
  if c.map.any (fun e => e.1 = key) then
    { c with map := c.map.filter (fun e => e.1 ≠ key) ++ [(key, expiry)] }
  else
    let fresh := (c.map ++ [(key, expiry)]).dropWhile (fun e => e.2.isExpired now)
    { c with map := fresh.drop (fresh.length - c.maxSize) }

section Spec

variable (c : NegativeCache) (parentIno : InodeNo) (childName : String) (now : ℕ)

@[simp] theorem remove_maxSize : (c.remove parentIno childName).maxSize = c.maxSize := rfl

@[simp] theorem remove_ttl : (c.remove parentIno childName).ttl = c.ttl := rfl

@[simp] theorem remove_map :
    (c.remove parentIno childName).map = c.map.filter (fun e => e.1 ≠ ⟨parentIno, childName⟩) :=
  rfl

@[simp] theorem insert_maxSize : (c.insert parentIno childName now).maxSize = c.maxSize := by
  simp only [insert]
  split <;> rfl

@[simp] theorem insert_ttl : (c.insert parentIno childName now).ttl = c.ttl := by
  simp only [insert]
  split <;> rfl

theorem any_key_eq_true_iff {k : NegativeKey} :
    (c.map.any fun e => e.1 = k) = true ↔ k ∈ c.map.map Prod.fst := by
  simp [List.any_eq_true, List.mem_map]

/-- Inserting a key present replaces its entry by one at the newest end. -/
theorem insert_map_of_mem (h : ⟨parentIno, childName⟩ ∈ c.map.map Prod.fst) :
    (c.insert parentIno childName now).map =
      c.map.filter (fun e => e.1 ≠ ⟨parentIno, childName⟩) ++
        [(⟨parentIno, childName⟩, now + c.ttl)] := by
  simp only [insert, (any_key_eq_true_iff c).2 h, if_true]
  rfl

/-- Inserting a new key appends it, then evicts from the oldest end: the expired entries,
then all but the newest `max_size`. -/
theorem insert_map_of_not_mem (h : ⟨parentIno, childName⟩ ∉ c.map.map Prod.fst) :
    (c.insert parentIno childName now).map =
      (List.dropWhile (fun e => e.2.isExpired now)
        (c.map ++ [(⟨parentIno, childName⟩, now + c.ttl)])).drop
      ((List.dropWhile (fun e => e.2.isExpired now)
        (c.map ++ [(⟨parentIno, childName⟩, now + c.ttl)])).length - c.maxSize) := by
  have hany : (c.map.any fun e => e.1 = ⟨parentIno, childName⟩) = false :=
    Bool.eq_false_iff.2 fun hc => h ((any_key_eq_true_iff c).1 hc)
  simp only [insert, hany]
  rfl

/-- With one entry per key, `contains` holds exactly when the key's entry has not expired. -/
theorem contains_eq_true_iff (hnd : (c.map.map Prod.fst).Nodup) :
    c.contains parentIno childName now = true ↔
      ∃ e, (⟨parentIno, childName⟩, e) ∈ c.map ∧ now ≤ e := by
  unfold contains
  split
  · rename_i k e hfind
    have hmem := List.mem_of_find?_eq_some hfind
    have hk : k = ⟨parentIno, childName⟩ := by simpa using List.find?_some hfind
    subst hk
    constructor
    · intro he
      exact ⟨e, hmem, by simpa [Expiry.isExpired] using he⟩
    · rintro ⟨e', he', hle⟩
      -- the key has one entry, so the one found
      have heq := List.inj_on_of_nodup_map hnd he' hmem rfl
      cases heq
      simpa [Expiry.isExpired] using hle
  · rename_i hfind
    rw [List.find?_eq_none] at hfind
    simp only [Bool.false_eq_true, false_iff, not_exists, not_and]
    intro e he _
    exact hfind _ he (by simp)

end Spec

end NegativeCache

end MountpointS3.Superblock

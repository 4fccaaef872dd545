import Mathlib

/-!
# Linked hash maps

A `LinkedHashMap K V`, as the crate `linked_hash_map` provides it, is a map that keeps its entries
in order: a list of key-value pairs whose keys are distinct, which the structure carries. `insert`
replaces the value of a key and moves it to the back, `getRefresh` moves a key that is present to
the back, and `popFront` removes the first entry. The entries that stay keep their order, so the
order is that of the last insert or refresh of each key.

* `entries_moveToBack`, `mem_moveToBack`: the one move `insert` and `getRefresh` make;
* `get?_eq_some_iff`, `get?_eq_none_iff`: what a lookup finds;
* `sum_moveToBack`: how the sum of natural values moves;
* `dropFront`: the entries left after `n` pops;
* `pairwise_moveToBack`: an order on the entries is kept when the moved entry is greater than
  every other.
-/

namespace MountpointS3.Foundations

/-- A map with its entries in order and its keys distinct. -/
@[ext] structure LinkedHashMap (K V : Type) where
  entries : List (K × V)
  nodup_keys : (entries.map Prod.fst).Nodup

namespace LinkedHashMap

variable {K V : Type}

/-- `LinkedHashMap::new`. -/
def new : LinkedHashMap K V := ⟨[], List.nodup_nil⟩

/-- `LinkedHashMap::pop_front`. -/
def popFront (m : LinkedHashMap K V) : Option (K × V) × LinkedHashMap K V :=
  (m.entries.head?, ⟨m.entries.tail, by
    rw [List.map_tail]
    exact m.nodup_keys.sublist (List.tail_sublist _)⟩)

@[simp] theorem entries_popFront (m : LinkedHashMap K V) : m.popFront.2.entries = m.entries.tail := rfl

@[simp] theorem popFront_fst (m : LinkedHashMap K V) : m.popFront.1 = m.entries.head? := rfl

/-- The map without its first `n` entries: `n` calls of `popFront`. -/
def dropFront (m : LinkedHashMap K V) (n : ℕ) : LinkedHashMap K V :=
  ⟨m.entries.drop n, by
    rw [List.map_drop]
    exact m.nodup_keys.sublist (List.drop_sublist _ _)⟩

@[simp] theorem entries_dropFront (m : LinkedHashMap K V) (n : ℕ) :
    (m.dropFront n).entries = m.entries.drop n := rfl

theorem popFront_eq (m : LinkedHashMap K V) : m.popFront = (m.entries.head?, m.dropFront 1) :=
  Prod.ext rfl (LinkedHashMap.ext (by simp [List.drop_one]))

variable [DecidableEq K]

theorem nodup_keys_filter_append {l : List (K × V)} (h : (l.map Prod.fst).Nodup) (k : K) (v : V) :
    ((l.filter fun e => e.1 ≠ k) ++ [(k, v)]).map Prod.fst |>.Nodup := by
  rw [List.map_append, List.nodup_append]
  refine ⟨(List.filter_sublist.map Prod.fst).nodup h, List.nodup_singleton k, ?_⟩
  intro a ha b hb hab
  obtain ⟨e, he, rfl⟩ := List.mem_map.1 ha
  rw [List.mem_singleton.1 hb] at hab
  exact (of_decide_eq_true (List.mem_filter.1 he).2) hab

/-- `LinkedHashMap::get`. -/
def get? (m : LinkedHashMap K V) (k : K) : Option V := m.entries.lookup k

/-- The entry of `k` set to `v` and moved to the back. -/
def moveToBack (m : LinkedHashMap K V) (k : K) (v : V) : LinkedHashMap K V :=
  ⟨(m.entries.filter fun e => e.1 ≠ k) ++ [(k, v)], nodup_keys_filter_append m.nodup_keys k v⟩

/-- `LinkedHashMap::insert`: the previous value, and the key at the back with its new value. -/
def insert (m : LinkedHashMap K V) (k : K) (v : V) : Option V × LinkedHashMap K V :=
  (m.get? k, m.moveToBack k v)

/-- `LinkedHashMap::get_refresh`: the value, and the key moved to the back, if it is present. -/
def getRefresh (m : LinkedHashMap K V) (k : K) : Option V × LinkedHashMap K V :=
  match m.get? k with
  | none => (none, m)
  | some v => (some v, m.moveToBack k v)

/-! ### Lookups -/

theorem get?_eq_some_iff {m : LinkedHashMap K V} {k : K} {v : V} :
    m.get? k = some v ↔ (k, v) ∈ m.entries := by
  obtain ⟨l, hl⟩ := m
  simp only [get?]
  induction l with
  | nil => simp
  | cons e l ih =>
    obtain ⟨k', v'⟩ := e
    have hk' : k' ∉ l.map Prod.fst := (List.nodup_cons.1 hl).1
    by_cases hkk : k = k'
    · subst hkk
      have hnot : (k, v) ∉ l := fun hmem => hk' (List.mem_map.2 ⟨_, hmem, rfl⟩)
      simp [hnot, eq_comm]
    · have hne : (k == k') = false := beq_false_of_ne hkk
      simp only [List.lookup_cons, hne]
      rw [ih (List.nodup_cons.1 hl).2]
      simp [hkk]

theorem get?_eq_none_iff {m : LinkedHashMap K V} {k : K} :
    m.get? k = none ↔ k ∉ m.entries.map Prod.fst := by
  constructor
  · intro h hk
    obtain ⟨e, he, rfl⟩ := List.mem_map.1 hk
    rw [get?_eq_some_iff.2 he] at h
    cases h
  · intro h
    cases hv : m.get? k with
    | none => rfl
    | some v => exact absurd (List.mem_map.2 ⟨_, get?_eq_some_iff.1 hv, rfl⟩) h

/-! ### Moving an entry to the back -/

@[simp] theorem entries_moveToBack (m : LinkedHashMap K V) (k : K) (v : V) :
    (m.moveToBack k v).entries = (m.entries.filter fun e => e.1 ≠ k) ++ [(k, v)] := rfl

theorem mem_moveToBack {m : LinkedHashMap K V} {k : K} {v : V} {e : K × V} :
    e ∈ (m.moveToBack k v).entries ↔ e = (k, v) ∨ (e.1 ≠ k ∧ e ∈ m.entries) := by
  simp only [entries_moveToBack, List.mem_append, List.mem_filter, List.mem_singleton,
    decide_eq_true_eq]
  tauto

@[simp] theorem insert_fst (m : LinkedHashMap K V) (k : K) (v : V) : (m.insert k v).1 = m.get? k :=
  rfl

@[simp] theorem insert_snd (m : LinkedHashMap K V) (k : K) (v : V) :
    (m.insert k v).2 = m.moveToBack k v := rfl

theorem getRefresh_of_get? {m : LinkedHashMap K V} {k : K} {v : V} (h : m.get? k = some v) :
    m.getRefresh k = (some v, m.moveToBack k v) := by
  simp [getRefresh, h]

theorem getRefresh_of_get?_eq_none {m : LinkedHashMap K V} {k : K} (h : m.get? k = none) :
    m.getRefresh k = (none, m) := by
  simp [getRefresh, h]

/-- An order on the entries is kept by moving an entry to the back, when the moved entry is
greater than every entry of another key. -/
theorem pairwise_moveToBack {m : LinkedHashMap K V} {k : K} {v : V} {R : K × V → K × V → Prop}
    (h : (m.entries.filter fun e => e.1 ≠ k).Pairwise R)
    (hlast : ∀ e ∈ m.entries, e.1 ≠ k → R e (k, v)) : (m.moveToBack k v).entries.Pairwise R := by
  rw [entries_moveToBack, List.pairwise_append]
  refine ⟨h, List.pairwise_singleton R _, fun a ha b hb => ?_⟩
  rw [List.mem_singleton.1 hb]
  obtain ⟨ha, hak⟩ := List.mem_filter.1 ha
  exact hlast a ha (of_decide_eq_true hak)

/-! ### Sums of the values -/

section Sum

variable (m : LinkedHashMap K ℕ)

/-- The sum of the values without the entry of `k`, and its value. -/
theorem sum_filter_add_get? (k : K) :
    ((m.entries.filter fun e => e.1 ≠ k).map Prod.snd).sum + (m.get? k).getD 0 =
      (m.entries.map Prod.snd).sum := by
  obtain ⟨l, hl⟩ := m
  simp only [get?]
  induction l with
  | nil => simp
  | cons e l ih =>
    obtain ⟨k', v'⟩ := e
    have hk' : k' ∉ l.map Prod.fst := (List.nodup_cons.1 hl).1
    have ih := ih (List.nodup_cons.1 hl).2
    by_cases hkk : k' = k
    · subst hkk
      -- the rest of the list holds no other entry of `k'`
      have hall : (l.filter fun e => e.1 ≠ k') = l :=
        List.filter_eq_self.2 fun e he => by
          simpa using fun heq => hk' (List.mem_map.2 ⟨e, he, heq⟩)
      rw [List.filter_cons_of_neg (by simp), hall]
      simp [Nat.add_comm]
    · have hne : (k == k') = false := by simpa using Ne.symm hkk
      simp only [List.filter_cons, List.lookup_cons, hne, ne_eq, hkk, not_false_eq_true,
        decide_true, if_true, List.map_cons, List.sum_cons] at ih ⊢
      omega

theorem sum_moveToBack (k : K) (v : ℕ) :
    ((m.moveToBack k v).entries.map Prod.snd).sum + (m.get? k).getD 0 =
      (m.entries.map Prod.snd).sum + v := by
  rw [entries_moveToBack, List.map_append, List.sum_append, ← sum_filter_add_get? m k]
  simp only [List.map_cons, List.map_nil, List.sum_cons, List.sum_nil]
  omega

end Sum

end LinkedHashMap

end MountpointS3.Foundations

import Mathlib.Data.List.Dedup
import Mathlib.Data.List.Induction
import MountpointS3.Superblock.NegativeCache
import MountpointS3.Foundations.Run
import MountpointS3.Foundations.Evict

/-!
# The negative cache over a run

A run of the negative cache is a list of inserts and removes; `contains` changes nothing and is
asked of the state a run ends in. The calls are read back from the newest (`latestInsert`,
`sinceInsert`), so that one more call is one more constructor at the head of the history.

`Inv` is what holds of the cache after every run under a clock that does not go back, against
the run's history: the map is bounded, has one entry for each key, expiries in order; each
entry holds the expiry of its key's latest insert, which no remove followed; each entry is
followed only by keys inserted after it; and a key inserted and not removed since is in the
map, or its expiry is past, or as many keys as the maximum were inserted after it.

* `Inv.insert`, `Inv.remove`: one call keeps `Inv`, the insert of a key present and of a new
  key separately;
* `contains_sound`, `contains_complete`: from `Inv`, `contains` answers from the latest insert:
  it holds at most `ttl` after it (an expiry is past only strictly after), and it does unless
  the key was removed or at least `max_size` keys were inserted since.
-/

namespace MountpointS3.Superblock

open Foundations Metablock

namespace NegativeCache

/-- A call that changes the cache: an insert, with the clock reading it takes, or a remove. -/
inductive Op
  | insert (key : NegativeKey) (now : ℕ)
  | remove (key : NegativeKey)
  deriving DecidableEq, Repr

/-- The call on the cache. -/
def step (c : NegativeCache) : Op → NegativeCache
  | .insert key now => c.insert key.parentIno key.childName now
  | .remove key => c.remove key.parentIno key.childName

/-- The key an insert inserts. -/
def Op.inserted? : Op → Option NegativeKey
  | .insert key _ => some key
  | .remove _ => none

/-- The clock reading of an insert. -/
def Op.time? : Op → Option ℕ
  | .insert _ now => some now
  | .remove _ => none

/-! ## The history, newest call first -/

/-- The clock reading of the latest insert of `key`. -/
def latestInsert (key : NegativeKey) : List Op → Option ℕ
  | [] => none
  | .insert key' now :: hist => if key' = key then some now else latestInsert key hist
  | .remove _ :: hist => latestInsert key hist

/-- The calls since the latest insert of `key`, newest first. -/
def sinceInsert (key : NegativeKey) : List Op → List Op
  | [] => []
  | .insert key' now :: hist => if key' = key then [] else .insert key' now :: sinceInsert key hist
  | .remove key' :: hist => .remove key' :: sinceInsert key hist

/-- The keys the calls insert, each once. -/
def insertedKeys (hist : List Op) : List NegativeKey := (hist.filterMap Op.inserted?).dedup

/-- The clock reading of the latest insert, `0` before any. -/
def lastTime : List Op → ℕ
  | [] => 0
  | .insert _ now :: _ => now
  | .remove _ :: hist => lastTime hist

/-- The inserts' clock readings do not go back, and `now` is not before them. -/
def Clocked (ops : List Op) (now : ℕ) : Prop :=
  (ops.filterMap Op.time? ++ [now]).Pairwise (· ≤ ·)

/-- The clock condition is checked by evaluation. -/
instance (ops : List Op) (now : ℕ) : Decidable (Clocked ops now) :=
  inferInstanceAs (Decidable ((ops.filterMap Op.time? ++ [now]).Pairwise (· ≤ ·)))

section History

variable {key k y : NegativeKey} {t : ℕ} {hist : List Op}

@[simp] theorem latestInsert_insert :
    latestInsert key (.insert k t :: hist) = if k = key then some t else latestInsert key hist :=
  rfl

@[simp] theorem latestInsert_remove : latestInsert key (.remove k :: hist) = latestInsert key hist :=
  rfl

@[simp] theorem sinceInsert_insert :
    sinceInsert key (.insert k t :: hist) =
      if k = key then [] else .insert k t :: sinceInsert key hist :=
  rfl

@[simp] theorem sinceInsert_remove :
    sinceInsert key (.remove k :: hist) = .remove k :: sinceInsert key hist := rfl

@[simp] theorem lastTime_insert : lastTime (.insert k t :: hist) = t := rfl

@[simp] theorem lastTime_remove : lastTime (.remove k :: hist) = lastTime hist := rfl

@[simp] theorem insertedKeys_remove : insertedKeys (.remove k :: hist) = insertedKeys hist := rfl

@[simp] theorem mem_insertedKeys_insert :
    y ∈ insertedKeys (.insert k t :: hist) ↔ y = k ∨ y ∈ insertedKeys hist := by
  simp [insertedKeys, Op.inserted?]

theorem insertedKeys_subset_cons (op : Op) : insertedKeys hist ⊆ insertedKeys (op :: hist) := by
  intro y hy
  cases op with
  | insert k t => exact mem_insertedKeys_insert.2 (.inr hy)
  | remove k => exact hy

theorem length_insertedKeys_le_cons (op : Op) :
    (insertedKeys hist).length ≤ (insertedKeys (op :: hist)).length :=
  (List.nodup_dedup _).length_le_of_subset (insertedKeys_subset_cons op)

/-- The latest insert is no later than a clock reading that no insert's is after. -/
theorem lastTime_le {now : ℕ} (h : ∀ t ∈ hist.filterMap Op.time?, t ≤ now) :
    lastTime hist ≤ now := by
  induction hist with
  | nil => exact Nat.zero_le _
  | cons op hist ih =>
    cases op with
    | insert k t => exact h t (by simp [Op.time?])
    | remove k => exact ih fun t ht => h t (by simpa [Op.time?] using ht)

/-- The same, read on a run's calls, newest first. -/
theorem lastTime_reverse_le {ops : List Op} {now : ℕ}
    (h : ∀ t ∈ ops.filterMap Op.time?, t ≤ now) : lastTime ops.reverse ≤ now :=
  lastTime_le fun t ht => h t (by simpa [List.filterMap_reverse] using ht)

end History

/-! ## The entries of the map -/

/-- What each entry of the map keeps against the history `hist`: one entry a key, expiries in
order and not past the latest insert's, each the expiry of its key's latest insert with no
remove of the key since, and only keys inserted since after it. -/
structure Entries (ttl : ℕ) (hist : List Op) (l : List (NegativeKey × ℕ)) : Prop where
  nodup : (l.map Prod.fst).Nodup
  sorted : (l.map Prod.snd).Pairwise (· ≤ ·)
  expiry_le : ∀ x ∈ l, x.2 ≤ lastTime hist + ttl
  entry : ∀ x ∈ l, latestInsert x.1 hist = some (x.2 - ttl) ∧ ttl ≤ x.2 ∧
    Op.remove x.1 ∉ sinceInsert x.1 hist
  order : l.Pairwise fun x y => y.1 ∈ insertedKeys (sinceInsert x.1 hist)

namespace Entries

variable {ttl now : ℕ} {hist : List Op} {k : NegativeKey} {l l' : List (NegativeKey × ℕ)}

theorem nil : Entries ttl hist [] :=
  ⟨List.nodup_nil, List.Pairwise.nil, fun _ h => absurd h List.not_mem_nil,
    fun _ h => absurd h List.not_mem_nil, List.Pairwise.nil⟩

/-- Every field is kept by dropping entries. -/
theorem sublist (h : Entries ttl hist l) (hs : l'.Sublist l) : Entries ttl hist l' where
  nodup := h.nodup.sublist (hs.map _)
  sorted := h.sorted.sublist (hs.map _)
  expiry_le x hx := h.expiry_le x (hs.subset hx)
  entry x hx := h.entry x (hs.subset hx)
  order := h.order.sublist hs

/-- Appending the entry of a key not in the list, inserted at `now`. -/
theorem push (h : Entries ttl hist l) (hnow : lastTime hist ≤ now) (hk : ∀ x ∈ l, x.1 ≠ k) :
    Entries ttl (.insert k now :: hist) (l ++ [(k, now + ttl)]) where
  nodup := by
    simp only [List.map_append, List.map_cons, List.map_nil]
    refine List.nodup_append.2 ⟨h.nodup, List.nodup_singleton k, ?_⟩
    intro a ha b hb
    obtain ⟨x, hx, rfl⟩ := List.mem_map.1 ha
    rw [List.mem_singleton] at hb
    exact hb ▸ hk x hx
  sorted := by
    simp only [List.map_append, List.map_cons, List.map_nil]
    refine List.pairwise_append.2 ⟨h.sorted, List.pairwise_singleton _ _, ?_⟩
    intro a ha b hb
    obtain ⟨x, hx, rfl⟩ := List.mem_map.1 ha
    rw [List.mem_singleton] at hb
    have := h.expiry_le x hx
    omega
  expiry_le x hx := by
    rcases List.mem_append.1 hx with hx | hx
    · have := h.expiry_le x hx
      simp only [lastTime_insert]
      omega
    · rw [List.mem_singleton] at hx
      simp [hx]
  entry x hx := by
    rcases List.mem_append.1 hx with hx | hx
    · obtain ⟨hlatest, hle, hrm⟩ := h.entry x hx
      simp [Ne.symm (hk x hx), hlatest, hle, hrm]
    · rw [List.mem_singleton] at hx
      simp [hx]
  order := by
    refine List.pairwise_append.2 ⟨?_, List.pairwise_singleton _ _, ?_⟩
    · -- the new key is inserted after every old entry's latest insert
      refine h.order.imp_of_mem fun hx _ hy => ?_
      simp [Ne.symm (hk _ hx), hy]
    · intro x hx y hy
      rw [List.mem_singleton] at hy
      simp [Ne.symm (hk x hx), hy]

/-- A remove of a key with no entry left. -/
theorem remove (h : Entries ttl hist l) (hk : ∀ x ∈ l, x.1 ≠ k) :
    Entries ttl (.remove k :: hist) l where
  nodup := h.nodup
  sorted := h.sorted
  expiry_le := h.expiry_le
  entry x hx := by
    obtain ⟨hlatest, hle, hrm⟩ := h.entry x hx
    simp [hlatest, hle, hrm, hk x hx]
  order := h.order

/-- An entry of the map before the eviction of an insert outlives it, or has expired, or is
followed by `maxSize` keys inserted since. -/
theorem mem_evict_or (h : Entries ttl hist l) {x : NegativeKey × ℕ} (hx : x ∈ l)
    (now maxSize : ℕ) :
    x ∈ (List.dropWhile (fun e => Expiry.isExpired e.2 now) l).drop
        ((List.dropWhile (fun e => Expiry.isExpired e.2 now) l).length - maxSize) ∨
      x.2 < now ∨ maxSize ≤ (insertedKeys (sinceInsert x.1 hist)).length := by
  rcases mem_dropWhile_or (p := fun e => Expiry.isExpired e.2 now) hx with hx | hx
  · have hfresh : Entries ttl hist (l.dropWhile fun e => Expiry.isExpired e.2 now) :=
      h.sublist (List.dropWhile_sublist _)
    rcases mem_drop_or_le_length hfresh.nodup hfresh.order hx maxSize with hx | hle
    · exact .inl hx
    · exact .inr (.inr hle)
  · exact .inr (.inl (by simpa [Expiry.isExpired] using hx))

end Entries

/-! ## The invariant -/

/-- What the cache keeps against its history `hist`, newest call first: its bounds, its
entries, and that a key inserted and not removed since is in the map, or its expiry was past
at a later insert, or `maxSize` keys were inserted after it. -/
structure Inv (maxSize ttl : ℕ) (c : NegativeCache) (hist : List Op) : Prop where
  maxSize_eq : c.maxSize = maxSize
  ttl_eq : c.ttl = ttl
  length_le : c.map.length ≤ maxSize
  entries : Entries ttl hist c.map
  kept : ∀ key t, latestInsert key hist = some t → Op.remove key ∉ sinceInsert key hist →
    key ∈ c.map.map Prod.fst ∨ t + ttl < lastTime hist ∨
      maxSize ≤ (insertedKeys (sinceInsert key hist)).length

theorem inv_new (maxSize ttl : ℕ) : Inv maxSize ttl (new maxSize ttl) [] where
  maxSize_eq := rfl
  ttl_eq := rfl
  length_le := Nat.zero_le _
  entries := Entries.nil
  kept _ _ h := by simp [latestInsert] at h

namespace Inv

variable {maxSize ttl now t : ℕ} {c : NegativeCache} {hist : List Op} {p : InodeNo}
  {n : String} {key : NegativeKey}

/-- The entry found for `key` holds the expiry of its latest insert. -/
theorem expiry_eq (h : Inv maxSize ttl c hist) {e : ℕ} (he : (key, e) ∈ c.map)
    (ht : latestInsert key hist = some t) : e = t + ttl := by
  obtain ⟨hlatest, hle, -⟩ := h.entries.entry _ he
  rw [ht, Option.some_inj] at hlatest
  omega

/-- An insert of another key: the earlier key stays in the map, or has expired by the latest
insert, or is outnumbered, as before. -/
theorem kept_of_ne (h : Inv maxSize ttl c hist) (hnow : lastTime hist ≤ now)
    (hkey : (⟨p, n⟩ : NegativeKey) ≠ key)
    (ht : latestInsert key (.insert ⟨p, n⟩ now :: hist) = some t)
    (hrm : Op.remove key ∉ sinceInsert key (.insert ⟨p, n⟩ now :: hist)) :
    key ∈ c.map.map Prod.fst ∨ t + ttl < now ∨
      maxSize ≤ (insertedKeys (sinceInsert key (.insert ⟨p, n⟩ now :: hist))).length := by
  simp only [latestInsert_insert, sinceInsert_insert, hkey, if_false, List.mem_cons,
    reduceCtorEq, false_or] at ht hrm ⊢
  rcases h.kept key t ht hrm with hm | hlt | hle
  · exact .inl hm
  · exact .inr (.inl (by omega))
  · exact .inr (.inr (Nat.le_trans hle (length_insertedKeys_le_cons _)))

/-- An insert of a key present. -/
theorem insert_of_mem (h : Inv maxSize ttl c hist) (hnow : lastTime hist ≤ now)
    (hk : ⟨p, n⟩ ∈ c.map.map Prod.fst) :
    Inv maxSize ttl (c.insert p n now) (.insert ⟨p, n⟩ now :: hist) := by
  have hmap := c.insert_map_of_mem p n now hk
  have hfilter : ∀ x ∈ c.map.filter (fun e => e.1 ≠ ⟨p, n⟩), x.1 ≠ ⟨p, n⟩ := fun x hx => by
    simpa using (List.mem_filter.1 hx).2
  refine ⟨by simp [h.maxSize_eq], by simp [h.ttl_eq], ?_, ?_, ?_⟩
  · -- the key's old entry leaves as its new one arrives
    have hlt : (c.map.filter fun e => e.1 ≠ ⟨p, n⟩).length < c.map.length := by
      obtain ⟨x, hx, hxk⟩ := List.mem_map.1 hk
      exact List.length_filter_lt_length_iff_exists.2 ⟨x, hx, by simp [hxk]⟩
    rw [hmap, List.length_append, List.length_singleton]
    have := h.length_le
    omega
  · rw [hmap, h.ttl_eq]
    exact (h.entries.sublist List.filter_sublist).push hnow hfilter
  · intro key t ht hrm
    rw [hmap]
    by_cases hkey : (⟨p, n⟩ : NegativeKey) = key
    · subst hkey
      exact .inl (by simp)
    · rcases h.kept_of_ne hnow hkey ht hrm with hm | hlt | hle
      · obtain ⟨x, hx, rfl⟩ := List.mem_map.1 hm
        refine .inl (List.mem_map.2 ⟨x, List.mem_append_left _ ?_, rfl⟩)
        exact List.mem_filter.2 ⟨hx, by simpa using Ne.symm hkey⟩
      · exact .inr (.inl hlt)
      · exact .inr (.inr hle)

/-- An insert of a new key. -/
theorem insert_of_not_mem (h : Inv maxSize ttl c hist) (hnow : lastTime hist ≤ now)
    (hk : ⟨p, n⟩ ∉ c.map.map Prod.fst) :
    Inv maxSize ttl (c.insert p n now) (.insert ⟨p, n⟩ now :: hist) := by
  have hmap := c.insert_map_of_not_mem p n now hk
  rw [h.ttl_eq, h.maxSize_eq] at hmap
  have hpush : Entries ttl (.insert ⟨p, n⟩ now :: hist) (c.map ++ [(⟨p, n⟩, now + ttl)]) :=
    h.entries.push hnow fun x hx hxk => hk (List.mem_map.2 ⟨x, hx, hxk⟩)
  refine ⟨by simp [h.maxSize_eq], by simp [h.ttl_eq], ?_, ?_, ?_⟩
  · rw [hmap, List.length_drop]
    omega
  · rw [hmap]
    exact hpush.sublist ((List.drop_sublist _ _).trans (List.dropWhile_sublist _))
  · -- an entry appended or already there is evicted only when expired or outnumbered
    intro key t ht hrm
    have hentry : ∀ e : ℕ, (key, e) ∈ c.map ++ [(⟨p, n⟩, now + ttl)] →
        key ∈ (c.insert p n now).map.map Prod.fst ∨ t + ttl < now ∨
          maxSize ≤ (insertedKeys (sinceInsert key (.insert ⟨p, n⟩ now :: hist))).length := by
      intro e he
      have het : e = t + ttl := by
        obtain ⟨hlatest, hle, -⟩ := hpush.entry _ he
        rw [ht, Option.some_inj] at hlatest
        omega
      rcases hpush.mem_evict_or he now maxSize with hm | hlt | hle
      · exact .inl (List.mem_map.2 ⟨_, hmap ▸ hm, rfl⟩)
      · exact .inr (.inl (het ▸ hlt))
      · exact .inr (.inr hle)
    by_cases hkey : (⟨p, n⟩ : NegativeKey) = key
    · subst hkey
      exact hentry _ (List.mem_append_right _ (List.mem_singleton_self _))
    · rcases h.kept_of_ne hnow hkey ht hrm with hm | hlt | hle
      · obtain ⟨x, hx, rfl⟩ := List.mem_map.1 hm
        exact hentry x.2 (List.mem_append_left _ hx)
      · exact .inr (.inl hlt)
      · exact .inr (.inr hle)

/-- One insert keeps the invariant, under a clock not before the latest insert. -/
theorem insert (h : Inv maxSize ttl c hist) (hnow : lastTime hist ≤ now) :
    Inv maxSize ttl (c.insert p n now) (.insert ⟨p, n⟩ now :: hist) := by
  by_cases hk : ⟨p, n⟩ ∈ c.map.map Prod.fst
  · exact h.insert_of_mem hnow hk
  · exact h.insert_of_not_mem hnow hk

/-- One remove keeps the invariant. -/
theorem remove (h : Inv maxSize ttl c hist) :
    Inv maxSize ttl (c.remove p n) (.remove ⟨p, n⟩ :: hist) := by
  have hfilter : ∀ x ∈ c.map.filter (fun e => e.1 ≠ ⟨p, n⟩), x.1 ≠ ⟨p, n⟩ := fun x hx => by
    simpa using (List.mem_filter.1 hx).2
  refine ⟨h.maxSize_eq, h.ttl_eq, ?_, ?_, ?_⟩
  · exact Nat.le_trans (List.length_filter_le _ _) h.length_le
  · exact (h.entries.sublist List.filter_sublist).remove hfilter
  · intro key t ht hrm
    simp only [latestInsert_remove, sinceInsert_remove, List.mem_cons, Op.remove.injEq,
      not_or] at ht hrm
    rcases h.kept key t ht hrm.2 with hm | hlt | hle
    · obtain ⟨x, hx, rfl⟩ := List.mem_map.1 hm
      exact .inl (List.mem_map.2 ⟨x, List.mem_filter.2 ⟨hx, by simpa using hrm.1⟩, rfl⟩)
    · exact .inr (.inl hlt)
    · exact .inr (.inr hle)

/-- `contains` holds at most `ttl` after the latest insert, with no remove since. -/
theorem contains_sound (h : Inv maxSize ttl c hist) (hc : c.contains p n now = true) :
    ∃ t, latestInsert ⟨p, n⟩ hist = some t ∧ now ≤ t + ttl ∧
      Op.remove ⟨p, n⟩ ∉ sinceInsert ⟨p, n⟩ hist := by
  obtain ⟨e, he, hle⟩ := (c.contains_eq_true_iff p n now h.entries.nodup).1 hc
  obtain ⟨hlatest, httl, hrm⟩ := h.entries.entry _ he
  exact ⟨e - ttl, hlatest, by omega, hrm⟩

/-- `contains` holds at most `ttl` after the latest insert, with no remove since, while fewer
than `maxSize` keys were inserted after it. -/
theorem contains_complete (h : Inv maxSize ttl c hist) (hnow : lastTime hist ≤ now)
    (ht : latestInsert ⟨p, n⟩ hist = some t) (hlive : now ≤ t + ttl)
    (hrm : Op.remove ⟨p, n⟩ ∉ sinceInsert ⟨p, n⟩ hist)
    (hfew : (insertedKeys (sinceInsert ⟨p, n⟩ hist)).length < maxSize) :
    c.contains p n now = true := by
  rcases h.kept _ t ht hrm with hm | hlt | hle
  · obtain ⟨⟨k, e⟩, he, rfl⟩ := List.mem_map.1 hm
    refine (c.contains_eq_true_iff p n now h.entries.nodup).2 ⟨e, he, ?_⟩
    rw [h.expiry_eq he ht]
    exact hlive
  · omega
  · omega

end Inv

/-! ## Runs -/

/-- The run from a new cache, under a clock the inserts do not take back, keeps the invariant
against its calls, newest first. -/
theorem inv_run (maxSize ttl : ℕ) (ops : List Op)
    (hclock : (ops.filterMap Op.time?).Pairwise (· ≤ ·)) :
    Inv maxSize ttl (run step (new maxSize ttl) ops) ops.reverse := by
  induction ops using List.reverseRecOn with
  | nil => exact inv_new maxSize ttl
  | append_singleton ops op ih =>
    rw [List.filterMap_append, List.pairwise_append] at hclock
    have h := ih hclock.1
    rw [run_concat, List.reverse_append, List.reverse_singleton, List.singleton_append]
    cases op with
    | insert k now =>
      -- the insert's clock reading is not before any earlier one
      have hnow : lastTime ops.reverse ≤ now :=
        lastTime_reverse_le fun t ht => hclock.2.2 t ht now (by simp [Op.time?])
      exact h.insert hnow
    | remove k => exact h.remove

/-! ## What a run guarantees -/

/-- What the cache guarantees after the calls `ops`, asked at `now`: at most `maxSize` entries,
in order of expiry; `contains` only of a key inserted at most `ttl` before `now` and not removed
since, and of every such key while fewer than `maxSize` keys were inserted after it. -/
structure Guarantees (maxSize ttl : ℕ) (ops : List Op) (now : ℕ) (c : NegativeCache) :
    Prop where
  length_le : c.map.length ≤ maxSize
  sorted : (c.map.map Prod.snd).Pairwise (· ≤ ·)
  contains_sound : ∀ p n, c.contains p n now = true →
    ∃ t, latestInsert ⟨p, n⟩ ops.reverse = some t ∧ now ≤ t + ttl ∧
      Op.remove ⟨p, n⟩ ∉ sinceInsert ⟨p, n⟩ ops.reverse
  contains_complete : ∀ p n t, latestInsert ⟨p, n⟩ ops.reverse = some t → now ≤ t + ttl →
    Op.remove ⟨p, n⟩ ∉ sinceInsert ⟨p, n⟩ ops.reverse →
    (insertedKeys (sinceInsert ⟨p, n⟩ ops.reverse)).length < maxSize →
    c.contains p n now = true

theorem negative_cache_bounded_expiring (maxSize ttl : ℕ) (ops : List Op) (now : ℕ)
    (hclock : Clocked ops now) :
    Guarantees maxSize ttl ops now (run step (new maxSize ttl) ops) := by
  rw [Clocked, List.pairwise_append] at hclock
  have h := inv_run maxSize ttl ops hclock.1
  have hnow : lastTime ops.reverse ≤ now :=
    lastTime_reverse_le fun t ht => hclock.2.2 t ht now (List.mem_singleton_self _)
  exact ⟨h.length_le, h.entries.sorted, fun _ _ hc => h.contains_sound hc,
    fun _ _ _ ht hlive hrm hfew => h.contains_complete hnow ht hlive hrm hfew⟩

theorem negative_cache_bounded_expiring_two_inserts :
    Clocked [.insert ⟨1, "a"⟩ 0, .insert ⟨2, "b"⟩ 5] 8 ∧
      Guarantees 2 10 [.insert ⟨1, "a"⟩ 0, .insert ⟨2, "b"⟩ 5] 8
        (run step (new 2 10) [.insert ⟨1, "a"⟩ 0, .insert ⟨2, "b"⟩ 5]) :=
  ⟨by decide, negative_cache_bounded_expiring 2 10 _ 8 (by decide)⟩

/-- An entry is current at exactly `ttl` after its insert, since an expiry is past only
strictly after it. -/
theorem negative_cache_contains_at_ttl :
    latestInsert ⟨1, "a"⟩ [.insert ⟨1, "a"⟩ 0] = some 0 ∧ ¬(10 - 0 < 10) ∧
      (run step (new 10 10) [.insert ⟨1, "a"⟩ 0]).contains 1 "a" 10 = true := by
  decide

end NegativeCache

end MountpointS3.Superblock

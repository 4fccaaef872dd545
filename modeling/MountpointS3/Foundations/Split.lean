import Mathlib.Data.List.Basic

/-!
# Splitting at a terminator

`splitTerminator s sep` is Rust's `str::split_terminator`: the pieces of `s` between the
occurrences of `sep`, as `split` (`List.splitOn`) gives them, without the last piece when it is
empty, so that a text ending in `sep` has no empty last piece. Written the other way, a text is
its pieces each followed by `sep`, then a last piece, with or without a `sep` after it:

* `splitTerminator_flatMap`, `splitTerminator_flatMap_sep`: splitting such a text gives back its
  pieces, when none holds `sep` and a last one without `sep` after it is not empty;
* `eq_flatMap_of_splitTerminator`, `eq_nil_of_splitTerminator`: every text is of this form, with
  the pieces `splitTerminator` gives.

`splitOnce s sep` is `str::split_once`: the text before the first `sep` and the text after it;
`splitOnce_append_cons` and `eq_of_splitOnce` say that these are the two sides of the first
`sep`, and `splitOnce_eq_none_iff` that there is none when `sep` does not occur.
-/

namespace MountpointS3.Foundations

variable {α : Type*} [BEq α]

/-- `str::split_terminator`. -/
def splitTerminator (s : List α) (sep : α) : List (List α) :=
  match (s.splitOn sep).getLast? with
  | some [] => (s.splitOn sep).dropLast
  | _ => s.splitOn sep

variable [LawfulBEq α] {sep : α} {cs : List (List α)} {c : List α}

omit [BEq α] [LawfulBEq α] in
theorem intercalate_append_singleton (x : α) (cs : List (List α)) (c : List α) :
    [x].intercalate (cs ++ [c]) = cs.flatMap (· ++ [x]) ++ c := by
  induction cs with
  | nil => simp
  | cons d cs ih =>
    cases cs with
    | nil => simp
    | cons e cs =>
      rw [List.cons_append, List.cons_append, List.intercalate_cons_cons, ← List.cons_append, ih]
      simp

theorem splitOn_flatMap_append (hcs : ∀ d ∈ cs, sep ∉ d) (tail : List α) :
    (cs.flatMap (· ++ [sep]) ++ tail).splitOn sep = cs ++ tail.splitOn sep := by
  induction cs with
  | nil => simp
  | cons d cs ih =>
    have hd : sep ∉ d := hcs d List.mem_cons_self
    have hrest : (cs.flatMap (· ++ [sep]) ++ tail).splitOn sep = cs ++ tail.splitOn sep :=
      ih fun e he => hcs e (List.mem_cons_of_mem _ he)
    rw [List.flatMap_cons, List.append_assoc, List.append_assoc, List.singleton_append,
      List.splitOn_append_cons_self_of_not_mem hd, hrest, List.cons_append]

/-- A text whose last piece is followed by the terminator. -/
theorem splitTerminator_flatMap_sep (hcs : ∀ d ∈ cs, sep ∉ d) (hc : sep ∉ c) :
    splitTerminator (cs.flatMap (· ++ [sep]) ++ (c ++ [sep])) sep = cs ++ [c] := by
  have hall : ∀ d ∈ cs ++ [c], sep ∉ d := by
    intro d hd
    rcases List.mem_append.1 hd with hd | hd
    · exact hcs d hd
    · exact List.mem_singleton.1 hd ▸ hc
  have hsplit : (cs.flatMap (· ++ [sep]) ++ (c ++ [sep])).splitOn sep = cs ++ [c] ++ [[]] := by
    have := splitOn_flatMap_append hall []
    simpa [List.splitOn_nil] using this
  simp [splitTerminator, hsplit]

/-- A text whose last piece, not empty, has no terminator after it. -/
theorem splitTerminator_flatMap (hcs : ∀ d ∈ cs, sep ∉ d) (hc : sep ∉ c) (hne : c ≠ []) :
    splitTerminator (cs.flatMap (· ++ [sep]) ++ c) sep = cs ++ [c] := by
  have hsplit : (cs.flatMap (· ++ [sep]) ++ c).splitOn sep = cs ++ [c] := by
    rw [splitOn_flatMap_append hcs, List.splitOn_eq_singleton hc]
  unfold splitTerminator
  rw [hsplit, List.getLast?_concat]
  split
  · rename_i heq
    exact absurd (Option.some.inj heq) hne
  · rfl

theorem eq_flatMap_of_splitTerminator {s : List α} (h : splitTerminator s sep = cs ++ [c]) :
    s = cs.flatMap (· ++ [sep]) ++ c ∨ s = cs.flatMap (· ++ [sep]) ++ (c ++ [sep]) := by
  have hs : [sep].intercalate (s.splitOn sep) = s := List.intercalate_splitOn sep
  unfold splitTerminator at h
  split at h
  · -- the last piece is empty: the text ends in the terminator
    rename_i hlast
    have hpieces : s.splitOn sep = cs ++ [c] ++ [[]] := by
      rw [← h, List.dropLast_append_getLast? [] hlast]
    right
    rw [← hs, hpieces, intercalate_append_singleton, List.flatMap_append]
    simp
  · left
    rw [← hs, h, intercalate_append_singleton]

theorem eq_nil_of_splitTerminator {s : List α} (h : splitTerminator s sep = []) : s = [] := by
  have hs : [sep].intercalate (s.splitOn sep) = s := List.intercalate_splitOn sep
  unfold splitTerminator at h
  split at h
  · rename_i hlast
    have hpieces : s.splitOn sep = [[]] := by
      rw [← List.dropLast_append_getLast? [] hlast, h, List.nil_append]
    rw [← hs, hpieces]
    rfl
  · exact absurd h (List.splitOn_ne_nil sep s)

/-- `str::split_once`. -/
def splitOnce : List α → α → Option (List α × List α)
  | [], _ => none
  | c :: rest, sep =>
    if c == sep then some ([], rest) else (splitOnce rest sep).map fun p => (c :: p.1, p.2)

theorem splitOnce_append_cons {a : List α} (ha : sep ∉ a) (b : List α) :
    splitOnce (a ++ sep :: b) sep = some (a, b) := by
  induction a with
  | nil => simp [splitOnce]
  | cons c a ih =>
    have hc : (c == sep) = false := by
      rw [beq_eq_false_iff_ne]
      exact fun h => ha (h ▸ List.mem_cons_self)
    rw [List.cons_append, splitOnce, hc, if_neg Bool.false_ne_true,
      ih fun h => ha (List.mem_cons_of_mem _ h)]
    rfl

theorem eq_of_splitOnce {s a b : List α} (h : splitOnce s sep = some (a, b)) :
    s = a ++ sep :: b ∧ sep ∉ a := by
  induction s generalizing a with
  | nil => cases h
  | cons c rest ih =>
    simp only [splitOnce] at h
    split_ifs at h with hc
    · cases h
      exact ⟨by rw [eq_of_beq hc]; rfl, List.not_mem_nil⟩
    · obtain ⟨⟨a', b'⟩, hrest, hp⟩ := Option.map_eq_some_iff.1 h
      cases hp
      obtain ⟨rfl, ha'⟩ := ih hrest
      refine ⟨rfl, ?_⟩
      rintro (_ | ⟨_, hmem⟩)
      · exact hc (beq_self_eq_true sep)
      · exact ha' hmem

theorem splitOnce_eq_none_iff {s : List α} : splitOnce s sep = none ↔ sep ∉ s := by
  induction s with
  | nil => simp [splitOnce]
  | cons c rest ih =>
    simp only [splitOnce, List.mem_cons, not_or]
    split_ifs with hc
    · simp [eq_of_beq hc]
    · rw [Option.map_eq_none_iff, ih]
      exact ⟨fun h => ⟨fun heq => hc (heq ▸ beq_self_eq_true sep), h⟩, fun h => h.2⟩

end MountpointS3.Foundations

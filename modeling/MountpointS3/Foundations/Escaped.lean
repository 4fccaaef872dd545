import Mathlib.Data.List.Basic

/-!
# Lists joined by a separator, with escapes

A list of pieces written as one sequence: the pieces joined by a separator `sep`, and inside a
piece each special element (the separator, the escape element `esc` itself, and any other that
must not stand alone) preceded by `esc`. The decoder reads such a sequence back, and fails on an
escape at the end, an escape before an element that is not special, and a special element that
stands alone other than the separator and the escape.

* `decode_join`: every nonempty list of pieces is read back from its join;
* `join_of_decode`: every sequence the decoder accepts is the join of what it reads, so the
  format has exactly one spelling of each list.
-/

namespace MountpointS3.Foundations

namespace Escaped

variable {α : Type*} (sep esc : α) (special : α → Bool)

/-- A piece with each special element escaped. -/
def escape (a : List α) : List α := a.flatMap fun c => if special c then [esc, c] else [c]

/-- The pieces, escaped and joined by the separator. -/
def join : List (List α) → List α
  | [] => []
  | [a] => escape esc special a
  | a :: rest => escape esc special a ++ sep :: join rest

section Decode

variable [DecidableEq α]

/-- The decoder, from `rest`, after an escape element when `escaped`, with the pieces `done`
read so far and the piece `current` being read. -/
def decodeFrom : List α → Bool → List (List α) → List α → Option (List (List α))
  | [], true, _, _ => none
  | [], false, done, current => some (done ++ [current])
  | c :: rest, true, done, current =>
    if special c then decodeFrom rest false done (current ++ [c]) else none
  | c :: rest, false, done, current =>
    if c = sep then decodeFrom rest false (done ++ [current]) []
    else if c = esc then decodeFrom rest true done current
    else if special c then none
    else decodeFrom rest false done (current ++ [c])

/-- The pieces a sequence spells. -/
def decode (s : List α) : Option (List (List α)) := decodeFrom sep esc special s false [] []

end Decode

variable {sep esc special}

@[simp] theorem escape_nil : escape esc special [] = [] := rfl

theorem escape_append (a b : List α) :
    escape esc special (a ++ b) = escape esc special a ++ escape esc special b :=
  List.flatMap_append

theorem escape_singleton (c : α) :
    escape esc special [c] = if special c then [esc, c] else [c] := by
  simp [escape]

theorem join_cons_cons (a b : List α) (rest : List (List α)) :
    join sep esc special (a :: b :: rest) = escape esc special a ++ sep :: join sep esc special (b :: rest) :=
  rfl

/-- A separator closes the piece being written. -/
theorem join_append_singleton {done : List (List α)} (hdone : done ≠ []) (a : List α) :
    join sep esc special (done ++ [a]) = join sep esc special done ++ sep :: escape esc special a := by
  induction done with
  | nil => exact absurd rfl hdone
  | cons d done ih =>
    cases done with
    | nil => rfl
    | cons d' done =>
      rw [List.cons_append, List.cons_append, join_cons_cons, ← List.cons_append, ih (List.cons_ne_nil _ _),
        join_cons_cons, List.append_assoc, List.cons_append]

/-- Writing on in the last piece appends to the join. -/
theorem join_append_last (done : List (List α)) (a b : List α) :
    join sep esc special (done ++ [a ++ b]) = join sep esc special (done ++ [a]) ++ escape esc special b := by
  cases done with
  | nil => exact escape_append a b
  | cons d done =>
    rw [join_append_singleton (List.cons_ne_nil _ _), join_append_singleton (List.cons_ne_nil _ _),
      escape_append, List.append_assoc, List.cons_append]

section Round

variable [DecidableEq α] (hne : sep ≠ esc) (hsep : special sep = true) (hesc : special esc = true)
include hne hsep hesc

/-- An escaped piece is read into the current piece whole. -/
theorem decodeFrom_escape_append (a rest : List α) (done : List (List α)) (current : List α) :
    decodeFrom sep esc special (escape esc special a ++ rest) false done current =
      decodeFrom sep esc special rest false done (current ++ a) := by
  induction a generalizing current with
  | nil => rw [escape_nil, List.nil_append, List.append_nil]
  | cons c a ih =>
    rw [show c :: a = [c] ++ a from rfl, escape_append, escape_singleton, List.append_assoc]
    by_cases hc : special c = true
    · -- an escaped special element: the escape, then the element itself
      rw [if_pos hc, List.cons_append, List.cons_append, List.nil_append]
      simp only [decodeFrom, if_neg hne.symm, if_true, hc]
      rw [ih, List.append_assoc, List.singleton_append]
    · rw [if_neg hc, List.singleton_append]
      have hcsep : c ≠ sep := fun h => hc (h ▸ hsep)
      have hcesc : c ≠ esc := fun h => hc (h ▸ hesc)
      simp only [decodeFrom, if_neg hcsep, if_neg hcesc, hc, Bool.false_eq_true, if_false]
      rw [ih, List.append_assoc, List.singleton_append]

/-- The join of nonempty pieces is read back piece by piece. -/
theorem decodeFrom_join (args : List (List α)) (hargs : args ≠ []) (done : List (List α)) :
    decodeFrom sep esc special (join sep esc special args) false done [] = some (done ++ args) := by
  induction args generalizing done with
  | nil => exact absurd rfl hargs
  | cons a rest ih =>
    cases rest with
    | nil =>
      rw [show join sep esc special [a] = escape esc special a ++ [] from (List.append_nil _).symm,
        decodeFrom_escape_append hne hsep hesc, List.nil_append]
      rfl
    | cons b rest =>
      -- the first piece, then the separator that closes it
      rw [join_cons_cons, decodeFrom_escape_append hne hsep hesc, List.nil_append]
      simp only [decodeFrom, if_true]
      rw [ih (List.cons_ne_nil _ _), List.append_assoc, List.singleton_append]

/-- Every nonempty list of pieces is read back from its join. -/
theorem decode_join (args : List (List α)) (hargs : args ≠ []) :
    decode sep esc special (join sep esc special args) = some args := by
  rw [decode, decodeFrom_join hne hsep hesc args hargs, List.nil_append]

end Round

section Canonical

variable [DecidableEq α]

/-- What the decoder accepts continues the join of what it had read: after an escape element, the
escape is written before the rest. -/
theorem join_of_decodeFrom (s : List α) (escaped : Bool) (done : List (List α)) (current : List α)
    {args : List (List α)} (h : decodeFrom sep esc special s escaped done current = some args) :
    join sep esc special args =
      join sep esc special (done ++ [current]) ++ (if escaped then esc :: s else s) := by
  induction s generalizing escaped done current with
  | nil =>
    cases escaped with
    | true => cases h
    | false =>
      cases h
      rw [if_neg Bool.false_ne_true, List.append_nil]
  | cons c rest ih =>
    cases escaped with
    | true =>
      -- an escaped element goes into the current piece, escaped again by the join
      simp only [decodeFrom] at h
      split_ifs at h with hc
      rw [ih false done (current ++ [c]) h, join_append_last, escape_singleton, if_pos hc,
        if_pos rfl, if_neg Bool.false_ne_true, List.append_assoc]
      rfl
    | false =>
      rw [if_neg Bool.false_ne_true]
      simp only [decodeFrom] at h
      split_ifs at h with hsep' hesc' hspecial
      · rw [ih false (done ++ [current]) [] h, join_append_singleton (by simp), escape_nil,
          if_neg Bool.false_ne_true, hsep', List.append_assoc, List.cons_append, List.nil_append]
      · rw [ih true done current h, if_pos rfl, hesc']
      · rw [ih false done (current ++ [c]) h, join_append_last, escape_singleton,
          if_neg hspecial, if_neg Bool.false_ne_true, List.append_assoc, List.singleton_append]

/-- Every sequence the decoder accepts is the join of what it reads. -/
theorem join_of_decode {s : List α} {args : List (List α)} (h : decode sep esc special s = some args) :
    join sep esc special args = s := by
  rw [join_of_decodeFrom s false [] [] h, if_neg Bool.false_ne_true, List.nil_append]
  rfl

end Canonical

end Escaped

end MountpointS3.Foundations

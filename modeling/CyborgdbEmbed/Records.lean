import Mathlib.Data.List.Basic
import Mathlib.Data.List.Count
import Mathlib.Tactic.Common

set_option autoImplicit false

namespace CyborgdbEmbed.Records

section
variable {α : Type*} [DecidableEq α] (stop : α)

def join (records : List (List α)) : List α := records.flatMap fun record => record ++ [stop]

/-- The records with a stop behind them. What follows the last stop is none. -/
def split : List α → List (List α)
  | [] => []
  | x :: xs =>
    if x = stop then [] :: split xs
    else
      match split xs with
      | [] => []
      | record :: records => (x :: record) :: records

variable {stop} {record xs : List α} {records : List (List α)}

theorem split_stop (xs : List α) : split stop (stop :: xs) = [] :: split stop xs := if_pos rfl

theorem split_record (h : stop ∉ record) (xs : List α) :
    split stop (record ++ stop :: xs) = record :: split stop xs := by
  induction record with
  | nil => exact split_stop xs
  | cons x record ih =>
    rw [List.mem_cons, not_or] at h
    rw [List.cons_append, split, if_neg (Ne.symm h.1), ih h.2]

theorem split_unended (h : stop ∉ xs) : split stop xs = [] := by
  induction xs with
  | nil => rfl
  | cons x xs ih =>
    rw [List.mem_cons, not_or] at h
    rw [split, if_neg (Ne.symm h.1), ih h.2]

omit [DecidableEq α] in
theorem join_cons (record : List α) (records : List (List α)) :
    join stop (record :: records) = record ++ stop :: join stop records := by
  rw [join, List.flatMap_cons, List.append_assoc]
  rfl

theorem split_join (h : ∀ record ∈ records, stop ∉ record) :
    split stop (join stop records) = records := by
  induction records with
  | nil => rfl
  | cons record records ih =>
    rw [List.forall_mem_cons] at h
    rw [join_cons, split_record h.1, ih h.2]

theorem split_cases (xs : List α) : (stop ∉ xs ∧ split stop xs = []) ∨
    ∃ record rest, stop ∉ record ∧ xs = record ++ stop :: rest ∧
      split stop xs = record :: split stop rest := by
  by_cases h : stop ∈ xs
  · obtain ⟨record, rest, rfl, clean⟩ := List.eq_append_cons_of_mem h
    exact .inr ⟨record, rest, clean, rfl, split_record clean rest⟩
  · exact .inl ⟨h, split_unended h⟩

theorem length_split (xs : List α) : (split stop xs).length = xs.count stop := by
  induction xs with
  | nil => rfl
  | cons x xs ih =>
    by_cases here : x = stop
    · rw [here, split_stop, List.length_cons, ih, List.count_cons_self]
    · rw [split, if_neg here, List.count_cons_of_ne here, ← ih]
      cases split stop xs with
      | nil => rfl
      | cons record records => rfl

theorem length_le_count_join (records : List (List α)) :
    records.length ≤ (join stop records).count stop := by
  induction records with
  | nil => exact Nat.zero_le _
  | cons record records ih =>
    rw [join_cons, List.count_append, List.count_cons_self, List.length_cons]
    omega

/-- A stop inside of a record makes one record more. -/
theorem length_split_join_iff : (split stop (join stop records)).length = records.length ↔
    ∀ record ∈ records, stop ∉ record := by
  rw [length_split]
  induction records with
  | nil => exact iff_of_true rfl fun _ mem => absurd mem List.not_mem_nil
  | cons record records ih =>
    have most : records.length ≤ (join stop records).count stop := length_le_count_join records
    rw [List.forall_mem_cons, ← ih, ← List.count_eq_zero, join_cons, List.count_append,
      List.count_cons_self, List.length_cons]
    omega

/-- In place, record by record, they read back on the same condition. -/
theorem split_join_getElem_iff : (∀ (i : ℕ) record, records[i]? = some record →
    (split stop (join stop records))[i]? = some record) ↔ ∀ record ∈ records, stop ∉ record := by
  constructor
  · intro h
    induction records with
    | nil => exact fun _ mem => absurd mem List.not_mem_nil
    | cons record records ih =>
      have clean : stop ∉ record := by
        intro inside
        obtain ⟨front, rest, rfl, hfront⟩ := List.eq_append_cons_of_mem inside
        have first := h 0 _ rfl
        rw [join_cons, List.append_assoc, List.cons_append, split_record hfront] at first
        have short := congrArg List.length (Option.some.inj first)
        rw [List.length_append, List.length_cons] at short
        omega
      refine List.forall_mem_cons.mpr ⟨clean, ih fun i record' there => ?_⟩
      have later := h (i + 1) record' there
      rwa [join_cons, split_record clean] at later
  · intro h i record there
    rw [split_join h]
    exact there

end

section
variable {α β : Type*}

/-- The full words of `size` items. A rest that is shorter is none. -/
def words (size : ℕ) (xs : List β) : List (List β) :=
  (List.range (xs.length / size)).map fun i => (xs.drop (i * size)).take size

theorem length_words (size : ℕ) (xs : List β) : (words size xs).length = xs.length / size := by
  rw [words, List.length_map, List.length_range]

variable {size : ℕ} {write : α → List β} {read : List β → α}

section
variable {xs : List α} (sized : ∀ x ∈ xs, (write x).length = size)
include sized

theorem length_written : (xs.flatMap write).length = xs.length * size := by
  induction xs with
  | nil => simp
  | cons x xs ih =>
    rw [List.forall_mem_cons] at sized
    rw [List.flatMap_cons, List.length_append, sized.1, ih sized.2, List.length_cons, Nat.add_mul,
      Nat.one_mul, Nat.add_comm]

theorem drop_written (i : ℕ) : (xs.flatMap write).drop (i * size) = (xs.drop i).flatMap write := by
  induction i generalizing xs with
  | zero => simp
  | succ i ih =>
    cases xs with
    | nil => simp
    | cons x xs =>
      rw [List.forall_mem_cons] at sized
      rw [List.flatMap_cons, Nat.add_mul, Nat.one_mul, Nat.add_comm, ← List.drop_drop,
        List.drop_left' sized.1, ih sized.2, List.drop_succ_cons]

theorem words_written (pos : 0 < size) (inverse : ∀ x, read (write x) = x) :
    (words size (xs.flatMap write)).map read = xs := by
  apply List.ext_getElem
  · rw [List.length_map, length_words, length_written sized, Nat.mul_div_cancel _ pos]
  · intro i h h'
    rw [List.getElem_map]
    unfold words
    rw [List.getElem_map, List.getElem_range, drop_written sized, List.drop_eq_getElem_cons h',
      List.flatMap_cons, List.take_left' (sized _ (List.getElem_mem h')), inverse]

end

end
end CyborgdbEmbed.Records

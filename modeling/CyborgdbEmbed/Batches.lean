import CyborgdbEmbed.OrtSession
import Mathlib.Data.Nat.Init

set_option autoImplicit false

namespace CyborgdbEmbed
open Loops

/-- The positions `start, …, start + rows - 1` of the sorted order. -/
structure Batch where
  start : ℕ
  rows : ℕ
  width : ℕ
  deriving DecidableEq, Repr

/-- The batches that are formed from position `start` on. -/
def batches (len : ℕ → ℕ) (n start : ℕ) : List Batch :=
  if _h : start < n then
    let shape := formBatch len n start
    ⟨start, shape.1, shape.2⟩ :: batches len n (start + shape.1)
  else []
termination_by n - start
decreasing_by
  have advance := formBatch_pos len _h
  omega

/-- The longest of the lengths at the positions of a batch, zero for none. -/
def longest (len : ℕ → ℕ) (start : ℕ) : (rows : ℕ) → ℕ
  | 0 => 0
  | rows + 1 => max (longest len start rows) (len (start + rows))

structure Formed (len : ℕ → ℕ) (n start rows width : ℕ) : Prop where
  inside : start + rows ≤ n
  wide : width = max 1 (longest len start rows)
  budget : 1 < rows → rows * width ≤ kMaxBatchTokens

section
variable {len : ℕ → ℕ} {n start : ℕ}

theorem le_longest (len : ℕ → ℕ) (start : ℕ) {rows r : ℕ} (hr : r < rows) :
    len (start + r) ≤ longest len start rows := by
  induction rows with
  | zero => omega
  | succ rows ih =>
    rw [longest]
    by_cases last : r = rows
    · rw [last]
      exact Nat.le_max_right _ _
    · exact Nat.le_trans (ih (by omega)) (Nat.le_max_left _ _)

theorem Formed.covers {rows width : ℕ} (formed : Formed len n start rows width) {r : ℕ}
    (hr : r < rows) : len (start + r) ≤ width := by
  rw [formed.wide]
  exact Nat.le_trans (le_longest len start hr) (Nat.le_max_right _ _)

theorem Formed.add {rows width : ℕ} (formed : Formed len n start rows width)
    (left : start + rows < n)
    (fits : ¬ (0 < rows ∧ kMaxBatchTokens < (rows + 1) * max width (len (start + rows)))) :
    Formed len n start (rows + 1) (max width (len (start + rows))) where
  inside := left
  wide := by rw [formed.wide, longest, Nat.max_assoc]
  budget := by
    intro many
    by_contra excess
    exact fits ⟨by omega, by omega⟩

theorem growBatch_formed (room : ℕ) {rows width : ℕ} (formed : Formed len n start rows width) :
    Formed len n start (growBatch len n start room rows width).1
      (growBatch len n start room rows width).2 := by
  induction room generalizing rows width with
  | zero => exact formed
  | succ room ih =>
    unfold growBatch
    split
    · rename_i left
      dsimp only
      split
      · exact formed
      · rename_i fits
        exact ih (formed.add left fits)
    · exact formed

theorem growBatch_le (len : ℕ → ℕ) (n start room rows width : ℕ) :
    (growBatch len n start room rows width).1 ≤ rows + room := by
  induction room generalizing rows width with
  | zero => exact Nat.le_refl _
  | succ room ih =>
    unfold growBatch
    split
    · dsimp only
      split
      · omega
      · have h := ih (rows + 1) (max width (len (start + rows)))
        omega
    · dsimp only
      omega

/-- Why the inner loop stopped. -/
theorem growBatch_maximal (len : ℕ → ℕ) (n start room rows width : ℕ) :
    n ≤ start + (growBatch len n start room rows width).1 ∨
    (growBatch len n start room rows width).1 = rows + room ∨
    kMaxBatchTokens < ((growBatch len n start room rows width).1 + 1) *
      max (growBatch len n start room rows width).2
        (len (start + (growBatch len n start room rows width).1)) := by
  induction room generalizing rows width with
  | zero => exact .inr (.inl rfl)
  | succ room ih =>
    unfold growBatch
    split
    · dsimp only
      split
      · rename_i excess
        exact .inr (.inr excess.2)
      · have h := ih (rows + 1) (max width (len (start + rows)))
        rw [show rows + (room + 1) = rows + 1 + room by omega]
        exact h
    · rename_i finished
      exact .inl (by dsimp only; omega)

theorem formBatch_formed (len : ℕ → ℕ) (h : start < n) :
    Formed len n start (formBatch len n start).1 (formBatch len n start).2 :=
  growBatch_formed kMaxBatchRows ⟨by omega, rfl, by omega⟩

theorem batches_of_lt (len : ℕ → ℕ) (h : start < n) :
    batches len n start = ⟨start, (formBatch len n start).1, (formBatch len n start).2⟩ ::
      batches len n (start + (formBatch len n start).1) := by
  rw [batches, dif_pos h]

theorem batches_of_le (len : ℕ → ℕ) (h : n ≤ start) : batches len n start = [] := by
  rw [batches, dif_neg (by omega)]

end

/-- The batches follow one another without a gap, none is empty, and they end at `n`. -/
def Tiles (n : ℕ) : ℕ → List Batch → Prop
  | start, [] => start = n
  | start, b :: bs => b.start = start ∧ 0 < b.rows ∧ Tiles n (start + b.rows) bs

theorem batches_tiles (len : ℕ → ℕ) {n start : ℕ} (le : start ≤ n) :
    Tiles n start (batches len n start) := by
  induction hm : n - start using Nat.strong_induction_on generalizing start with
  | _ m ih =>
  by_cases h : start < n
  · have pos := formBatch_pos len h
    have inside := (formBatch_formed len h).inside
    rw [batches_of_lt len h]
    exact ⟨rfl, pos, ih (n - (start + (formBatch len n start).1)) (by omega) inside rfl⟩
  · rw [batches_of_le len (by omega)]
    exact (by omega : start = n)

theorem mem_batches {len : ℕ → ℕ} {n start : ℕ} {b : Batch} (h : b ∈ batches len n start) :
    b.start < n ∧ b = ⟨b.start, (formBatch len n b.start).1, (formBatch len n b.start).2⟩ := by
  induction hm : n - start using Nat.strong_induction_on generalizing start with
  | _ m ih =>
  by_cases hlt : start < n
  · rw [batches_of_lt len hlt] at h
    rcases List.mem_cons.mp h with rfl | tail
    · exact ⟨hlt, rfl⟩
    · have pos := formBatch_pos len hlt
      exact ih (n - (start + (formBatch len n start).1)) (by omega) tail rfl
  · rw [batches_of_le len (by omega)] at h
    cases h

def Batch.members (b : Batch) (order : List ℕ) : List ℕ := (order.drop b.start).take b.rows

theorem Tiles.flatten {order : List ℕ} {start : ℕ} {bs : List Batch}
    (h : Tiles order.length start bs) : (bs.map (·.members order)).flatten = order.drop start := by
  induction bs generalizing start with
  | nil =>
    change start = order.length at h
    rw [h, List.drop_length]
    rfl
  | cons b bs ih =>
    obtain ⟨hstart, _, rest⟩ := h
    rw [List.map_cons, List.flatten_cons, ih rest, Batch.members, hstart, ← List.drop_drop,
      List.take_append_drop]

theorem Tiles.le {n start : ℕ} {bs : List Batch} (h : Tiles n start bs) : start ≤ n := by
  induction bs generalizing start with
  | nil => exact Nat.le_of_eq h
  | cons b bs ih =>
    have rest := ih h.2.2
    omega

theorem Tiles.split {n start : ℕ} {xs ys : List Batch} (h : Tiles n start (xs ++ ys)) :
    ∃ mid, Tiles mid start xs ∧ Tiles n mid ys := by
  induction xs generalizing start with
  | nil => exact ⟨start, rfl, h⟩
  | cons b xs ih =>
    obtain ⟨hstart, pos, rest⟩ := h
    obtain ⟨mid, hxs, hys⟩ := ih rest
    exact ⟨mid, ⟨hstart, pos, hxs⟩, hys⟩

theorem Tiles.positions {n start : ℕ} {bs : List Batch} (h : Tiles n start bs) (order : ℕ → ℕ) :
    (bs.flatMap fun b => (List.range b.rows).map fun r => order (b.start + r)) =
      (List.range' start (n - start)).map order := by
  induction bs generalizing start with
  | nil =>
    change start = n at h
    simp [h]
  | cons b bs ih =>
    obtain ⟨hstart, _, rest⟩ := h
    have le := rest.le
    have head : ((List.range b.rows).map fun r => order (b.start + r)) =
        (List.range' start b.rows).map order := by
      simp [hstart, List.range'_eq_map_range]
    rw [List.flatMap_cons, head, ih rest, ← List.map_append, List.range'_append_1]
    congr 2
    omega

end CyborgdbEmbed

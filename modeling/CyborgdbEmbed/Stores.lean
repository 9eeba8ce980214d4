import CyborgdbEmbed.Loops
import Mathlib.Data.List.Nodup
import Mathlib.Data.List.Range

set_option autoImplicit false

namespace CyborgdbEmbed.Loops

variable {α : Type*}

structure Store (α : Type*) where
  index : ℕ
  value : α

def replay (stores : List (Store α)) (b : Buffer α) : Buffer α :=
  stores.foldl (fun b s => Function.update b s.index s.value) b

theorem replay_append (xs ys : List (Store α)) (b : Buffer α) :
    replay (xs ++ ys) b = replay ys (replay xs b) := List.foldl_append

theorem replay_other {stores : List (Store α)} {k : ℕ} (h : k ∉ stores.map Store.index)
    (b : Buffer α) : replay stores b k = b k := by
  induction stores generalizing b with
  | nil => rfl
  | cons s stores ih =>
    rw [List.map_cons, List.mem_cons, not_or] at h
    change replay stores (Function.update b s.index s.value) k = b k
    rw [ih h.2, Function.update_of_ne h.1]

theorem replay_stored {stores : List (Store α)} (nodup : (stores.map Store.index).Nodup)
    {s : Store α} (h : s ∈ stores) (b : Buffer α) : replay stores b s.index = s.value := by
  induction stores generalizing b with
  | nil => cases h
  | cons t stores ih =>
    rw [List.map_cons, List.nodup_cons] at nodup
    change replay stores (Function.update b t.index t.value) s.index = s.value
    cases h with
    | head => rw [replay_other nodup.1, Function.update_self]
    | tail _ h => exact ih nodup.2 h _

/-- The stores of `std::copy_n(v, len, b + start)`. -/
def copyStores (start len : ℕ) (v : ℕ → α) : List (Store α) :=
  (List.range len).map fun d => ⟨start + d, v d⟩

theorem replay_copyStores (b : Buffer α) (start len : ℕ) (v : ℕ → α) :
    replay (copyStores start len v) b = copy b start len v := by
  induction len with
  | zero =>
    funext k
    exact (copy_other b v (by omega)).symm
  | succ len ih =>
    have last : copyStores start (len + 1) v =
        copyStores start len v ++ [⟨start + len, v len⟩] := by
      simp [copyStores, List.range_succ]
    rw [last, replay_append, ih]
    funext k
    change Function.update (copy b start len v) (start + len) (v len) k = _
    by_cases hk : k = start + len
    · rw [hk, Function.update_self, copy_at b start v (Nat.lt_succ_self len)]
    · rw [Function.update_of_ne hk]
      unfold copy
      by_cases inside : start ≤ k ∧ k < start + len
      · rw [if_pos inside, if_pos (by omega)]
      · rw [if_neg inside, if_neg (by omega)]

theorem replay_forRange (stores : ℕ → List (Store α)) (n : ℕ) (b : Buffer α) :
    replay ((List.range n).flatMap stores) b = forRange n (fun i b => replay (stores i) b) b := by
  induction n with
  | zero => rfl
  | succ n ih =>
    rw [List.range_succ, List.flatMap_append, replay_append, ih, forRange_succ]
    simp

def rowIndices (dim i : ℕ) : List ℕ := (List.range dim).map fun d => i * dim + d

theorem mem_rowIndices {dim i k : ℕ} : k ∈ rowIndices dim i ↔ ∃ d, d < dim ∧ k = i * dim + d := by
  simp [rowIndices, eq_comm]

theorem copyStores_indices (dim i : ℕ) (v : ℕ → α) :
    (copyStores (i * dim) dim v).map Store.index = rowIndices dim i := by
  simp [copyStores, rowIndices]

theorem rows_nodup {rows : List ℕ} (nodup : rows.Nodup) (dim : ℕ) :
    (rows.flatMap (rowIndices dim)).Nodup := by
  rw [List.nodup_flatMap]
  constructor
  · intro i _
    exact List.nodup_range.map fun d e h => Nat.add_left_cancel h
  · apply nodup.imp
    intro i j hij k hi hj
    obtain ⟨d, hd, rfl⟩ := mem_rowIndices.mp hi
    obtain ⟨e, he, same⟩ := mem_rowIndices.mp hj
    exact row_apart hij hd (by omega)

theorem mem_rows {rows : List ℕ} {dim k : ℕ} :
    k ∈ rows.flatMap (rowIndices dim) ↔ ∃ i, i ∈ rows ∧ ∃ d, d < dim ∧ k = i * dim + d := by
  simp only [List.mem_flatMap, mem_rowIndices]

theorem mem_all_rows {rows : List ℕ} {n dim k : ℕ} (all : ∀ i, i ∈ rows ↔ i < n) :
    k ∈ rows.flatMap (rowIndices dim) ↔ k < n * dim := by
  rw [mem_rows]
  constructor
  · rintro ⟨i, hi, d, hd, rfl⟩
    have bound : (i + 1) * dim ≤ n * dim := Nat.mul_le_mul_right dim ((all i).mp hi)
    rw [Nat.add_mul] at bound
    omega
  · intro hk
    have pos : 0 < dim := Nat.pos_of_ne_zero fun h => by
      rw [h, Nat.mul_zero] at hk
      omega
    refine ⟨k / dim, (all _).mpr (Nat.div_lt_of_lt_mul (by rwa [Nat.mul_comm])), k % dim,
      Nat.mod_lt k pos, ?_⟩
    rw [Nat.mul_comm, Nat.div_add_mod]

end CyborgdbEmbed.Loops

import CyborgdbEmbed.CompareMetrics
import CyborgdbEmbed.TopK
import Mathlib.Algebra.BigOperators.Field
import Mathlib.Algebra.Order.BigOperators.Ring.Finset

set_option autoImplicit false

/-!
# Neighbours that survive the switch

`recall_at_k` compares the nearest rows of two matrices. `np.argsort` does not say which of
two equal keys comes first, so a list of neighbours is whatever some sort begins with.
-/
namespace CyborgdbEmbed.CompareMetrics
open Loops ExactFloat ParityGate
open GoldenScore (Near)
open RunOrt (norm sum sum_real)

noncomputable section

/-- The order of `np.argsort`, where NaN comes last. -/
def sortsBefore (a b : ExactFloat) : Bool := lt a b || (b.isNaN && !a.isNaN)

structure Argsort (keys : ℕ → ExactFloat) (n : ℕ) (order : List ℕ) : Prop where
  perm : order.Perm (List.range n)
  sorted : order.Pairwise fun x y => ¬ sortsBefore (keys y) (keys x) = true

/-- `matrix @ matrix.T`, with the diagonal filled. -/
def similarity (matrix : Matrix) (dim i j : ℕ) : ExactFloat :=
  if i = j then negInf else sum dim fun d => mul (matrix i d) (matrix j d)

/-- A row that `neighbours` may return. -/
def Neighbours (matrix : Matrix) (n dim k i : ℕ) (found : List ℕ) : Prop :=
  ∃ order, Argsort (fun j => neg (similarity matrix dim i j)) n order ∧ found = order.take k

def common (x y : List ℕ) : ℕ := (x.toFinset ∩ y.toFinset).card

def recallAtK (n k : ℕ) (a b : ℕ → List ℕ) : ExactFloat :=
  div (sum n fun i => real (common (a i) (b i) / k)) (real n)

def selected {α : Type} (matrix : ℕ → ℕ → α) (rows : List ℕ) (i : ℕ) : ℕ → α :=
  matrix (rows.getD i 0)

section
variable {matrix : Matrix} {n dim k i : ℕ} {found : List ℕ} {a b : ℕ → List ℕ}

theorem Neighbours.nodup (h : Neighbours matrix n dim k i found) : found.Nodup := by
  obtain ⟨order, sorts, rfl⟩ := h
  exact (sorts.perm.nodup_iff.mpr List.nodup_range).sublist (List.take_sublist ..)

theorem Neighbours.length (h : Neighbours matrix n dim k i found) :
    found.length = min k n := by
  obtain ⟨order, sorts, rfl⟩ := h
  rw [List.length_take, sorts.perm.length_eq, List.length_range]

theorem Neighbours.common_le (h : Neighbours matrix n dim k i found) (other : List ℕ) :
    common found other ≤ min k n := by
  calc
    common found other ≤ found.toFinset.card := Finset.card_le_card Finset.inter_subset_left
    _ = found.length := List.toFinset_card_of_nodup h.nodup
    _ = min k n := h.length

theorem Neighbours.common_eq (h : Neighbours matrix n dim k i found) {other : List ℕ}
    (same : ∀ j, j ∈ other ↔ j ∈ found) : common found other = min k n := by
  have sets : other.toFinset = found.toFinset := by
    ext j
    rw [List.mem_toFinset, List.mem_toFinset, same]
  rw [common, sets, Finset.inter_self, List.toFinset_card_of_nodup h.nodup, h.length]

theorem recallAtK_real (pos : 0 < n) (k : ℕ) (a b : ℕ → List ℕ) : recallAtK n k a b =
    real ((∑ i ∈ Finset.range n, common (a i) (b i) : ℕ) / (k * n)) := by
  have number : (n : ℝ) ≠ 0 := by positivity
  rw [recallAtK, sum_real, div_real _ number, ← Finset.sum_div, div_div, Nat.cast_sum]

def lost (n k : ℕ) (a b : ℕ → List ℕ) : ℕ :=
  ∑ i ∈ Finset.range n, (k - common (a i) (b i))

theorem lost_add (le : ∀ i, i < n → common (a i) (b i) ≤ k) :
    lost n k a b + ∑ i ∈ Finset.range n, common (a i) (b i) = k * n := by
  rw [lost, ← Finset.sum_add_distrib]
  calc
    ∑ i ∈ Finset.range n, (k - common (a i) (b i) + common (a i) (b i))
      = ∑ _i ∈ Finset.range n, k :=
        Finset.sum_congr rfl fun i hi => Nat.sub_add_cancel (le i (Finset.mem_range.mp hi))
    _ = k * n := by rw [Finset.sum_const, Finset.card_range, smul_eq_mul, Nat.mul_comm]

end

section
variable {u v : ℕ → ℝ} {dim : ℕ}

def dot (dim : ℕ) (u v : ℕ → ℝ) : ℝ := ∑ d ∈ Finset.range dim, u d * v d

theorem abs_dot_le {s t : ℝ} (hu : ∑ d ∈ Finset.range dim, u d ^ 2 ≤ s ^ 2)
    (hv : ∑ d ∈ Finset.range dim, v d ^ 2 ≤ t ^ 2) (hs : 0 ≤ s) (ht : 0 ≤ t) :
    |dot dim u v| ≤ s * t := by
  have square : dot dim u v ^ 2 ≤ (s * t) ^ 2 := by
    calc
      dot dim u v ^ 2
        ≤ (∑ d ∈ Finset.range dim, u d ^ 2) * ∑ d ∈ Finset.range dim, v d ^ 2 :=
          Finset.sum_mul_sq_le_sq_mul_sq _ u v
      _ ≤ s ^ 2 * t ^ 2 :=
          mul_le_mul hu hv (Finset.sum_nonneg fun d _ => sq_nonneg (v d)) (sq_nonneg s)
      _ = (s * t) ^ 2 := (mul_pow s t 2).symm
  exact abs_le_of_sq_le_sq square (mul_nonneg hs ht)

/-- How far a similarity can move when no component moves by `1e-4`. -/
def slack (dim : ℕ) : ℝ := 2 * (√dim * 1e-4) + (√dim * 1e-4) ^ 2

theorem sum_sq_sub_le {u' : ℕ → ℝ} (near : ∀ d, d < dim → |u d - u' d| < 1e-4) :
    ∑ d ∈ Finset.range dim, (u' d - u d) ^ 2 ≤ (√dim * 1e-4) ^ 2 := by
  have each : ∀ d ∈ Finset.range dim, (u' d - u d) ^ 2 ≤ (1e-4) ^ 2 := by
    intro d hd
    rw [← sq_abs, abs_sub_comm]
    exact pow_le_pow_left₀ (abs_nonneg _) (near d (Finset.mem_range.mp hd)).le 2
  calc
    ∑ d ∈ Finset.range dim, (u' d - u d) ^ 2 ≤ ∑ _d ∈ Finset.range dim, (1e-4 : ℝ) ^ 2 :=
      Finset.sum_le_sum each
    _ = (√dim * 1e-4) ^ 2 := by
      rw [Finset.sum_const, Finset.card_range, nsmul_eq_mul, mul_pow,
        Real.sq_sqrt (Nat.cast_nonneg dim)]

theorem abs_dot_sub_le {u' v' : ℕ → ℝ} (hu : ∑ d ∈ Finset.range dim, u d ^ 2 ≤ 1)
    (hv : ∑ d ∈ Finset.range dim, v d ^ 2 ≤ 1) (nearU : ∀ d, d < dim → |u d - u' d| < 1e-4)
    (nearV : ∀ d, d < dim → |v d - v' d| < 1e-4) :
    |dot dim u v - dot dim u' v'| ≤ slack dim := by
  let e := fun d => u' d - u d
  let f := fun d => v' d - v d
  have short : 0 ≤ √(dim : ℝ) * 1e-4 := by positivity
  have he := sum_sq_sub_le nearU
  have hf := sum_sq_sub_le nearV
  have split : dot dim u' v' = dot dim u v + (dot dim u f + dot dim e v + dot dim e f) := by
    unfold dot
    rw [← Finset.sum_add_distrib, ← Finset.sum_add_distrib, ← Finset.sum_add_distrib]
    exact Finset.sum_congr rfl fun d _ => by ring
  have first : |dot dim u f| ≤ 1 * (√dim * 1e-4) :=
    abs_dot_le (by rwa [one_pow]) hf zero_le_one short
  have second : |dot dim e v| ≤ √dim * 1e-4 * 1 :=
    abs_dot_le he (by rwa [one_pow]) short zero_le_one
  have third : |dot dim e f| ≤ √dim * 1e-4 * (√dim * 1e-4) := abs_dot_le he hf short short
  calc
    |dot dim u v - dot dim u' v'| = |dot dim u f + dot dim e v + dot dim e f| := by
      rw [split, abs_sub_comm, add_sub_cancel_left]
    _ ≤ |dot dim u f| + |dot dim e v| + |dot dim e f| := abs_add_three _ _ _
    _ ≤ slack dim := by
      unfold slack
      linarith [sq (√(dim : ℝ) * 1e-4)]

end

section
variable {n dim k i : ℕ} {u : ℕ → ℕ → ℝ}

theorem similarity_real (dim : ℕ) (u : ℕ → ℕ → ℝ) {i j : ℕ} (h : i ≠ j) :
    similarity (fun i d => real (u i d)) dim i j = real (dot dim (u i) (u j)) := by
  unfold similarity
  rw [if_neg h]
  exact sum_real dim fun d => u i d * u j d

theorem similarity_self (matrix : Matrix) (dim i : ℕ) : similarity matrix dim i i = negInf :=
  if_pos rfl

theorem similarity_congr {matrix matrix' : Matrix} {i j : ℕ}
    (hi : ∀ d, d < dim → matrix i d = matrix' i d) (hj : ∀ d, d < dim → matrix j d = matrix' j d) :
    similarity matrix dim i j = similarity matrix' dim i j := by
  unfold similarity
  split
  · rfl
  · refine forRange_congr (fun d s hd => ?_) _
    dsimp only
    rw [hi d hd, hj d hd]

theorem Neighbours.congr {matrix matrix' : Matrix} {found : List ℕ} (hi : i < n)
    (same : ∀ j, j < n → ∀ d, d < dim → matrix j d = matrix' j d)
    (h : Neighbours matrix n dim k i found) : Neighbours matrix' n dim k i found := by
  obtain ⟨order, sorts, rfl⟩ := h
  have keys : ∀ j ∈ order, similarity matrix dim i j = similarity matrix' dim i j := by
    intro j hj
    exact similarity_congr (same i hi) (same j (List.mem_range.mp (sorts.perm.subset hj)))
  refine ⟨order, ⟨sorts.perm, ?_⟩, rfl⟩
  refine sorts.sorted.imp_of_mem fun hx hy ordered => ?_
  rwa [← keys _ hx, ← keys _ hy]

theorem mem_of_self {found : List ℕ}
    (h : Neighbours (fun i d => real (u i d)) n dim k i found) (self : i ∈ found) {l : ℕ}
    (hl : l < n) : l ∈ found := by
  obtain ⟨order, sorts, rfl⟩ := h
  by_contra out
  have late : l ∈ order.drop k :=
    TopK.mem_drop_of_not_mem (sorts.perm.symm.subset (List.mem_range.mpr hl)) out
  have other : i ≠ l := by
    rintro rfl
    exact out self
  refine TopK.not_before sorts.sorted self late ?_
  rw [similarity_self, similarity_real dim u other]
  rfl

/-- The neighbours of row `i` are nearer than all other rows by more than twice the slack. -/
def Apart (u : ℕ → ℕ → ℝ) (n dim i : ℕ) (found : List ℕ) : Prop :=
  ∀ j ∈ found, ∀ l, l < n → l ∉ found → l ≠ i →
    dot dim (u i) (u l) + 2 * slack dim < dot dim (u i) (u j)

/-- Neighbours that stand apart are the neighbours in any matrix that is close enough. -/
theorem neighbours_kept {v : ℕ → ℕ → ℝ} {found found' : List ℕ} (hi : i < n)
    (unit : ∀ j, j < n → ∑ d ∈ Finset.range dim, u j d ^ 2 ≤ 1)
    (near : ∀ j, j < n → ∀ d, d < dim → |u j d - v j d| < 1e-4)
    (h : Neighbours (fun i d => real (u i d)) n dim k i found)
    (h' : Neighbours (fun i d => real (v i d)) n dim k i found')
    (apart : Apart u n dim i found) (j : ℕ) : j ∈ found' ↔ j ∈ found := by
  have full := fun l hl self => mem_of_self (l := l) h self hl
  obtain ⟨order, sorts, rfl⟩ := h
  obtain ⟨order', sorts', rfl⟩ := h'
  have inside {x : ℕ} (hx : x ∈ order) : x < n := List.mem_range.mp (sorts.perm.subset hx)
  have nodup : order.Nodup := sorts.perm.nodup_iff.mpr List.nodup_range
  refine TopK.mem_take_iff nodup (sorts'.perm.trans sorts.perm.symm) sorts'.sorted ?_ j
  intro x hx y hy
  have hxn := inside (List.mem_of_mem_take hx)
  have hyn := inside (List.mem_of_mem_drop hy)
  have out : y ∉ order.take k := fun again =>
    List.disjoint_take_drop nodup (Nat.le_refl k) again hy
  have notSelf : i ≠ x := by
    rintro rfl
    exact out (full y hyn hx)
  rw [similarity_real dim v notSelf]
  by_cases self : y = i
  · subst self
    rw [similarity_self]
    rfl
  · rw [similarity_real dim v (Ne.symm self)]
    have gap := apart x hx y hyn out self
    have moved (l : ℕ) (hl : l < n) :
        |dot dim (u i) (u l) - dot dim (v i) (v l)| ≤ slack dim :=
      abs_dot_sub_le (unit i hi) (unit l hl) (near i hi) (near l hl)
    have low := (abs_le.mp (moved y hyn)).1
    have high := (abs_le.mp (moved x hxn)).2
    have nearer : -dot dim (v i) (v x) < -dot dim (v i) (v y) := by linarith
    unfold sortsBefore
    rw [show lt (neg (real (dot dim (v i) (v x)))) (neg (real (dot dim (v i) (v y)))) = true from
      decide_eq_true nearer, Bool.true_or]

variable {reference : ℕ → ℕ → ℝ} {candidate : Matrix} {rows : List ℕ} {a b : ℕ → List ℕ}
  {recallAt10 : Option ExactFloat}

theorem selected_mem {j : ℕ} (hj : j < rows.length) : rows.getD j 0 ∈ rows := by
  rw [List.getD_eq_getElem?_getD, List.getElem?_eq_getElem hj]
  exact List.getElem_mem hj

/-- Under the two best verdicts a row that stands apart keeps its neighbours. Where all rows
    do, recall is what it is of equal lists. -/
theorem verdict_keeps_neighbours
    (best : verdictOn reference candidate rows dim recallAt10 = .identical ∨
      verdictOn reference candidate rows dim recallAt10 = .numericallyEquivalent)
    (unit : ∀ row ∈ rows, ∑ d ∈ Finset.range dim, reference row d ^ 2 ≤ 1)
    (ha : ∀ i, i < rows.length → Neighbours
      (selected (fun row d => real (reference row d)) rows) rows.length dim 10 i (a i))
    (hb : ∀ i, i < rows.length →
      Neighbours (selected candidate rows) rows.length dim 10 i (b i)) :
    (∀ i, i < rows.length → Apart (selected reference rows) rows.length dim i (a i) →
      ∀ j, j ∈ b i ↔ j ∈ a i) ∧
    (0 < rows.length →
      (∀ i, i < rows.length → Apart (selected reference rows) rows.length dim i (a i)) →
      recallAtK rows.length 10 a b = real (min 10 rows.length / 10)) := by
  have close : ∀ j, j < rows.length → ∀ d, d < dim →
      Near (selected reference rows j d) (selected candidate rows j d) := by
    intro j hj d hd
    have near := near_of_verdict best (selected_mem hj) hd
    exact near
  choose! v number near using close
  have kept : ∀ i, i < rows.length →
      Apart (selected reference rows) rows.length dim i (a i) → ∀ j, j ∈ b i ↔ j ∈ a i := by
    intro i hi apart
    exact neighbours_kept hi (fun j hj => unit _ (selected_mem hj)) near (ha i hi)
      ((hb i hi).congr hi number) apart
  refine ⟨kept, fun some_rows apart => ?_⟩
  have counts : ∑ i ∈ Finset.range rows.length, common (a i) (b i) =
      rows.length * min 10 rows.length := by
    rw [Finset.sum_congr rfl fun i hi => (ha i (Finset.mem_range.mp hi)).common_eq
      (kept i (Finset.mem_range.mp hi) (apart i (Finset.mem_range.mp hi))), Finset.sum_const,
      Finset.card_range, smul_eq_mul]
  have length : (rows.length : ℝ) ≠ 0 := by positivity
  rw [recallAtK_real some_rows, counts]
  congr 1
  push_cast
  field_simp

theorem verdict_best_iff (m : Metrics ExactFloat) :
    verdict m = .identical ∨ verdict m = .numericallyEquivalent ↔
      m.bitIdenticalRows = m.n ∨ (m.cosineMin ≥ 1 - 1e-6 ∧ m.maxAbsDiff < 1e-4) := by
  by_cases same : m.bitIdenticalRows = m.n
  · rw [verdict, if_pos same]
    exact iff_of_true (.inl rfl) (.inl same)
  · by_cases near : m.cosineMin ≥ 1 - 1e-6 ∧ m.maxAbsDiff < 1e-4
    · rw [verdict, if_neg same, if_pos near]
      exact iff_of_true (.inr rfl) (.inr near)
    · rw [verdict, if_neg same, if_neg near]
      refine iff_of_false ?_ (not_or.mpr ⟨same, near⟩)
      split
      · decide
      · split <;> decide

theorem recall_floor_iff (pos : 0 < n) (le : ∀ i, i < n → common (a i) (b i) ≤ 10) :
    recallAtK n 10 a b ≥ (0.99 : ExactFloat) ↔ 10 * lost n 10 a b ≤ n := by
  have total := lost_add le
  rw [recallAtK_real pos]
  change decide ((0.99 : ℝ) ≤ _) = true ↔ _
  have rows : (0 : ℝ) < ((10 : ℕ) : ℝ) * n := by positivity
  rw [decide_eq_true_iff, le_div_iff₀ rows]
  have total' : (lost n 10 a b : ℝ) + ((∑ i ∈ Finset.range n, common (a i) (b i) : ℕ) : ℝ) =
      10 * n := by exact_mod_cast total
  rw [← Nat.cast_le (α := ℝ)]
  push_cast at total' ⊢
  constructor
  · intro h
    linarith
  · intro h
    linarith

/-- With fewer than ten rows each of them loses a neighbour. -/
theorem le_lost_of_few {n : ℕ} (few : n < 10) (le : ∀ i, i < n → common (a i) (b i) ≤ n) :
    n ≤ lost n 10 a b := by
  have each : ∀ i ∈ Finset.range n, 1 ≤ 10 - common (a i) (b i) := by
    intro i hi
    have := le i (Finset.mem_range.mp hi)
    omega
  have sum := Finset.card_nsmul_le_sum (Finset.range n) _ 1 each
  rwa [Finset.card_range, smul_eq_mul, Nat.mul_one] at sum

/-- Beside the two best verdicts only one passes. It takes ten rows, directions that agree,
    and at most one neighbour in a hundred lost. -/
theorem passing_iff_lost (some_rows : 0 < rows.length)
    (ha : ∀ i, i < rows.length → Neighbours
      (selected (fun row d => real (reference row d)) rows) rows.length dim 10 i (a i)) :
    let m := measured (fun row d => real (reference row d)) candidate rows dim
      (some (recallAtK rows.length 10 a b))
    (verdict m).passing = true ↔
      (verdict m = .identical ∨ verdict m = .numericallyEquivalent) ∨
      (m.cosineMin ≥ cosineFloor ∧ 10 ≤ rows.length ∧
        10 * lost rows.length 10 a b ≤ rows.length) := by
  intro m
  have small (i : ℕ) (hi : i < rows.length) : common (a i) (b i) ≤ min 10 rows.length :=
    (ha i hi).common_le (b i)
  have floor : m.recallAt10.getD 0 ≥ recallFloor ↔
      10 ≤ rows.length ∧ 10 * lost rows.length 10 a b ≤ rows.length := by
    change recallAtK rows.length 10 a b ≥ (0.99 : ExactFloat) ↔ _
    rw [recall_floor_iff some_rows fun i hi => (small i hi).trans (Nat.min_le_left ..)]
    refine (and_iff_right_of_imp fun few => ?_).symm
    by_contra short
    have lose := le_lost_of_few (Nat.lt_of_not_le short) fun i hi =>
      (small i hi).trans (Nat.min_le_right ..)
    omega
  rw [verdict_passing_iff, verdict_best_iff, Close, or_assoc, floor]

def twoSides (x : ℝ) (row _d : ℕ) : ℝ := if row < 11 then x else -1

def oneSide (i : ℕ) : List ℕ :=
  (if i < 11 then List.range 11 else List.range' 11 11).filter (· ≠ i)

def otherSide (i : ℕ) : List ℕ := if i < 11 then List.range' 11 11 else List.range 11

def sideRank (i j : ℕ) : ℕ := if j = i then 2 else if i < 11 ↔ j < 11 then 0 else 1

section
variable {x : ℝ}

theorem twoSides_dot (x : ℝ) (i j : ℕ) : dot 1 (twoSides x i) (twoSides x j) =
    if i < 11 ↔ j < 11 then if i < 11 then x * x else 1 else -x := by
  unfold dot twoSides
  rw [Finset.sum_range_one]
  by_cases hi : i < 11 <;> by_cases hj : j < 11 <;> simp [hi, hj]

theorem sideRank_sorts (pos : 0 < x) {i y z : ℕ}
    (h : sortsBefore (neg (similarity (fun row d => real (twoSides x row d)) 1 i z))
      (neg (similarity (fun row d => real (twoSides x row d)) 1 i y)) = true) :
    sideRank i z < sideRank i y := by
  have key (j : ℕ) : neg (similarity (fun row d => real (twoSides x row d)) 1 i j) =
      if j = i then posInf
      else real (if i < 11 ↔ j < 11 then -(if i < 11 then x * x else 1) else x) := by
    by_cases self : j = i
    · rw [if_pos self, self, similarity_self]
      rfl
    · rw [if_neg self, similarity_real 1 (twoSides x) (Ne.symm self), twoSides_dot]
      split
      · rfl
      · exact congrArg real (neg_neg x)
  have nearer : -(if i < 11 then x * x else 1) < x := by
    split
    · linarith [mul_pos pos pos]
    · linarith
  have backwards : ¬ x < -(if i < 11 then x * x else 1) := not_lt.mpr nearer.le
  rw [key y, key z] at h
  unfold sideRank
  generalize (if i < 11 then x * x else 1) = near at h nearer backwards
  split_ifs at h ⊢ <;> simp_all [sortsBefore, isNaN, lt]
  linarith

theorem twoSides_neighbours (pos : 0 < x) {i : ℕ} (hi : i < 22) {found : List ℕ}
    (either : found ∈ [oneSide i, (oneSide i).reverse]) :
    Neighbours (fun row d => real (twoSides x row d)) 22 1 10 i found := by
  have lists : ∀ i : ℕ, i < 22 → ∀ found ∈ [oneSide i, (oneSide i).reverse],
      (found ++ (otherSide i ++ [i])).Perm (List.range 22) ∧
        ((found ++ (otherSide i ++ [i])).Pairwise fun y z => sideRank i y ≤ sideRank i z) ∧
          found = (found ++ (otherSide i ++ [i])).take 10 := by
    decide +kernel
  obtain ⟨perm, ranks, first⟩ := lists i hi found either
  refine ⟨_, ⟨perm, ranks.imp fun ordered before => ?_⟩, first⟩
  exact absurd (sideRank_sorts pos before) (Nat.not_lt.mpr ordered)

theorem selected_range {α : Type} (matrix : ℕ → ℕ → α) {n i : ℕ} (hi : i < n) :
    selected matrix (List.range n) i = matrix i := by
  unfold selected
  rw [List.getD_eq_getElem?_getD, List.getElem?_range hi, Option.getD_some]

theorem twoSides_selected (pos : 0 < x) (i : ℕ) (hi : i < (List.range 22).length)
    {found : List ℕ} (either : found ∈ [oneSide i, (oneSide i).reverse]) :
    Neighbours (selected (fun row d => real (twoSides x row d)) (List.range 22))
      (List.range 22).length 1 10 i found :=
  (twoSides_neighbours pos hi either).congr hi fun _ hj d _ =>
    (congrFun (selected_range (fun row d => real (twoSides x row d)) hj) d).symm

theorem slack_one : slack 1 < 1 := by
  unfold slack
  rw [Nat.cast_one, Real.sqrt_one]
  norm_num

theorem twoSides_apart (i : ℕ) (hi : i < 22) :
    Apart (selected (twoSides 1) (List.range 22)) 22 1 i (oneSide i) := by
  have inside : ∀ i : ℕ, i < 22 → ∀ j ∈ oneSide i, j < 22 ∧ (i < 11 ↔ j < 11) := by
    decide +kernel
  have outside : ∀ i : ℕ, i < 22 → ∀ l : ℕ, l < 22 → l ∈ oneSide i ∨ l = i ∨
      ¬ (i < 11 ↔ l < 11) := by decide +kernel
  intro j hj l hl out other
  have far := ((outside i hi l hl).resolve_left out).resolve_left other
  obtain ⟨hj22, near⟩ := inside i hi j hj
  rw [selected_range (twoSides 1) hi, selected_range (twoSides 1) hl,
    selected_range (twoSides 1) hj22, twoSides_dot, twoSides_dot, if_pos near, if_neg far]
  have one : (if i < 11 then (1 : ℝ) * 1 else 1) = 1 := by split <;> norm_num
  linarith [slack_one]

theorem twoSides_norm (pos : 0 < x) (i : ℕ) :
    euclidean (twoSides x i) 1 = if i < 11 then x else 1 := by
  unfold euclidean twoSides
  rw [Finset.sum_range_one]
  split
  · exact Real.sqrt_mul_self pos.le
  · norm_num

theorem twoSides_cosine (pos : 0 < x) (i : ℕ) :
    rowCosine (fun d => real (twoSides 1 i d)) (fun d => real (twoSides x i d)) 1 = real 1 := by
  have norms : mul (norm (fun d => real (twoSides 1 i d)) 1)
      (norm (fun d => real (twoSides x i d)) 1) = real (if i < 11 then x else 1) := by
    rw [RunOrt.norm_real (fun _ _ => rfl), RunOrt.norm_real (fun _ _ => rfl),
      twoSides_norm one_pos, twoSides_norm pos, mul_real]
    split <;> simp
  have products : sum 1 (fun d => mul (real (twoSides 1 i d)) (real (twoSides x i d))) =
      real (if i < 11 then x else 1) := by
    refine (sum_real 1 fun d => twoSides 1 i d * twoSides x i d).trans ?_
    rw [Finset.sum_range_one]
    unfold twoSides
    split <;> simp
  have nonzero : (if i < 11 then x else 1) ≠ 0 := by
    split
    · exact pos.ne'
    · exact one_ne_zero
  generalize (if i < 11 then x else 1) = length at norms products nonzero
  unfold rowCosine
  dsimp only
  rw [norms, products, if_neg (by simpa [equal] using nonzero), div_real _ nonzero,
    div_self nonzero]

theorem twoSides_metrics (pos : 0 < x) (recallAt10 : Option ExactFloat) :
    let m := measured (fun row d => real (twoSides 1 row d)) (fun row d => real (twoSides x row d))
      (List.range 22) 1 recallAt10
    m.cosineMin ≥ 1 - 1e-6 ∧ m.cosineMin ≥ cosineFloor ∧
      (|1 - x| < 1e-4 → m.maxAbsDiff < 1e-4) := by
  have cosine {k : ℝ} (hk : k ≤ 1) : le (real k) (measured (fun row d => real (twoSides 1 row d))
      (fun row d => real (twoSides x row d)) (List.range 22) 1 recallAt10).cosineMin = true := by
    unfold measured metrics
    dsimp only
    rw [if_neg (by decide), le_amin (by decide)]
    intro i _
    rw [twoSides_cosine pos]
    exact decide_eq_true hk
  intro m
  refine ⟨?_, ?_, fun near => ?_⟩
  · change le (1 - 1e-6 : ExactFloat) _ = true
    rw [show (1 - 1e-6 : ExactFloat) = real (1 - 1e-6) from sub_real 1 1e-6]
    exact cosine (by norm_num)
  · exact cosine (k := 0.9999) (by norm_num)
  · change lt m.maxAbsDiff (real 1e-4) = true
    unfold m measured metrics
    dsimp only
    rw [if_neg (by decide), amax_lt (by decide)]
    intro k _
    change lt (ExactFloat.abs (real (twoSides 1 _ _ - twoSides x _ _))) _ = true
    refine decide_eq_true ?_
    unfold twoSides
    split
    · exact near
    · norm_num

end

/-- In the candidate one side is a little shorter, and the ties come in the other order. -/
theorem verdict_keeps_neighbours_twoSides :
    (∀ i, i < 22 → ∀ j, j ∈ (oneSide i).reverse ↔ j ∈ oneSide i) ∧
      recallAtK 22 10 oneSide (fun i => (oneSide i).reverse) = real (min 10 (22 : ℕ) / 10) := by
  have shorter : (0 : ℝ) < 0.99995 := by norm_num
  have unit : ∀ row ∈ List.range 22, ∑ d ∈ Finset.range 1, twoSides 1 row d ^ 2 ≤ 1 := by
    intro row _
    rw [Finset.sum_range_one]
    unfold twoSides
    split <;> norm_num
  obtain ⟨cosine, -, diff⟩ := twoSides_metrics shorter none
  obtain ⟨each, all⟩ := verdict_keeps_neighbours
    ((verdict_best_iff _).mpr (.inr ⟨cosine, diff (by norm_num [abs_lt])⟩)) unit
    (fun i hi => twoSides_selected one_pos i hi List.mem_cons_self)
    (fun i hi => twoSides_selected shorter i hi (List.mem_cons_of_mem _ List.mem_cons_self))
  exact ⟨fun i hi => each i hi (twoSides_apart i hi), all (by decide) twoSides_apart⟩

/-- In the candidate one side is a tenth shorter, too much for the two best verdicts. -/
theorem passing_iff_lost_twoSides :
    (verdict (measured (fun row d => real (twoSides 1 row d))
      (fun row d => real (twoSides 0.9 row d)) (List.range 22) 1
      (some (recallAtK (List.range 22).length 10 oneSide oneSide)))).passing = true :=
  (passing_iff_lost (by decide)
      (fun i hi => twoSides_selected one_pos i hi List.mem_cons_self)).mpr
    (.inr ⟨(twoSides_metrics (by norm_num) _).2.1, by decide, by decide +kernel⟩)

end

end
end CyborgdbEmbed.CompareMetrics

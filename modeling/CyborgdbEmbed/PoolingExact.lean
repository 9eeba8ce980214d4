import CyborgdbEmbed.ExactFloat
import CyborgdbEmbed.Pooling
import Mathlib.Data.Finset.Lattice.Fold

set_option autoImplicit false

namespace CyborgdbEmbed
open Loops ExactFloat

noncomputable instance : Arith ExactFloat where
  zero := .real 0
  one := .real 1
  negInfinity := .negInf
  tiny := .real 1e-12
  add := ExactFloat.add
  mul := ExactFloat.mul
  div := ExactFloat.div
  sqrt := ExactFloat.sqrt
  lt := ExactFloat.lt
  le := ExactFloat.le

def marked (mask : Buffer ℕ) (width : ℕ) : Finset ℕ :=
  (Finset.range width).filter fun t => mask t ≠ 0

/-- One component of a pooled row. The largest of no values is minus infinity; the
    average of no values is zero. -/
noncomputable def reduced (row : ℕ → ℝ) (positions : Finset ℕ) (dim : ℕ) (mode : Pooling)
    (d : ℕ) : WithBot ℝ :=
  match mode with
  | .clsToken => row d
  | .maxTokens => positions.sup fun t => (row (t * dim + d) : WithBot ℝ)
  | .meanTokens => ((∑ t ∈ positions, row (t * dim + d)) / positions.card : ℝ)

noncomputable def euclidean (v : ℕ → ℝ) (dim : ℕ) : ℝ :=
  Real.sqrt (∑ d ∈ Finset.range dim, v d * v d)

noncomputable def tinyNorm : ℝ := 1e-12

noncomputable def reducedReal (row : ℕ → ℝ) (positions : Finset ℕ) (dim : ℕ) (mode : Pooling)
    (d : ℕ) : ℝ :=
  (reduced row positions dim mode d).unbotD 0

theorem marked_succ (mask : Buffer ℕ) (t : ℕ) :
    marked mask (t + 1) = if mask t = 0 then marked mask t else insert t (marked mask t) := by
  unfold marked
  rw [Finset.range_add_one, Finset.filter_insert]
  by_cases h : mask t = 0
  · rw [if_pos h, if_neg (not_not.mpr h)]
  · rw [if_neg h, if_pos h]

theorem not_mem_marked (mask : Buffer ℕ) (t : ℕ) : t ∉ marked mask t := by
  simp [marked]

theorem max_ofWithBot (a b : WithBot ℝ) :
    Arith.max (ofWithBot a) (ofWithBot b) = ofWithBot (a ⊔ b) := by
  unfold Arith.max
  by_cases h : a < b
  · rw [sup_eq_right.mpr h.le]
    exact if_pos ((lt_ofWithBot a b).mpr h)
  · rw [sup_eq_left.mpr (not_lt.mp h)]
    exact if_neg fun hlt => h ((lt_ofWithBot a b).mp hlt)

section
variable (row : ℕ → ℝ) (mask : Buffer ℕ) (width dim d : ℕ)

theorem maxTokens_real :
    maxTokens (fun k => real (row k)) mask width dim d =
      ofWithBot ((marked mask width).sup fun t => (row (t * dim + d) : WithBot ℝ)) := by
  unfold maxTokens
  refine forRange_invariant (fun t (dest : Buffer ExactFloat) => dest d =
    ofWithBot ((marked mask t).sup fun t => (row (t * dim + d) : WithBot ℝ))) rfl ?_
  intro t dest _ ih
  rw [marked_succ]
  by_cases h : mask t = 0
  · rw [if_pos h, if_pos h]
    exact ih
  · rw [if_neg h, if_neg h, Finset.sup_insert, sup_comm, ← max_ofWithBot, ← ih]
    rfl

theorem meanTokens_loop :
    let s := forRange width (fun t (s : Buffer ExactFloat × ExactFloat) =>
      if mask t = 0 then s
      else (fun d => Arith.add (s.1 d) (real (row (t * dim + d))), Arith.add s.2 Arith.one))
      (fun _ => Arith.zero, Arith.zero)
    s.1 d = real (∑ t ∈ marked mask width, row (t * dim + d)) ∧
      s.2 = real (marked mask width).card := by
  refine forRange_invariant (fun t (s : Buffer ExactFloat × ExactFloat) =>
    s.1 d = real (∑ t ∈ marked mask t, row (t * dim + d)) ∧
      s.2 = real (marked mask t).card) ⟨rfl, ?_⟩ ?_
  · change real 0 = real ((0 : ℕ) : ℝ)
    rw [Nat.cast_zero]
  · intro t s _ ih
    rw [marked_succ]
    by_cases h : mask t = 0
    · rw [if_pos h, if_pos h]
      exact ih
    · rw [if_neg h, if_neg h, Finset.sum_insert (not_mem_marked mask t),
        Finset.card_insert_of_notMem (not_mem_marked mask t), Nat.cast_succ]
      constructor
      · change add (s.1 d) (real (row (t * dim + d))) = _
        rw [ih.1, add_real, add_comm]
      · change add s.2 (real 1) = _
        rw [ih.2, add_real]

theorem meanTokens_real :
    meanTokens (fun k => real (row k)) mask width dim d =
      real ((∑ t ∈ marked mask width, row (t * dim + d)) / (marked mask width).card) := by
  obtain ⟨hsum, hcount⟩ := meanTokens_loop row mask width dim d
  unfold meanTokens
  dsimp only at hsum hcount ⊢
  rw [hsum, hcount]
  by_cases h : (marked mask width).card = 0
  · have none_marked : marked mask width = ∅ := Finset.card_eq_zero.mp h
    have zero : Arith.lt (Arith.zero : ExactFloat) (real ((0 : ℕ) : ℝ)) = false := by
      change decide ((0 : ℝ) < ((0 : ℕ) : ℝ)) = false
      simp
    rw [h, none_marked, Finset.sum_empty, zero]
    change div (real 0) (real 1) = _
    rw [div_real 0 one_ne_zero]
    simp
  · have pos : (0 : ℝ) < (marked mask width).card := Nat.cast_pos.mpr (Nat.pos_of_ne_zero h)
    have counted : Arith.lt (Arith.zero : ExactFloat) (real (marked mask width).card) = true :=
      decide_eq_true pos
    rw [counted]
    exact div_real _ pos.ne'

theorem poolRow_real (mode : Pooling) :
    poolRow (fun k => real (row k)) mask width dim mode d =
      ofWithBot (reduced row (marked mask width) dim mode d) := by
  cases mode with
  | clsToken => rfl
  | maxTokens => exact maxTokens_real row mask width dim d
  | meanTokens => exact meanTokens_real row mask width dim d

theorem reduced_eq_coe (positions : Finset ℕ) (mode : Pooling)
    (h : mode = .maxTokens → positions.Nonempty) :
    reduced row positions dim mode d = reducedReal row positions dim mode d := by
  cases mode with
  | clsToken => rfl
  | meanTokens => rfl
  | maxTokens =>
    have coe := Finset.coe_sup' (h rfl) fun t => row (t * dim + d)
    unfold reducedReal reduced
    rw [Function.comp_def] at coe
    rw [← coe, WithBot.unbotD_coe]

theorem poolRow_reducedReal (mode : Pooling)
    (h : mode = .maxTokens → (marked mask width).Nonempty) :
    poolRow (fun k => real (row k)) mask width dim mode d =
      real (reducedReal row (marked mask width) dim mode d) := by
  rw [poolRow_real, reduced_eq_coe row dim d _ mode h]
  rfl

end

theorem sumLoop_real (n : ℕ) (f : ℕ → ℝ) :
    forRange n (fun i s => add s (real (f i))) (real 0) = real (∑ i ∈ Finset.range n, f i) := by
  refine forRange_invariant (fun i s => s = real (∑ j ∈ Finset.range i, f j)) rfl ?_
  intro i s _ ih
  rw [ih, add_real, Finset.sum_range_succ]

theorem squares_nonneg (v : ℕ → ℝ) (dim : ℕ) : 0 ≤ ∑ d ∈ Finset.range dim, v d * v d :=
  Finset.sum_nonneg fun d _ => mul_self_nonneg (v d)

theorem euclidean_eq_zero {v : ℕ → ℝ} {dim : ℕ} (h : euclidean v dim = 0) {d : ℕ}
    (hd : d < dim) : v d = 0 := by
  have sum : ∑ d ∈ Finset.range dim, v d * v d = 0 :=
    (Real.sqrt_eq_zero (squares_nonneg v dim)).mp h
  have term := (Finset.sum_eq_zero_iff_of_nonneg fun d _ => mul_self_nonneg (v d)).mp sum d
    (Finset.mem_range.mpr hd)
  exact mul_self_eq_zero.mp term

theorem exists_ne_zero {v : ℕ → ℝ} {dim : ℕ} (h : euclidean v dim ≠ 0) :
    ∃ d, d < dim ∧ v d ≠ 0 := by
  by_contra none_nonzero
  refine h ?_
  unfold euclidean
  rw [Finset.sum_eq_zero, Real.sqrt_zero]
  intro d hd
  have zero : v d = 0 := by
    by_contra hne
    exact none_nonzero ⟨d, Finset.mem_range.mp hd, hne⟩
  rw [zero, mul_zero]

section
variable {row : Buffer ExactFloat} {v : ℕ → ℝ} {dim : ℕ}

theorem rowNorm_real (h : ∀ d, d < dim → row d = real (v d)) :
    rowNorm row dim = real (euclidean v dim) := by
  rw [rowNorm_congr h]
  have squares := sumLoop_real dim fun d => v d * v d
  have nonneg := squares_nonneg v dim
  unfold rowNorm
  change sqrt (forRange dim (fun d sum => add sum (real (v d * v d))) (real 0)) = _
  rw [squares, sqrt_real nonneg]
  rfl

theorem normalizeRow_real (h : ∀ d, d < dim → row d = real (v d)) {d : ℕ} (hd : d < dim) :
    normalizeRow row dim d =
      real (if euclidean v dim ≤ tinyNorm then v d else v d / euclidean v dim) := by
  unfold normalizeRow
  rw [rowNorm_real h, h d hd]
  by_cases small : euclidean v dim ≤ tinyNorm
  · rw [if_pos small]
    exact if_pos (decide_eq_true small)
  · have pos : (0 : ℝ) < euclidean v dim := by
      refine lt_trans ?_ (not_le.mp small)
      norm_num [tinyNorm]
    rw [if_neg small]
    refine (if_neg fun hle => small (of_decide_eq_true hle)).trans ?_
    exact div_real _ pos.ne'

end

section
variable {row : Buffer ExactFloat} {mask : Buffer ℕ} {width dim d t : ℕ}

theorem rowNorm_nan {d : ℕ} (hd : d < dim) (h : row d = nan) : rowNorm row dim = nan := by
  have absorbed : forRange dim (fun d sum => add sum (mul (row d) (row d))) (real 0) = nan := by
    apply forRange_absorb hd
    · intro sum
      rw [h, mul_nan, add_nan]
    · exact fun i => nan_add _
  exact congrArg sqrt absorbed

theorem normalizeRow_nan (hd : d < dim) (h : row d = nan) (e : ℕ) :
    normalizeRow row dim e = nan := by
  unfold normalizeRow
  rw [rowNorm_nan hd h]
  exact (if_neg Bool.false_ne_true).trans (div_nan _)

theorem meanTokens_nan (ht : t < width) (there : mask t ≠ 0) (h : row (t * dim + d) = nan) :
    meanTokens row mask width dim d = nan := by
  have sum : (forRange width (fun t (s : Buffer ExactFloat × ExactFloat) =>
      if mask t = 0 then s else (fun d => add (s.1 d) (row (t * dim + d)), add s.2 (real 1)))
      (fun _ => real 0, real 0)).1 d = nan := by
    refine forRange_invariant (fun n (s : Buffer ExactFloat × ExactFloat) => t < n → s.1 d = nan)
      (fun before => absurd before (Nat.not_lt_zero t)) ?_ ht
    intro i s _ ih reached
    by_cases here : t = i
    · rw [← here, if_neg there]
      exact (congrArg (add (s.1 d)) h).trans (add_nan _)
    · have before := ih (by omega)
      split
      · exact before
      · exact (congrArg (fun x => add x _) before).trans (nan_add _)
  exact (congrArg (fun x => div x _) sum).trans (nan_div _)

theorem max_nan (x : ExactFloat) : Arith.max x nan = x :=
  if_neg fun lt => Bool.false_ne_true ((lt_nan x).symm.trans lt)

theorem maxTokens_component : maxTokens row mask width dim d =
    forRange width (fun t x => if mask t = 0 then x else Arith.max x (row (t * dim + d)))
      negInf := by
  refine forRange_map (fun dest : Buffer ExactFloat => dest d) (fun t dest _ => ?_) _
  split
  · rfl
  · rfl

theorem maxTokens_skips_nan : maxTokens row mask width dim d =
    maxTokens row (fun t => if (row (t * dim + d)).isNaN then 0 else mask t) width dim d := by
  rw [maxTokens_component, maxTokens_component]
  refine forRange_congr (fun t x _ => ?_) _
  cases h : row (t * dim + d) with
  | nan =>
    rw [max_nan, ite_self]
    rfl
  | _ => rfl

end
end CyborgdbEmbed

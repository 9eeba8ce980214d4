import CyborgdbEmbed.PoolingExact

set_option autoImplicit false

namespace CyborgdbEmbed
open Loops ExactFloat

namespace RunOrt

/-- `hidden[r, t, d]` and `mask[r, t]` of the arrays the batch is run on. -/
structure Arrays where
  hidden : ℕ → ℕ → ℕ → ExactFloat
  mask : ℕ → ℕ → ℕ

noncomputable def clip (x low : ExactFloat) : ExactFloat := if lt x low then low else x

noncomputable def maximum (a b : ExactFloat) : ExactFloat :=
  if b.isNaN || lt a b then b else a

noncomputable def sum (n : ℕ) (f : ℕ → ExactFloat) : ExactFloat :=
  forRange n (fun i s => add s (f i)) (real 0)

/-- `max` along an axis, which needs at least one element. -/
noncomputable def amax (n : ℕ) (f : ℕ → ExactFloat) : ExactFloat :=
  forRange (n - 1) (fun i m => maximum m (f (i + 1))) (f 0)

noncomputable def weights (mask : ℕ) : ExactFloat := real mask

noncomputable def pool (x : Arrays) (width : ℕ) (mode : Pooling) (r d : ℕ) : ExactFloat :=
  match mode with
  | .clsToken => x.hidden r 0 d
  | .meanTokens =>
    div (sum width fun t => mul (x.hidden r t d) (weights (x.mask r t)))
      (clip (sum width fun t => weights (x.mask r t)) (real 1e-9))
  | .maxTokens => amax width fun t => if x.mask r t ≠ 0 then x.hidden r t d else negInf

/-- `np.linalg.norm` along the last axis. -/
noncomputable def norm (vector : ℕ → ExactFloat) (dim : ℕ) : ExactFloat :=
  sqrt (sum dim fun d => mul (vector d) (vector d))

/-- What `encode` makes of the output of one `session.run`. -/
noncomputable def vectors (x : Arrays) (width dim : ℕ) (mode : Pooling) (normalize : Bool)
    (r d : ℕ) : ExactFloat :=
  let pooled := pool x width mode r
  if normalize then div (pooled d) (clip (norm pooled dim) (real 1e-12)) else pooled d

theorem maximum_ofWithBot (a b : WithBot ℝ) :
    maximum (ofWithBot a) (ofWithBot b) = ofWithBot (a ⊔ b) := by
  have number : (ofWithBot b).isNaN = false := by
    induction b with
    | bot => rfl
    | coe x => rfl
  unfold maximum
  rw [number, Bool.false_or]
  exact max_ofWithBot a b

theorem sum_real (n : ℕ) (f : ℕ → ℝ) :
    sum n (fun i => real (f i)) = real (∑ i ∈ Finset.range n, f i) := sumLoop_real n f

theorem amax_ofWithBot {n : ℕ} (pos : 0 < n) (f : ℕ → WithBot ℝ) :
    amax n (fun i => ofWithBot (f i)) = ofWithBot ((Finset.range n).sup f) := by
  obtain ⟨m, rfl⟩ := Nat.exists_eq_succ_of_ne_zero pos.ne'
  unfold amax
  refine forRange_invariant (fun i m => m = ofWithBot ((Finset.range (i + 1)).sup f)) ?_ ?_
  · simp
  · intro i m _ ih
    rw [ih, maximum_ofWithBot, Finset.range_add_one (n := i + 1), Finset.sup_insert, sup_comm]

section
variable {x : Arrays} {row : ℕ → ℝ} {mask : Buffer ℕ} {width dim r : ℕ}

theorem pool_max (hidden : ∀ t d, d < dim → x.hidden r t d = real (row (t * dim + d)))
    (hmask : x.mask r = mask) (pos : 0 < width) {d : ℕ} (hd : d < dim) :
    pool x width .maxTokens r d =
      ofWithBot (reduced row (marked mask width) dim .maxTokens d) := by
  have entry : ∀ t, (if x.mask r t ≠ 0 then x.hidden r t d else negInf) =
      ofWithBot (if mask t ≠ 0 then (row (t * dim + d) : WithBot ℝ) else ⊥) := by
    intro t
    rw [hmask, hidden t d hd]
    split <;> rfl
  have hpool : pool x width .maxTokens r d =
      amax width fun t => if x.mask r t ≠ 0 then x.hidden r t d else negInf := rfl
  rw [hpool, funext entry, amax_ofWithBot pos]
  unfold reduced marked
  rw [Finset.sup_ite, Finset.sup_bot, sup_bot_eq]

theorem pool_mean (hidden : ∀ t d, d < dim → x.hidden r t d = real (row (t * dim + d)))
    (hmask : x.mask r = mask) (binary : ∀ t, t < width → mask t = 0 ∨ mask t = 1)
    (some_real : (marked mask width).Nonempty) {d : ℕ} (hd : d < dim) :
    pool x width .meanTokens r d =
      ofWithBot (reduced row (marked mask width) dim .meanTokens d) := by
  have products : (sum width fun t => mul (x.hidden r t d) (weights (x.mask r t))) =
      real (∑ t ∈ marked mask width, row (t * dim + d)) := by
    rw [hmask]
    have entry : (fun t => mul (x.hidden r t d) (weights (mask t))) =
        fun t => real (row (t * dim + d) * mask t) := by
      funext t
      rw [hidden t d hd]
      rfl
    rw [entry, sum_real]
    congr 1
    rw [marked, Finset.sum_filter]
    apply Finset.sum_congr rfl
    intro t ht
    rcases binary t (Finset.mem_range.mp ht) with h | h
    · simp [h]
    · simp [h]
  have count : (sum width fun t => weights (x.mask r t)) = real (marked mask width).card := by
    rw [hmask]
    change sum width (fun t => real (mask t)) = _
    rw [sum_real]
    congr 1
    rw [marked, Finset.card_filter, Nat.cast_sum]
    apply Finset.sum_congr rfl
    intro t ht
    rcases binary t (Finset.mem_range.mp ht) with h | h
    · simp [h]
    · simp [h]
  have one_le : (1 : ℝ) ≤ (marked mask width).card := by
    exact_mod_cast some_real.card_pos
  change div _ (clip _ _) = _
  rw [products, count]
  have large : clip (real (marked mask width).card) (real 1e-9) =
      real (marked mask width).card := by
    refine if_neg ?_
    rw [lt_real, decide_eq_true_eq, not_lt]
    refine le_trans ?_ one_le
    norm_num
  rw [large, div_real _ (by linarith)]
  rfl

variable (row) in
theorem pool_real (hidden : ∀ t d, d < dim → x.hidden r t d = real (row (t * dim + d)))
    (hmask : x.mask r = mask) (binary : ∀ t, t < width → mask t = 0 ∨ mask t = 1)
    (some_real : (marked mask width).Nonempty) (mode : Pooling) {d : ℕ} (hd : d < dim) :
    pool x width mode r d = real (reducedReal row (marked mask width) dim mode d) := by
  have coe := reduced_eq_coe row dim d (marked mask width) mode fun _ => some_real
  cases mode with
  | clsToken =>
    change x.hidden r 0 d = _
    rw [hidden 0 d hd, Nat.zero_mul, Nat.zero_add]
    rfl
  | maxTokens =>
    obtain ⟨t, ht⟩ := some_real
    have pos : 0 < width := by
      have := Finset.mem_range.mp (Finset.mem_filter.mp ht).1
      omega
    rw [pool_max hidden hmask pos hd, coe]
    rfl
  | meanTokens =>
    rw [pool_mean hidden hmask binary some_real hd, coe]
    rfl

theorem clip_real (a b : ℝ) : clip (real a) (real b) = real (max a b) := by
  unfold clip
  rw [lt_real]
  by_cases h : a < b
  · rw [max_eq_right h.le, if_pos (decide_eq_true h)]
  · rw [max_eq_left (not_lt.mp h), if_neg (by simpa using h)]

theorem norm_real {vector : ℕ → ExactFloat} {v : ℕ → ℝ}
    (h : ∀ d, d < dim → vector d = real (v d)) : norm vector dim = real (euclidean v dim) :=
  rowNorm_real h

end
end RunOrt

section
variable (hidden : Buffer ℝ) (mask : Buffer ℕ) (rows width dim : ℕ) (mode : Pooling)

/-- The tensors of a batch as `run_ort.py` indexes them. -/
def arrays : RunOrt.Arrays where
  hidden r t d := real (hidden ((r * width + t) * dim + d))
  mask r t := mask (r * width + t)

/-- `pool`, and `l2_normalize` where the model asks for it. -/
noncomputable def vectors (normalize : Bool) (out : Buffer ExactFloat) : Buffer ExactFloat :=
  let pooled := pool (fun k => real (hidden k)) mask rows width dim mode out
  if normalize then l2Normalize pooled rows dim else pooled

def ArmsAgree (normalize : Bool) (out : Buffer ExactFloat) : Prop :=
  ∀ r d, r < rows → d < dim →
    vectors hidden mask rows width dim mode normalize out (r * dim + d) =
      RunOrt.vectors (arrays hidden mask width dim) width dim mode normalize r d

/-- Row `r` reduced: its first token, or the largest value or the average over its
    real tokens. -/
noncomputable def rowVector (r d : ℕ) : ℝ :=
  reducedReal (fun k => hidden (r * width * dim + k))
    (marked (fun t => mask (r * width + t)) width) dim mode d

variable {hidden mask rows width dim} {r d : ℕ}

theorem vectors_row (some_real : (marked (fun t => mask (r * width + t)) width).Nonempty)
    (hr : r < rows) (hd : d < dim) (normalize : Bool) (out : Buffer ExactFloat) :
    let v := rowVector hidden mask width dim mode r
    vectors hidden mask rows width dim mode normalize out (r * dim + d) =
      real (if normalize then
        if euclidean v dim ≤ tinyNorm then v d else v d / euclidean v dim else v d) := by
  have pooled : ∀ e, e < dim →
      pool (fun k => real (hidden k)) mask rows width dim mode out (r * dim + e) =
        real (rowVector hidden mask width dim mode r e) := by
    intro e he
    rw [pool_row _ _ _ _ _ hr he]
    exact poolRow_reducedReal _ _ _ _ _ _ fun _ => some_real
  cases normalize with
  | false => exact pooled d hd
  | true =>
    change l2Normalize _ rows dim (r * dim + d) = _
    rw [l2Normalize_row _ hr hd, normalizeRow_real pooled hd]
    rfl

theorem runOrt_row (some_real : (marked (fun t => mask (r * width + t)) width).Nonempty)
    (binary : ∀ t, t < width → mask (r * width + t) = 0 ∨ mask (r * width + t) = 1)
    (hd : d < dim) (normalize : Bool) :
    let v := rowVector hidden mask width dim mode r
    RunOrt.vectors (arrays hidden mask width dim) width dim mode normalize r d =
      real (if normalize then v d / max (euclidean v dim) tinyNorm else v d) := by
  have states : ∀ t e, e < dim → (arrays hidden mask width dim).hidden r t e =
      real (hidden (r * width * dim + (t * dim + e))) := by
    intro t e _
    change real (hidden ((r * width + t) * dim + e)) = _
    rw [Nat.add_mul, Nat.add_assoc]
  have pooled : ∀ e, e < dim →
      RunOrt.pool (arrays hidden mask width dim) width mode r e =
        real (rowVector hidden mask width dim mode r e) := fun e he =>
    RunOrt.pool_real (fun k => hidden (r * width * dim + k)) states rfl binary some_real mode he
  cases normalize with
  | false => exact pooled d hd
  | true =>
    change div _ (RunOrt.clip (RunOrt.norm _ dim) (real tinyNorm)) = _
    rw [RunOrt.norm_real pooled, RunOrt.clip_real, pooled d hd]
    refine div_real _ (ne_of_gt (lt_max_of_lt_right ?_))
    norm_num [tinyNorm]

/-- Leaving short vectors alone and dividing by the clipped norm come to the same in
    all components just when the vector is zero or long enough. -/
theorem scaled_eq_iff (v : ℕ → ℝ) (dim : ℕ) :
    (∀ d, d < dim → (if euclidean v dim ≤ tinyNorm then v d else v d / euclidean v dim) =
      v d / max (euclidean v dim) tinyNorm) ↔
    (euclidean v dim = 0 ∨ tinyNorm < euclidean v dim) := by
  constructor
  · intro h
    by_contra hcon
    rw [not_or, not_lt] at hcon
    obtain ⟨nonzero, small⟩ := hcon
    obtain ⟨d, hd, hv⟩ := exists_ne_zero nonzero
    have same := h d hd
    rw [if_pos small, max_eq_right small] at same
    have tiny : tinyNorm = 1 := by
      have hpos : tinyNorm ≠ 0 := by norm_num [tinyNorm]
      have hmul := (eq_div_iff hpos).mp same
      exact mul_left_cancel₀ hv (hmul.trans (mul_one _).symm)
    norm_num [tinyNorm] at tiny
  · intro h d hd
    rcases h with zero | long
    · simp [euclidean_eq_zero zero hd]
    · rw [if_neg (not_le.mpr long), max_eq_left long.le]

end

theorem arms_agree_iff {hidden : Buffer ℝ} {mask : Buffer ℕ} {rows width dim : ℕ}
    (mode : Pooling) (normalize : Bool) (out : Buffer ExactFloat)
    (binary : ∀ r t, r < rows → t < width →
      mask (r * width + t) = 0 ∨ mask (r * width + t) = 1)
    (some_real : ∀ r, r < rows → ∃ t, t < width ∧ mask (r * width + t) = 1) :
    ArmsAgree hidden mask rows width dim mode normalize out ↔
      normalize = false ∨ ∀ r, r < rows →
        euclidean (rowVector hidden mask width dim mode r) dim = 0 ∨
        tinyNorm < euclidean (rowVector hidden mask width dim mode r) dim := by
  have nonempty : ∀ r, r < rows → (marked (fun t => mask (r * width + t)) width).Nonempty := by
    intro r hr
    obtain ⟨t, ht, hone⟩ := some_real r hr
    exact ⟨t, Finset.mem_filter.mpr ⟨Finset.mem_range.mpr ht, hone.trans_ne one_ne_zero⟩⟩
  have entries : ∀ r d, r < rows → d < dim →
      (vectors hidden mask rows width dim mode normalize out (r * dim + d) =
        RunOrt.vectors (arrays hidden mask width dim) width dim mode normalize r d ↔
      (normalize = true →
        (if euclidean (rowVector hidden mask width dim mode r) dim ≤ tinyNorm then
            rowVector hidden mask width dim mode r d
          else rowVector hidden mask width dim mode r d /
            euclidean (rowVector hidden mask width dim mode r) dim) =
          rowVector hidden mask width dim mode r d /
            max (euclidean (rowVector hidden mask width dim mode r) dim) tinyNorm)) := by
    intro r d hr hd
    rw [vectors_row mode (nonempty r hr) hr hd,
      runOrt_row mode (nonempty r hr) (fun t ht => binary r t hr ht) hd]
    cases normalize with
    | false => simp
    | true => simp
  cases normalize with
  | false =>
    refine iff_of_true (fun r d hr hd => (entries r d hr hd).mpr nofun) (.inl rfl)
  | true =>
    rw [or_iff_right (by decide)]
    constructor
    · intro h r hr
      exact (scaled_eq_iff _ dim).mp fun d hd => (entries r d hr hd).mp (h r d hr hd) rfl
    · intro h r d hr hd
      exact (entries r d hr hd).mpr fun _ => (scaled_eq_iff _ dim).mpr (h r hr) d hd

theorem euclidean_single {v : ℕ → ℝ} (h : 0 ≤ v 0) : euclidean v 1 = v 0 := by
  unfold euclidean
  rw [Finset.sum_range_one, Real.sqrt_mul_self h]

noncomputable def pairStates (k : ℕ) : ℝ := [3, 4, 5, -4, 0, 6, 9, 9].getD k 0

def pairMask (k : ℕ) : ℕ := [1, 1, 1, 0].getD k 0

/-- The averages are (4, 0) and (0, 6). -/
theorem pair_arms_agree :
    ArmsAgree pairStates pairMask 2 2 2 .meanTokens true fun _ => real 0 := by
  have first : marked (fun t => pairMask (0 * 2 + t)) 2 = {0, 1} := by decide
  have second : marked (fun t => pairMask (1 * 2 + t)) 2 = {0} := by decide
  have binary : ∀ r < 2, ∀ t < 2, pairMask (r * 2 + t) = 0 ∨ pairMask (r * 2 + t) = 1 := by decide
  refine (arms_agree_iff .meanTokens true _ (fun r t hr ht => binary r hr t ht)
    (by decide)).mpr (.inr fun r hr => .inr ?_)
  have long {v : ℕ → ℝ} (h : 1 ≤ v 0 * v 0 + v 1 * v 1) : tinyNorm < euclidean v 2 := by
    refine lt_of_lt_of_le (by norm_num [tinyNorm]) (Real.one_le_sqrt.mpr ?_)
    rwa [Finset.sum_range_succ, Finset.sum_range_one]
  apply long
  obtain rfl | rfl : r = 0 ∨ r = 1 := by omega
  · unfold rowVector reducedReal reduced
    rw [first]
    norm_num [pairStates]
  · unfold rowVector reducedReal reduced
    rw [second]
    norm_num [pairStates]

/-- One token whose only component is `1e-13`. -/
theorem short_arms_differ :
    ¬ ArmsAgree (fun _ => 1e-13) (fun _ => 1) 1 1 1 .clsToken true fun _ => real 0 := by
  intro h
  have some_real : (marked (fun _ => 1) 1).Nonempty := ⟨0, by decide⟩
  have value : rowVector (fun _ => 1e-13) (fun _ => 1) 1 1 .clsToken 0 0 = 1e-13 := rfl
  have norm : euclidean (rowVector (fun _ => 1e-13) (fun _ => 1) 1 1 .clsToken 0) 1 = 1e-13 :=
    (euclidean_single (by rw [value]; norm_num)).trans value
  have same := h 0 0 Nat.one_pos Nat.one_pos
  rw [vectors_row .clsToken some_real Nat.one_pos Nat.one_pos,
    runOrt_row .clsToken some_real (fun _ _ => .inr rfl) Nat.one_pos, norm, value] at same
  norm_num [tinyNorm] at same

end CyborgdbEmbed

import CyborgdbEmbed.GoldenScore
import CyborgdbEmbed.ParityGate
import CyborgdbEmbed.PoolingArms

set_option autoImplicit false

namespace CyborgdbEmbed.CompareMetrics
open Loops ExactFloat ParityGate
open GoldenScore (Golden Near)
open RunOrt (amax maximum norm sum)

noncomputable section

instance : LE ExactFloat := ⟨fun x y => le x y = true⟩

instance : LT ExactFloat := ⟨fun x y => lt x y = true⟩

instance : DecidableLE ExactFloat := fun x y => inferInstanceAs (Decidable (le x y = true))

instance : DecidableLT ExactFloat := fun x y => inferInstanceAs (Decidable (lt x y = true))

instance : Sub ExactFloat := ⟨sub⟩

instance : OfNat ExactFloat 0 := ⟨real 0⟩

instance : OfNat ExactFloat 1 := ⟨real 1⟩

instance : OfScientific ExactFloat :=
  ⟨fun mantissa sign exponent => real (OfScientific.ofScientific mantissa sign exponent)⟩

def equal : ExactFloat → ExactFloat → Bool
  | real x, real y => decide (x = y)
  | posInf, posInf | negInf, negInf => true
  | _, _ => false

def minimum (a b : ExactFloat) : ExactFloat := if b.isNaN || lt b a then b else a

/-- `min` along an axis, which needs at least one element. -/
def amin (n : ℕ) (f : ℕ → ExactFloat) : ExactFloat :=
  forRange (n - 1) (fun i m => minimum m (f (i + 1))) (f 0)

abbrev Matrix := ℕ → ℕ → ExactFloat

def rowCosine (a b : ℕ → ExactFloat) (dim : ℕ) : ExactFloat :=
  let norms := mul (norm a dim) (norm b dim)
  div (sum dim fun d => mul (a d) (b d)) (if equal norms (real 0) then real 1 else norms)

def metrics (reference candidate : Matrix) (rows : List ℕ) (dim : ℕ) : Metrics ExactFloat :=
  let a i := reference (rows.getD i 0)
  let b i := candidate (rows.getD i 0)
  { n := rows.length
    bitIdenticalRows := (List.range rows.length).countP fun i =>
      (List.range dim).all fun d => equal (a i d) (b i d)
    maxAbsDiff := if rows.length * dim = 0 then real 0 else
      amax (rows.length * dim) fun k =>
        ExactFloat.abs (sub (a (k / dim) (k % dim)) (b (k / dim) (k % dim)))
    cosineMin := if rows.length = 0 then real 1 else
      amin rows.length fun i => rowCosine (a i) (b i) dim }

/-- `compare` adds how many neighbours survive, for the real prose. -/
def measured (reference candidate : Matrix) (rows : List ℕ) (dim : ℕ)
    (recallAt10 : Option ExactFloat) : Metrics ExactFloat :=
  { metrics reference candidate rows dim with recallAt10 := recallAt10 }

def verdictOn (reference : ℕ → ℕ → ℝ) (candidate : Matrix) (rows : List ℕ) (dim : ℕ)
    (recallAt10 : Option ExactFloat) : Verdict :=
  verdict (measured (fun row d => real (reference row d)) candidate rows dim recallAt10)

section
variable {k : ℝ} {n : ℕ} {f : ℕ → ExactFloat}

theorem maximum_lt (a b : ExactFloat) : lt (maximum a b) (real k) = true ↔
    lt a (real k) = true ∧ lt b (real k) = true := by
  cases a with
  | real x =>
    cases b with
    | real y =>
      have sup : maximum (real x) (real y) = real (x ⊔ y) := RunOrt.maximum_ofWithBot x y
      rw [sup]
      simp
    | _ => simp [maximum, isNaN, lt]
  | _ => cases b <;> simp [maximum, isNaN, lt]

theorem le_minimum (a b : ExactFloat) : le (real k) (minimum a b) = true ↔
    le (real k) a = true ∧ le (real k) b = true := by
  cases a with
  | real x =>
    cases b with
    | real y =>
      have inf : minimum (real x) (real y) = real (x ⊓ y) := GoldenScore.min_real x y
      rw [inf]
      simp
    | _ => simp [minimum, isNaN, lt, le]
  | _ => cases b <;> simp [minimum, isNaN, lt, le]

theorem amax_lt (pos : 0 < n) : lt (amax n f) (real k) = true ↔
    ∀ i, i < n → lt (f i) (real k) = true :=
  forRange_reduce (P := fun x => lt x (real k) = true) maximum_lt pos f

theorem le_amin (pos : 0 < n) : le (real k) (amin n f) = true ↔
    ∀ i, i < n → le (real k) (f i) = true :=
  forRange_reduce (P := fun x => le (real k) x = true) le_minimum pos f

end

theorem norm_nan {row : ℕ → ExactFloat} {dim d : ℕ} (hd : d < dim) (h : row d = nan) :
    norm row dim = nan := rowNorm_nan hd h

theorem rowCosine_nan (a : ℕ → ExactFloat) {b : ℕ → ExactFloat} {dim d : ℕ} (hd : d < dim)
    (h : b d = nan) : rowCosine a b dim = nan := by
  unfold rowCosine
  rw [norm_nan hd h, mul_nan]
  exact div_nan _

theorem near_of_lt {r : ℝ} {x : ExactFloat}
    (h : lt (ExactFloat.abs (sub (real r) x)) (real 1e-4) = true) : Near r x := by
  refine (GoldenScore.diff_lt r x).mp (fun _ => h) ?_
  rintro rfl
  rw [sub_nan, abs_nan, nan_lt] at h
  exact Bool.false_ne_true h

theorem near_of_equal {r : ℝ} {x : ExactFloat} (h : equal (real r) x = true) : Near r x := by
  cases x with
  | real y =>
    refine ⟨y, rfl, ?_⟩
    rw [of_decide_eq_true h, sub_self, abs_zero]
    norm_num
  | _ => exact absurd h Bool.false_ne_true

section
variable {reference : ℕ → ℕ → ℝ} {candidate : Matrix} {rows : List ℕ} {dim row d : ℕ} {k : ℝ}
  {recallAt10 : Option ExactFloat}

theorem exists_position (h : row ∈ rows) : ∃ i, i < rows.length ∧ rows.getD i 0 = row := by
  obtain ⟨i, hi, heq⟩ := List.getElem_of_mem h
  refine ⟨i, hi, ?_⟩
  rw [List.getD_eq_getElem?_getD, List.getElem?_eq_getElem hi, heq]
  rfl

theorem near_of_identical
    (h : (metrics (fun row d => real (reference row d)) candidate rows dim).bitIdenticalRows =
      rows.length) (hrow : row ∈ rows) (hd : d < dim) :
    Near (reference row d) (candidate row d) := by
  obtain ⟨i, hi, heq⟩ := exists_position hrow
  have all := List.countP_eq_length.mp (h.trans List.length_range.symm) i (List.mem_range.mpr hi)
  have same := List.all_eq_true.mp all d (List.mem_range.mpr hd)
  dsimp only at same
  rw [heq] at same
  exact near_of_equal same

theorem near_of_maxAbsDiff
    (h : lt (metrics (fun row d => real (reference row d)) candidate rows dim).maxAbsDiff
      (real 1e-4) = true) (hrow : row ∈ rows) (hd : d < dim) :
    Near (reference row d) (candidate row d) := by
  obtain ⟨i, hi, heq⟩ := exists_position hrow
  have inside : i * dim + d < rows.length * dim := by
    calc
      i * dim + d < i * dim + dim := Nat.add_lt_add_left hd _
      _ = (i + 1) * dim := (Nat.succ_mul i dim).symm
      _ ≤ rows.length * dim := Nat.mul_le_mul_right dim hi
  obtain ⟨hdiv, hmod⟩ : (i * dim + d) / dim = i ∧ (i * dim + d) % dim = d :=
    (Nat.div_mod_unique (by omega)).mpr ⟨by rw [Nat.mul_comm, Nat.add_comm], hd⟩
  unfold metrics at h
  dsimp only at h
  rw [if_neg (by omega), amax_lt (by omega)] at h
  have diff := h _ inside
  rw [hdiv, hmod, heq] at diff
  exact near_of_lt diff

theorem number_of_cosineMin {reference : Matrix}
    (h : (measured reference candidate rows dim recallAt10).cosineMin ≥ real k) (hrow : row ∈ rows)
    (hd : d < dim) : candidate row d ≠ nan := by
  intro isNaN
  change le (real k) (metrics reference candidate rows dim).cosineMin = true at h
  obtain ⟨i, hi, heq⟩ := exists_position hrow
  unfold metrics at h
  dsimp only at h
  rw [if_neg (by omega), le_amin (by omega)] at h
  have cosine := h i hi
  rw [heq, rowCosine_nan _ hd isNaN, le_nan] at cosine
  exact Bool.false_ne_true cosine

theorem number_of_passing
    (h : (verdictOn reference candidate rows dim recallAt10).passing = true) (hrow : row ∈ rows)
    (hd : d < dim) : candidate row d ≠ nan := by
  have floor : (1 - 1e-6 : ExactFloat) = real (1 - 1e-6) := sub_real 1 1e-6
  obtain same | ⟨cosine, -⟩ | ⟨cosine, -⟩ := (verdict_passing_iff _).mp h
  · obtain ⟨y, hy, -⟩ := near_of_identical same hrow hd
    rw [hy]
    exact nofun
  · rw [floor] at cosine
    exact number_of_cosineMin cosine hrow hd
  · change _ ≥ real 0.9999 at cosine
    exact number_of_cosineMin cosine hrow hd

theorem best_of_verdict {m : Metrics ExactFloat}
    (h : verdict m = .identical ∨ verdict m = .numericallyEquivalent) :
    m.bitIdenticalRows = m.n ∨ m.maxAbsDiff < 1e-4 := by
  by_cases same : m.bitIdenticalRows = m.n
  · exact .inl same
  · by_cases near : m.cosineMin ≥ 1 - 1e-6 ∧ m.maxAbsDiff < 1e-4
    · exact .inr near.2
    · unfold verdict at h
      rw [if_neg same, if_neg near] at h
      split at h
      · exact absurd h (by decide)
      · split at h
        · exact absurd h (by decide)
        · exact absurd h (by decide)

/-- What the golden test is there to say of its rows does hold under the two best verdicts. -/
theorem near_of_verdict
    (h : verdictOn reference candidate rows dim recallAt10 = .identical ∨
      verdictOn reference candidate rows dim recallAt10 = .numericallyEquivalent)
    (hrow : row ∈ rows) (hd : d < dim) : Near (reference row d) (candidate row d) := by
  obtain same | diff := best_of_verdict h
  · exact near_of_identical same hrow hd
  · exact near_of_maxAbsDiff diff hrow hd

end

/-- Each file that the golden test is wrong to let pass is turned down by the nightly run. -/
theorem nightly_catches {g : Golden} {rows : List ℕ} (hrows : ∀ row, row ∈ rows ↔ g.Scored row)
    (unsound : ¬ g.Sound) (recallAt10 : Option ExactFloat) :
    (verdictOn g.expected g.actual rows g.dim recallAt10).passing = false := by
  unfold Golden.Sound at unsound
  push Not at unsound
  obtain ⟨passes, row, scored, d, hd, off⟩ := unsound
  by_contra passing
  have number := number_of_passing (eq_true_of_ne_false passing) ((hrows row).mpr scored) hd
  exact off ((g.passes_iff.mp passes row scored).1 d hd number)

end
end CyborgdbEmbed.CompareMetrics

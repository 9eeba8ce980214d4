import CyborgdbEmbed.PoolingExact

set_option autoImplicit false

namespace CyborgdbEmbed.GoldenScore
open Loops ExactFloat

/-- What `score` uses on `double` besides. -/
class Doubles (α : Type) extends Arith α where
  sub : α → α → α
  abs : α → α
  kCosineFloor : α
  kMaxAbsDiff : α

section
variable {α : Type} [Doubles α]
open Arith Doubles

def min (a b : α) : α := if lt b a then b else a

structure Score (α : Type) where
  cosineMin : α
  maxAbsDiff : α

def Score.empty : Score α := ⟨one, zero⟩

def Score.passes (s : Score α) : Bool :=
  le kCosineFloor s.cosineMin && lt s.maxAbsDiff kMaxAbsDiff

structure Sums (α : Type) where
  dot : α
  a2 : α
  b2 : α
  maxAbsDiff : α

def rowSums (a b : Buffer α) (dim : ℕ) (maxAbsDiff : α) : Sums α :=
  forRange dim (fun d s =>
    { dot := add s.dot (mul (a d) (b d))
      a2 := add s.a2 (mul (a d) (a d))
      b2 := add s.b2 (mul (b d) (b d))
      maxAbsDiff := Arith.max s.maxAbsDiff (abs (sub (a d) (b d))) })
    ⟨zero, zero, zero, maxAbsDiff⟩

def Sums.cosine (s : Sums α) : α :=
  let norm := mul (sqrt s.a2) (sqrt s.b2)
  if lt zero norm then div s.dot norm else one

def scoreRow (a b : Buffer α) (dim : ℕ) (result : Score α) : Score α :=
  let s := rowSums a b dim result.maxAbsDiff
  ⟨min result.cosineMin s.cosine, s.maxAbsDiff⟩

/-- `std::strcmp(a.c_str(), b) == 0`. -/
def sameCString (a b : String) : Bool :=
  a.toList.takeWhile (· != '\x00') == b.toList.takeWhile (· != '\x00')

def inGroup (groups : List String) (wantGroup : String) (row : ℕ) : Bool :=
  sameCString (groups.getD row "") wantGroup

def score (reference candidate : Buffer α) (groups : List String) (dim : ℕ)
    (wantGroup : String) : Score α :=
  forRange groups.length (fun row result =>
    if inGroup groups wantGroup row then
      scoreRow (fun d => reference (row * dim + d)) (fun d => candidate (row * dim + d)) dim result
    else result) .empty

end

noncomputable instance : Doubles ExactFloat where
  sub := ExactFloat.sub
  abs := ExactFloat.abs
  kCosineFloor := .real (1 - 1e-6)
  kMaxAbsDiff := .real 1e-4

/-- A number that differs from the reference by less than the bound. -/
def Near (r : ℝ) (x : ExactFloat) : Prop := ∃ y, x = real y ∧ |r - y| < 1e-4

/-- One group of one golden file and of the vectors scored against it. -/
structure Golden where
  reference : Buffer ℝ
  candidate : Buffer ExactFloat
  groups : List String
  dim : ℕ
  wantGroup : String

noncomputable def Golden.score (g : Golden) : Score ExactFloat :=
  GoldenScore.score (fun k => real (g.reference k)) g.candidate g.groups g.dim g.wantGroup

def Golden.Scored (g : Golden) (row : ℕ) : Prop :=
  row < g.groups.length ∧ inGroup g.groups g.wantGroup row = true

def Golden.expected (g : Golden) (row d : ℕ) : ℝ := g.reference (row * g.dim + d)

def Golden.actual (g : Golden) (row d : ℕ) : ExactFloat := g.candidate (row * g.dim + d)

def Golden.Sound (g : Golden) : Prop := g.score.passes = true →
  ∀ row, g.Scored row → ∀ d, d < g.dim → Near (g.expected row d) (g.actual row d)

/-- The components of a row that are not NaN are near those of its reference. -/
def NearWhereNumber (u : ℕ → ℝ) (row : Buffer ExactFloat) (dim : ℕ) : Prop :=
  ∀ d, d < dim → row d ≠ nan → Near (u d) (row d)

/-- Two rows of numbers, neither of them zero, whose cosine is below the floor. -/
def Turned (u : ℕ → ℝ) (row : Buffer ExactFloat) (dim : ℕ) : Prop :=
  ∃ v, (∀ d, d < dim → row d = real (v d)) ∧ 0 < euclidean u dim * euclidean v dim ∧
    ∑ d ∈ Finset.range dim, u d * v d < (1 - 1e-6) * (euclidean u dim * euclidean v dim)

/-- The group has no NaN, or a component that is not NaN is not near its reference, or a row
    without NaN is turned away from its reference. -/
def Golden.Shows (g : Golden) : Prop :=
  (∀ row, g.Scored row → ∀ d, d < g.dim → g.actual row d ≠ nan) ∨
  (∃ row, g.Scored row ∧ ∃ d, d < g.dim ∧ g.actual row d ≠ nan ∧
    ¬ Near (g.expected row d) (g.actual row d)) ∨
  ∃ row, g.Scored row ∧ Turned (g.expected row) (g.actual row) g.dim

section
variable {x y : ExactFloat} {k : ℝ}

theorem max_ne_nan (hx : x ≠ nan) : Arith.max x y ≠ nan := by
  unfold Arith.max
  split
  · rintro rfl
    rename_i h
    exact absurd (show lt x nan = true from h) (by simp)
  · exact hx

theorem min_ne_nan (hx : x ≠ nan) : min x y ≠ nan := by
  unfold GoldenScore.min
  split
  · rintro rfl
    rename_i h
    exact absurd (show lt nan x = true from h) (by simp)
  · exact hx

theorem max_real (a b : ℝ) : Arith.max (real a) (real b) = real (a ⊔ b) :=
  max_ofWithBot a b

theorem min_real (a b : ℝ) : min (real a) (real b) = real (a ⊓ b) := by
  unfold GoldenScore.min
  by_cases h : b < a
  · rw [inf_eq_right.mpr h.le]
    exact if_pos (decide_eq_true h)
  · rw [inf_eq_left.mpr (not_lt.mp h)]
    exact if_neg fun lt => h (of_decide_eq_true lt)

theorem max_lt (hx : x ≠ nan) : lt (Arith.max x y) (real k) = true ↔
    lt x (real k) = true ∧ (y ≠ nan → lt y (real k) = true) := by
  cases x with
  | nan => exact absurd rfl hx
  | real a =>
    cases y with
    | real b => simp [max_real]
    | _ => simp [Arith.max, Arith.lt, lt]
  | _ => cases y <;> simp [Arith.max, Arith.lt, lt]

theorem le_min (hx : x ≠ nan) : le (real k) (min x y) = true ↔
    le (real k) x = true ∧ (y ≠ nan → le (real k) y = true) := by
  cases x with
  | nan => exact absurd rfl hx
  | real a =>
    cases y with
    | real b => simp [min_real]
    | _ => simp [GoldenScore.min, Arith.lt, lt, le]
  | _ => cases y <;> simp [GoldenScore.min, Arith.lt, lt, le]

theorem diff_lt (r : ℝ) (x : ExactFloat) :
    (ExactFloat.abs (sub (real r) x) ≠ nan →
        lt (ExactFloat.abs (sub (real r) x)) (real 1e-4) = true) ↔
      (x ≠ nan → Near r x) := by
  unfold Near
  cases x with
  | real y => simp
  | nan => simp
  | posInf => simp [sub, neg, add, ExactFloat.abs, lt]
  | negInf => simp [sub, neg, add, ExactFloat.abs, lt]

end

theorem floor_le_one : le (real (1 - 1e-6)) (real 1) = true := by
  rw [le_real, decide_eq_true_eq]
  norm_num

section
variable (u : ℕ → ℝ) (row : Buffer ExactFloat) (dim : ℕ) (m : ExactFloat)

theorem rowSums_dot : (rowSums (fun d => real (u d)) row dim m).dot =
    forRange dim (fun d s => add s (mul (real (u d)) (row d))) (real 0) :=
  forRange_map Sums.dot (fun _ _ _ => rfl) _

theorem cosine_eq : (rowSums (fun d => real (u d)) row dim m).cosine =
    let norm := mul (rowNorm (fun d => real (u d)) dim) (rowNorm row dim)
    if lt (real 0) norm = true then div (rowSums (fun d => real (u d)) row dim m).dot norm
    else real 1 := by
  have a2 : sqrt (rowSums (fun d => real (u d)) row dim m).a2 = rowNorm (fun d => real (u d)) dim :=
    congrArg sqrt (forRange_map Sums.a2 (fun _ _ _ => rfl) _)
  have b2 : sqrt (rowSums (fun d => real (u d)) row dim m).b2 = rowNorm row dim :=
    congrArg sqrt (forRange_map Sums.b2 (fun _ _ _ => rfl) _)
  rw [← a2, ← b2]
  rfl

theorem rowSums_maxAbsDiff : (rowSums (fun d => real (u d)) row dim m).maxAbsDiff =
    forRange dim (fun d s => Arith.max s (ExactFloat.abs (sub (real (u d)) (row d)))) m :=
  forRange_map Sums.maxAbsDiff (fun _ _ _ => rfl) _

end

section
variable {u v : ℕ → ℝ} {row : Buffer ExactFloat} {dim : ℕ} {m : ExactFloat}

variable (u row dim) in
/-- The largest difference stays below the bound if the row is near, where it is not NaN. -/
theorem maxAbsDiff_lt (hm : m ≠ nan) :
    (rowSums (fun d => real (u d)) row dim m).maxAbsDiff ≠ nan ∧
      (lt (rowSums (fun d => real (u d)) row dim m).maxAbsDiff (real 1e-4) = true ↔
        lt m (real 1e-4) = true ∧ NearWhereNumber u row dim) := by
  rw [rowSums_maxAbsDiff]
  unfold NearWhereNumber
  apply forRange_invariant (fun n s => s ≠ nan ∧ (lt s (real 1e-4) = true ↔
    lt m (real 1e-4) = true ∧ ∀ d, d < n → row d ≠ nan → Near (u d) (row d)))
  · exact ⟨hm, (and_iff_left fun d hd => absurd hd (Nat.not_lt_zero d)).symm⟩
  · intro n s _ ih
    refine ⟨max_ne_nan ih.1, ?_⟩
    rw [max_lt ih.1, ih.2, diff_lt, and_assoc, Nat.forall_lt_succ_right]

theorem cosine_nan {d : ℕ} (hd : d < dim) (h : row d = nan) :
    (rowSums (fun d => real (u d)) row dim m).cosine = real 1 := by
  rw [cosine_eq, rowNorm_nan hd h, mul_nan]
  exact if_neg (by rw [lt_nan]; exact Bool.false_ne_true)

theorem cosine_real (h : ∀ d, d < dim → row d = real (v d)) :
    (rowSums (fun d => real (u d)) row dim m).cosine =
      real (if 0 < euclidean u dim * euclidean v dim then
        (∑ d ∈ Finset.range dim, u d * v d) / (euclidean u dim * euclidean v dim) else 1) := by
  have dot : (rowSums (fun d => real (u d)) row dim m).dot =
      real (∑ d ∈ Finset.range dim, u d * v d) := by
    rw [rowSums_dot, ← sumLoop_real]
    refine forRange_congr (fun d s hd => ?_) _
    rw [h d hd, mul_real]
  rw [cosine_eq, rowNorm_real h, rowNorm_real fun _ _ => rfl, dot]
  dsimp only
  rw [mul_real, lt_real]
  by_cases pos : 0 < euclidean u dim * euclidean v dim
  · rw [if_pos pos, if_pos (decide_eq_true pos), div_real _ pos.ne']
  · rw [if_neg pos, if_neg fun h => pos (of_decide_eq_true h)]

theorem euclidean_congr {v w : ℕ → ℝ} (h : ∀ d, d < dim → v d = w d) :
    euclidean v dim = euclidean w dim := by
  unfold euclidean
  congr 1
  refine Finset.sum_congr rfl fun d hd => ?_
  rw [h d (Finset.mem_range.mp hd)]

theorem turned_iff (h : ∀ d, d < dim → row d = real (v d)) : Turned u row dim ↔
    0 < euclidean u dim * euclidean v dim ∧
      ∑ d ∈ Finset.range dim, u d * v d < (1 - 1e-6) * (euclidean u dim * euclidean v dim) := by
  constructor
  · rintro ⟨w, hw, pos, below⟩
    have same (d : ℕ) (hd : d < dim) : w d = v d :=
      ExactFloat.real.inj ((hw d hd).symm.trans (h d hd))
    have dot : ∑ d ∈ Finset.range dim, u d * w d = ∑ d ∈ Finset.range dim, u d * v d := by
      refine Finset.sum_congr rfl fun d hd => ?_
      rw [same d (Finset.mem_range.mp hd)]
    rw [euclidean_congr same] at pos below
    rw [dot] at below
    exact ⟨pos, below⟩
  · rintro ⟨pos, below⟩
    exact ⟨v, h, pos, below⟩

theorem cosine_le (near : NearWhereNumber u row dim) :
    (rowSums (fun d => real (u d)) row dim m).cosine ≠ nan ∧
      (le (real (1 - 1e-6)) (rowSums (fun d => real (u d)) row dim m).cosine = true ↔
        ¬ Turned u row dim) := by
  by_cases clean : ∀ d, d < dim → row d ≠ nan
  · have number (d : ℕ) : ∃ y, d < dim → row d = real y := by
      by_cases hd : d < dim
      · obtain ⟨y, hy, -⟩ := near d hd (clean d hd)
        exact ⟨y, fun _ => hy⟩
      · exact ⟨0, fun h => absurd h hd⟩
    choose v hv using number
    have floor : le (real (1 - 1e-6))
        (rowSums (fun d => real (u d)) row dim m).cosine = true ↔ ¬ Turned u row dim := by
      rw [cosine_real hv, turned_iff hv]
      by_cases pos : 0 < euclidean u dim * euclidean v dim
      · rw [if_pos pos, le_real, decide_eq_true_eq, le_div_iff₀ pos, and_iff_right pos, not_lt]
      · rw [if_neg pos]
        exact iff_of_true floor_le_one fun h => pos h.1
    refine ⟨?_, floor⟩
    rw [cosine_real hv]
    exact nofun
  · push Not at clean
    obtain ⟨d, hd, h⟩ := clean
    rw [cosine_nan hd h]
    refine ⟨nofun, iff_of_true floor_le_one ?_⟩
    rintro ⟨v, hv, -⟩
    cases h.symm.trans (hv d hd)

end

/-- What the score of the first `n` rows says of them. -/
structure Golden.Tells (g : Golden) (n : ℕ) (result : Score ExactFloat) : Prop where
  maxAbsDiff_ne : result.maxAbsDiff ≠ nan
  cosineMin_ne : result.cosineMin ≠ nan
  near : lt result.maxAbsDiff (real 1e-4) = true ↔
    ∀ row, row < n → g.Scored row → NearWhereNumber (g.expected row) (g.actual row) g.dim
  turned : lt result.maxAbsDiff (real 1e-4) = true →
    (le (real (1 - 1e-6)) result.cosineMin = true ↔
      ∀ row, row < n → g.Scored row → ¬ Turned (g.expected row) (g.actual row) g.dim)

variable {g : Golden} {n : ℕ} {result : Score ExactFloat}

theorem Golden.tells_empty (g : Golden) : g.Tells 0 .empty := by
  have near : lt (real 0) (real 1e-4) = true := by
    rw [lt_real, decide_eq_true_eq]
    norm_num
  exact ⟨nofun, nofun, iff_of_true near fun row h => absurd h (Nat.not_lt_zero row),
    fun _ => iff_of_true floor_le_one fun row h => absurd h (Nat.not_lt_zero row)⟩

theorem Golden.Tells.skip (h : g.Tells n result) (out : ¬ g.Scored n) :
    g.Tells (n + 1) result := by
  refine ⟨h.maxAbsDiff_ne, h.cosineMin_ne, ?_, fun below => ?_⟩
  · rw [h.near, Nat.forall_lt_succ_right]
    exact (and_iff_left fun scored => absurd scored out).symm
  · rw [h.turned below, Nat.forall_lt_succ_right]
    exact (and_iff_left fun scored => absurd scored out).symm

theorem Golden.Tells.scoreRow (h : g.Tells n result) (scored : g.Scored n) :
    g.Tells (n + 1)
      (scoreRow (fun d => real (g.expected n d)) (g.actual n) g.dim result) := by
  obtain ⟨number, below⟩ := maxAbsDiff_lt (g.expected n) (g.actual n) g.dim h.maxAbsDiff_ne
  refine ⟨number, min_ne_nan h.cosineMin_ne, ?_, fun lt => ?_⟩
  · rw [Nat.forall_lt_succ_right, forall_prop_of_true scored, ← h.near]
    exact below
  · obtain ⟨before, near⟩ := below.mp lt
    obtain ⟨cosine, floor⟩ := cosine_le (m := result.maxAbsDiff) near
    rw [Nat.forall_lt_succ_right, forall_prop_of_true scored, ← h.turned before, ← floor]
    refine (le_min h.cosineMin_ne).trans ?_
    rw [forall_prop_of_true cosine]

theorem Golden.score_tells (g : Golden) : g.Tells g.groups.length g.score := by
  refine forRange_invariant (fun n result => g.Tells n result) g.tells_empty ?_
  intro n result hn h
  dsimp only
  split
  · rename_i ingroup
    exact h.scoreRow ⟨hn, ingroup⟩
  · rename_i other
    exact h.skip fun scored => other scored.2

theorem Golden.passes_iff (g : Golden) : g.score.passes = true ↔
    ∀ row, g.Scored row → NearWhereNumber (g.expected row) (g.actual row) g.dim ∧
      ¬ Turned (g.expected row) (g.actual row) g.dim := by
  have tells := g.score_tells
  have parts : g.score.passes = true ↔
      le (real (1 - 1e-6)) g.score.cosineMin = true ∧
        lt g.score.maxAbsDiff (real 1e-4) = true := Bool.and_eq_true_iff
  rw [parts]
  constructor
  · rintro ⟨floor, below⟩ row scored
    exact ⟨tells.near.mp below row scored.1 scored,
      (tells.turned below).mp floor row scored.1 scored⟩
  · intro h
    have below := tells.near.mpr fun row _ scored => (h row scored).1
    exact ⟨(tells.turned below).mpr fun row _ scored => (h row scored).2, below⟩

theorem Golden.sound_iff (g : Golden) : g.Sound ↔ g.Shows := by
  constructor
  · intro sound
    by_cases passes : g.score.passes = true
    · refine .inl fun row scored d hd h => ?_
      obtain ⟨y, hy, -⟩ := sound passes row scored d hd
      cases h.symm.trans hy
    · rw [passes_iff] at passes
      push Not at passes
      obtain ⟨row, scored, bad⟩ := passes
      by_cases near : NearWhereNumber (g.expected row) (g.actual row) g.dim
      · exact .inr (.inr ⟨row, scored, bad near⟩)
      · unfold NearWhereNumber at near
        push Not at near
        obtain ⟨d, hd, number, off⟩ := near
        exact .inr (.inl ⟨row, scored, d, hd, number, off⟩)
  · intro shows passes row scored d hd
    have all := g.passes_iff.mp passes
    obtain number | ⟨other, hother, e, he, number, off⟩ | ⟨other, hother, turned⟩ := shows
    · exact (all row scored).1 d hd (number row scored d hd)
    · exact absurd ((all other hother).1 e he number) off
    · exact absurd turned (all other hother).2

/-- A row with a NaN in it does not hold its group back. -/
theorem Golden.passes_of_nan (g : Golden) (h : ∀ row, g.Scored row →
    (∃ d, d < g.dim ∧ g.actual row d = nan) ∧
      NearWhereNumber (g.expected row) (g.actual row) g.dim) : g.score.passes = true := by
  rw [g.passes_iff]
  intro row scored
  obtain ⟨⟨d, hd, isNaN⟩, near⟩ := h row scored
  refine ⟨near, ?_⟩
  rintro ⟨v, hv, -⟩
  cases isNaN.symm.trans (hv d hd)

noncomputable def nanGolden : Golden where
  reference := fun _ => 1
  candidate := fun _ => nan
  groups := ["real"]
  dim := 1
  wantGroup := "real"

theorem nan_passes : ¬ nanGolden.Sound := by
  intro sound
  have passes : nanGolden.score.passes = true := nanGolden.passes_of_nan fun _ _ =>
    ⟨⟨0, Nat.zero_lt_one, rfl⟩, fun _ _ number => absurd rfl number⟩
  have scored : nanGolden.Scored 0 := ⟨Nat.zero_lt_one, by decide⟩
  obtain ⟨y, hy, -⟩ := sound passes 0 scored 0 Nat.zero_lt_one
  cases hy

/-- Normalised vectors pass whatever the model computed, once each of their rows has been
    pooled into a NaN. -/
theorem Golden.passes_of_pooled_nan (g : Golden) {hidden : Buffer ExactFloat} {mask : Buffer ℕ}
    {width : ℕ} {mode : Pooling} {out : Buffer ExactFloat}
    (computed : g.candidate = l2Normalize
      (pool hidden mask g.groups.length width g.dim mode out) g.groups.length g.dim)
    (broken : ∀ row, g.Scored row → ∃ d, d < g.dim ∧
      poolRow (fun k => hidden (row * width * g.dim + k)) (fun t => mask (row * width + t)) width
        g.dim mode d = nan) : g.score.passes = true := by
  refine g.passes_of_nan fun row scored => ?_
  obtain ⟨d, hd, isNaN⟩ := broken row scored
  have all (e : ℕ) (he : e < g.dim) : g.actual row e = nan := by
    have here := (pool_row hidden mask width mode out scored.1 hd).trans isNaN
    unfold Golden.actual
    rw [computed, l2Normalize_row _ scored.1 he]
    exact normalizeRow_nan hd here e
  exact ⟨⟨d, hd, all d hd⟩, fun e he number => absurd (all e he) number⟩

/-- So does the average of hidden states with a NaN on a real token of each text. -/
theorem Golden.passes_of_nan_token (g : Golden) {hidden : Buffer ExactFloat} {mask : Buffer ℕ}
    {width : ℕ} {out : Buffer ExactFloat}
    (computed : g.candidate = l2Normalize
      (pool hidden mask g.groups.length width g.dim .meanTokens out) g.groups.length g.dim)
    (broken : ∀ row, g.Scored row → ∃ t d, t < width ∧ d < g.dim ∧ mask (row * width + t) ≠ 0 ∧
      hidden (row * width * g.dim + (t * g.dim + d)) = nan) : g.score.passes = true := by
  refine g.passes_of_pooled_nan computed fun row scored => ?_
  obtain ⟨t, d, ht, hd, there, isNaN⟩ := broken row scored
  refine ⟨d, hd, ?_⟩
  unfold poolRow
  apply meanTokens_nan ht there
  exact isNaN

end CyborgdbEmbed.GoldenScore

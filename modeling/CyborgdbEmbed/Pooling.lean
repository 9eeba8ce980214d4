import CyborgdbEmbed.Loops
import CyborgdbEmbed.Registry

set_option autoImplicit false

namespace CyborgdbEmbed
open Loops

/-- The operations and constants on `float` that pooling uses. -/
class Arith (α : Type) where
  zero : α
  one : α
  negInfinity : α
  /-- The norm up to which a row counts as zero, `1e-12f`. -/
  tiny : α
  add : α → α → α
  mul : α → α → α
  div : α → α → α
  sqrt : α → α
  lt : α → α → Bool
  le : α → α → Bool

section
variable {α : Type} [Arith α]
open Arith

def Arith.max (a b : α) : α := if lt a b then b else a

def maxTokens (row : Buffer α) (mask : Buffer ℕ) (width dim : ℕ) : Buffer α :=
  forRange width (fun t dest =>
    if mask t = 0 then dest else fun d => Arith.max (dest d) (row (t * dim + d)))
    fun _ => negInfinity

def meanTokens (row : Buffer α) (mask : Buffer ℕ) (width dim : ℕ) : Buffer α :=
  let s := forRange width (fun t (s : Buffer α × α) =>
    if mask t = 0 then s else (fun d => add (s.1 d) (row (t * dim + d)), add s.2 one))
    (fun _ => zero, zero)
  -- an all-padding row would divide by zero
  let divisor := if lt zero s.2 then s.2 else one
  fun d => div (s.1 d) divisor

/-- What `pool` writes for one row. `row` and `mask` are the hidden states and the mask
    from the start of the row on. -/
def poolRow (row : Buffer α) (mask : Buffer ℕ) (width dim : ℕ) : Pooling → Buffer α
  | .clsToken => row
  | .maxTokens => maxTokens row mask width dim
  | .meanTokens => meanTokens row mask width dim

def pool (hidden : Buffer α) (mask : Buffer ℕ) (rows width dim : ℕ) (mode : Pooling)
    (out : Buffer α) : Buffer α :=
  forRange rows (fun r out => copy out (r * dim) dim
    (poolRow (fun k => hidden (r * width * dim + k)) (fun t => mask (r * width + t)) width dim
      mode)) out

/-- `std::sqrt` of the sum of squares of one row. -/
def rowNorm (row : Buffer α) (dim : ℕ) : α :=
  sqrt (forRange dim (fun d sum => add sum (mul (row d) (row d))) zero)

def l2Normalize (vectors : Buffer α) (rows dim : ℕ) : Buffer α :=
  forRange rows (fun r vectors =>
    let row : Buffer α := fun d => vectors (r * dim + d)
    let norm := rowNorm row dim
    -- a row that is already zero is left alone
    if le norm tiny then vectors else copy vectors (r * dim) dim fun d => div (row d) norm) vectors

def normalizeRow (row : Buffer α) (dim : ℕ) : Buffer α := fun d =>
  if le (rowNorm row dim) tiny then row d else div (row d) (rowNorm row dim)

/-- The mask of a row marks its first `len` positions and no other. -/
structure MarksFirst (mask : Buffer ℕ) (width len : ℕ) : Prop where
  le : len ≤ width
  marks : ∀ t, t < width → mask t = if t < len then 1 else 0

omit [Arith α] in
theorem MarksFirst.forRange {σ : Type} {mask : Buffer ℕ} {width len : ℕ}
    (h : MarksFirst mask width len) (body : ℕ → σ → σ) (s : σ) :
    forRange width (fun t s => if mask t = 0 then s else body t s) s = forRange len body s := by
  have padding : ∀ t s, len ≤ t → t < width →
      (if mask t = 0 then s else body t s) = s := by
    intro t s hlen hwidth
    have padded : mask t = 0 := by
      rw [h.marks t hwidth]
      exact if_neg (by omega)
    exact if_pos padded
  rw [forRange_idle h.le padding]
  refine forRange_congr (fun t s ht => ?_) s
  have bound := h.le
  have real : mask t ≠ 0 := by
    rw [h.marks t (by omega), if_pos ht]
    exact Nat.one_ne_zero
  exact if_neg real

theorem rowNorm_congr {row row' : Buffer α} {dim : ℕ} (h : ∀ d, d < dim → row d = row' d) :
    rowNorm row dim = rowNorm row' dim := by
  unfold rowNorm
  rw [forRange_congr fun d sum hd => by rw [h d hd]]

theorem normalizeRow_congr {row row' : Buffer α} {dim d : ℕ} (hd : d < dim)
    (h : ∀ d, d < dim → row d = row' d) : normalizeRow row dim d = normalizeRow row' dim d := by
  unfold normalizeRow
  rw [rowNorm_congr h, h d hd]

section
variable {row row' : Buffer α} {mask mask' : Buffer ℕ} {width width' len dim d : ℕ}

theorem mean_component (row : Buffer α) (len dim d : ℕ) :
    (fun s : Buffer α × α => (s.1 d, s.2)) (forRange len
        (fun t s => (fun d => add (s.1 d) (row (t * dim + d)), add s.2 one))
        (fun _ => zero, zero)) =
      forRange len (fun t s => (add s.1 (row (t * dim + d)), add s.2 one)) (zero, zero) :=
  forRange_map (fun s : Buffer α × α => (s.1 d, s.2)) (fun _ _ _ => rfl) _

theorem max_component (row : Buffer α) (len dim d : ℕ) :
    forRange len (fun t (dest : Buffer α) d => Arith.max (dest d) (row (t * dim + d)))
        (fun _ => negInfinity) d =
      forRange len (fun t x => Arith.max x (row (t * dim + d))) negInfinity :=
  forRange_map (fun dest : Buffer α => dest d) (fun _ _ _ => rfl) _

/-- Rows that agree on their real tokens pool to the same vector, whatever is padded
    behind them. -/
theorem poolRow_congr (pos : 0 < len) (hmask : MarksFirst mask width len)
    (hmask' : MarksFirst mask' width' len)
    (agree : ∀ t, t < len → row (t * dim + d) = row' (t * dim + d)) (mode : Pooling) :
    poolRow row mask width dim mode d = poolRow row' mask' width' dim mode d := by
  cases mode with
  | clsToken => simpa only [poolRow, Nat.zero_mul, Nat.zero_add] using agree 0 pos
  | maxTokens =>
    change maxTokens row mask width dim d = maxTokens row' mask' width' dim d
    unfold maxTokens
    rw [hmask.forRange, hmask'.forRange, max_component, max_component]
    refine forRange_congr (fun t x ht => ?_) _
    rw [agree t ht]
  | meanTokens =>
    change meanTokens row mask width dim d = meanTokens row' mask' width' dim d
    unfold meanTokens
    rw [hmask.forRange, hmask'.forRange]
    have loops : forRange len (fun t (s : α × α) => (add s.1 (row (t * dim + d)), add s.2 one))
        (zero, zero) =
        forRange len (fun t (s : α × α) => (add s.1 (row' (t * dim + d)), add s.2 one))
          (zero, zero) := by
      refine forRange_congr (fun t s ht => ?_) _
      rw [agree t ht]
    obtain ⟨sum, count⟩ := Prod.mk.inj
      ((mean_component row len dim d).trans (loops.trans (mean_component row' len dim d).symm))
    rw [sum, count]

end

theorem pool_row (hidden : Buffer α) (mask : Buffer ℕ) (width : ℕ) (mode : Pooling)
    (out : Buffer α) {rows dim r d : ℕ} (hr : r < rows) (hd : d < dim) :
    pool hidden mask rows width dim mode out (r * dim + d) =
      poolRow (fun k => hidden (r * width * dim + k)) (fun t => mask (r * width + t)) width dim
        mode d :=
  forRange_copy_row _ (fun _ _ _ _ h => h) out hr hd

theorem l2Normalize_row (vectors : Buffer α) {rows dim r d : ℕ} (hr : r < rows) (hd : d < dim) :
    l2Normalize vectors rows dim (r * dim + d) =
      normalizeRow (fun d => vectors (r * dim + d)) dim d := by
  refine forRange_row (f := fun _ row => normalizeRow row dim) ?_ ?_ ?_ (fun _ _ _ _ h => h)
    vectors hr hd
  · intro r b j d _ hd hj
    dsimp only
    split
    · rfl
    · exact copy_row_other b _ (Nat.le_refl _) hj hd
  · intro r b d _ hd
    dsimp only [normalizeRow]
    split
    · rfl
    · exact copy_row_self b r _ hd
  · intro _ v w d _ hd h
    exact normalizeRow_congr hd h

end
end CyborgdbEmbed

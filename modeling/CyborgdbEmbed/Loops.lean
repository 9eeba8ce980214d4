import Mathlib.Logic.Function.Basic
import Mathlib.Tactic.Common

set_option autoImplicit false

/-!
# Loops over buffers

A buffer is a function from positions to values. `forRange` is the counting loop and
`whileLoop` the one with a condition. `copy` writes one block, and rows of `dim` values
lie one after the other, so what a loop does to one row is what its own iteration did
there.
-/
namespace CyborgdbEmbed.Loops

variable {α σ τ : Type*}

/-- `for (i = 0; i < n; ++i) s = body(i, s)`. -/
def forRange : ℕ → (ℕ → σ → σ) → σ → σ
  | 0, _, s => s
  | n + 1, body, s => body n (forRange n body s)

theorem forRange_succ (n : ℕ) (body : ℕ → σ → σ) (s : σ) :
    forRange (n + 1) body s = body n (forRange n body s) := rfl

/-- The invariant rule: `I i` holds after the first `i` rounds. -/
theorem forRange_invariant {n : ℕ} {body : ℕ → σ → σ} {s : σ} (I : ℕ → σ → Prop) (start : I 0 s)
    (round : ∀ i s, i < n → I i s → I (i + 1) (body i s)) : I n (forRange n body s) := by
  induction n with
  | zero => exact start
  | succ n ih =>
    have before := ih fun i s hi h => round i s (by omega) h
    exact round n _ (by omega) before

theorem forRange_map {n : ℕ} {body : ℕ → σ → σ} {body' : ℕ → τ → τ} (f : σ → τ)
    (round : ∀ i s, i < n → f (body i s) = body' i (f s)) (s : σ) :
    f (forRange n body s) = forRange n body' (f s) := by
  induction n with
  | zero => rfl
  | succ n ih =>
    rw [forRange_succ, forRange_succ, round n _ (by omega),
      ih fun i s hi => round i s (by omega)]

theorem forRange_congr {n : ℕ} {body body' : ℕ → σ → σ}
    (round : ∀ i s, i < n → body i s = body' i s) (s : σ) :
    forRange n body s = forRange n body' s :=
  forRange_map id round s

theorem forRange_idle {m n : ℕ} {body : ℕ → σ → σ} (le : m ≤ n)
    (idle : ∀ i s, m ≤ i → i < n → body i s = s) (s : σ) :
    forRange n body s = forRange m body s := by
  induction n with
  | zero =>
    obtain rfl : m = 0 := by omega
    rfl
  | succ n ih =>
    by_cases h : m = n + 1
    · rw [h]
    · rw [forRange_succ, idle n _ (by omega) (by omega),
        ih (by omega) fun i s hm hi => idle i s hm (by omega)]

/-- A state that one round leads to and no round leads out of is the last. -/
theorem forRange_absorb {n d : ℕ} {body : ℕ → σ → σ} {z : σ} (hd : d < n)
    (enters : ∀ s, body d s = z) (stays : ∀ i, body i z = z) (s : σ) :
    forRange n body s = z := by
  induction n with
  | zero => omega
  | succ n ih =>
    rw [forRange_succ]
    by_cases last : d = n
    · rw [← last, enters]
    · rw [ih (by omega), stays]

/-- A reduction has a property that each step splits into its parts if all its elements do. -/
theorem forRange_reduce {op : α → α → α} {P : α → Prop} (split : ∀ a b, P (op a b) ↔ P a ∧ P b)
    {n : ℕ} (pos : 0 < n) (f : ℕ → α) :
    P (forRange (n - 1) (fun i a => op a (f (i + 1))) (f 0)) ↔ ∀ i, i < n → P (f i) := by
  obtain ⟨m, rfl⟩ := Nat.exists_eq_add_of_lt pos
  rw [Nat.zero_add, Nat.add_sub_cancel]
  apply forRange_invariant (fun j a => P a ↔ ∀ i, i < j + 1 → P (f i))
  · rw [Nat.forall_lt_succ_right]
    exact (and_iff_right fun i h => absurd h (Nat.not_lt_zero i)).symm
  · intro j a _ ih
    rw [split, ih]
    exact Nat.forall_lt_succ_right.symm

/-- `while`, for a condition that changes the state itself: a turn goes on from the left and
    leaves the loop to the right. Without fuel it has not come to its end. -/
def whileLoop {ω : Type*} (turn : σ → σ ⊕ ω) : (fuel : ℕ) → σ → Option ω
  | 0, _ => none
  | fuel + 1, s =>
    match turn s with
    | .inl next => whileLoop turn fuel next
    | .inr out => some out

/-- The rule for total correctness: a turn keeps the invariant and lowers the rank, and what
    leaves the loop is right. Any fuel above the rank will do. -/
theorem whileLoop_ends {ω : Type*} {turn : σ → σ ⊕ ω} {I : σ → Prop} {Q : ω → Prop} (rank : σ → ℕ)
    (again : ∀ s next, I s → turn s = .inl next → I next ∧ rank next < rank s)
    (done : ∀ s out, I s → turn s = .inr out → Q out) {s : σ} (start : I s) {fuel : ℕ}
    (enough : rank s < fuel) : ∃ out, whileLoop turn fuel s = some out ∧ Q out := by
  induction fuel generalizing s with
  | zero => omega
  | succ fuel ih =>
    unfold whileLoop
    cases h : turn s with
    | inl next =>
      obtain ⟨kept, lower⟩ := again s next start h
      exact ih kept (by omega)
    | inr out => exact ⟨out, rfl, done s out start h⟩

abbrev Buffer (α : Type*) := ℕ → α

/-- `std::copy_n(v, len, b + start)`. -/
def copy (b : Buffer α) (start len : ℕ) (v : ℕ → α) : Buffer α := fun k =>
  if start ≤ k ∧ k < start + len then v (k - start) else b k

theorem copy_at (b : Buffer α) (start : ℕ) {len d : ℕ} (v : ℕ → α) (h : d < len) :
    copy b start len v (start + d) = v d := by
  unfold copy
  rw [if_pos (by omega), Nat.add_sub_cancel_left]

theorem copy_other (b : Buffer α) {start len k : ℕ} (v : ℕ → α)
    (h : ¬ (start ≤ k ∧ k < start + len)) : copy b start len v k = b k := if_neg h

theorem copy_within (b : Buffer α) (start len d : ℕ) (v : ℕ → α) :
    copy b start len v (start + d) = if d < len then v d else b (start + d) := by
  by_cases h : d < len
  · rw [if_pos h, copy_at b start v h]
  · rw [if_neg h, copy_other b v (by omega)]

theorem row_apart {dim i j d : ℕ} (hij : i ≠ j) (hd : d < dim) :
    ¬ (j * dim ≤ i * dim + d ∧ i * dim + d < j * dim + dim) := by
  rintro ⟨low, high⟩
  rcases Nat.lt_or_gt_of_ne hij with lt | lt
  · have step : (i + 1) * dim ≤ j * dim := Nat.mul_le_mul_right _ lt
    rw [Nat.add_mul] at step
    omega
  · have step : (j + 1) * dim ≤ i * dim := Nat.mul_le_mul_right _ lt
    rw [Nat.add_mul] at step
    omega

theorem copy_row_self (b : Buffer α) (i : ℕ) {dim d : ℕ} (v : ℕ → α) (hd : d < dim) :
    copy b (i * dim) dim v (i * dim + d) = v d := copy_at b (i * dim) v hd

theorem copy_row_other (b : Buffer α) {i j dim d len : ℕ} (v : ℕ → α) (fits : len ≤ dim)
    (hij : i ≠ j) (hd : d < dim) : copy b (j * dim) len v (i * dim + d) = b (i * dim + d) :=
  copy_other b v fun h => row_apart hij hd ⟨h.1, by omega⟩

section
variable {dim rows : ℕ} {body : ℕ → Buffer α → Buffer α}

theorem forRange_row_other {i : ℕ} {g : ℕ → ℕ}
    (only : ∀ r b j d, r < rows → d < dim → j ≠ g r → body r b (j * dim + d) = b (j * dim + d))
    (apart : ∀ r, r < rows → i ≠ g r) (b : Buffer α) {d : ℕ} (hd : d < dim) :
    forRange rows body b (i * dim + d) = b (i * dim + d) := by
  refine forRange_invariant (fun _ (b' : Buffer α) => b' (i * dim + d) = b (i * dim + d)) rfl ?_
  intro r b' hr h
  rw [only r b' i d hr hd (apart r hr), h]

/-- Where round `r` alone is about row `g r`, it leaves there what it does to the
    row as it was before the loop. -/
theorem forRange_row {g : ℕ → ℕ} {f : ℕ → (ℕ → α) → ℕ → α}
    (only : ∀ r b j d, r < rows → d < dim → j ≠ g r → body r b (j * dim + d) = b (j * dim + d))
    (at_row : ∀ r b d, r < rows → d < dim →
      body r b (g r * dim + d) = f r (fun d => b (g r * dim + d)) d)
    (congr : ∀ r v w d, r < rows → d < dim → (∀ e, e < dim → v e = w e) →
      f r v d = f r w d)
    (inj : ∀ r s, r < rows → s < rows → g r = g s → r = s)
    (b : Buffer α) {r d : ℕ} (hr : r < rows) (hd : d < dim) :
    forRange rows body b (g r * dim + d) =
      f r (fun d => b (g r * dim + d)) d := by
  induction rows with
  | zero => omega
  | succ n ih =>
    rw [forRange_succ]
    by_cases hrn : r = n
    · subst hrn
      have before : ∀ e, e < dim →
          forRange r body b (g r * dim + e) = b (g r * dim + e) := fun e he =>
        forRange_row_other (fun s => fun b j d hs => only s b j d (by omega))
          (fun s hs h => by have := inj r s (by omega) (by omega) h; omega) b he
      rw [at_row r _ d (by omega) hd]
      exact congr r _ _ d (by omega) hd before
    · have apart : g r ≠ g n := fun h => hrn (inj r n hr (by omega) h)
      rw [only n _ _ d (by omega) hd apart]
      exact ih (fun s b j d hs => only s b j d (by omega))
        (fun s b d hs => at_row s b d (by omega)) (fun s v w d hs => congr s v w d (by omega))
        (fun s t hs ht => inj s t (by omega) (by omega)) (by omega)

theorem forRange_copy_row {g : ℕ → ℕ} (v : ℕ → ℕ → α)
    (inj : ∀ r s, r < rows → s < rows → g r = g s → r = s)
    (b : Buffer α) {r d : ℕ} (hr : r < rows) (hd : d < dim) :
    forRange rows (fun r b => copy b (g r * dim) dim (v r)) b (g r * dim + d) = v r d :=
  forRange_row (f := fun r _ => v r)
    (fun _ b _ _ _ hd hj => copy_row_other b _ (Nat.le_refl _) hj hd)
    (fun _ b _ _ hd => copy_row_self b _ _ hd) (fun _ _ _ _ _ _ _ => rfl) inj b hr hd

theorem forRange_copy_other {g : ℕ → ℕ} (v : ℕ → ℕ → α) {i : ℕ}
    (apart : ∀ r, r < rows → i ≠ g r) (b : Buffer α) {d : ℕ} (hd : d < dim) :
    forRange rows (fun r b => copy b (g r * dim) dim (v r)) b (i * dim + d) =
      b (i * dim + d) :=
  forRange_row_other (fun _ b _ _ _ hd hj => copy_row_other b _ (Nat.le_refl _) hj hd) apart b hd

end
end CyborgdbEmbed.Loops

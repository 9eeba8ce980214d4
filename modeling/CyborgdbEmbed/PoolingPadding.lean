import CyborgdbEmbed.PoolingExact

set_option autoImplicit false

namespace CyborgdbEmbed
open Loops ExactFloat

def AllPadding (mask : Buffer ℕ) (width r : ℕ) : Prop := ∀ t, t < width → mask (r * width + t) = 0

section
variable (hidden : Buffer ℝ) (mask : Buffer ℕ) (width dim r : ℕ)

theorem marked_eq_empty_iff :
    marked (fun t => mask (r * width + t)) width = ∅ ↔ AllPadding mask width r := by
  simp [marked, AllPadding, Finset.filter_eq_empty_iff]

theorem reduced_allPadding (h : AllPadding mask width r) (mode : Pooling) (d : ℕ) :
    reduced (fun k => hidden (r * width * dim + k))
        (marked (fun t => mask (r * width + t)) width) dim mode d =
      match mode with
      | .clsToken => (hidden (r * width * dim + d) : WithBot ℝ)
      | .maxTokens => ⊥
      | .meanTokens => (0 : ℝ) := by
  rw [(marked_eq_empty_iff mask width r).mpr h]
  cases mode with
  | clsToken => rfl
  | maxTokens => rfl
  | meanTokens => simp [reduced]

end

/-- Every row that is all padding pools to zero, and after normalisation every value
    is finite. -/
def PaddingHarmless (hidden : Buffer ℝ) (mask : Buffer ℕ) (rows width dim : ℕ) (mode : Pooling)
    (out : Buffer ExactFloat) : Prop :=
  let pooled := pool (fun k => real (hidden k)) mask rows width dim mode out
  ∀ r d, r < rows → d < dim →
    (AllPadding mask width r → pooled (r * dim + d) = real 0) ∧
      (l2Normalize pooled rows dim (r * dim + d)).isFinite = true

theorem padding_harmless_iff (hidden : Buffer ℝ) (mask : Buffer ℕ) (rows width dim : ℕ)
    (mode : Pooling) (out : Buffer ExactFloat) :
    PaddingHarmless hidden mask rows width dim mode out ↔
      mode = .meanTokens ∨ ∀ r d, r < rows → d < dim → AllPadding mask width r →
        mode = .clsToken ∧ hidden (r * width * dim + d) = 0 := by
  have pooled : ∀ r d, r < rows → d < dim →
      pool (fun k => real (hidden k)) mask rows width dim mode out (r * dim + d) =
        ofWithBot (reduced (fun k => hidden (r * width * dim + k))
          (marked (fun t => mask (r * width + t)) width) dim mode d) := by
    intro r d hr hd
    rw [pool_row _ _ _ _ _ hr hd]
    exact poolRow_real (fun k => hidden (r * width * dim + k)) _ width dim d mode
  constructor
  · intro h
    cases mode with
    | meanTokens => exact .inl rfl
    | clsToken =>
      refine .inr fun r d hr hd padded => ⟨rfl, ?_⟩
      have zero := (h r d hr hd).1 padded
      rw [pooled r d hr hd] at zero
      exact ExactFloat.real.inj zero
    | maxTokens =>
      refine .inr fun r d hr hd padded => ?_
      have zero := (h r d hr hd).1 padded
      rw [pooled r d hr hd, reduced_allPadding hidden mask width dim r padded] at zero
      cases zero
  · intro h r d hr hd
    constructor
    · intro padded
      rw [pooled r d hr hd, reduced_allPadding hidden mask width dim r padded]
      cases mode with
      | meanTokens => rfl
      | clsToken =>
        have zero := (h.resolve_left nofun r d hr hd padded).2
        simp only [zero]
        rfl
      | maxTokens => exact absurd (h.resolve_left nofun r d hr hd padded).1 nofun
    · have nonempty : mode = .maxTokens →
          (marked (fun t => mask (r * width + t)) width).Nonempty := by
        intro hmax
        rw [Finset.nonempty_iff_ne_empty]
        intro hempty
        have padded := (marked_eq_empty_iff mask width r).mp hempty
        subst hmax
        exact absurd (h.resolve_left nofun r d hr hd padded).1 nofun
      rw [l2Normalize_row _ hr hd, normalizeRow_real (v := reducedReal
        (fun k => hidden (r * width * dim + k))
        (marked (fun t => mask (r * width + t)) width) dim mode) ?_ hd]
      · rfl
      · intro e he
        rw [pooled r e hr he, reduced_eq_coe _ _ _ _ _ nonempty]
        rfl

/-- One row whose only position is padding: the first token goes through, and the
    maximum becomes NaN. -/
theorem padding_not_harmless :
    ¬ PaddingHarmless (fun _ => 1) (fun _ => 0) 1 1 1 .clsToken (fun _ => real 0) ∧
    ¬ PaddingHarmless (fun _ => 1) (fun _ => 0) 1 1 1 .maxTokens (fun _ => real 0) ∧
    l2Normalize (pool (fun _ => real 1) (fun _ => 0) 1 1 1 .maxTokens fun _ => real 0) 1 1 0 =
      .nan := by
  refine ⟨?_, ?_, ?_⟩
  · intro h
    have zero := (h 0 0 Nat.one_pos Nat.one_pos).1 fun _ _ => rfl
    exact one_ne_zero (ExactFloat.real.inj zero)
  · intro h
    have zero := (h 0 0 Nat.one_pos Nat.one_pos).1 fun _ _ => rfl
    cases zero
  · rfl

end CyborgdbEmbed

import Mathlib.Algebra.BigOperators.Group.Finset.Basic
import Mathlib.Analysis.Real.Sqrt
import Mathlib.Order.WithBot

set_option autoImplicit false

/-!
# Exact arithmetic with infinities and NaN

The operations follow the floating-point standard without its rounding and with one
zero: an operation that has no meaning gives NaN, and no comparison with NaN holds.
-/
namespace CyborgdbEmbed

inductive ExactFloat where
  | real (x : ℝ)
  | posInf
  | negInf
  | nan

namespace ExactFloat

def isFinite : ExactFloat → Bool
  | real _ => true
  | _ => false

def isNaN : ExactFloat → Bool
  | nan => true
  | _ => false

/-- The infinity with the sign of `x`, and NaN where `x` is zero. -/
noncomputable def infinity (x : ℝ) : ExactFloat :=
  if 0 < x then posInf else if x < 0 then negInf else nan

noncomputable def add : ExactFloat → ExactFloat → ExactFloat
  | real x, real y => real (x + y)
  | nan, _ | _, nan => nan
  | posInf, negInf | negInf, posInf => nan
  | posInf, _ | _, posInf => posInf
  | negInf, _ | _, negInf => negInf

noncomputable def mul : ExactFloat → ExactFloat → ExactFloat
  | real x, real y => real (x * y)
  | nan, _ | _, nan => nan
  | posInf, real x | real x, posInf => infinity x
  | negInf, real x | real x, negInf => infinity (-x)
  | posInf, posInf | negInf, negInf => posInf
  | posInf, negInf | negInf, posInf => negInf

noncomputable def div : ExactFloat → ExactFloat → ExactFloat
  | real x, real y => if y = 0 then infinity x else real (x / y)
  | nan, _ | _, nan => nan
  | real _, _ => real 0
  | posInf, real y => if y < 0 then negInf else posInf
  | negInf, real y => if y < 0 then posInf else negInf
  | _, _ => nan

noncomputable def sqrt : ExactFloat → ExactFloat
  | real x => if x < 0 then nan else real (Real.sqrt x)
  | posInf => posInf
  | _ => nan

noncomputable def lt : ExactFloat → ExactFloat → Bool
  | real x, real y => decide (x < y)
  | nan, _ | _, nan => false
  | negInf, y => match y with
    | negInf => false
    | _ => true
  | real _, posInf => true
  | _, _ => false

noncomputable def le : ExactFloat → ExactFloat → Bool
  | real x, real y => decide (x ≤ y)
  | nan, _ | _, nan => false
  | negInf, _ => true
  | _, posInf => true
  | _, _ => false

def neg : ExactFloat → ExactFloat
  | real x => real (-x)
  | posInf => negInf
  | negInf => posInf
  | nan => nan

noncomputable def sub (a b : ExactFloat) : ExactFloat := add a (neg b)

noncomputable def abs : ExactFloat → ExactFloat
  | real x => real |x|
  | nan => nan
  | _ => posInf

/-- The numbers that a running maximum started at minus infinity goes through. -/
def ofWithBot : WithBot ℝ → ExactFloat
  | ⊥ => negInf
  | (x : ℝ) => real x

@[simp] theorem add_real (x y : ℝ) : add (real x) (real y) = real (x + y) := rfl

@[simp] theorem mul_real (x y : ℝ) : mul (real x) (real y) = real (x * y) := rfl

@[simp] theorem lt_real (x y : ℝ) : lt (real x) (real y) = decide (x < y) := rfl

@[simp] theorem le_real (x y : ℝ) : le (real x) (real y) = decide (x ≤ y) := rfl

@[simp] theorem sub_real (x y : ℝ) : sub (real x) (real y) = real (x - y) := by
  rw [sub_eq_add_neg]
  rfl

@[simp] theorem abs_real (x : ℝ) : abs (real x) = real |x| := rfl

section
variable (x : ExactFloat)

@[simp] theorem add_nan : add x nan = nan := by cases x <;> rfl

@[simp] theorem nan_add : add nan x = nan := by cases x <;> rfl

@[simp] theorem mul_nan : mul x nan = nan := by cases x <;> rfl

@[simp] theorem div_nan : div x nan = nan := by cases x <;> rfl

@[simp] theorem nan_div : div nan x = nan := by cases x <;> rfl

@[simp] theorem sub_nan : sub x nan = nan := add_nan x

@[simp] theorem lt_nan : lt x nan = false := by cases x <;> rfl

@[simp] theorem le_nan : le x nan = false := by cases x <;> rfl

@[simp] theorem nan_lt : lt nan x = false := by cases x <;> rfl

end

@[simp] theorem abs_nan : abs nan = nan := rfl

theorem div_real (x : ℝ) {y : ℝ} (h : y ≠ 0) : div (real x) (real y) = real (x / y) := if_neg h

theorem sqrt_real {x : ℝ} (h : 0 ≤ x) : sqrt (real x) = real (Real.sqrt x) :=
  if_neg (not_lt.mpr h)

theorem lt_ofWithBot (a b : WithBot ℝ) : lt (ofWithBot a) (ofWithBot b) = true ↔ a < b := by
  induction a with
  | bot =>
    induction b with
    | bot => simp [ofWithBot, lt]
    | coe y => simp [ofWithBot, lt]
  | coe x =>
    induction b with
    | bot => simp [ofWithBot, lt]
    | coe y => simp [ofWithBot]

end ExactFloat
end CyborgdbEmbed

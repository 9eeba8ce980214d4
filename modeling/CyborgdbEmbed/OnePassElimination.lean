import Mathlib.Order.WellFoundedSet
import Mathlib.Tactic.Common

set_option autoImplicit false

namespace CyborgdbEmbed.OnePassElimination

variable {α : Type*} {r : α → α → Prop} {family todo dropped : List α} {a b : α}

/-- Above everything that is below something stands an element that is below nothing. -/
theorem exists_top [IsStrictOrder α r] (ha : ∃ b ∈ family, r a b) :
    ∃ m ∈ family, r a m ∧ ∀ c ∈ family, ¬ r m c := by
  have wf : ({b | b ∈ family} : Set α).WellFoundedOn (Function.swap r) :=
    Set.Finite.wellFoundedOn (List.finite_toSet family)
  obtain ⟨b, hb, hab⟩ := ha
  refine wf.induction (P := fun b => r a b → ∃ m ∈ family, r a m ∧ ∀ c ∈ family, ¬ r m c) hb ?_ hab
  intro b hb higher hab
  by_cases top : ∀ c ∈ family, ¬ r b c
  · exact ⟨b, hb, hab, top⟩
  · push Not at top
    obtain ⟨c, hc, hbc⟩ := top
    exact higher c hc hbc (IsTrans.trans a b c hab hbc)

variable (r) in
def Sound (family dropped : List α) : Prop := ∀ a ∈ dropped, ∃ b ∈ family, r a b

variable [DecidableEq α] [DecidableRel r]

def sweep (r : α → α → Prop) [DecidableRel r] (family : List α) : List α → List α → List α
  | [], dropped => dropped
  | a :: todo, dropped =>
    if ∃ b ∈ family, b ∉ dropped ∧ r a b then sweep r family todo (a :: dropped)
    else sweep r family todo dropped

theorem mem_sweep_of_mem (h : a ∈ dropped) : a ∈ sweep r family todo dropped := by
  induction todo generalizing dropped with
  | nil => exact h
  | cons c todo ih =>
    unfold sweep
    split
    · exact ih (List.mem_cons_of_mem c h)
    · exact ih h

theorem sweep_sound (h : Sound r family dropped) :
    Sound r family (sweep r family todo dropped) := by
  induction todo generalizing dropped with
  | nil => exact h
  | cons c todo ih =>
    unfold sweep
    split
    · rename_i found
      obtain ⟨b, hb, -, hcb⟩ := found
      exact ih (List.forall_mem_cons.mpr ⟨⟨b, hb, hcb⟩, h⟩)
    · exact ih h

/-- The element at the top is never dropped, so whoever is visited below it is. -/
theorem sweep_complete [IsStrictOrder α r] (h : Sound r family dropped) (ha : a ∈ todo)
    (below : ∃ b ∈ family, r a b) : a ∈ sweep r family todo dropped := by
  induction todo generalizing dropped with
  | nil => exact absurd ha List.not_mem_nil
  | cons c todo ih =>
    unfold sweep
    cases List.mem_cons.mp ha with
    | inl here =>
      subst here
      obtain ⟨m, hm, ham, top⟩ := exists_top below
      have kept : m ∉ dropped := by
        intro hd
        obtain ⟨b, hb, hmb⟩ := h m hd
        exact top b hb hmb
      rw [if_pos ⟨m, hm, kept, ham⟩]
      exact mem_sweep_of_mem List.mem_cons_self
    | inr later =>
      split
      · rename_i found
        obtain ⟨b, hb, -, hcb⟩ := found
        exact ih (List.forall_mem_cons.mpr ⟨⟨b, hb, hcb⟩, h⟩) later
      · exact ih h later

theorem mem_sweep_iff [IsStrictOrder α r] (all : ∀ a ∈ family, a ∈ todo) (ha : a ∈ family) :
    a ∈ sweep r family todo [] ↔ ∃ b ∈ family, r a b := by
  have empty : Sound r family [] := fun a ha => absurd ha List.not_mem_nil
  exact ⟨fun h => sweep_sound empty a h, fun h => sweep_complete empty (all a ha) h⟩

end CyborgdbEmbed.OnePassElimination

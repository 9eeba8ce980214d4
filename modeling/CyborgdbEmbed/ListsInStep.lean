import Mathlib.Data.List.Basic
import Mathlib.Data.List.Forall2
import Mathlib.Data.List.Induction
import Mathlib.Tactic.Common

set_option autoImplicit false

namespace CyborgdbEmbed.ListsInStep

variable {α β γ δ : Type*}

theorem exists_left {R : α → β → Prop} {xs : List α} {ys : List β} (h : List.Forall₂ R xs ys)
    {y : β} (hy : y ∈ ys) : ∃ x ∈ xs, R x y := by
  induction h with
  | nil => exact absurd hy List.not_mem_nil
  | @cons x y' xs ys hxy _ ih =>
    cases List.mem_cons.mp hy with
    | inl same => exact ⟨x, List.mem_cons_self, same ▸ hxy⟩
    | inr later =>
      obtain ⟨x', hx', related⟩ := ih later
      exact ⟨x', List.mem_cons_of_mem x hx', related⟩

theorem getElem_rel {R : α → β → Prop} {xs : List α} {ys : List β} (h : List.Forall₂ R xs ys)
    {i : ℕ} {x : α} {y : β} (hx : xs[i]? = some x) (hy : ys[i]? = some y) : R x y := by
  obtain ⟨hi, rfl⟩ := List.getElem?_eq_some_iff.mp hx
  obtain ⟨hi', rfl⟩ := List.getElem?_eq_some_iff.mp hy
  exact h.get hi hi'

theorem lookup_rel [BEq α] {R : β → γ → Prop} {xs : List (α × β)} {ys : List (α × γ)}
    (h : List.Forall₂ (fun x y => x.1 = y.1 ∧ R x.2 y.2) xs ys) (key : α) :
    Option.Rel R (xs.lookup key) (ys.lookup key) := by
  induction h with
  | nil => exact .none
  | cons hxy _ ih =>
    obtain ⟨same, related⟩ := hxy
    rw [List.lookup_cons, List.lookup_cons, same]
    split
    · exact .some related
    · exact ih

theorem numbered {R : α × ℕ → β → Prop} {S : α → γ → Prop} {T : β → δ → Prop} {g : ℕ → γ → δ}
    (step : ∀ x n y z, R (x, n) y → S x z → T y (g n z)) {xs : List α} {ys : List β} {zs : List γ}
    {start : ℕ} (h : List.Forall₂ R (xs.zipIdx start) ys) (h' : List.Forall₂ S xs zs) :
    List.Forall₂ T ys ((zs.zipIdx start).map fun p => g p.2 p.1) := by
  induction h' generalizing start ys with
  | nil =>
    cases h
    exact .nil
  | cons hxz _ ih =>
    rw [List.zipIdx_cons] at h ⊢
    cases h with
    | cons hxy rest => exact .cons (step _ _ _ _ hxy hxz) (ih rest)

theorem numbered_mapIdx {R : α × ℕ → β → Prop} {S : α → γ → Prop} {T : β → δ → Prop}
    {g : ℕ → γ → δ} (step : ∀ x n y z, R (x, n) y → S x z → T y (g n z)) {xs : List α}
    {ys : List β} {zs : List γ} (h : List.Forall₂ R xs.zipIdx ys) (h' : List.Forall₂ S xs zs) :
    List.Forall₂ T ys (zs.mapIdx g) := by
  rw [List.mapIdx_eq_zipIdx_map]
  exact numbered step h h'

theorem numbered_map {R : α × ℕ → β → Prop} {S : α → γ → Prop} {T : β → δ → Prop} {g : γ → δ}
    (step : ∀ x n y z, R (x, n) y → S x z → T y (g z)) {xs : List α} {ys : List β} {zs : List γ}
    (h : List.Forall₂ R xs.zipIdx ys) (h' : List.Forall₂ S xs zs) :
    List.Forall₂ T ys (zs.map g) := by
  have plain : (zs.zipIdx.map fun p => g p.1) = zs.map g := by
    have same := congrArg (List.map g) (List.zipIdx_map_fst 0 zs)
    rwa [List.map_map] at same
  rw [← plain]
  exact numbered (g := fun _ => g) step h h'

theorem zipIdx_filter (p : α → Bool) (xs : List α) (start : ℕ) :
    (xs.filter p).zipIdx start =
      (xs.zipIdx.filter fun q => p q.1).map fun q => (q.1, start + (xs.take q.2).countP p) := by
  induction xs using List.reverseRecOn with
  | nil => rfl
  | append_singleton xs x ih =>
    have front : ((xs.zipIdx.filter fun q => p q.1).map fun q =>
        (q.1, start + ((xs ++ [x]).take q.2).countP p)) =
        (xs.zipIdx.filter fun q => p q.1).map fun q => (q.1, start + (xs.take q.2).countP p) := by
      refine List.map_congr_left fun q hq => ?_
      have small := List.snd_lt_of_mem_zipIdx (List.mem_filter.mp hq).1
      rw [List.take_append_of_le_length (by omega)]
    rw [List.filter_append, List.zipIdx_append, ih, List.zipIdx_append, List.filter_append,
      List.map_append, front]
    cases hx : p x with
    | false => simp [hx]
    | true => simp [hx, List.countP_eq_length_filter]

end CyborgdbEmbed.ListsInStep

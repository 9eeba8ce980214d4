import Mathlib.Data.List.Basic
import Mathlib.Data.List.Forall2
import Mathlib.Tactic.Common

set_option autoImplicit false

namespace CyborgdbEmbed.Fallible

variable {ε α β γ δ : Type}

theorem bind_ok {x : Except ε α} {f : α → Except ε β} {b : β} (h : (x >>= f) = .ok b) :
    ∃ a, x = .ok a ∧ f a = .ok b := by
  cases x with
  | error e => cases h
  | ok a => exact ⟨a, rfl, h⟩

theorem mapM_ok_cons {f : α → Except ε β} {x : α} {xs : List α} {zs : List β}
    (h : (x :: xs).mapM f = .ok zs) : ∃ y ys, f x = .ok y ∧ xs.mapM f = .ok ys ∧ zs = y :: ys := by
  rw [List.mapM_cons] at h
  obtain ⟨y, hy, h⟩ := bind_ok h
  obtain ⟨ys, hys, h⟩ := bind_ok h
  exact ⟨y, ys, hy, hys, (Except.ok.inj h).symm⟩

theorem mapM_ok {f : α → Except ε β} {g : α → Except ε γ} {p : β → γ}
    (hfg : ∀ x y, f x = .ok y → g x = .ok (p y)) {xs : List α} {ys : List β}
    (h : xs.mapM f = .ok ys) : xs.mapM g = .ok (ys.map p) := by
  induction xs generalizing ys with
  | nil =>
    obtain rfl : [] = ys := Except.ok.inj h
    rfl
  | cons x xs ih =>
    obtain ⟨y, zs, hy, hzs, rfl⟩ := mapM_ok_cons h
    rw [List.mapM_cons, hfg x y hy, ih hzs]
    rfl

theorem mapM_ok_getElem {f : α → Except ε β} {xs : List α} {ys : List β}
    (h : xs.mapM f = .ok ys) {i : ℕ} {x : α} (hi : xs[i]? = some x) :
    ∃ y, ys[i]? = some y ∧ f x = .ok y := by
  induction xs generalizing ys i with
  | nil => cases hi
  | cons x' xs ih =>
    obtain ⟨y, zs, hy, hzs, rfl⟩ := mapM_ok_cons h
    cases i with
    | zero =>
      obtain rfl : x' = x := Option.some.inj hi
      exact ⟨y, rfl, hy⟩
    | succ i => exact ih hzs hi

theorem mapM_ok_mem {f : α → Except ε β} {xs : List α} {ys : List β} (h : xs.mapM f = .ok ys) :
    (∀ x ∈ xs, ∃ y ∈ ys, f x = .ok y) ∧ ∀ y ∈ ys, ∃ x ∈ xs, f x = .ok y := by
  induction xs generalizing ys with
  | nil =>
    obtain rfl : [] = ys := Except.ok.inj h
    exact ⟨fun _ h => absurd h List.not_mem_nil, fun _ h => absurd h List.not_mem_nil⟩
  | cons x xs ih =>
    obtain ⟨y, zs, hy, hzs, rfl⟩ := mapM_ok_cons h
    obtain ⟨forth, back⟩ := ih hzs
    simp only [List.forall_mem_cons, List.exists_mem_cons_iff]
    exact ⟨⟨.inl hy, fun x hx => .inr (forth x hx)⟩, .inl hy, fun y hy => .inr (back y hy)⟩

theorem mapM_ok_iff {f : α → Except ε β} {xs : List α} :
    (∃ ys, xs.mapM f = .ok ys) ↔ ∀ x ∈ xs, ∃ y, f x = .ok y := by
  constructor
  · rintro ⟨ys, h⟩ x hx
    obtain ⟨y, -, hy⟩ := (mapM_ok_mem h).1 x hx
    exact ⟨y, hy⟩
  · intro h
    induction xs with
    | nil => exact ⟨[], rfl⟩
    | cons x xs ih =>
      obtain ⟨y, hy⟩ := h x List.mem_cons_self
      obtain ⟨ys, hys⟩ := ih fun x hx => h x (List.mem_cons_of_mem _ hx)
      refine ⟨y :: ys, ?_⟩
      rw [List.mapM_cons, hy, hys]
      rfl

theorem mapM_error {f : α → Except ε β} {xs : List α} {e : ε} (h : xs.mapM f = .error e) :
    ∃ x ∈ xs, f x = .error e := by
  induction xs with
  | nil => cases h
  | cons x xs ih =>
    rw [List.mapM_cons] at h
    cases hx : f x with
    | error e' =>
      rw [hx] at h
      obtain rfl : e' = e := Except.error.inj h
      exact ⟨x, List.mem_cons_self, hx⟩
    | ok y =>
      cases hxs : xs.mapM f with
      | error e' =>
        rw [hx, hxs] at h
        obtain rfl : e' = e := Except.error.inj h
        obtain ⟨z, hz, hfz⟩ := ih hxs
        exact ⟨z, List.mem_cons_of_mem _ hz, hfz⟩
      | ok ys =>
        rw [hx, hxs] at h
        cases h

theorem mapM_some {f : α → Option β} {g : γ → Option δ} {q : α → γ} {p : β → δ}
    (hfg : ∀ x y, f x = some y → g (q x) = some (p y)) {xs : List α} {ys : List β}
    (h : xs.mapM f = some ys) : (xs.map q).mapM g = some (ys.map p) := by
  induction xs generalizing ys with
  | nil =>
    obtain rfl : [] = ys := Option.some.inj h
    rfl
  | cons x xs ih =>
    rw [List.mapM_cons] at h
    obtain ⟨y, hy, h⟩ := Option.bind_eq_some_iff.mp h
    obtain ⟨zs, hzs, h⟩ := Option.bind_eq_some_iff.mp h
    obtain rfl : y :: zs = ys := Option.some.inj h
    rw [List.map_cons, List.mapM_cons, hfg x y hy, ih hzs]
    rfl

theorem mapM_some_forall₂ {f : α → Option β} {xs : List α} {ys : List β}
    (h : xs.mapM f = some ys) : List.Forall₂ (fun x y => f x = some y) xs ys := by
  induction xs generalizing ys with
  | nil =>
    obtain rfl : [] = ys := Option.some.inj h
    exact .nil
  | cons x xs ih =>
    rw [List.mapM_cons] at h
    obtain ⟨y, hy, h⟩ := Option.bind_eq_some_iff.mp h
    obtain ⟨zs, hzs, h⟩ := Option.bind_eq_some_iff.mp h
    obtain rfl : y :: zs = ys := Option.some.inj h
    exact .cons hy (ih hzs)

theorem mapM_map_ok {f : β → Except ε γ} {p : α → β} {q : α → γ} (h : ∀ x, f (p x) = .ok (q x))
    (xs : List α) : (xs.map p).mapM f = .ok (xs.map q) := by
  induction xs with
  | nil => rfl
  | cons x xs ih =>
    rw [List.map_cons, List.mapM_cons, h, ih]
    rfl

theorem mapM_map_some {f : β → Option γ} {p : α → β} {q : α → γ} (h : ∀ x, f (p x) = some (q x))
    (xs : List α) : (xs.map p).mapM f = some (xs.map q) := by
  induction xs with
  | nil => rfl
  | cons x xs ih =>
    rw [List.map_cons, List.mapM_cons, h, ih]
    rfl

end CyborgdbEmbed.Fallible

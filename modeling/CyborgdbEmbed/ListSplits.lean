import Mathlib.Data.List.Induction
import Mathlib.Data.List.TakeWhile
import Mathlib.Tactic.Common

set_option autoImplicit false

namespace CyborgdbEmbed.ListSplits

variable {α : Type*} {p : α → Bool} {run rest : List α} {c : α}

theorem takeWhile_run (all : ∀ x ∈ run, p x = true) (stop : p c = false) :
    (run ++ c :: rest).takeWhile p = run := by
  rw [List.takeWhile_append_of_pos all, List.takeWhile_cons_of_neg (by rw [stop]; nofun),
    List.append_nil]

theorem dropWhile_run (all : ∀ x ∈ run, p x = true) (stop : p c = false) :
    (run ++ c :: rest).dropWhile p = c :: rest := by
  rw [List.dropWhile_append_of_pos all, List.dropWhile_cons_of_neg (by rw [stop]; nofun)]

theorem run_or_stop (p : α → Bool) (l : List α) : (∀ x ∈ l, p x = true) ∨
    ∃ run c rest, l = run ++ c :: rest ∧ (∀ x ∈ run, p x = true) ∧ p c = false := by
  have whole := List.takeWhile_append_dropWhile (p := p) (l := l)
  have all : ∀ x ∈ l.takeWhile p, p x = true := fun x hx => List.mem_takeWhile_imp hx
  cases hrest : l.dropWhile p with
  | nil =>
    left
    rw [hrest, List.append_nil] at whole
    rwa [whole] at all
  | cons c rest =>
    right
    have stop := List.head?_dropWhile_not p l
    rw [hrest] at stop whole
    exact ⟨l.takeWhile p, c, rest, whole.symm, all, stop⟩

section
variable [BEq α] [LawfulBEq α] {x : α} {l tail before before' after after' : List α}

theorem ne_of_not_mem (h : x ∉ l) : ∀ c ∈ l, (c != x) = true := by
  intro c hc
  refine bne_iff_ne.mpr ?_
  rintro rfl
  exact h hc

theorem split_inj (h : x ∉ before) (h' : x ∉ before')
    (same : before ++ x :: after = before' ++ x :: after') :
    before = before' ∧ after = after' := by
  have stop : (x != x) = false := bne_self_eq_false x
  have first := congrArg (List.takeWhile (· != x)) same
  rw [takeWhile_run (ne_of_not_mem h) stop, takeWhile_run (ne_of_not_mem h') stop] at first
  rw [first] at same
  exact ⟨first, (List.cons.inj (List.append_cancel_left same)).2⟩

theorem afterLast_eq_iff : (l.reverse.takeWhile (· != x)).reverse = tail ↔
    x ∉ tail ∧ (l = tail ∨ ∃ before, l = before ++ x :: tail) := by
  constructor
  · rintro rfl
    refine ⟨fun h => ?_, ?_⟩
    · have := List.mem_takeWhile_imp (List.mem_reverse.mp h)
      simp at this
    · cases run_or_stop (· != x) l.reverse with
      | inl all =>
        left
        rw [List.takeWhile_eq_self_iff.mpr all, List.reverse_reverse]
      | inr stopped =>
        right
        obtain ⟨run, c, rest, split, all, stop⟩ := stopped
        obtain rfl : c = x := by simpa using stop
        refine ⟨rest.reverse, ?_⟩
        rw [split, takeWhile_run all stop, ← List.reverse_reverse l, split, List.reverse_append,
          List.reverse_cons, List.append_assoc]
        rfl
  · rintro ⟨hx, rfl | ⟨before, rfl⟩⟩
    · have all := ne_of_not_mem fun h => hx (List.mem_reverse.mp h)
      rw [List.takeWhile_eq_self_iff.mpr all, List.reverse_reverse]
    · have all := ne_of_not_mem fun h => hx (List.mem_reverse.mp h)
      rw [List.reverse_append, List.reverse_cons, List.append_assoc, List.singleton_append,
        takeWhile_run all (bne_self_eq_false x), List.reverse_reverse]

end

theorem lookup_reverse {α β : Type*} [BEq α] [LawfulBEq α] {l : List (α × β)} {k : α} {v : β} :
    l.reverse.lookup k = some v ↔
      ∃ before after, l = before ++ (k, v) :: after ∧ ∀ x ∈ after, x.1 ≠ k := by
  induction l using List.reverseRecOn with
  | nil =>
    refine iff_of_false nofun ?_
    rintro ⟨before, after, split, -⟩
    simp at split
  | append_singleton l x ih =>
    rw [List.reverse_concat, List.lookup_cons]
    by_cases h : k = x.1
    · rw [h, beq_self_eq_true]
      constructor
      · intro hv
        have same : x = (x.1, v) := Prod.ext rfl (Option.some.inj hv)
        exact ⟨l, [], by rw [← same], fun _ hy => absurd hy List.not_mem_nil⟩
      · rintro ⟨before, after, split, last⟩
        cases List.eq_nil_or_concat after with
        | inl none =>
          rw [none] at split
          have same := (List.append_inj' split rfl).2
          rw [List.singleton_inj] at same
          rw [same]
        | inr some =>
          obtain ⟨init, y, rfl⟩ := some
          rw [List.concat_eq_append, ← List.cons_append, ← List.append_assoc] at split
          have same := (List.append_inj' split rfl).2
          rw [List.singleton_inj] at same
          exact absurd (congrArg Prod.fst same).symm (last y (by simp))
    · rw [beq_false_of_ne h]
      refine ih.trans ⟨?_, ?_⟩
      · rintro ⟨before, after, rfl, last⟩
        refine ⟨before, after ++ [x], by simp, ?_⟩
        rw [List.forall_mem_append, List.forall_mem_singleton]
        exact ⟨last, Ne.symm h⟩
      · rintro ⟨before, after, split, last⟩
        cases List.eq_nil_or_concat after with
        | inl none =>
          rw [none] at split
          have same := (List.append_inj' split rfl).2
          rw [List.singleton_inj] at same
          exact absurd (congrArg Prod.fst same).symm h
        | inr some =>
          obtain ⟨init, y, rfl⟩ := some
          rw [List.concat_eq_append, ← List.cons_append, ← List.append_assoc] at split
          obtain ⟨rest, same⟩ := List.append_inj' split rfl
          exact ⟨before, init, rest, fun z hz => last z (by simp [hz])⟩

end CyborgdbEmbed.ListSplits

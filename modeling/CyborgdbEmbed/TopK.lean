import Mathlib.Data.List.Perm.Subperm
import Mathlib.Tactic.Common

set_option autoImplicit false

namespace CyborgdbEmbed.TopK

variable {ι : Type*} {before : ι → ι → Prop} {order order' : List ι} {k : ℕ}

theorem not_before (sorted : order.Pairwise fun x y => ¬ before y x) {x y : ι}
    (hx : x ∈ order.take k) (hy : y ∈ order.drop k) : ¬ before y x := by
  rw [← List.take_append_drop k order, List.pairwise_append] at sorted
  exact sorted.2.2 x hx y hy

theorem mem_drop_of_not_mem {x : ι} (hx : x ∈ order) (h : x ∉ order.take k) :
    x ∈ order.drop k := by
  rw [← List.take_append_drop k order, List.mem_append] at hx
  exact hx.resolve_left h

theorem mem_take_iff (nodup : order.Nodup) (perm : order'.Perm order)
    (sorted : order'.Pairwise fun x y => ¬ before y x)
    (gap : ∀ x ∈ order.take k, ∀ y ∈ order.drop k, before x y) (x : ι) :
    x ∈ order'.take k ↔ x ∈ order.take k := by
  have nodup' : order'.Nodup := perm.nodup_iff.mpr nodup
  have lengths : (order'.take k).length = (order.take k).length := by
    rw [List.length_take, List.length_take, perm.length_eq]
  have inside : order'.take k ⊆ order.take k := by
    intro y hy
    by_contra out
    have late : y ∈ order.drop k :=
      mem_drop_of_not_mem (perm.subset (List.mem_of_mem_take hy)) out
    -- everything that comes before `y` is among the first of the other list
    have all : order.take k ⊆ order'.take k := by
      intro z hz
      by_contra missing
      have late' : z ∈ order'.drop k :=
        mem_drop_of_not_mem (perm.symm.subset (List.mem_of_mem_take hz)) missing
      exact not_before sorted hy late' (gap z hz y late)
    have more : (y :: order.take k).Subperm (order'.take k) := by
      refine List.Nodup.subperm (List.nodup_cons.mpr ⟨out, nodup.sublist (List.take_sublist ..)⟩) ?_
      exact List.cons_subset.mpr ⟨hy, all⟩
    have longer := more.length_le
    rw [lengths, List.length_cons] at longer
    omega
  have same : (order'.take k).Perm (order.take k) :=
    ((nodup'.sublist (List.take_sublist ..)).subperm inside).perm_of_length_le (by omega)
  exact same.mem_iff

end CyborgdbEmbed.TopK

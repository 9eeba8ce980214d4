import CyborgdbEmbed.FileSystem

set_option autoImplicit false

namespace CyborgdbEmbed.FileSystem

/-- What a step leaves alone that works on `p` only. -/
structure Only (p : Path) (d d' : Disk) : Prop where
  same : ∀ q, q ≠ p → Disk.SameAt d d' q
  next : d.nextInode ≤ d'.nextInode
  -- a file with another name, or none, is not written and does not come to be called `p`
  others : ∀ i, i < d.nextInode → d.node p ≠ some (.file i) →
    d'.node p ≠ some (.file i) ∧ d'.content i = d.content i

section
variable {d d' : Disk} {p q : Path} {i j : ℕ}

theorem only_write (bytes : Bytes) (h : d.node p = some (.file i)) :
    Only p d (d.write i bytes) where
  same := fun _ hq => Disk.write_sameAt bytes h hq
  next := Nat.le_refl _
  others := fun j _ other => by
    refine ⟨other, Function.update_of_ne ?_ _ _⟩
    rintro rfl
    exact other h

theorem only_append (bytes : Bytes) (h : d.node p = some (.file i)) :
    Only p d (d.append i bytes) := only_write _ h

theorem only_unlink (d : Disk) (p : Path) : Only p d (d.unlink p) where
  same := fun _ hq => Disk.unlink_sameAt hq
  next := Nat.le_refl _
  others := fun j _ _ => by
    refine ⟨?_, rfl⟩
    change Function.update d.node p none p ≠ _
    rw [Function.update_self]
    nofun

theorem only_openTruncate (h : d.openTruncate p = some (d', i)) : Only p d d' := by
  refine ⟨fun q hq => Disk.openTruncate_sameAt h hq, ?_, ?_⟩
  · unfold Disk.openTruncate at h
    split at h
    · split at h
      · obtain ⟨rfl, -⟩ := Prod.mk.inj (Option.some.inj h)
        exact Nat.le_succ _
      · obtain ⟨rfl, -⟩ := Prod.mk.inj (Option.some.inj h)
        exact Nat.le_refl _
      · cases h
    · cases h
  · intro j old other
    unfold Disk.openTruncate at h
    split at h
    · split at h
      · obtain ⟨rfl, -⟩ := Prod.mk.inj (Option.some.inj h)
        have fresh : j ≠ d.nextInode := Nat.ne_of_lt old
        refine ⟨?_, Function.update_of_ne fresh _ _⟩
        change Function.update d.node p _ p ≠ _
        rw [Function.update_self]
        intro same
        exact fresh (Node.file.inj (Option.some.inj same)).symm
      · rename_i k hk
        obtain ⟨rfl, -⟩ := Prod.mk.inj (Option.some.inj h)
        exact (only_write [] hk).others j old other
      · cases h
    · cases h

/-- No name but `p` leads to this file. -/
structure Frozen (d : Disk) (p : Path) (i : ℕ) : Prop where
  allocated : i < d.nextInode
  named : ∀ q, d.node q = some (.file i) → q = p

theorem frozen_of_node (h : d.node p = some (.file i)) : Frozen d p i where
  allocated := d.allocated p i h
  named := fun q hq => d.oneName q p i hq h

theorem Frozen.only (frozen : Frozen d q i) (only : Only p d d') (other : p ≠ q) :
    Frozen d' q i ∧ d'.content i = d.content i := by
  have unnamed : d.node p ≠ some (.file i) := fun named => other (frozen.named p named)
  obtain ⟨still, content⟩ := only.others i frozen.allocated unnamed
  refine ⟨⟨Nat.lt_of_lt_of_le frozen.allocated only.next, fun r hr => ?_⟩, content⟩
  by_cases same : r = p
  · exact absurd (same ▸ hr) still
  · rw [(only.same r same).node] at hr
    exact frozen.named r hr

theorem only_refl (p : Path) (d : Disk) : Only p d d :=
  ⟨fun q _ => .refl d q, Nat.le_refl _, fun _ _ other => ⟨other, rfl⟩⟩

theorem read_eq_some_iff {bytes : Bytes} :
    d.read p = some bytes ↔ ∃ i, d.node p = some (.file i) ∧ d.content i = bytes := by
  constructor
  · intro h
    unfold Disk.read at h
    split at h
    · rename_i i hi
      exact ⟨i, hi, Option.some.inj h⟩
    · cases h
  · rintro ⟨i, hi, rfl⟩
    exact Disk.read_file hi

end
end CyborgdbEmbed.FileSystem

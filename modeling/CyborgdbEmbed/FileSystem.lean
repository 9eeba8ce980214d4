import Mathlib.Logic.Function.Basic
import Mathlib.Tactic.Common

set_option autoImplicit false

/-!
# Files behind names

A disk maps the components of a path to a directory or to the inode of a regular
file. Bytes belong to the inode, so an open file keeps its bytes whatever happens
to its name. There are no hard links: one inode has at most one name.
-/
namespace CyborgdbEmbed.FileSystem

abbrev Path := List String

abbrev Bytes := List UInt8

inductive Node where
  | directory
  | file (inode : ℕ)
  deriving DecidableEq

structure Disk where
  node : Path → Option Node
  content : ℕ → Bytes
  nextInode : ℕ
  allocated : ∀ p i, node p = some (.file i) → i < nextInode
  oneName : ∀ p q i, node p = some (.file i) → node q = some (.file i) → p = q

namespace Disk

variable {d d' : Disk} {p q r : Path} {i : ℕ}

def present (d : Disk) (p : Path) : Bool := (d.node p).isSome

def read (d : Disk) (p : Path) : Option Bytes :=
  match d.node p with
  | some (.file i) => some (d.content i)
  | _ => none

def write (d : Disk) (i : ℕ) (bytes : Bytes) : Disk :=
  { d with content := Function.update d.content i bytes }

def append (d : Disk) (i : ℕ) (bytes : Bytes) : Disk := d.write i (d.content i ++ bytes)

def create (d : Disk) (p : Path) : Disk where
  node := Function.update d.node p (some (.file d.nextInode))
  content := Function.update d.content d.nextInode []
  nextInode := d.nextInode + 1
  allocated := by
    intro q j hq
    by_cases h : q = p
    · rw [h, Function.update_self] at hq
      obtain rfl : d.nextInode = j := by simpa using hq
      omega
    · rw [Function.update_of_ne h] at hq
      have := d.allocated q j hq
      omega
  oneName := by
    intro q r j hq hr
    by_cases h : q = p <;> by_cases h' : r = p
    · rw [h, h']
    · rw [h, Function.update_self] at hq
      rw [Function.update_of_ne h'] at hr
      obtain rfl : d.nextInode = j := by simpa using hq
      exact absurd (d.allocated r _ hr) (Nat.lt_irrefl _)
    · rw [h', Function.update_self] at hr
      rw [Function.update_of_ne h] at hq
      obtain rfl : d.nextInode = j := by simpa using hr
      exact absurd (d.allocated q _ hq) (Nat.lt_irrefl _)
    · rw [Function.update_of_ne h] at hq
      rw [Function.update_of_ne h'] at hr
      exact d.oneName q r j hq hr

/-- Any function that only forgets names of files keeps a disk well formed. -/
def forget (d : Disk) (node : Path → Option Node)
    (h : ∀ p i, node p = some (.file i) → d.node p = some (.file i)) : Disk where
  node := node
  content := d.content
  nextInode := d.nextInode
  allocated := fun p i hp => d.allocated p i (h p i hp)
  oneName := fun p q i hp hq => d.oneName p q i (h p i hp) (h q i hq)

theorem file_of_update {n : Option Node} (hn : ∀ i, n ≠ some (.file i)) (q : Path) (i : ℕ)
    (h : Function.update d.node p n q = some (.file i)) : d.node q = some (.file i) := by
  by_cases hq : q = p
  · rw [hq, Function.update_self] at h
    exact absurd h (hn i)
  · rwa [Function.update_of_ne hq] at h

def unlink (d : Disk) (p : Path) : Disk :=
  d.forget (Function.update d.node p none) (file_of_update nofun)

def makeDirectory (d : Disk) (p : Path) : Disk :=
  d.forget (Function.update d.node p (some .directory)) (file_of_update nofun)

/-- The file at `p` is at `q` now, in place of what was there. -/
def move (d : Disk) (p q : Path) : Disk where
  node := fun r => if r = q then d.node p else if r = p then none else d.node r
  content := d.content
  nextInode := d.nextInode
  allocated := by
    intro r j hr
    split at hr
    · exact d.allocated p j hr
    · split at hr
      · cases hr
      · exact d.allocated r j hr
  oneName := by
    intro r s j hr hs
    split at hr <;> split at hs
    · simp_all only
    · split at hs
      · cases hs
      · have := d.oneName p s j hr hs
        simp_all only [not_true_eq_false]
    · split at hr
      · cases hr
      · have := d.oneName p r j hs hr
        simp_all only [not_true_eq_false]
    · split at hr
      · cases hr
      · split at hs
        · cases hs
        · exact d.oneName r s j hr hs

def mkdir (d : Disk) (p : Path) : Option Disk :=
  match d.node p with
  | none => some (d.makeDirectory p)
  | some .directory => some d
  | some (.file _) => none

/-- Opens for writing and empties: the inode it returns is the open file. -/
def openTruncate (d : Disk) (p : Path) : Option (Disk × ℕ) :=
  if d.node p.dropLast = some .directory then
    match d.node p with
    | none => some (d.create p, d.nextInode)
    | some (.file i) => some (d.write i [], i)
    | some .directory => none
  else none

def rename (d : Disk) (p q : Path) : Option Disk :=
  match d.node p, d.node q with
  | some (.file _), some .directory => none
  | some (.file _), _ => some (d.move p q)
  | _, _ => none

structure SameAt (d d' : Disk) (p : Path) : Prop where
  node : d'.node p = d.node p
  content : ∀ i, d.node p = some (.file i) → d'.content i = d.content i

theorem SameAt.refl (d : Disk) (p : Path) : SameAt d d p := ⟨rfl, fun _ _ => rfl⟩

theorem SameAt.trans {d'' : Disk} (h : SameAt d d' p) (h' : SameAt d' d'' p) : SameAt d d'' p :=
  ⟨h'.node.trans h.node, fun i hi => (h'.content i (h.node.trans hi)).trans (h.content i hi)⟩

theorem SameAt.file (h : SameAt d d' p) (hp : d.node p = some (.file i)) :
    d'.node p = some (.file i) ∧ d'.content i = d.content i :=
  ⟨h.node.trans hp, h.content i hp⟩

theorem SameAt.present (h : SameAt d d' p) : d'.present p = d.present p := by
  unfold Disk.present
  rw [h.node]

theorem SameAt.read (h : SameAt d d' p) : d'.read p = d.read p := by
  unfold Disk.read
  rw [h.node]
  cases hp : d.node p with
  | none => rfl
  | some n =>
    cases n with
    | directory => rfl
    | file i => exact congrArg some (h.content i hp)

theorem read_file (h : d.node p = some (.file i)) : d.read p = some (d.content i) := by
  unfold read
  rw [h]

theorem present_of_file (h : d.node p = some (.file i)) : d.present p = true := by
  unfold present
  rw [h]
  rfl

theorem write_sameAt (bytes : Bytes) (h : d.node p = some (.file i)) (hq : q ≠ p) :
    SameAt d (d.write i bytes) q := by
  refine ⟨rfl, fun j hj => ?_⟩
  apply Function.update_of_ne
  rintro rfl
  exact hq (d.oneName q p _ hj h)

theorem create_sameAt (hq : q ≠ p) : SameAt d (d.create p) q := by
  refine ⟨Function.update_of_ne hq _ _, fun j hj => ?_⟩
  exact Function.update_of_ne (Nat.ne_of_lt (d.allocated q j hj)) _ _

theorem unlink_sameAt (hq : q ≠ p) : SameAt d (d.unlink p) q :=
  ⟨Function.update_of_ne hq _ _, fun _ _ => rfl⟩

theorem mkdir_sameAt (h : d.mkdir p = some d') (hq : q ≠ p) : SameAt d d' q := by
  unfold mkdir at h
  split at h
  · obtain rfl := Option.some.inj h
    exact ⟨Function.update_of_ne hq _ _, fun _ _ => rfl⟩
  · obtain rfl := Option.some.inj h
    exact SameAt.refl d q
  · cases h

theorem mkdir_self (h : d.mkdir p = some d') :
    SameAt d d' p ∨ d.node p = none ∧ d'.node p = some .directory := by
  unfold mkdir at h
  split at h
  · rename_i hp
    obtain rfl := Option.some.inj h
    exact .inr ⟨hp, Function.update_self _ _ _⟩
  · obtain rfl := Option.some.inj h
    exact .inl (SameAt.refl d p)
  · cases h

theorem openTruncate_file (h : d.openTruncate p = some (d', i)) :
    d'.node p = some (.file i) ∧ d'.content i = [] := by
  unfold openTruncate at h
  split at h
  · split at h
    · obtain ⟨rfl, rfl⟩ := Prod.mk.inj (Option.some.inj h)
      exact ⟨Function.update_self _ _ _, Function.update_self _ _ _⟩
    · rename_i j hj
      obtain ⟨rfl, rfl⟩ := Prod.mk.inj (Option.some.inj h)
      exact ⟨hj, Function.update_self _ _ _⟩
    · cases h
  · cases h

theorem openTruncate_sameAt (h : d.openTruncate p = some (d', i)) (hq : q ≠ p) :
    SameAt d d' q := by
  unfold openTruncate at h
  split at h
  · split at h
    · obtain ⟨rfl, rfl⟩ := Prod.mk.inj (Option.some.inj h)
      exact create_sameAt hq
    · rename_i j hj
      obtain ⟨rfl, rfl⟩ := Prod.mk.inj (Option.some.inj h)
      exact write_sameAt [] hj hq
    · cases h
  · cases h

theorem rename_eq (h : d.rename p q = some d') :
    (∃ i, d.node p = some (.file i)) ∧ d' = d.move p q := by
  unfold rename at h
  split at h
  · cases h
  · rename_i i hp _
    exact ⟨⟨_, hp⟩, (Option.some.inj h).symm⟩
  · cases h

theorem rename_target (h : d.rename p q = some d') (hp : d.node p = some (.file i)) :
    d'.node q = some (.file i) ∧ d'.content i = d.content i := by
  obtain ⟨-, rfl⟩ := rename_eq h
  refine ⟨?_, rfl⟩
  change (if q = q then d.node p else _) = _
  rw [if_pos rfl, hp]

theorem rename_sameAt (h : d.rename p q = some d') (hrp : r ≠ p) (hrq : r ≠ q) :
    SameAt d d' r := by
  obtain ⟨-, rfl⟩ := rename_eq h
  refine ⟨?_, fun _ _ => rfl⟩
  change (if r = q then d.node p else if r = p then none else d.node r) = _
  rw [if_neg hrq, if_neg hrp]

end Disk

end CyborgdbEmbed.FileSystem

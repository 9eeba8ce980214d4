import CyborgdbEmbed.OnePassElimination
import CyborgdbEmbed.RegistryText
import CyborgdbEmbed.Resolve
import CyborgdbEmbed.TextLines
import Mathlib.Data.Finset.Card
import Mathlib.Data.List.Sort
import Mathlib.Data.String.Basic

set_option autoImplicit false

namespace CyborgdbEmbed.RedundantArchives
open FileSystem (Bytes)
open RegistryText (isSpace)
open CppLiterals (lineEnds)
open TextLines OnePassElimination

/-- The names and the bytes of the members, in order. A name may come again. -/
abbrev Contents := List (String × Bytes)

def INDEX_MEMBERS : List String := ["/", "//", "__.SYMDEF", "__.SYMDEF SORTED"]

def arT (contents : Contents) : List Char := contents.flatMap fun m => m.1.toList ++ ['\n']

def arP (contents : Contents) (member : String) : Bytes :=
  ((contents.find? fun m => m.1 == member).map Prod.snd).getD []

def rstripSlash (line : List Char) : List Char := (line.reverse.dropWhile (· == '/')).reverse

def members (contents : Contents) : Finset String :=
  ((splitlines (lineEnds (arT contents))).filter fun line =>
    !(strip isSpace line).isEmpty && !INDEX_MEMBERS.contains (String.ofList line)).map
      (fun line => String.ofList (rstripSlash line)) |>.toFinset

section
variable (hexdigest : Bytes → String) (archive : String → Contents)

def digest (path member : String) : Option String :=
  let data := arP (archive path) member
  if data = [] then none else some (hexdigest data)

def names (path : String) : Finset String := members (archive path)

/-- The names and the digests of one archive are all found in the other. -/
def Contained (a b : String) : Prop :=
  names archive a ⊆ names archive b ∧
    ∀ m ∈ names archive a, digest hexdigest archive a m = digest hexdigest archive b m

instance (a b : String) : Decidable (Contained hexdigest archive a b) :=
  inferInstanceAs (Decidable (_ ∧ ∀ _ ∈ _, _))

/-- One round of the inner loop: whether `a` is folded into `b`. -/
def folds (redundant : List String) (a b : String) : Bool :=
  if b == a || redundant.contains b || !decide (names archive a ⊆ names archive b) then false
  else if (names archive a).card == (names archive b).card && decide (a < b) then false
  else decide (∀ m ∈ names archive a, digest hexdigest archive a m = digest hexdigest archive b m)

def redundantFrom (sorted : List String) : List String → List String → List String
  | [], redundant => redundant
  | a :: rest, redundant =>
    if (names archive a).card = 0 then redundantFrom sorted rest redundant
    else if sorted.any (folds hexdigest archive redundant a) then
      redundantFrom sorted rest (a :: redundant)
    else redundantFrom sorted rest redundant

def main (paths : List String) : List String :=
  let sorted := paths.dedup.insertionSort (· ≤ ·)
  (redundantFrom hexdigest archive sorted sorted []).insertionSort (· ≤ ·)

end

variable {hexdigest : Bytes → String} {archive : String → Contents} {paths : List String}
variable {a b c : String}

variable (hexdigest archive) in
/-- Contained in an archive of more names, or of as many and an earlier path. -/
structure Below (a b : String) : Prop where
  some : names archive a ≠ ∅
  other : b ≠ a
  contained : Contained hexdigest archive a b
  tie : (names archive a).card = (names archive b).card → b < a

instance : DecidableRel (Below hexdigest archive) := fun a b =>
  decidable_of_iff (names archive a ≠ ∅ ∧ b ≠ a ∧ Contained hexdigest archive a b ∧
    ((names archive a).card = (names archive b).card → b < a))
    ⟨fun h => ⟨h.1, h.2.1, h.2.2.1, h.2.2.2⟩, fun h => ⟨h.1, h.2, h.3, h.4⟩⟩

theorem Contained.trans (h : Contained hexdigest archive a b)
    (h' : Contained hexdigest archive b c) :
    Contained hexdigest archive a c :=
  ⟨h.1.trans h'.1, fun m hm => (h.2 m hm).trans (h'.2 m (h.1 hm))⟩

theorem Contained.card_le (h : Contained hexdigest archive a b) :
    (names archive a).card ≤ (names archive b).card := Finset.card_le_card h.1

theorem Contained.symm (h : Contained hexdigest archive a b)
    (size : (names archive b).card ≤ (names archive a).card) : Contained hexdigest archive b a := by
  have same := Finset.eq_of_subset_of_card_le h.1 size
  exact ⟨same.ge, fun m hm => (h.2 m (same ▸ hm)).symm⟩

instance below_strict : IsStrictOrder String (Below hexdigest archive) where
  irrefl a h := h.other rfl
  trans a b c h h' := by
    have size := h.contained.card_le
    have size' := h'.contained.card_le
    have tie (same : (names archive a).card = (names archive c).card) : c < a :=
      lt_trans (h'.tie (by omega)) (h.tie (by omega))
    refine ⟨h.some, ?_, h.contained.trans h'.contained, tie⟩
    rintro rfl
    exact lt_irrefl _ (tie rfl)

theorem folds_iff (redundant : List String) (some : (names archive a).card ≠ 0) :
    folds hexdigest archive redundant a b = true ↔
      b ∉ redundant ∧ Below hexdigest archive a b := by
  have empty : names archive a ≠ ∅ := fun h => some (Finset.card_eq_zero.mpr h)
  unfold folds
  constructor
  · intro h
    split at h
    · cases h
    · rename_i candidate
      split at h
      · cases h
      · rename_i tie
        simp only [Bool.or_eq_true, beq_iff_eq, List.contains_iff_mem, Bool.not_eq_true',
          decide_eq_false_iff_not, not_or, not_not] at candidate
        simp only [Bool.and_eq_true, beq_iff_eq, decide_eq_true_eq, not_and, not_lt] at tie
        refine ⟨candidate.1.2, empty, candidate.1.1, ⟨candidate.2, of_decide_eq_true h⟩, ?_⟩
        intro same
        exact lt_of_le_of_ne (tie same) candidate.1.1
  · rintro ⟨kept, below⟩
    have candidate : ¬ (b == a || redundant.contains b ||
        !decide (names archive a ⊆ names archive b)) = true := by
      simp only [Bool.or_eq_true, beq_iff_eq, List.contains_iff_mem, Bool.not_eq_true',
        decide_eq_false_iff_not, not_or, not_not]
      exact ⟨⟨below.other, kept⟩, below.contained.1⟩
    have tie : ¬ ((names archive a).card == (names archive b).card && decide (a < b)) = true := by
      simp only [Bool.and_eq_true, beq_iff_eq, decide_eq_true_eq, not_and, not_lt]
      exact fun same => le_of_lt (below.tie same)
    rw [if_neg candidate, if_neg tie]
    exact decide_eq_true below.contained.2

theorem names_eq_empty_of_card (h : (names archive a).card = 0) : ¬ Below hexdigest archive a b :=
  fun below => below.some (Finset.card_eq_zero.mp h)

theorem redundantFrom_eq (sorted rest redundant : List String) :
    redundantFrom hexdigest archive sorted rest redundant =
      sweep (Below hexdigest archive) sorted rest redundant := by
  induction rest generalizing redundant with
  | nil => rfl
  | cons a rest ih =>
    unfold redundantFrom sweep
    by_cases none : (names archive a).card = 0
    · have bottom : ¬ ∃ b ∈ sorted, b ∉ redundant ∧ Below hexdigest archive a b := by
        rintro ⟨b, -, -, below⟩
        exact names_eq_empty_of_card none below
      rw [if_pos none, if_neg bottom, ih]
    · have test : (sorted.any (folds hexdigest archive redundant a)) = true ↔
          ∃ b ∈ sorted, b ∉ redundant ∧ Below hexdigest archive a b := by
        simp only [List.any_eq_true, folds_iff redundant none]
      rw [if_neg none]
      by_cases found : ∃ b ∈ sorted, b ∉ redundant ∧ Below hexdigest archive a b
      · rw [if_pos (test.mpr found), if_pos found, ih]
      · rw [if_neg fun h => found (test.mp h), if_neg found, ih]

theorem mem_sorted : a ∈ paths.dedup.insertionSort (· ≤ ·) ↔ a ∈ paths := by
  rw [List.mem_insertionSort, List.mem_dedup]

theorem mem_main : a ∈ main hexdigest archive paths ↔
    a ∈ sweep (Below hexdigest archive) (paths.dedup.insertionSort (· ≤ ·))
      (paths.dedup.insertionSort (· ≤ ·)) [] := by
  unfold main
  dsimp only
  rw [List.mem_insertionSort, redundantFrom_eq]

theorem mem_main_iff (ha : a ∈ paths) :
    a ∈ main hexdigest archive paths ↔ ∃ b ∈ paths, Below hexdigest archive a b := by
  rw [mem_main, mem_sweep_iff (fun _ h => h) (mem_sorted.mpr ha)]
  simp only [mem_sorted]

theorem below_or_below (some : names archive a ≠ ∅) (other : a ≠ b)
    (h : Contained hexdigest archive a b) :
    Below hexdigest archive a b ∨ Below hexdigest archive b a := by
  by_cases size : (names archive a).card = (names archive b).card
  · cases lt_or_gt_of_ne other with
    | inl first =>
      have back := h.symm (le_of_eq size.symm)
      have full : names archive b ≠ ∅ := by
        intro none
        rw [none, Finset.card_empty, Finset.card_eq_zero] at size
        exact some size
      exact .inr ⟨full, other, back, fun _ => first⟩
    | inr last => exact .inl ⟨some, other.symm, h, fun _ => last⟩
  · exact .inl ⟨some, other.symm, h, fun same => absurd same size⟩

structure Irredundant (hexdigest : Bytes → String) (archive : String → Contents)
    (paths : List String) : Prop where
  apart : ∀ a ∈ paths, ∀ b ∈ paths, a ∉ main hexdigest archive paths →
    b ∉ main hexdigest archive paths → a ≠ b → (names archive a).Nonempty →
      ¬ Contained hexdigest archive a b
  oneOfEach : ∀ a ∈ paths, ∀ b ∈ paths, a ∉ main hexdigest archive paths →
    b ∉ main hexdigest archive paths → (names archive a).Nonempty → archive a = archive b → a = b
  anyOrder : ∀ paths', (∀ path, path ∈ paths' ↔ path ∈ paths) →
    main hexdigest archive paths' = main hexdigest archive paths

theorem sorted_congr {paths' : List String} (h : ∀ path, path ∈ paths' ↔ path ∈ paths) :
    paths'.dedup.insertionSort (· ≤ ·) = paths.dedup.insertionSort (· ≤ ·) := by
  have perm : paths'.dedup.Perm paths.dedup := by
    rw [List.perm_ext_iff_of_nodup (List.nodup_dedup _) (List.nodup_dedup _)]
    intro path
    rw [List.mem_dedup, List.mem_dedup, h]
  have sorted (l : List String) := List.pairwise_insertionSort (· ≤ ·) l
  have same := (List.perm_insertionSort (· ≤ ·) paths'.dedup).trans
    (perm.trans (List.perm_insertionSort (· ≤ ·) paths.dedup).symm)
  exact same.eq_of_pairwise (fun _ _ _ _ => le_antisymm) (sorted _) (sorted _)

theorem kept_irredundant (hexdigest : Bytes → String) (archive : String → Contents)
    (paths : List String) : Irredundant hexdigest archive paths := by
  have apart : ∀ a ∈ paths, ∀ b ∈ paths, a ∉ main hexdigest archive paths →
      b ∉ main hexdigest archive paths → a ≠ b → (names archive a).Nonempty →
        ¬ Contained hexdigest archive a b := by
    intro a ha b hb keptA keptB other some h
    cases below_or_below some.ne_empty other h with
    | inl below => exact keptA ((mem_main_iff ha).mpr ⟨b, hb, below⟩)
    | inr below => exact keptB ((mem_main_iff hb).mpr ⟨a, ha, below⟩)
  refine ⟨apart, fun a ha b hb keptA keptB some same => ?_, fun paths' h => ?_⟩
  · by_contra other
    refine apart a ha b hb keptA keptB other some ⟨?_, fun m _ => ?_⟩
    · unfold names
      rw [same]
    · unfold digest
      rw [same]
  · unfold main
    rw [sorted_congr h]

end CyborgdbEmbed.RedundantArchives

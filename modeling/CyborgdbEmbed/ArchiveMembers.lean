import CyborgdbEmbed.RedundantArchives
import Mathlib.Data.Bool.AllAny

set_option autoImplicit false

namespace CyborgdbEmbed.RedundantArchives
open FileSystem (Bytes)
open RegistryText (isSpace)
open CppLiterals (lineEnds lineEnds_of_not_mem)
open TextLines OnePassElimination

/-- A name of a member that `ar t` lists on a line of its own. -/
structure Listed (name : String) : Prop where
  oneLine : ∀ c ∈ name.toList, isBreak c = false
  notBlank : strip isSpace name.toList ≠ []
  noSlash : name.toList.getLast? ≠ some '/'

structure Archive where
  contents : Contents
  listed : ∀ m ∈ contents, m.1 ∈ INDEX_MEMBERS ∨ Listed m.1

def Archive.Holds (archive : Archive) (name : String) (bytes : Bytes) : Prop :=
  (name, bytes) ∈ archive.contents ∧ name ∉ INDEX_MEMBERS

variable {archive : Archive} {name : String} {bytes : Bytes}

theorem Archive.oneLine (archive : Archive) :
    ∀ m ∈ archive.contents, ∀ c ∈ m.1.toList, isBreak c = false := by
  have index : ∀ name ∈ INDEX_MEMBERS,
      (name.toList.all fun c => decide (isBreak c = false)) = true := by decide
  intro m hm
  cases archive.listed m hm with
  | inl h => exact List.all_iff_forall_prop.mp (index m.1 h)
  | inr h => exact h.oneLine

theorem chomp_ended {body : List Char} (h : ∀ c ∈ body, isBreak c = false) :
    chomp (body ++ ['\n']) = body := by
  have all : ∀ c ∈ body, (!isBreak c) = true := fun c hc => by rw [h c hc]; rfl
  exact ListSplits.takeWhile_run all rfl

theorem Archive.splitlines_arT (archive : Archive) :
    splitlines (lineEnds (arT archive.contents)) = archive.contents.map fun m => m.1.toList := by
  have listed := archive.oneLine
  generalize archive.contents = contents at listed
  have clean : '\r' ∉ arT contents := by
    unfold arT
    rw [List.mem_flatMap]
    rintro ⟨m, hm, hr⟩
    cases List.mem_append.mp hr with
    | inl h => exact absurd (listed m hm _ h) (by decide)
    | inr h => exact absurd (List.mem_singleton.mp h) (by decide)
  have lines : Lines (contents.map fun m => m.1.toList ++ ['\n']) := by
    clear clean
    induction contents with
    | nil => trivial
    | cons m contents ih =>
      rw [List.forall_mem_cons] at listed
      exact Lines.cons ⟨m.1.toList, '\n', rfl, rfl, by decide, listed.1⟩ (ih listed.2)
  have split : splitKeep (arT contents) = contents.map fun m => m.1.toList ++ ['\n'] := by
    rw [← splitKeep_flatten lines]
    rfl
  unfold splitlines
  rw [lineEnds_of_not_mem clean, split, List.map_map]
  exact List.map_congr_left fun m hm => chomp_ended (listed m hm)

theorem rstripSlash_listed (h : name.toList.getLast? ≠ some '/') :
    rstripSlash name.toList = name.toList := by
  unfold rstripSlash
  cases hr : name.toList.reverse with
  | nil => exact (List.reverse_eq_nil_iff.mp hr).symm
  | cons c cs =>
    rw [← List.head?_reverse, hr] at h
    have hc : (c == '/') = false := beq_eq_false_iff_ne.mpr fun hs => h (congrArg some hs)
    rw [List.dropWhile_cons_of_neg (by rw [hc]; nofun), ← hr, List.reverse_reverse]

theorem Archive.mem_members :
    name ∈ members archive.contents ↔ ∃ bytes, archive.Holds name bytes := by
  have kept (m : String × Bytes) (hm : m ∈ archive.contents) :
      (!(strip isSpace m.1.toList).isEmpty && !INDEX_MEMBERS.contains (String.ofList m.1.toList)) =
        true ↔ m.1 ∉ INDEX_MEMBERS := by
    rw [String.ofList_toList, Bool.and_eq_true, Bool.not_eq_true', Bool.not_eq_true',
      List.isEmpty_eq_false_iff, ← Bool.not_eq_true, List.contains_iff_mem]
    refine and_iff_right_of_imp fun content => ?_
    exact ((archive.listed m hm).resolve_left content).notBlank
  unfold members
  rw [List.mem_toFinset, archive.splitlines_arT, List.mem_map]
  constructor
  · rintro ⟨line, hline, rfl⟩
    obtain ⟨mem, content⟩ := List.mem_filter.mp hline
    obtain ⟨m, hm, rfl⟩ := List.mem_map.mp mem
    have outside := (kept m hm).mp content
    have listed := (archive.listed m hm).resolve_left outside
    rw [rstripSlash_listed listed.noSlash, String.ofList_toList]
    exact ⟨m.2, hm, outside⟩
  · rintro ⟨bytes, hm, outside⟩
    have listed := (archive.listed _ hm).resolve_left outside
    refine ⟨name.toList, List.mem_filter.mpr ⟨List.mem_map.mpr ⟨_, hm, rfl⟩, ?_⟩, ?_⟩
    · exact (kept (name, bytes) hm).mpr outside
    · rw [rstripSlash_listed listed.noSlash, String.ofList_toList]

section
variable {hexdigest : Bytes → String} {archives : String → Archive} {paths : List String}
variable {a b : String}

def contentsOf (archives : String → Archive) (path : String) : Contents := (archives path).contents

def ToldApart (hexdigest : Bytes → String) (archives : String → Archive) (paths : List String) :
    Prop :=
  ∀ a ∈ paths, ∀ b ∈ paths, ∀ name x y, (archives a).Holds name x → (archives b).Holds name y →
    hexdigest x = hexdigest y → x = y

theorem Archive.holds_arP (h : archive.Holds name bytes) :
    archive.Holds name (arP archive.contents name) := by
  refine ⟨?_, h.2⟩
  unfold arP
  cases hf : archive.contents.find? fun m => m.1 == name with
  | none => exact absurd (List.find?_eq_none.mp hf _ h.1) (by simp)
  | some m =>
    have first : m.1 = name := by simpa using List.find?_some hf
    have mem := List.mem_of_find?_eq_some hf
    rwa [← first]

theorem digest_inj {x y : Bytes} (told : hexdigest x = hexdigest y → x = y)
    (h : (if x = [] then none else some (hexdigest x)) =
      if y = [] then none else some (hexdigest y)) : x = y := by
  split at h
  · rename_i hx
    split at h
    · rename_i hy
      rw [hx, hy]
    · cases h
  · split at h
    · cases h
    · exact told (Option.some.inj h)

theorem Below.holds (told : ToldApart hexdigest archives paths) (ha : a ∈ paths) (hb : b ∈ paths)
    (h : Below hexdigest (contentsOf archives) a b) (held : (archives a).Holds name bytes) :
    (archives b).Holds name (arP (archives a).contents name) := by
  have mem : name ∈ names (contentsOf archives) a := Archive.mem_members.mpr ⟨bytes, held⟩
  obtain ⟨bytes', held'⟩ := Archive.mem_members.mp (h.contained.1 mem)
  have there := Archive.holds_arP held'
  have same : arP (archives a).contents name = arP (archives b).contents name :=
    digest_inj (told a ha b hb name _ _ (Archive.holds_arP held) there) (h.contained.2 name mem)
  rwa [same]

end

instance (name : String) : Decidable (Listed name) :=
  decidable_of_iff ((name.toList.all fun c => decide (isBreak c = false)) = true ∧
      strip isSpace name.toList ≠ [] ∧ name.toList.getLast? ≠ some '/')
    ⟨fun h => ⟨List.all_iff_forall_prop.mp h.1, h.2.1, h.2.2⟩,
      fun h => ⟨List.all_iff_forall_prop.mpr h.1, h.2, h.3⟩⟩

end CyborgdbEmbed.RedundantArchives

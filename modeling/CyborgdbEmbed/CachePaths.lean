import CyborgdbEmbed.ListSplits
import CyborgdbEmbed.SharedCache
import Mathlib.Data.List.Forall2

set_option autoImplicit false

namespace CyborgdbEmbed.CachePaths
open FilePaths ListSplits Resolve SharedCache

def Upstream (s : String) : Prop :=
  ∀ component ∈ s.toList.splitOn '/', component ≠ [] ∧
    ∀ c ∈ component, c.isAlphanum ∨ c = '-' ∨ c = '_' ∨ c = '.'

instance (s : String) : Decidable (Upstream s) :=
  decidable_of_iff ((s.toList.splitOn '/').all (fun component => !component.isEmpty &&
      component.all fun c => c.isAlphanum || c == '-' || c == '_' || c == '.') = true)
    (by simp [Upstream, or_assoc])

structure UpstreamEntry (ι : Type) where
  entry : RegistryEntry ι
  name : Upstream entry.info.name
  revision : Upstream entry.info.revision
  onnxPath : Upstream entry.onnxPath

theorem Upstream.head_ne {s : String} (h : Upstream s) : s.toList.head? ≠ some '/' := by
  intro hs
  obtain ⟨cs, hcs⟩ := List.head?_eq_some_iff.mp hs
  have split : s.toList.splitOn '/' = [] :: cs.splitOn '/' := by
    rw [hcs]
    exact List.splitOn_append_cons_self [] cs
  exact (h [] (by rw [split]; exact List.mem_cons_self)).1 rfl

theorem Upstream.hasFilename {s : String} (h : Upstream s) : hasFilename s = true := by
  unfold FilePaths.hasFilename
  cases hr : s.toList.getLast? with
  | none =>
    rw [List.getLast?_eq_none_iff] at hr
    exact absurd rfl (h [] (by rw [hr]; exact List.mem_singleton_self _)).1
  | some c =>
    refine bne_iff_ne.mpr ?_
    rintro rfl
    obtain ⟨cs, hcs⟩ := List.getLast?_eq_some_iff.mp hr
    have split : s.toList.splitOn '/' = cs.splitOn '/' ++ [[]] := by
      rw [hcs]
      exact List.splitOn_append_cons_self cs []
    exact (h [] (by rw [split]; exact List.mem_append_right _ (List.mem_singleton_self _))).1 rfl

variable {ι : Type} (vars : Env) (given : CacheConfig) (e e' : UpstreamEntry ι)

def graphPath : String := (ensureGraph vars e.entry given).path

def tokenizerPath : String := (ensureTokenizer vars e.entry given).path

/-- Names that differ at most in a `/` of one where the other has a `_`. -/
def SlashAlike (s t : String) : Prop :=
  List.Forall₂ (fun c c' => c = c' ∨ c = '/' ∧ c' = '_' ∨ c = '_' ∧ c' = '/') s.toList t.toList

/-- `file` is what follows the last `/` of `path`, or the whole of it. -/
def EndsIn (path file : String) : Prop :=
  '/' ∉ file.toList ∧ (path = file ∨ ∃ folder, path = folder ++ "/" ++ file)

def start (dir : String) : String := if hasFilename dir then dir ++ "/" else dir

theorem filename_no_slash (path : String) : '/' ∉ (filename path).toList := by
  unfold filename
  rw [String.toList_ofList, List.mem_reverse]
  intro hs
  have := List.mem_takeWhile_imp hs
  cases this

theorem flatten_toList (id : String) :
    (flatten id).toList = id.toList.map fun c => if c = '/' then '_' else c :=
  String.toList_ofList

theorem flatten_no_slash (id : String) : '/' ∉ (flatten id).toList := by
  rw [flatten_toList, List.mem_map]
  rintro ⟨c, -, hc⟩
  split at hc
  · cases hc
  · contradiction

theorem flatten_hasFilename {id : String} (h : hasFilename id = true) :
    hasFilename (flatten id) = true := by
  unfold hasFilename at h ⊢
  rw [flatten_toList, List.getLast?_map]
  cases hr : id.toList.getLast? with
  | none =>
    rw [hr] at h
    cases h
  | some c =>
    rw [hr] at h
    have hc : c ≠ '/' := bne_iff_ne.mp h
    change ((if c = '/' then '_' else c) != '/') = true
    rw [if_neg hc]
    exact h

theorem flatten_eq_iff (s t : String) : flatten s = flatten t ↔ SlashAlike s t := by
  have same : ∀ c c' : Char, (if c = '/' then '_' else c) = (if c' = '/' then '_' else c') ↔
      (c = c' ∨ c = '/' ∧ c' = '_' ∨ c = '_' ∧ c' = '/') := by
    intro c c'
    by_cases h : c = '/' <;> by_cases h' : c' = '/'
    · simp [h, h']
    · simp only [h, h', if_true, if_false]
      grind
    · simp only [h, h', if_true, if_false]
      grind
    · simp only [h, h', if_false]
      grind
  rw [← String.toList_inj, flatten_toList, flatten_toList, ← List.forall₂_eq_eq_eq,
    List.forall₂_map_left_iff, List.forall₂_map_right_iff]
  unfold SlashAlike
  simp only [same]

theorem filename_eq_iff (path file : String) : filename path = file ↔ EndsIn path file := by
  have folders : (path = file ∨ ∃ folder, path = folder ++ "/" ++ file) ↔
      (path.toList = file.toList ∨ ∃ before, path.toList = before ++ '/' :: file.toList) := by
    rw [String.toList_inj]
    refine or_congr_right ⟨?_, ?_⟩
    · rintro ⟨folder, rfl⟩
      exact ⟨folder.toList, by simp⟩
    · rintro ⟨before, h⟩
      exact ⟨String.ofList before, String.toList_inj.mp (by simp [h])⟩
  unfold EndsIn filename
  rw [folders, ← afterLast_eq_iff, ← String.toList_inj, String.toList_ofList]

theorem parts_eq_iff {base a r c a' r' c' : String} (ha : '/' ∉ a.toList) (ha' : '/' ∉ a'.toList)
    (hc : '/' ∉ c.toList) (hc' : '/' ∉ c'.toList) :
    base ++ a ++ "/" ++ r ++ "/" ++ c = base ++ a' ++ "/" ++ r' ++ "/" ++ c' ↔
      a = a' ∧ r = r' ∧ c = c' := by
  constructor
  · intro h
    have lists := congrArg String.toList h
    simp only [String.toList_append, List.append_assoc, List.append_cancel_left_eq] at lists
    change a.toList ++ '/' :: (r.toList ++ '/' :: c.toList) =
      a'.toList ++ '/' :: (r'.toList ++ '/' :: c'.toList) at lists
    obtain ⟨hname, hrest⟩ := split_inj ha ha' lists
    have back := congrArg List.reverse hrest
    simp only [List.reverse_append, List.reverse_cons, List.append_assoc, List.cons_append,
      List.nil_append] at back
    obtain ⟨hfile, hrev⟩ := split_inj (mt List.mem_reverse.mp hc) (mt List.mem_reverse.mp hc') back
    exact ⟨String.toList_inj.mp hname, String.toList_inj.mp (List.reverse_inj.mp hrev),
      String.toList_inj.mp (List.reverse_inj.mp hfile)⟩
  · rintro ⟨rfl, rfl, rfl⟩
    rfl

theorem graphPath_eq : graphPath vars given e =
    start (resolvedConfig vars given).cacheDir ++ flatten e.entry.info.name ++ "/" ++
      e.entry.info.revision ++ "/" ++ filename e.entry.onnxPath := by
  have named := flatten_hasFilename e.name.hasFilename
  have flat := head_ne_of_not_mem (flatten_no_slash e.entry.info.name)
  have file := head_ne_of_not_mem (filename_no_slash e.entry.onnxPath)
  unfold graphPath
  rw [ensureGraph_path]
  unfold cachedGraphPath
  rw [resolvedConfig_twice, joinPath_relative file,
    if_pos (hasFilename_joinPath e.revision.head_ne e.revision.hasFilename),
    joinPath_relative e.revision.head_ne, if_pos (hasFilename_joinPath flat named),
    joinPath_relative flat]
  rfl

theorem tokenizerPath_eq : tokenizerPath vars given e =
    start (resolvedConfig vars given).cacheDir ++ flatten e.entry.info.name ++ "/" ++
      e.entry.info.revision ++ "/" ++ "tokenizer.json" := by
  have named := flatten_hasFilename e.name.hasFilename
  have flat := head_ne_of_not_mem (flatten_no_slash e.entry.info.name)
  have folder : hasFilename (joinPath (joinPath (resolvedConfig vars given).cacheDir
      (flatten e.entry.info.name)) e.entry.info.revision) = true :=
    hasFilename_joinPath e.revision.head_ne e.revision.hasFilename
  unfold tokenizerPath
  rw [ensureTokenizer_path]
  unfold cachedGraphPath
  rw [resolvedConfig_twice, parentPath_joinPath folder (filename_no_slash e.entry.onnxPath),
    joinPath_relative (by decide), if_pos folder, joinPath_relative e.revision.head_ne,
    if_pos (hasFilename_joinPath flat named), joinPath_relative flat]
  rfl

theorem graphPath_eq_iff : graphPath vars given e = graphPath vars given e' ↔
    SlashAlike e.entry.info.name e'.entry.info.name ∧
      e.entry.info.revision = e'.entry.info.revision ∧
      EndsIn e.entry.onnxPath (filename e'.entry.onnxPath) := by
  rw [graphPath_eq, graphPath_eq, parts_eq_iff (flatten_no_slash _) (flatten_no_slash _)
    (filename_no_slash _) (filename_no_slash _), flatten_eq_iff, filename_eq_iff]

theorem graphPath_eq_tokenizerPath_iff : graphPath vars given e = tokenizerPath vars given e' ↔
    SlashAlike e.entry.info.name e'.entry.info.name ∧
      e.entry.info.revision = e'.entry.info.revision ∧
      EndsIn e.entry.onnxPath "tokenizer.json" := by
  rw [graphPath_eq, tokenizerPath_eq, parts_eq_iff (flatten_no_slash _) (flatten_no_slash _)
    (filename_no_slash _) (by decide), flatten_eq_iff, filename_eq_iff]

/-- `ensure_file` takes whatever is at a path for the file it was asked for, so no two
    different upstream files may have one path. -/
structure Separate (vars : Env) (given : CacheConfig) (e e' : UpstreamEntry ι) : Prop where
  graphs : graphPath vars given e = graphPath vars given e' →
    e.entry.info.name = e'.entry.info.name ∧ e.entry.info.revision = e'.entry.info.revision ∧
      e.entry.onnxPath = e'.entry.onnxPath
  tokenizer : graphPath vars given e ≠ tokenizerPath vars given e'
  tokenizer' : graphPath vars given e' ≠ tokenizerPath vars given e

/-- Two entries of one revision whose names a `/` for a `_` tells apart at most. Their
    graphs have one file name though they are not one file, or one of them is called
    as the tokenizer is. -/
structure Meet (e e' : UpstreamEntry ι) : Prop where
  name : SlashAlike e.entry.info.name e'.entry.info.name
  revision : e.entry.info.revision = e'.entry.info.revision
  file : (∃ file, EndsIn e.entry.onnxPath file ∧ EndsIn e'.entry.onnxPath file) ∧
      (e.entry.info.name ≠ e'.entry.info.name ∨ e.entry.onnxPath ≠ e'.entry.onnxPath) ∨
    EndsIn e.entry.onnxPath "tokenizer.json" ∨ EndsIn e'.entry.onnxPath "tokenizer.json"

theorem SlashAlike.symm {s t : String} (h : SlashAlike s t) : SlashAlike t s :=
  (flatten_eq_iff t s).mp ((flatten_eq_iff s t).mpr h).symm

theorem endsIn_filename_iff (path path' : String) :
    EndsIn path (filename path') ↔ ∃ file, EndsIn path file ∧ EndsIn path' file := by
  constructor
  · intro h
    exact ⟨filename path', h, (filename_eq_iff path' _).mp rfl⟩
  · rintro ⟨file, h, h'⟩
    rwa [(filename_eq_iff path' file).mpr h']

theorem separate_iff_not_meet : Separate vars given e e' ↔ ¬ Meet e e' := by
  constructor
  · rintro ⟨graphs, tokenizer, tokenizer'⟩ ⟨hname, hrev, hfile⟩
    rcases hfile with ⟨hsame, hother⟩ | h | h
    · have meet := (graphPath_eq_iff vars given e e').mpr
        ⟨hname, hrev, (endsIn_filename_iff _ _).mpr hsame⟩
      obtain ⟨name, -, path⟩ := graphs meet
      cases hother with
      | inl hne => exact hne name
      | inr hne => exact hne path
    · exact tokenizer ((graphPath_eq_tokenizerPath_iff vars given e e').mpr ⟨hname, hrev, h⟩)
    · exact tokenizer' ((graphPath_eq_tokenizerPath_iff vars given e' e).mpr
        ⟨hname.symm, hrev.symm, h⟩)
  · intro apart
    refine ⟨?graphs, ?tokenizer, ?tokenizer'⟩
    case graphs =>
      intro h
      obtain ⟨hname, hrev, hfile⟩ := (graphPath_eq_iff vars given e e').mp h
      have hsame := (endsIn_filename_iff _ _).mp hfile
      by_contra hne
      refine apart ⟨hname, hrev, .inl ⟨hsame, ?_⟩⟩
      by_contra hboth
      rw [not_or, not_not, not_not] at hboth
      exact hne ⟨hboth.1, hrev, hboth.2⟩
    case tokenizer =>
      intro h
      obtain ⟨hname, hrev, hfile⟩ := (graphPath_eq_tokenizerPath_iff vars given e e').mp h
      exact apart ⟨hname, hrev, .inr (.inl hfile)⟩
    case tokenizer' =>
      intro h
      obtain ⟨hname, hrev, hfile⟩ := (graphPath_eq_tokenizerPath_iff vars given e' e).mp h
      exact apart ⟨hname.symm, hrev.symm, .inr (.inr hfile)⟩

def bgeSmall : UpstreamEntry ModelId where
  entry := bgeSmallEnV15
  name := by decide +kernel
  revision := by decide +kernel
  onnxPath := by decide +kernel

def bgeSmallHalf : UpstreamEntry ModelId where
  entry := { bgeSmallEnV15 with onnxPath := "onnx/fp16/model.onnx" }
  name := by decide +kernel
  revision := by decide +kernel
  onnxPath := by decide +kernel

theorem bgeSmall_exports_meet : ¬ Separate (fun _ => none) { cacheDir := "cache" } bgeSmall
    bgeSmallHalf := by
  intro h
  have differ : bgeSmall.entry.onnxPath ≠ bgeSmallHalf.entry.onnxPath := by decide
  exact differ (h.graphs (by decide +kernel)).2.2

end CyborgdbEmbed.CachePaths

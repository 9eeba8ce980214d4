import CyborgdbEmbed.EnsureFile
import CyborgdbEmbed.TransitionSystem
import Mathlib.Data.List.Nodup

set_option autoImplicit false

/-!
# Processes that share one cache directory

Each thread runs its calls one after another; a process may crash between any two
steps of its threads. Every process has its own name for the shared directory, so
the disk is keyed by the path below it.
-/
namespace CyborgdbEmbed.SharedCache
open FileSystem FilePaths Resolve EnsureFile TransitionSystem

inductive Asset where
  | graph
  | tokenizer
  deriving DecidableEq, Repr

variable {ι : Type}

def assetName (entry : RegistryEntry ι) : Asset → String
  | .graph => filename entry.onnxPath
  | .tokenizer => "tokenizer.json"

def pin (entry : RegistryEntry ι) : Asset → String
  | .graph => entry.onnxSha256
  | .tokenizer => entry.tokenizerSha256

def place (entry : RegistryEntry ι) (asset : Asset) : Path :=
  [flatten entry.info.name, entry.info.revision, assetName entry asset]

structure Fetch where
  entry : RegistryEntry ModelId
  known : entry ∈ kRegistry
  asset : Asset
  vars : Env
  given : CacheConfig

def Fetch.request (f : Fetch) : FileRequest :=
  match f.asset with
  | .graph => ensureGraph f.vars f.entry f.given
  | .tokenizer => ensureTokenizer f.vars f.entry f.given

structure Thread where
  process : ℕ
  index : ℕ
  deriving DecidableEq

structure Call where
  fetch : Fetch
  phase : Phase

structure State where
  disk : Disk
  drawn : List Suffix := []
  calls : Thread → Option Call := fun _ => none

inductive Action where
  | start (t : Thread) (fetch : Fetch)
  | advance (t : Thread) (e : Event)
  | crash (process : ℕ)

def State.idle (s : State) (t : Thread) : Bool :=
  match s.calls t with
  | none => true
  | some c => c.phase.finished

/-- No suffix is drawn twice: `unique_suffix` is taken to be unique. -/
def State.fresh (s : State) (e : Event) : Bool := e.drawn.all fun x => decide (x ∉ s.drawn)

def step (sha256 : Bytes → Bytes) (s : State) : Action → Option State
  | .start t fetch =>
    if s.idle t then
      some { s with calls := Function.update s.calls t (some ⟨fetch, .called⟩) }
    else none
  | .advance t e =>
    (s.calls t).bind fun c =>
      if s.fresh e then
        (advance sha256 c.fetch.request s.disk c.phase e).map fun (disk, phase) =>
          { disk := disk
            drawn := e.drawn ++ s.drawn
            calls := Function.update s.calls t (some ⟨c.fetch, phase⟩) }
      else none
  | .crash process =>
    some { s with calls := fun t => if t.process = process then none else s.calls t }

theorem kRegistry_names : ∀ entry ∈ kRegistry, entry.info.name ≠ "" ∧ entry.info.name ≠ "." ∧
    IsName entry.info.revision := by
  decide +kernel

theorem kRegistry_graphs : ∀ entry ∈ kRegistry,
    entry.onnxPath = "onnx/model.onnx" ∨ entry.onnxPath = "model.onnx" := by
  decide +kernel

theorem kRegistry_revisions : (kRegistry.map (·.info.revision)).Nodup := by decide +kernel

theorem filename_onnxPath {entry : RegistryEntry ModelId} (h : entry ∈ kRegistry) :
    filename entry.onnxPath = "model.onnx" := by
  cases kRegistry_graphs entry h with
  | inl hp => rw [hp]; decide
  | inr hp => rw [hp]; decide

theorem assetName_isName {entry : RegistryEntry ModelId} (h : entry ∈ kRegistry) (asset : Asset) :
    IsName (assetName entry asset) := by
  cases asset with
  | graph =>
    change IsName (filename entry.onnxPath)
    rw [filename_onnxPath h]
    decide
  | tokenizer => exact (by decide : IsName "tokenizer.json")

def partName (entry : RegistryEntry ι) (asset : Asset) (suffix : Suffix) : String :=
  assetName entry asset ++ (".partial-" ++ suffix.text)

def partPlace (entry : RegistryEntry ι) (asset : Asset) (suffix : Suffix) : Path :=
  [flatten entry.info.name, entry.info.revision, partName entry asset suffix]

theorem partName_toList (entry : RegistryEntry ι) (asset : Asset) (suffix : Suffix) :
    (partName entry asset suffix).toList =
      (assetName entry asset).toList ++ ".partial-".toList ++ suffix.text.toList := by
  unfold partName
  rw [String.toList_append, String.toList_append, List.append_assoc]

theorem partName_isName {entry : RegistryEntry ModelId} (h : entry ∈ kRegistry) (asset : Asset)
    (suffix : Suffix) : IsName (partName entry asset suffix) := by
  have len : 16 ≤ (partName entry asset suffix).toList.length := by
    rw [partName_toList, List.length_append, suffix.length_eq]
    omega
  refine ⟨?_, ?_, ?_⟩
  · intro hs
    rw [hs] at len
    exact absurd len (by decide)
  · intro hs
    rw [hs] at len
    exact absurd len (by decide)
  · rw [partName_toList, List.mem_append, List.mem_append, not_or, not_or]
    refine ⟨⟨(assetName_isName h asset).no_slash, by decide⟩, fun hs => ?_⟩
    exact absurd (suffix.hex '/' hs) (by decide)

def Fetch.folder (f : Fetch) : String :=
  joinPath (joinPath (resolvedConfig f.vars f.given).cacheDir (flatten f.entry.info.name))
    f.entry.info.revision

variable (f g : Fetch) (suffix : Suffix)

theorem Fetch.name_isName : IsName (flatten f.entry.info.name) :=
  flatten_isName (kRegistry_names f.entry f.known).1 (kRegistry_names f.entry f.known).2.1

theorem Fetch.revision_isName : IsName f.entry.info.revision :=
  (kRegistry_names f.entry f.known).2.2

theorem Fetch.folder_hasFilename : hasFilename f.folder = true :=
  hasFilename_joinPath f.revision_isName.head_ne f.revision_isName.hasFilename

theorem Fetch.under_name : Under (resolvedConfig f.vars f.given).cacheDir
    (joinPath (resolvedConfig f.vars f.given).cacheDir (flatten f.entry.info.name)) :=
  (Under.refl _).joinPath f.name_isName

theorem Fetch.under_folder : Under (resolvedConfig f.vars f.given).cacheDir f.folder :=
  f.under_name.joinPath f.revision_isName

theorem Fetch.below_folder : below (resolvedConfig f.vars f.given).cacheDir f.folder =
    [flatten f.entry.info.name, f.entry.info.revision] := by
  unfold Fetch.folder
  rw [below_joinPath f.under_name f.revision_isName, below_joinPath (Under.refl _) f.name_isName,
    below_self]
  rfl

theorem ensureGraph_path (vars : Env) (entry : RegistryEntry ι) (given : CacheConfig) :
    (ensureGraph vars entry given).path =
      cachedGraphPath vars entry (resolvedConfig vars given) := by
  unfold ensureGraph
  dsimp only

theorem ensureTokenizer_path (vars : Env) (entry : RegistryEntry ι) (given : CacheConfig) :
    (ensureTokenizer vars entry given).path =
      joinPath (parentPath (cachedGraphPath vars entry (resolvedConfig vars given)))
        "tokenizer.json" := by
  unfold ensureTokenizer
  dsimp only

theorem Fetch.request_config : f.request.config = resolvedConfig f.vars f.given := by
  unfold Fetch.request
  cases f.asset with
  | graph => rfl
  | tokenizer => rfl

theorem Fetch.request_expected : f.request.expected = pin f.entry f.asset := by
  unfold Fetch.request
  cases f.asset with
  | graph => rfl
  | tokenizer => rfl

theorem Fetch.cachedGraphPath_eq : cachedGraphPath f.vars f.entry (resolvedConfig f.vars f.given) =
    joinPath f.folder (filename f.entry.onnxPath) := by
  unfold cachedGraphPath Fetch.folder
  rw [resolvedConfig_twice]

theorem Fetch.request_path : f.request.path = joinPath f.folder (assetName f.entry f.asset) := by
  unfold Fetch.request
  cases f.asset with
  | graph =>
    dsimp only
    rw [ensureGraph_path, f.cachedGraphPath_eq, assetName]
  | tokenizer =>
    have graph : IsName (filename f.entry.onnxPath) := assetName_isName f.known .graph
    dsimp only
    rw [ensureTokenizer_path, f.cachedGraphPath_eq,
      parentPath_joinPath f.folder_hasFilename graph.no_slash, assetName]

theorem Fetch.target_eq : target f.request = place f.entry f.asset := by
  unfold target
  rw [f.request_config, f.request_path,
    below_joinPath f.under_folder (assetName_isName f.known f.asset), f.below_folder]
  rfl

theorem Fetch.parent_eq :
    parent f.request = [flatten f.entry.info.name, f.entry.info.revision] := by
  unfold parent
  rw [f.request_config, f.request_path,
    parentPath_joinPath f.folder_hasFilename (assetName_isName f.known f.asset).no_slash,
    f.below_folder]

theorem Fetch.part_eq : part f.request suffix = partPlace f.entry f.asset suffix := by
  have path : f.request.partPath suffix = joinPath f.folder (partName f.entry f.asset suffix) := by
    unfold FileRequest.partPath
    rw [f.request_path, String.append_assoc,
      joinPath_append (assetName_isName f.known f.asset) (partName_isName f.known f.asset suffix)]
    rfl
  unfold part
  rw [f.request_config, path,
    below_joinPath f.under_folder (partName_isName f.known f.asset suffix), f.below_folder]
  rfl

theorem place_inj {entry entry' : RegistryEntry ModelId} (h : entry ∈ kRegistry)
    (h' : entry' ∈ kRegistry) {asset asset' : Asset}
    (heq : place entry asset = place entry' asset') : entry = entry' ∧ asset = asset' := by
  unfold place at heq
  simp only [List.cons.injEq, and_true] at heq
  obtain ⟨-, hrev, hasset⟩ := heq
  refine ⟨List.inj_on_of_nodup_map kRegistry_revisions h h' hrev, ?_⟩
  cases asset <;> cases asset'
  · rfl
  · change filename entry.onnxPath = "tokenizer.json" at hasset
    rw [filename_onnxPath h] at hasset
    exact absurd hasset (by decide)
  · change "tokenizer.json" = filename entry'.onnxPath at hasset
    rw [filename_onnxPath h'] at hasset
    exact absurd hasset (by decide)
  · rfl

theorem assetName_last {entry : RegistryEntry ModelId} (h : entry ∈ kRegistry) (asset : Asset) :
    ∃ c, (assetName entry asset).toList.getLast? = some c ∧ c ∉ kHex := by
  cases asset with
  | graph =>
    refine ⟨'x', ?_, by decide⟩
    change (filename entry.onnxPath).toList.getLast? = some 'x'
    rw [filename_onnxPath h]
    decide
  | tokenizer => exact ⟨'n', (by decide : "tokenizer.json".toList.getLast? = some 'n'), by decide⟩

theorem partPlace_ne_place (entry : RegistryEntry ι) (asset : Asset)
    {entry' : RegistryEntry ModelId} (h : entry' ∈ kRegistry) (asset' : Asset) :
    partPlace entry asset suffix ≠ place entry' asset' := by
  intro heq
  unfold partPlace place at heq
  simp only [List.cons.injEq, and_true] at heq
  have nonempty : suffix.text.toList ≠ [] := by
    intro hs
    have := suffix.length_eq
    rw [hs] at this
    cases this
  obtain ⟨c, hc, hex⟩ := assetName_last h asset'
  rw [← heq.2.2, partName_toList, List.getLast?_append, List.getLast?_eq_some_getLast nonempty,
    Option.some_or] at hc
  obtain rfl := Option.some.inj hc
  exact hex (suffix.hex _ (List.getLast_mem nonempty))

theorem partPlace_inj {entry entry' : RegistryEntry ι} {asset asset' : Asset} {x y : Suffix}
    (heq : partPlace entry asset x = partPlace entry' asset' y) : x = y := by
  unfold partPlace at heq
  simp only [List.cons.injEq, and_true] at heq
  have texts := congrArg String.toList heq.2.2
  rw [partName_toList, partName_toList] at texts
  have := (List.append_inj' texts (x.length_eq.trans y.length_eq.symm)).2
  cases x
  cases y
  cases String.toList_inj.mp this
  rfl

end CyborgdbEmbed.SharedCache

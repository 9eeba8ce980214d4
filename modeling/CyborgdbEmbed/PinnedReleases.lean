import CyborgdbEmbed.CacheSafety
import CyborgdbEmbed.RegistryRefinement
import CyborgdbEmbed.Sha256File

set_option autoImplicit false

namespace CyborgdbEmbed.RegistryScripts
open CppLiterals (Clean)
open FileSystem (Bytes)
open Fallible GenRegistry Resolve TransitionSystem
open ListsInStep (exists_left getElem_rel)
open ParityMaintenance (Pins embedCorpus pinBlock writeVerdict)
open PinWrites (AtCommit Hub answer asks digestOf fileUrl hexdigest pathIn)
open RegistryRewrites (readLines)
open RegistryText (Line Plain blocks)

abbrev Contents := (modelId commit path : String) → Option Bytes

section
variable (sha256 : Bytes → Bytes) (contents : Contents)

def HasDigest (modelId commit path digest : String) : Prop :=
  ∃ data, contents modelId commit path = some data ∧ hexDigest (sha256 data) = digest

/-- The id of an LFS object is the digest of its bytes, and behind the URL of a file are the
    bytes of that file. -/
structure Serves (hub : Hub) : Prop where
  lfs : ∀ modelId commit directory tree, hub.tree modelId commit directory = .ok tree →
    ∀ file ∈ tree, ∀ path oid, file.path = some path → file.oid = some oid →
      HasDigest sha256 contents modelId (String.ofList commit.1) path (String.ofList oid.1)
  read : ∀ modelId commit path data, hub.read (fileUrl modelId commit path) = .ok data →
    contents modelId commit path = some data

def Action.Asks {R : Type} : Action R → Prop
  | .pin resolve => ∃ hubs, resolve = asks sha256 hubs ∧ ∀ call, Serves sha256 contents (hubs call)
  | .gen _ => True
  | .sweep _ => True

structure OneCommit (modelId path : String) (pins : Pins) : Prop where
  graph : HasDigest sha256 contents modelId pins.revision path pins.onnxSha256
  tokenizer : HasDigest sha256 contents modelId pins.revision "tokenizer.json"
    pins.tokenizerSha256
  clean : ∀ text ∈ [pins.revision, pins.onnxSha256, pins.tokenizerSha256], Clean text.toList

structure Sound (b : ParityMaintenance.Block) : Prop where
  id : Clean b.id.toList
  path : ∀ path, b.onnxPath = .str path → Clean path.toList
  pins : b.pins.revision = "" ∨
    ∃ path, b.onnxPath = .str path ∧ OneCommit sha256 contents b.id path b.pins

/-- Both files that the library asks for are there, and have the digests it asks for. A row
    without a revision is not loaded at all. -/
def Released {ι : Type} (row : RegistryEntry ι) : Prop :=
  row.info.revision = "" ∨ ∀ vars given,
    ∀ req ∈ [ensureGraph vars row given, ensureTokenizer vars row given],
      HasDigest sha256 contents req.model req.revision req.repoPath req.expected

end

/-- A literal that the generator can print gives its text back. -/
def Literal {ι : Type} (header : Header ι) : Prop :=
  ∀ text value, Clean text.toList → header.text text = some value → value = text

section
variable {ι : Type} {header : Header ι} {b : ParityMaintenance.Block} {emitted : EmittedEntry}
  {row : RegistryEntry ι}

structure Prints (b : ParityMaintenance.Block) (emitted : EmittedEntry) : Prop where
  name : emitted.info.name = b.id
  revision : emitted.info.revision = b.pins.revision
  path : b.onnxPath = .str emitted.onnxPath
  onnxSha256 : emitted.onnxSha256 = b.pins.onnxSha256
  tokenizerSha256 : emitted.tokenizerSha256 = b.pins.tokenizerSha256

theorem escapeOr_str (text : String) : escapeOr (.str text) = .ok text := by
  unfold escapeOr
  split
  · rfl
  · rename_i blank
    have empty : text = "" := by simpa [YamlValue.truthy] using blank
    rw [empty]

theorem prints (h : emitEntry b.model = .ok emitted) : Prints b emitted := by
  unfold emitEntry emitInfo at h
  obtain ⟨info, hinfo, h⟩ := bind_ok h
  obtain ⟨name, hname, hinfo⟩ := bind_ok hinfo
  obtain ⟨revision, hrevision, hinfo⟩ := bind_ok hinfo
  obtain ⟨path, hpath, h⟩ := bind_ok h
  obtain ⟨onnx, honnx, h⟩ := bind_ok h
  obtain ⟨tokenizer, htokenizer, h⟩ := bind_ok h
  obtain ⟨query, -, h⟩ := bind_ok h
  obtain ⟨doc, -, h⟩ := bind_ok h
  obtain ⟨pooling, -, h⟩ := bind_ok h
  obtain rfl := Except.ok.inj hinfo
  obtain rfl := Except.ok.inj h
  have path_str : b.onnxPath = .str path := by
    change escape b.onnxPath = .ok path at hpath
    cases shape : b.onnxPath with
    | str text =>
      rw [shape] at hpath
      rw [Except.ok.inj hpath]
    | null | bool _ | int _ | other _ =>
      rw [shape] at hpath
      cases hpath
  change escapeOr (.str b.pins.revision) = _ at hrevision
  change escapeOr (.str b.pins.onnxSha256) = _ at honnx
  change escapeOr (.str b.pins.tokenizerSha256) = _ at htokenizer
  rw [escapeOr_str] at hrevision honnx htokenizer
  exact ⟨(Except.ok.inj hname).symm, (Except.ok.inj hrevision).symm, path_str,
    (Except.ok.inj honnx).symm, (Except.ok.inj htokenizer).symm⟩

structure Compiles (header : Header ι) (emitted : EmittedEntry) (row : RegistryEntry ι) :
    Prop where
  name : header.text emitted.info.name = some row.info.name
  revision : header.text emitted.info.revision = some row.info.revision
  path : header.text emitted.onnxPath = some row.onnxPath
  onnxSha256 : header.text emitted.onnxSha256 = some row.onnxSha256
  tokenizerSha256 : header.text emitted.tokenizerSha256 = some row.tokenizerSha256

theorem compiles (h : header.entry emitted = some row) : Compiles header emitted row := by
  unfold Header.entry Header.info at h
  obtain ⟨info, hinfo, h⟩ := Option.bind_eq_some_iff.mp h
  obtain ⟨id, -, hinfo⟩ := Option.bind_eq_some_iff.mp hinfo
  obtain ⟨name, hname, hinfo⟩ := Option.bind_eq_some_iff.mp hinfo
  obtain ⟨revision, hrevision, hinfo⟩ := Option.bind_eq_some_iff.mp hinfo
  obtain ⟨dimension, -, hinfo⟩ := Option.bind_eq_some_iff.mp hinfo
  obtain ⟨length, -, hinfo⟩ := Option.bind_eq_some_iff.mp hinfo
  obtain ⟨normalize, -, hinfo⟩ := Option.bind_eq_some_iff.mp hinfo
  obtain ⟨path, hpath, h⟩ := Option.bind_eq_some_iff.mp h
  obtain ⟨onnx, honnx, h⟩ := Option.bind_eq_some_iff.mp h
  obtain ⟨tokenizer, htokenizer, h⟩ := Option.bind_eq_some_iff.mp h
  obtain ⟨query, -, h⟩ := Option.bind_eq_some_iff.mp h
  obtain ⟨doc, -, h⟩ := Option.bind_eq_some_iff.mp h
  obtain rfl := Option.some.inj hinfo
  obtain rfl := Option.some.inj h
  exact ⟨hname, hrevision, hpath, honnx, htokenizer⟩

variable {sha256 : Bytes → Bytes} {contents : Contents}

theorem Sound.released (sound : Sound sha256 contents b) (literal : Literal header)
    (prints : Prints b emitted) (compiles : Compiles header emitted row) :
    Released sha256 contents row := by
  obtain ⟨name, revision, path, onnxSha256, tokenizerSha256⟩ := compiles
  rw [prints.name] at name
  rw [prints.revision] at revision
  rw [prints.onnxSha256] at onnxSha256
  rw [prints.tokenizerSha256] at tokenizerSha256
  obtain blank | ⟨path', hpath', commit⟩ := sound.pins
  · left
    rw [blank] at revision
    exact literal "" _ ⟨List.not_mem_nil, List.not_mem_nil, List.not_mem_nil⟩ revision
  · right
    obtain rfl : path' = emitted.onnxPath :=
      YamlValue.str.inj (hpath'.symm.trans prints.path)
    have clean := commit.clean
    simp only [List.forall_mem_cons, List.not_mem_nil, false_imp_iff, implies_true,
      and_true] at clean
    have name := literal _ _ sound.id name
    have path := literal _ _ (sound.path _ prints.path) path
    have revision := literal _ _ clean.1 revision
    have onnxSha256 := literal _ _ clean.2.1 onnxSha256
    have tokenizerSha256 := literal _ _ clean.2.2 tokenizerSha256
    intro vars given
    refine List.forall_mem_cons.mpr ⟨?_, List.forall_mem_singleton.mpr ?_⟩
    · change HasDigest sha256 contents row.info.name row.info.revision row.onnxPath row.onnxSha256
      rw [name, revision, path, onnxSha256]
      exact commit.graph
    · change HasDigest sha256 contents row.info.name row.info.revision "tokenizer.json"
        row.tokenizerSha256
      rw [name, revision, tokenizerSha256]
      exact commit.tokenizer

theorem released_rows {models : List ParityMaintenance.Block} (literal : Literal header)
    (sound : ∀ b ∈ models, Sound sha256 contents b) {strict : Bool} {emitted : Emitted}
    (accepted : GenRegistry.main strict (models.map ParityMaintenance.Block.model) = .ok emitted)
    {tables : Tables ι} (compiled : header.compile emitted = some tables) :
    ∀ row ∈ tables.kRegistry, Released sha256 contents row := by
  intro row hrow
  obtain ⟨-, rows, -⟩ := main_ok accepted
  obtain ⟨kRegistry, hrows, compiled⟩ := Option.bind_eq_some_iff.mp compiled
  obtain ⟨kModels, -, compiled⟩ := Option.bind_eq_some_iff.mp compiled
  obtain rfl := Option.some.inj compiled
  obtain ⟨entry, hentry, hcompiled⟩ := exists_left (mapM_some_forall₂ hrows) hrow
  obtain ⟨model, hmodel, hprinted⟩ := (mapM_ok_mem rows).2 entry hentry
  obtain ⟨b, hb, rfl⟩ := List.mem_map.mp hmodel
  exact (sound b hb).released literal (prints hprinted) (compiles hcompiled)

end

theorem plain_clean {value : List Char} (plain : Plain value) :
    Clean (String.ofList value).toList := by
  rw [String.toList_ofList]
  have none (c : Char) (other : c.isAlphanum = false ∧ c ≠ '-') : c ∉ value := by
    intro mem
    obtain letter | dash := plain c mem
    · rw [other.1] at letter
      cases letter
    · exact other.2 dash
  exact ⟨none _ (by decide), none _ (by decide), none _ (by decide)⟩

section
variable {R ι : Type} [DecidableEq ι] [LE R] [LT R] [DecidableLE R] [DecidableLT R] [Sub R]
  [OfNat R 0] [OfNat R 1] [OfScientific R] {readLine : Line → Option (String × YamlValue)}
  {header : Header ι} {σ : State ι} {τ : ParityMaintenance.State ι} {sha256 : Bytes → Bytes}
  {contents : Contents}

theorem hexDigest_hexdigest (raw : Bytes) : hexDigest raw = String.ofList (hexdigest raw) :=
  Sha256File.hexDigest_eq raw

theorem Serves.digestOf {hub : Hub} (serves : Serves sha256 contents hub) {modelId path : String}
    {commit digest : PinWrites.Hex}
    (hashed : PinWrites.digestOf sha256 hub modelId commit path = .ok digest) :
    HasDigest sha256 contents modelId (String.ofList commit.1) path (String.ofList digest.1) := by
  obtain ⟨data, hread, hashed⟩ := bind_ok hashed
  obtain rfl := Except.ok.inj hashed
  exact ⟨data, serves.read modelId _ path data hread, hexDigest_hexdigest _⟩

theorem Serves.oneCommit {hub : Hub} (serves : Serves sha256 contents hub) {modelId path : String}
    {pins : PinWrites.Resolution} (commit : AtCommit sha256 hub modelId path pins) :
    OneCommit sha256 contents modelId path (pinsOf pins) where
  graph := by
    obtain ⟨tree, listed, entry, mem, hpath, hoid⟩ := commit.graph
    exact serves.lfs modelId _ _ tree listed entry mem path _ hpath hoid
  tokenizer := serves.digestOf commit.tokenizer
  clean := by
    simp only [List.forall_mem_cons, List.not_mem_nil, false_imp_iff, implies_true, and_true]
    exact ⟨plain_clean pins.plainCommit, plain_clean pins.plainSha256,
      plain_clean pins.plainTokenizer⟩

omit [DecidableEq ι] in
theorem Related.sound_pin (related : Related readLine σ τ) {hubs : ℕ → Hub}
    (serves : ∀ call, Serves sha256 contents (hubs call))
    (sound : ∀ b ∈ τ.blocks, Sound sha256 contents b) :
    ∀ b ∈ τ.blocks.mapIdx fun i => pinBlock (resolved (asks sha256 hubs) (readLines σ.text) i),
      Sound sha256 contents b := by
  intro b' hmem
  obtain ⟨i, hi, rfl⟩ := List.mem_mapIdx.mp hmem
  have before := sound τ.blocks[i] (List.getElem_mem hi)
  cases answered : resolved (asks sha256 hubs) (readLines σ.text) i with
  | none => exact before
  | some pins =>
    unfold resolved at answered
    obtain ⟨scanned, -, answered⟩ := Option.bind_eq_some_iff.mp answered
    obtain ⟨block, hblock, answered⟩ := Option.bind_eq_some_iff.mp answered
    split at answered
    · rename_i resolution hanswer
      obtain rfl := Option.some.inj answered
      obtain ⟨same, yaml⟩ := getElem_rel related.models hblock (List.getElem?_eq_getElem hi)
      unfold answer asks at hanswer
      cases hpath : pathIn block with
      | none =>
        rw [hpath] at hanswer
        obtain ⟨commit, -, raised⟩ := bind_ok hanswer
        cases raised
      | some path =>
        rw [hpath] at hanswer
        have commit := (serves i).oneCommit (PinWrites.resolve_atCommit hanswer)
        have there := related.legible.model_path (List.mem_of_getElem? hblock) hpath
        rw [yaml] at there
        rw [same] at commit
        exact ⟨before.id, before.path, .inr ⟨path, there, commit⟩⟩
    · cases answered

omit [DecidableEq ι] in
theorem Related.released_gen (related : Related readLine σ τ) (literal : Literal header)
    (sound : ∀ b ∈ τ.blocks, Sound sha256 contents b)
    (released : ∀ row ∈ σ.compiled.kRegistry, Released sha256 contents row) {strict : Bool} :
    ∀ row ∈ (RegistryScripts.gen readLine header strict σ).compiled.kRegistry,
      Released sha256 contents row := by
  unfold RegistryScripts.gen
  rw [related.safeLoad]
  cases accepted : GenRegistry.main strict (τ.blocks.map ParityMaintenance.Block.model) with
  | error _ => exact released
  | ok emitted =>
    dsimp only
    cases compiled : header.compile emitted with
    | none => exact released
    | some tables => exact released_rows literal sound accepted compiled

omit [DecidableEq ι] in
theorem sound_sweep {summary : List (String × ParityMaintenance.Results)}
    (sound : ∀ b ∈ τ.blocks, Sound sha256 contents b) :
    ∀ b ∈ τ.blocks.map (writeVerdict summary), Sound sha256 contents b := by
  refine List.forall_mem_map.mpr fun b hb => ?_
  have before := sound b hb
  unfold writeVerdict
  split
  · exact ⟨before.id, before.path, before.pins⟩
  · exact before

/-- In every run of the scripts over a legible file, the header never has a row that names
    other files than those of one commit, as the hub serves them. -/
theorem released_files (related : Related readLine σ τ) (literal : Literal header)
    (sound : ∀ b ∈ τ.blocks, Sound sha256 contents b)
    (released : ∀ row ∈ σ.compiled.kRegistry, Released sha256 contents row)
    {as : List (Action R)} (asks : ∀ a ∈ as, a.Asks sha256 contents) :
    AllStates (step readLine header)
      (fun σ => ∀ row ∈ σ.compiled.kRegistry, Released sha256 contents row) σ as := by
  let I (σ : State ι) : Prop := ∃ τ, Related readLine σ τ ∧
    (∀ b ∈ τ.blocks, Sound sha256 contents b) ∧
      ∀ row ∈ σ.compiled.kRegistry, Released sha256 contents row
  have run : AllStates (step readLine header) I σ as := by
    refine (allSteps_of_forall asks σ).allStates ?_ ⟨τ, related, sound, released⟩
    rintro σ a σ' ⟨τ, related, sound, released⟩ asks stepped
    cases a with
    | pin resolve =>
      obtain rfl := Option.some.inj stepped
      obtain ⟨hubs, rfl, serves⟩ := asks
      exact ⟨_, related.pin _, related.sound_pin serves sound, released⟩
    | gen strict =>
      obtain rfl := Option.some.inj stepped
      refine ⟨_, related.gen header strict, ?_, related.released_gen literal sound released⟩
      rwa [ParityMaintenance.gen_blocks]
    | sweep run =>
      obtain ⟨σ'', swept, related'⟩ := related.sweep run
      obtain rfl : σ'' = σ' := Option.some.inj (swept.symm.trans stepped)
      refine ⟨_, related', sound_sweep sound, ?_⟩
      obtain ⟨entries, -, rfl⟩ := Option.map_eq_some_iff.mp swept
      exact released
  exact run.mono fun σ held => held.choose_spec.2.2

end

theorem last_append (a : String) {b : String} {c : Char} (h : b.toList.getLast? = some c) :
    (a ++ b).toList.getLast? = some c := by
  rw [String.toList_append, List.getLast?_append, h, Option.some_or]

theorem fileUrl_graph (modelId commit : String) :
    fileUrl modelId commit "onnx/model.onnx" ≠ tokenizerUrl := by
  intro same
  have graph : (fileUrl modelId commit "onnx/model.onnx").toList.getLast? = some 'x' :=
    last_append _ (by decide)
  have tokenizer : tokenizerUrl.toList.getLast? = some 'n' := last_append _ (by decide)
  rw [same, tokenizer] at graph
  cases Option.some.inj graph

theorem sampleHub_serves : Serves sampleSha256 sampleContents sampleHub := by
  constructor
  · intro modelId commit directory tree listed file mem path oid hpath hoid
    obtain rfl := Except.ok.inj listed
    obtain rfl := List.mem_singleton.mp mem
    obtain rfl := Option.some.inj hoid
    obtain rfl := Option.some.inj hpath
    refine ⟨[0x61, 0x62, 0x63], ?_, by decide +kernel⟩
    rw [sampleContents, if_neg (fileUrl_graph _ _)]
  · intro modelId commit path data hread
    change (if fileUrl modelId commit path = tokenizerUrl then _ else _) = _ at hread
    split at hread
    · rename_i tokenizer
      rw [sampleContents, if_pos tokenizer, Except.ok.inj hread]
    · cases hread

/-- The model of the run above is pinned, measured and shipped. -/
theorem released_files_release : AllStates (step readNew ModelLookup.embedHpp)
    (fun σ => ∀ row ∈ σ.compiled.kRegistry,
      Released sampleSha256 sampleContents row) newState release := by
  have literal : Literal ModelLookup.embedHpp := fun _ _ _ h => (Option.some.inj h).symm
  refine released_files new_related literal ?_ (fun _ none => absurd none List.not_mem_nil) ?_
  · refine List.forall_mem_singleton.mpr ⟨?_, ?_, .inl rfl⟩
    · exact ⟨by decide, by decide, by decide⟩
    · intro path same
      obtain rfl := YamlValue.str.inj same
      exact ⟨by decide, by decide, by decide⟩
  · unfold release
    simp only [List.forall_mem_cons, List.not_mem_nil, false_imp_iff, implies_true, and_true]
    exact ⟨⟨_, rfl, fun _ => sampleHub_serves⟩, trivial, trivial, trivial⟩
end CyborgdbEmbed.RegistryScripts

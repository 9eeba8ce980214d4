import CyborgdbEmbed.Fallible
import CyborgdbEmbed.Registry

set_option autoImplicit false

/-!
# From registry.yaml to the compiled tables

`gen_registry.main` checks the models of the YAML file and prints each of them twice,
once for `kRegistry` and once for `kModels`. What the compiler makes of a printed
value is a parameter, a `Header`.
-/
namespace CyborgdbEmbed.GenRegistry
open Fallible

/-- A value that `yaml.safe_load` can give a field. Of a float, a date, a sequence or
    a mapping only the truth is ever looked at. -/
inductive YamlValue where
  | null
  | bool (value : Bool)
  | int (value : Int)
  | str (value : String)
  | other (truth : Bool)
  deriving DecidableEq, Repr

/-- The fields of one model. A field that is absent is null, as `model.get` has it. -/
structure YamlModel where
  id : YamlValue := .null
  enum : YamlValue := .null
  revision : YamlValue := .null
  onnxPath : YamlValue := .null
  onnxSha256 : YamlValue := .null
  tokenizerSha256 : YamlValue := .null
  dim : YamlValue := .null
  pooling : YamlValue := .null
  normalize : YamlValue := .null
  maxSeqLength : YamlValue := .null
  queryPrefix : YamlValue := .null
  docPrefix : YamlValue := .null
  parity : YamlValue := .null
  deriving DecidableEq, Repr

def YamlValue.absent : YamlValue → Bool
  | .null => true
  | .str value => value == ""
  | _ => false

def YamlValue.truthy : YamlValue → Bool
  | .null => false
  | .bool value => value
  | .int value => value != 0
  | .str value => value != ""
  | .other truth => truth

def required (model : YamlModel) : List (String × YamlValue) :=
  [("id", model.id), ("enum", model.enum), ("onnx_path", model.onnxPath), ("dim", model.dim),
    ("max_seq_length", model.maxSeqLength), ("normalize", model.normalize)]

def pinned (model : YamlModel) : List (String × YamlValue) :=
  [("revision", model.revision), ("onnx_sha256", model.onnxSha256),
    ("tokenizer_sha256", model.tokenizerSha256), ("parity", model.parity)]

def missing (model : YamlModel) : List String :=
  ((required model).filter fun field => field.2.absent).map Prod.fst

def unpinned (model : YamlModel) : List String :=
  ((pinned model).filter fun field => !field.2.truthy).map Prod.fst

/-- Why the generator stops: one of its two messages, or an exception of `escape` or of
    the lookup in `pooling`. -/
inductive GenError where
  | missing (id : YamlValue) (fields : List String)
  | refusing (incomplete : List (YamlValue × List String))
  | attributeError (value : YamlValue)
  | keyError (value : YamlValue)
  deriving DecidableEq, Repr

/-- The initializer of a `ModelInfo`: texts in quotes, the other values as they print. -/
structure EmittedInfo where
  enum : YamlValue
  name : String
  revision : String
  dim : YamlValue
  maxSeqLength : YamlValue
  normalize : YamlValue
  deriving DecidableEq, Repr

structure EmittedEntry where
  info : EmittedInfo
  onnxPath : String
  onnxSha256 : String
  tokenizerSha256 : String
  queryPrefix : String
  docPrefix : String
  pooling : Pooling
  deriving DecidableEq, Repr

structure Emitted where
  kRegistry : List EmittedEntry
  kModels : List EmittedInfo
  kModelCount : ℕ
  deriving DecidableEq, Repr

/-- `escape(value)`, which only a string has the method for. The quoted literal stands
    for the text itself. -/
def escape : YamlValue → Except GenError String
  | .str value => .ok value
  | value => .error (.attributeError value)

def escapeOr (value : YamlValue) : Except GenError String :=
  if value.truthy then escape value else .ok ""

def poolingOf : YamlValue → Except GenError Pooling
  | .str "cls_token" => .ok .clsToken
  | .str "mean_tokens" => .ok .meanTokens
  | .str "max_tokens" => .ok .maxTokens
  | value => .error (.keyError value)

def emitInfo (model : YamlModel) : Except GenError EmittedInfo := do
  let name ← escape model.id
  let revision ← escapeOr model.revision
  pure ⟨model.enum, name, revision, model.dim, model.maxSeqLength, model.normalize⟩

def emitEntry (model : YamlModel) : Except GenError EmittedEntry := do
  let info ← emitInfo model
  let onnxPath ← escape model.onnxPath
  let onnxSha256 ← escapeOr model.onnxSha256
  let tokenizerSha256 ← escapeOr model.tokenizerSha256
  let queryPrefix ← escapeOr model.queryPrefix
  let docPrefix ← escapeOr model.docPrefix
  let pooling ← poolingOf model.pooling
  pure ⟨info, onnxPath, onnxSha256, tokenizerSha256, queryPrefix, docPrefix, pooling⟩

/-- The first loop: the models that are not pinned, unless one misses a field. -/
def check : List YamlModel → Except GenError (List (YamlValue × List String))
  | [] => .ok []
  | model :: models =>
    if missing model = [] then do
      let incomplete ← check models
      pure (if unpinned model = [] then incomplete else (model.id, unpinned model) :: incomplete)
    else .error (.missing model.id (missing model))

def main (strict : Bool) (models : List YamlModel) : Except GenError Emitted := do
  let incomplete ← check models
  if !incomplete.isEmpty && strict then .error (.refusing incomplete)
  else do
    let kRegistry ← models.mapM emitEntry
    let kModels ← models.mapM emitInfo
    pure ⟨kRegistry, kModels, models.length⟩

/-- What `embed.hpp` and the compiler make of an enumerator name, a number, a truth
    value and a quoted text, if they accept it there. -/
structure Header (ι : Type) where
  enumerator : YamlValue → Option ι
  number : YamlValue → Option ℕ
  truth : YamlValue → Option Bool
  text : String → Option String

structure Tables (ι : Type) where
  kRegistry : List (RegistryEntry ι)
  kModels : List (ModelInfo ι)

namespace Header
variable {ι : Type} (header : Header ι)

def info (row : EmittedInfo) : Option (ModelInfo ι) := do
  let id ← header.enumerator row.enum
  let name ← header.text row.name
  let revision ← header.text row.revision
  let dimension ← header.number row.dim
  let maxSeqLength ← header.number row.maxSeqLength
  let normalize ← header.truth row.normalize
  pure ⟨id, name, revision, dimension, maxSeqLength, normalize⟩

def entry (row : EmittedEntry) : Option (RegistryEntry ι) := do
  let info ← header.info row.info
  let onnxPath ← header.text row.onnxPath
  let onnxSha256 ← header.text row.onnxSha256
  let tokenizerSha256 ← header.text row.tokenizerSha256
  let queryPrefix ← header.text row.queryPrefix
  let docPrefix ← header.text row.docPrefix
  pure ⟨info, onnxPath, onnxSha256, tokenizerSha256, queryPrefix, docPrefix, row.pooling⟩

def compile (emitted : Emitted) : Option (Tables ι) := do
  let kRegistry ← emitted.kRegistry.mapM header.entry
  let kModels ← emitted.kModels.mapM header.info
  pure ⟨kRegistry, kModels⟩

end Header

theorem emitEntry_info {model : YamlModel} {row : EmittedEntry} (h : emitEntry model = .ok row) :
    emitInfo model = .ok row.info := by
  unfold emitEntry at h
  obtain ⟨info, hinfo, h⟩ := bind_ok h
  obtain ⟨_, _, h⟩ := bind_ok h
  obtain ⟨_, _, h⟩ := bind_ok h
  obtain ⟨_, _, h⟩ := bind_ok h
  obtain ⟨_, _, h⟩ := bind_ok h
  obtain ⟨_, _, h⟩ := bind_ok h
  obtain ⟨_, _, h⟩ := bind_ok h
  obtain rfl := Except.ok.inj h
  exact hinfo

theorem main_ok {strict : Bool} {models : List YamlModel} {emitted : Emitted}
    (h : main strict models = .ok emitted) : (∃ incomplete, check models = .ok incomplete) ∧
      models.mapM emitEntry = .ok emitted.kRegistry ∧
      models.mapM emitInfo = .ok emitted.kModels ∧ emitted.kModelCount = models.length := by
  unfold main at h
  obtain ⟨incomplete, hcheck, h⟩ := bind_ok h
  split at h
  · cases h
  · obtain ⟨rows, hrows, h⟩ := bind_ok h
    obtain ⟨infos, hinfos, h⟩ := bind_ok h
    obtain rfl := Except.ok.inj h
    exact ⟨⟨incomplete, hcheck⟩, hrows, hinfos, rfl⟩

theorem main_kModels {strict : Bool} {models : List YamlModel} {emitted : Emitted}
    (h : main strict models = .ok emitted) :
    emitted.kModels = emitted.kRegistry.map (·.info) := by
  obtain ⟨-, hrows, hinfos, -⟩ := main_ok h
  have both := mapM_ok (fun _ _ => emitEntry_info) hrows
  exact Except.ok.inj (hinfos.symm.trans both)

theorem check_pinned {models : List YamlModel} (h : check models = .ok []) :
    ∀ model ∈ models, unpinned model = [] := by
  induction models with
  | nil => exact fun _ hm => (List.not_mem_nil hm).elim
  | cons m models ih =>
    unfold check at h
    split at h
    · obtain ⟨incomplete, htail, h⟩ := bind_ok h
      have rows : (if unpinned m = [] then incomplete else (m.id, unpinned m) :: incomplete) = [] :=
        Except.ok.inj h
      split at rows
      · rename_i hm
        subst rows
        intro model hmem
        rcases List.mem_cons.mp hmem with rfl | hmem
        · exact hm
        · exact ih htail model hmem
      · cases rows
    · cases h

theorem main_strict_pinned {models : List YamlModel} {emitted : Emitted}
    (h : main true models = .ok emitted) : ∀ model ∈ models, unpinned model = [] := by
  unfold main at h
  obtain ⟨incomplete, hcheck, h⟩ := bind_ok h
  cases incomplete with
  | nil => exact check_pinned hcheck
  | cons row rows => cases h

theorem truthy_of_unpinned {model : YamlModel} (h : unpinned model = [])
    (field : String × YamlValue) (hfield : field ∈ pinned model) : field.2.truthy = true := by
  have kept := List.filter_eq_nil_iff.mp (List.map_eq_nil_iff.mp h) field hfield
  simpa using kept

def YamlValue.isText : YamlValue → Bool
  | .str _ => true
  | _ => false

/-- A model that the strict generator prints, given that it has a verdict. -/
structure Shippable (model : YamlModel) : Prop where
  required : ∀ field ∈ required model, field.2.absent = false
  pinned : ∀ value ∈ [model.revision, model.onnxSha256, model.tokenizerSha256],
    value.truthy = true
  texts : ∀ value ∈ [model.id, model.onnxPath], value.isText = true
  optional : ∀ value ∈ [model.revision, model.onnxSha256, model.tokenizerSha256,
    model.queryPrefix, model.docPrefix], value.truthy = true → value.isText = true
  pooling : ∃ pooling, poolingOf model.pooling = .ok pooling

theorem escape_ok_iff {value : YamlValue} : (∃ text, escape value = .ok text) ↔
    value.isText = true := by
  cases value with
  | str text => exact ⟨fun _ => rfl, fun _ => ⟨text, rfl⟩⟩
  | null | bool _ | int _ | other _ =>
    constructor
    · rintro ⟨text, h⟩
      cases h
    · nofun

theorem escapeOr_ok_iff {value : YamlValue} : (∃ text, escapeOr value = .ok text) ↔
    (value.truthy = true → value.isText = true) := by
  unfold escapeOr
  by_cases h : value.truthy = true
  · rw [if_pos h, escape_ok_iff]
    exact ⟨fun text _ => text, fun text => text h⟩
  · rw [if_neg h]
    exact ⟨fun _ truthy => absurd truthy h, fun _ => ⟨"", rfl⟩⟩

theorem emitEntry_ok_iff {model : YamlModel} : (∃ row, emitEntry model = .ok row) ↔
    (∀ value ∈ [model.id, model.onnxPath], ∃ text, escape value = .ok text) ∧
    (∀ value ∈ [model.revision, model.onnxSha256, model.tokenizerSha256, model.queryPrefix,
      model.docPrefix], ∃ text, escapeOr value = .ok text) ∧
    ∃ pooling, poolingOf model.pooling = .ok pooling := by
  simp only [List.forall_mem_cons, List.not_mem_nil, false_imp_iff, implies_true, and_true]
  constructor
  · rintro ⟨row, h⟩
    unfold emitEntry emitInfo at h
    obtain ⟨info, hinfo, h⟩ := bind_ok h
    obtain ⟨name, hname, hinfo⟩ := bind_ok hinfo
    obtain ⟨revision, hrevision, -⟩ := bind_ok hinfo
    obtain ⟨path, hpath, h⟩ := bind_ok h
    obtain ⟨onnx, honnx, h⟩ := bind_ok h
    obtain ⟨tokenizer, htokenizer, h⟩ := bind_ok h
    obtain ⟨query, hquery, h⟩ := bind_ok h
    obtain ⟨doc, hdoc, h⟩ := bind_ok h
    obtain ⟨pooling, hpooling, -⟩ := bind_ok h
    exact ⟨⟨⟨name, hname⟩, path, hpath⟩, ⟨⟨revision, hrevision⟩, ⟨onnx, honnx⟩,
      ⟨tokenizer, htokenizer⟩, ⟨query, hquery⟩, doc, hdoc⟩, pooling, hpooling⟩
  · rintro ⟨⟨⟨name, hname⟩, path, hpath⟩, ⟨⟨revision, hrevision⟩, ⟨onnx, honnx⟩,
      ⟨tokenizer, htokenizer⟩, ⟨query, hquery⟩, doc, hdoc⟩, pooling, hpooling⟩
    unfold emitEntry emitInfo
    rw [hname, hrevision, hpath, honnx, htokenizer, hquery, hdoc, hpooling]
    exact ⟨_, rfl⟩

theorem check_ok {models : List YamlModel} (h : ∀ model ∈ models, missing model = [])
    (pins : ∀ model ∈ models, unpinned model = []) : check models = .ok [] := by
  induction models with
  | nil => rfl
  | cons model models ih =>
    rw [List.forall_mem_cons] at h pins
    unfold check
    rw [if_pos h.1, ih h.2 pins.2]
    change Except.ok (if unpinned model = [] then [] else _) = _
    rw [if_pos pins.1]

theorem check_missing {models : List YamlModel} {incomplete : List (YamlValue × List String)}
    (h : check models = .ok incomplete) : ∀ model ∈ models, missing model = [] := by
  induction models generalizing incomplete with
  | nil => exact fun _ hm => (List.not_mem_nil hm).elim
  | cons model models ih =>
    unfold check at h
    split at h
    · rename_i present
      obtain ⟨rest, htail, -⟩ := bind_ok h
      exact List.forall_mem_cons.mpr ⟨present, ih htail⟩
    · cases h

theorem shippable_iff {model : YamlModel} : Shippable model ∧ model.parity.truthy = true ↔
    missing model = [] ∧ unpinned model = [] ∧ ∃ row, emitEntry model = .ok row := by
  have required : missing model = [] ↔ ∀ field ∈ required model, field.2.absent = false := by
    unfold missing
    simp only [List.map_eq_nil_iff, List.filter_eq_nil_iff, Bool.not_eq_true]
  have pinned : unpinned model = [] ↔ (∀ value ∈ [model.revision, model.onnxSha256,
      model.tokenizerSha256], value.truthy = true) ∧ model.parity.truthy = true := by
    unfold unpinned pinned
    simp [List.map_eq_nil_iff, List.filter_eq_nil_iff, and_assoc]
  simp only [required, pinned, emitEntry_ok_iff, escape_ok_iff, escapeOr_ok_iff]
  constructor
  · rintro ⟨⟨hrequired, hpinned, htexts, hoptional, hpooling⟩, hparity⟩
    exact ⟨hrequired, ⟨hpinned, hparity⟩, htexts, hoptional, hpooling⟩
  · rintro ⟨hrequired, ⟨hpinned, hparity⟩, htexts, hoptional, hpooling⟩
    exact ⟨⟨hrequired, hpinned, htexts, hoptional, hpooling⟩, hparity⟩

theorem main_strict_ok_iff {models : List YamlModel} :
    (∃ emitted, main true models = .ok emitted) ↔
      ∀ model ∈ models, Shippable model ∧ model.parity.truthy = true := by
  simp only [shippable_iff]
  constructor
  · rintro ⟨emitted, h⟩ model hm
    obtain ⟨⟨incomplete, hcheck⟩, hrows, -⟩ := main_ok h
    exact ⟨check_missing hcheck model hm, main_strict_pinned h model hm,
      mapM_ok_iff.mp ⟨_, hrows⟩ model hm⟩
  · intro h
    have hcheck := check_ok (fun model hm => (h model hm).1) fun model hm => (h model hm).2.1
    obtain ⟨rows, hrows⟩ := mapM_ok_iff.mpr fun model hm => (h model hm).2.2
    have hinfos := mapM_ok (fun _ _ => emitEntry_info) hrows
    unfold main
    rw [hcheck, hrows, hinfos]
    exact ⟨_, rfl⟩

section
variable {ι : Type} {header : Header ι}

theorem Header.entry_info {row : EmittedEntry} {entry : RegistryEntry ι}
    (h : header.entry row = some entry) : header.info row.info = some entry.info := by
  unfold Header.entry at h
  obtain ⟨info, hinfo, h⟩ := Option.bind_eq_some_iff.mp h
  obtain ⟨_, _, h⟩ := Option.bind_eq_some_iff.mp h
  obtain ⟨_, _, h⟩ := Option.bind_eq_some_iff.mp h
  obtain ⟨_, _, h⟩ := Option.bind_eq_some_iff.mp h
  obtain ⟨_, _, h⟩ := Option.bind_eq_some_iff.mp h
  obtain ⟨_, _, h⟩ := Option.bind_eq_some_iff.mp h
  obtain rfl := Option.some.inj h
  exact hinfo

theorem Header.compile_kModels {strict : Bool} {models : List YamlModel} {emitted : Emitted}
    {tables : Tables ι} (hmain : main strict models = .ok emitted)
    (h : header.compile emitted = some tables) :
    tables.kModels = tables.kRegistry.map (·.info) := by
  unfold Header.compile at h
  obtain ⟨rows, hrows, h⟩ := Option.bind_eq_some_iff.mp h
  obtain ⟨infos, hinfos, h⟩ := Option.bind_eq_some_iff.mp h
  obtain rfl := Option.some.inj h
  rw [main_kModels hmain] at hinfos
  have both := mapM_some (fun _ _ => Header.entry_info) hrows
  exact Option.some.inj (hinfos.symm.trans both)

end
end CyborgdbEmbed.GenRegistry

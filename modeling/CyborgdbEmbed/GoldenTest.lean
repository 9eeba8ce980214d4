import CyborgdbEmbed.GoldenFiles
import CyborgdbEmbed.GoldenScore
import CyborgdbEmbed.OpenedModels
import CyborgdbEmbed.SequentialOpens

set_option autoImplicit false

/-!
# The golden test

`golden_test` opens the models it is told of, one after the other, checks what it can of the
handles and of the calls that must fail, and scores the vectors of each against the committed
ones. What loads end with and what ONNX Runtime answers are parameters.
-/
namespace CyborgdbEmbed.GoldenTest
open Loops GoldenFiles GoldenScore
open SessionStore (CallId EmbedderId LoadOutcome)
open OpenedModels (Options)
open Utf8 (Bytes)

/-- How a load ends: with what `make_ort_session` finds out, with an error, or with an
    exception. -/
inductive Load (α : Type) where
  | made (tokenizer : Tokenizer) (needsTokenTypeIds : Bool)
      (run : ℕ → Feed → Except String (Buffer α))
  | failed (status : Status) (bad : status.ok = false)
  | threw

namespace Load
variable {α : Type}

def outcome : Load α → LoadOutcome
  | .made .. => .returned {}
  | .failed status _ => .returned status
  | .threw => .threw

def session (entry : RegistryEntry ModelId) (options : Options) :
    Load α → Option (ModelSession ModelId α)
  | .made tokenizer needsTokenTypeIds run => some
      { entry, tokenizer, needsTokenTypeIds, run
        provider := options.provider, precision := options.precision }
  | .failed _ _ | .threw => none

end Load

structure Library (α : Type) where
  store : SessionStore.State := SessionStore.initial
  -- by the number of the call that has loaded it
  sessions : CallId → Option (ModelSession ModelId α) := fun _ => none

namespace Library
variable {α : Type} (lib : Library α)

def fresh : EmbedderId := lib.store.embedders.length

def does (a : SessionStore.Action) : Library α :=
  { lib with store := (SessionStore.step lib.store a).getD lib.store }

def embedder (e : EmbedderId) : Embedder ModelId α where
  session := ((lib.store.embedders[e]?.join).bind lib.store.impls).bind lib.sessions

/-- `open`. It gives nothing where an exception leaves it. -/
def opens (id : ModelId) (options : Options) (out : EmbedderId) (load : Load α) :
    Option (Library α × Status) :=
  match ModelLookup.find kRegistry id with
  | none => some (lib, ⟨.invalidArgument, "unknown model"⟩)
  | some entry =>
    match SessionStore.openAlone lib.store entry options.provider options.precision out
        load.outcome with
    | some (store, .ok s) => some (
        { store
          sessions := if s = lib.store.next
            then Function.update lib.sessions s (load.session entry options)
            else lib.sessions }, {})
    | some (store, .failed _ status) => some ({ lib with store }, status)
    | some (_, .threw _) | none => none

end Library

inductive Line (δ : Type) where
  | notInRegistry
  | openFailed (message : String)
  | notShared
  | wrongIdentity
  | unusableHandle
  | undersizedTaken
  | nullTaken
  | emptyRefused
  | noGolden (kind : String)
  | embedFailed (kind message : String)
  | scored (kind : String) (real edge : Score δ) (ok : Bool)

structure Report (δ : Type) where
  lines : List (String × Line δ) := []
  failures : ℕ := 0
  checked : ℕ := 0

namespace Report
variable {δ : Type} (report : Report δ) (name : String)

def print (line : Line δ) : Report δ := { report with lines := report.lines ++ [(name, line)] }

def fail (line : Line δ) : Report δ :=
  { report.print name line with failures := report.failures + 1 }

def require (holds : Bool) (line : Line δ) : Report δ :=
  if holds then report else report.fail name line

end Report

structure Inputs where
  dataDir : String
  files : String → Option Bytes

namespace Inputs
variable (inputs : Inputs)

def fixtures : Option (List Bytes × List Bytes) :=
  GoldenFiles.GoldenTest.fixtures ((inputs.files (inputs.dataDir ++ "/corpus.bin")).getD [])
    ((inputs.files (inputs.dataDir ++ "/corpus.groups")).getD [])

def golden (name kind : String) : List UInt32 :=
  (GoldenFiles.GoldenTest.readVectors (inputs.files (inputs.dataDir ++ "/golden/" ++
    Resolve.flatten name ++ "/reference-" ++ kind ++ ".f32"))).data

end Inputs

def chars (bytes : Bytes) : String := String.ofList (bytes.map fun b => Char.ofNat b.toNat)

/-- `data()` of a vector. That of an empty one may be null. -/
def vectorData {α : Type} (size : ℕ) (floats : Buffer α) : Option (Buffer α) :=
  if size = 0 then none else some floats

def chosen (name : String) : Option (ModelInfo ModelId) :=
  kModels.reverse.find? fun model => model.name = name

/-- `live.size() == 1 && live[0].handles == 2` -/
def shared (live : List SessionStore.LoadedModel) : Bool :=
  match live with
  | [model] => model.handles == 2
  | _ => false

def describes (id : Identity) (info : ModelInfo ModelId) : Bool :=
  id.model == info.name && id.revision == info.revision && id.registryVersion != ""

section
variable {α δ : Type} [Arith α] [Doubles δ] (widen : α → δ) (ofBits : UInt32 → δ)
  (inputs : Inputs) (texts groups : List Bytes)

def views : Option (ℕ → Bytes) := if texts = [] then none else some fun i => texts.getD i []

/-- `views.size() * dim`, in `std::size_t`. -/
def floats (dim : ℕ) : ℕ := texts.length * dim % UInt64.size

/-- The failure paths that need an open session. The vectors are handed to two of them. -/
def testRefusals (name : String) (model : Embedder ModelId α) (vectors : Buffer α)
    (report : Report δ) : Buffer α × Report δ :=
  let dim := model.dimension
  let size := floats texts dim
  let undersized := model.embedDocuments (views texts) 1
    (vectorData (dim - 1) fun _ => Arith.zero) (dim - 1)
  let report := report.require name (undersized.1.code == .outputTooSmall) .undersizedTaken
  let null := model.embedDocuments none 1 (vectorData size vectors) size
  let vectors := null.2.getD vectors
  let report := report.require name (null.1.code == .invalidArgument) .nullTaken
  let empty := model.embedDocuments (views texts) 0 (vectorData size vectors) size
  (empty.2.getD vectors, report.require name empty.1.ok .emptyRefused)

def testKind (name : String) (model : Embedder ModelId α) (s : Buffer α × Report δ)
    (kind : String) : Buffer α × Report δ :=
  let (vectors, report) := s
  let dim := model.dimension
  let size := floats texts dim
  let reference := inputs.golden name kind
  if reference.length ≠ size then (vectors, report.print name (.noGolden kind))
  else
    let (status, out) :=
      if kind = "query"
        then model.embedQueries (views texts) texts.length (vectorData size vectors) size
        else model.embedDocuments (views texts) texts.length (vectorData size vectors) size
    let vectors := out.getD vectors
    if !status.ok then (vectors, report.fail name (.embedFailed kind status.message))
    else
      let scored := score (fun k => ofBits (reference.getD k 0)) (fun k => widen (vectors k))
        (groups.map chars) dim
      let real := scored "real"
      let ok := real.passes
      (vectors, { report.print name (.scored kind real (scored "edge") ok) with
        checked := report.checked + 1
        failures := report.failures + if ok then 0 else 1 })

def testVectors (name : String) (model : Embedder ModelId α) (vectors : Buffer α)
    (report : Report δ) : Report δ :=
  (["document", "query"].foldl (testKind widen ofBits inputs texts groups name model)
    (vectors, report)).2

omit [Arith α] [Doubles δ] in
def testHandles (load : Load α) (name : String) (info : ModelInfo ModelId) (model : EmbedderId)
    (lib : Library α) (report : Report δ) : Option (Library α × Report δ) :=
  let second := lib.fresh
  let lib := lib.does .construct
  -- its status is not looked at
  (lib.opens info.id {} second load).map fun (lib, _) =>
    let report := report.require name (shared (SessionStore.loaded lib.store)) .notShared
    let report := report.require name (describes (lib.embedder model).identity info)
      .wrongIdentity
    let assigned := lib.fresh
    let lib := (lib.does .construct).does (.copy assigned second)
    let usable := (lib.embedder assigned).valid &&
      (lib.embedder assigned).dimension == (lib.embedder model).dimension
    ((lib.does (.destroy assigned)).does (.destroy second),
      report.require name usable .unusableHandle)

/-- One name of the command line. Loads go by the number of their call. -/
def testModel (loads : CallId → Load α) (s : Library α × Report δ) (name : String) :
    Option (Library α × Report δ) :=
  let (lib, report) := s
  match chosen name with
  | none => some (lib, report.print name .notInRegistry)
  | some info =>
    let model := lib.fresh
    let lib := lib.does .construct
    (lib.opens info.id {} model (loads lib.store.next)).bind fun (lib, status) =>
      if !status.ok then
        some (lib.does (.destroy model), report.fail name (.openFailed status.message))
      else
        (testHandles (loads lib.store.next) name info model lib report).map fun (lib, report) =>
          let (vectors, report) :=
            testRefusals texts name (lib.embedder model) (fun _ => Arith.zero) report
          (lib.does (.destroy model),
            testVectors widen ofBits inputs texts groups name (lib.embedder model) vectors report)

/-- The exit status and what is printed, or nothing where an exception leaves `main`. -/
def main (names : List String) (loads : CallId → Load α) : Option (ℕ × Report δ) :=
  match names, inputs.fixtures with
  | [], _ | _, none => some (2, {})
  | names, some (texts, groups) =>
    (names.foldlM (testModel widen ofBits inputs texts groups loads) ({}, {})).map
      fun (_, report) => (if report.failures = 0 then 0 else 1, report)

end

end CyborgdbEmbed.GoldenTest

import CyborgdbEmbed.ModelLookup
import CyborgdbEmbed.TransitionSystem

set_option autoImplicit false

/-!
# Pins, verdicts and the header they were measured with

Three scripts edit or read one model's block of registry.yaml. `pin_registry` sets the
pins, `sweep` writes the verdict of what `embed_corpus` measured, which is whatever
header was compiled into it, and `gen_registry` turns the file into the next header.
-/
namespace CyborgdbEmbed.ParityMaintenance
open GenRegistry TransitionSystem

structure Pins where
  revision : String := ""
  onnxSha256 : String := ""
  tokenizerSha256 : String := ""
  deriving DecidableEq, Repr

/-- One model's block. `measured` is not in the file: it records the pins the embed arm
    ran with in the sweep that wrote `parity`, if the arm ran. -/
structure Block where
  id : String
  enum : String
  pins : Pins
  parity : String
  onnxPath : YamlValue
  dim : YamlValue
  pooling : YamlValue
  normalize : YamlValue
  maxSeqLength : YamlValue
  queryPrefix : YamlValue
  docPrefix : YamlValue
  measured : Option Pins := none
  deriving DecidableEq, Repr

def Block.model (block : Block) : YamlModel where
  id := .str block.id
  enum := .str block.enum
  revision := .str block.pins.revision
  onnxPath := block.onnxPath
  onnxSha256 := .str block.pins.onnxSha256
  tokenizerSha256 := .str block.pins.tokenizerSha256
  dim := block.dim
  pooling := block.pooling
  normalize := block.normalize
  maxSeqLength := block.maxSeqLength
  queryPrefix := block.queryPrefix
  docPrefix := block.docPrefix
  parity := .str block.parity

/-- How the arms of one model end. With all of them run, each direction that could be
    compared has its verdict on real prose. -/
inductive Trial where
  | referenceFailed
  | ortFailed
  | embedFailed
  | compared (document query : Option String)
  deriving DecidableEq, Repr

inductive Results where
  | error (arm : String)
  | scored (document query : Option String) (ranWith : Pins)
  deriving DecidableEq, Repr

structure State (ι : Type) where
  blocks : List Block
  compiled : Tables ι

inductive Action where
  | pin (resolved : ℕ → Option Pins)
  | gen (strict : Bool)
  | sweep (models : List String) (trials : ℕ → Trial)

section
variable {ι : Type} [DecidableEq ι]

def entryPins (entry : RegistryEntry ι) : Pins :=
  ⟨entry.info.revision, entry.onnxSha256, entry.tokenizerSha256⟩

/-- The pins `embed_corpus` embeds with: it takes the last model of that name, opens its
    id, and the load refuses an entry without a revision or a graph digest. -/
def embedCorpus (compiled : Tables ι) (id : String) : Option Pins := do
  let chosen ← compiled.kModels.reverse.find? fun model => model.name = id
  let entry ← ModelLookup.find compiled.kRegistry chosen.id
  if entry.info.revision = "" ∨ entry.onnxSha256 = "" then none else some (entryPins entry)

def runArms (compiled : Tables ι) (id : String) : Trial → Results
  | .referenceFailed => .error "reference"
  | .ortFailed => .error "ort"
  | .embedFailed => .error "embed"
  | .compared document query =>
    match embedCorpus compiled id with
    | none => .error "embed"
    | some pins => .scored document query pins

def wanted (models : List String) (block : Block) : Bool :=
  models.isEmpty || models.contains block.id || models.contains block.enum

/-- The summary, latest entry first: one that is scored twice keeps the later results. -/
def summary (compiled : Tables ι) (blocks : List Block) (models : List String)
    (trials : ℕ → Trial) : List (String × Results) :=
  ((blocks.zipIdx.filter fun p => wanted models p.1).map fun p =>
    (p.1.id, runArms compiled p.1.id (trials p.2))).reverse

end

/-- Document and query must agree; a split verdict is not a verdict. -/
def splitVerdict : Option String → Option String → String
  | some document, some query => if document = query then document else ""
  | some verdict, none | none, some verdict => verdict
  | none, none => ""

def Results.verdict : Results → String × Option Pins
  | .error _ => ("", none)
  | .scored document query pins => (splitVerdict document query, some pins)

def writeVerdict (summary : List (String × Results)) (block : Block) : Block :=
  match summary.lookup block.id with
  | some results => { block with parity := results.verdict.1, measured := results.verdict.2 }
  | none => block

def pinBlock (resolved : Option Pins) (block : Block) : Block :=
  { block with pins := resolved.getD block.pins }

section
variable {ι : Type} [DecidableEq ι] (header : Header ι)

def gen (strict : Bool) (σ : State ι) : State ι :=
  match main strict (σ.blocks.map Block.model) with
  | .ok emitted =>
    match header.compile emitted with
    | some tables => { σ with compiled := tables }
    | none => σ
  | .error _ => σ

def step (σ : State ι) : Action → Option (State ι)
  | .pin resolved => some { σ with blocks := σ.blocks.mapIdx fun i => pinBlock (resolved i) }
  | .gen strict => some (gen header strict σ)
  | .sweep models trials => some { σ with
      blocks := σ.blocks.map (writeVerdict (summary σ.compiled σ.blocks models trials)) }

omit [DecidableEq ι] in
/-- If the strict generator accepts the file, each verdict in it was measured with the
    pins beside it. -/
def ShipsMeasured (σ : State ι) : Prop :=
  ∀ emitted, main true (σ.blocks.map Block.model) = .ok emitted →
    ∀ block ∈ σ.blocks, block.measured = some block.pins

/-- Pinning changes nothing under a verdict, and where a sweep finds a verdict, the
    header it ran with has the pins of the file. -/
def Fresh (σ : State ι) : Action → Prop
  | .pin resolved => ∀ i block pins, σ.blocks[i]? = some block → resolved i = some pins →
      pins ≠ block.pins → block.parity = ""
  | .gen _ => True
  | .sweep models trials => ∀ i model document query pins, σ.blocks[i]? = some model →
      wanted models model = true → trials i = .compared document query →
      splitVerdict document query ≠ "" → embedCorpus σ.compiled model.id = some pins →
      ∀ block ∈ σ.blocks, block.id = model.id → pins = block.pins

def VerdictsFresh (blocks : List Block) : Prop :=
  ∀ block ∈ blocks, block.parity ≠ "" → block.measured = some block.pins

omit [DecidableEq ι] in
theorem VerdictsFresh.shipsMeasured {σ : State ι} (h : VerdictsFresh σ.blocks) :
    ShipsMeasured σ := by
  intro emitted accepted block hblock
  refine h block hblock fun blank => ?_
  have complete := main_strict_pinned accepted _ (List.mem_map_of_mem hblock)
  have verdict := truthy_of_unpinned complete ("parity", .str block.parity)
    (by simp [pinned, Block.model])
  simp [YamlValue.truthy, blank] at verdict

theorem VerdictsFresh.pin {blocks : List Block} (h : VerdictsFresh blocks)
    {resolved : ℕ → Option Pins}
    (fresh : ∀ i block pins, blocks[i]? = some block → resolved i = some pins →
      pins ≠ block.pins → block.parity = "") :
    VerdictsFresh (blocks.mapIdx fun i => pinBlock (resolved i)) := by
  intro block' hmem verdict
  obtain ⟨i, hi, rfl⟩ := List.mem_mapIdx.mp hmem
  have hget : blocks[i]? = some blocks[i] := List.getElem?_eq_getElem hi
  have before : blocks[i].measured = some blocks[i].pins :=
    h blocks[i] (List.getElem_mem hi) verdict
  cases hr : resolved i with
  | none => exact before
  | some pins =>
    by_cases same : pins = blocks[i].pins
    · simp only [pinBlock, Option.getD_some, before, same]
    · exact absurd (fresh i _ pins hget hr same) verdict

theorem mem_summary {compiled : Tables ι} {blocks : List Block} {models : List String}
    {trials : ℕ → Trial} {id : String} {document query : Option String} {pins : Pins}
    (h : (id, Results.scored document query pins) ∈ summary compiled blocks models trials) :
    ∃ i model, blocks[i]? = some model ∧ wanted models model = true ∧ model.id = id ∧
      trials i = .compared document query ∧ embedCorpus compiled model.id = some pins := by
  obtain ⟨⟨model, i⟩, hsel, hrow⟩ := List.mem_map.mp (List.mem_reverse.mp h)
  obtain ⟨hidx, hwanted⟩ := List.mem_filter.mp hsel
  obtain ⟨rfl, hrun⟩ := Prod.mk.inj hrow
  refine ⟨i, model, List.mem_zipIdx_iff_getElem?.mp hidx, hwanted, rfl, ?_⟩
  dsimp only at hrun
  cases ht : trials i with
  | referenceFailed | ortFailed | embedFailed =>
    rw [ht] at hrun
    cases hrun
  | compared d q =>
    rw [ht, runArms] at hrun
    cases he : embedCorpus compiled model.id with
    | none =>
      rw [he] at hrun
      cases hrun
    | some ran =>
      rw [he] at hrun
      obtain ⟨rfl, rfl, rfl⟩ := Results.scored.inj hrun
      exact ⟨rfl, rfl⟩

theorem VerdictsFresh.sweep {σ : State ι} (h : VerdictsFresh σ.blocks) {models : List String}
    {trials : ℕ → Trial} (fresh : Fresh σ (.sweep models trials)) :
    VerdictsFresh (σ.blocks.map (writeVerdict (summary σ.compiled σ.blocks models trials))) := by
  intro block' hmem verdict
  obtain ⟨block, hblock, rfl⟩ := List.mem_map.mp hmem
  unfold writeVerdict at verdict ⊢
  cases hl : (summary σ.compiled σ.blocks models trials).lookup block.id with
  | none =>
    rw [hl] at verdict
    exact h block hblock verdict
  | some results =>
    rw [hl] at verdict
    cases results with
    | error arm => exact absurd rfl verdict
    | scored document query pins =>
      obtain ⟨before, rest, hsplit, _⟩ := List.lookup_eq_some_iff.mp hl
      have hrow : (block.id, Results.scored document query pins) ∈
          summary σ.compiled σ.blocks models trials := by
        rw [hsplit]
        exact List.mem_append_right _ List.mem_cons_self
      obtain ⟨i, model, hi, hwanted, hid, htrial, hran⟩ := mem_summary hrow
      have same := fresh i model document query pins hi hwanted htrial verdict hran block hblock
        hid.symm
      exact congrArg some same

omit [DecidableEq ι] in
theorem gen_blocks (strict : Bool) (σ : State ι) : (gen header strict σ).blocks = σ.blocks := by
  unfold gen
  split
  · split <;> rfl
  · rfl

theorem verdictsFresh_step {σ σ' : State ι} {a : Action} (h : VerdictsFresh σ.blocks)
    (fresh : Fresh σ a) (hs : step header σ a = some σ') : VerdictsFresh σ'.blocks := by
  cases a with
  | pin resolved =>
    obtain rfl := Option.some.inj hs
    exact h.pin fresh
  | gen strict =>
    obtain rfl := Option.some.inj hs
    rwa [gen_blocks]
  | sweep models trials =>
    obtain rfl := Option.some.inj hs
    exact h.sweep fresh

/-- From a file without verdicts, as long as no pin moves under a verdict and no sweep
    finds one with another header, everything that ships was measured as it ships. -/
theorem fresh_run_ships_measured {σ : State ι} (blank : ∀ block ∈ σ.blocks, block.parity = "")
    {as : List Action} (fresh : AllSteps (step header) Fresh σ as) :
    AllStates (step header) ShipsMeasured σ as := by
  have start : VerdictsFresh σ.blocks := fun block hblock verdict =>
    absurd (blank block hblock) verdict
  have run : AllStates (step header) (fun σ => VerdictsFresh σ.blocks) σ as :=
    fresh.allStates (fun σ a σ' h ha hs => verdictsFresh_step header h ha hs) start
  exact run.mono fun σ h => h.shipsMeasured

end

def bgeBlock : Block where
  id := "BAAI/bge-small-en-v1.5"
  enum := "BgeSmallEnV15"
  pins := entryPins bgeSmallEnV15
  parity := ""
  onnxPath := .str "onnx/model.onnx"
  dim := .int 384
  pooling := .str "cls_token"
  normalize := .bool true
  maxSeqLength := .int 512
  queryPrefix := .str ""
  docPrefix := .str ""

def bgeState : State ModelId := ⟨[bgeBlock], ⟨[bgeSmallEnV15], [bgeSmallEnV15.info]⟩⟩

def measureAll : Action :=
  .sweep [] fun _ => .compared (some "numerically-equivalent") (some "numerically-equivalent")

/-- Upstream has moved: the same model at another commit, with another graph. -/
def repin : Action :=
  .pin fun _ => some ⟨"a5beb1e3e68b9ab74eb54cfd186867f64f240e1a",
    "9bc579acdba21c253c62a9bf866891355a63ffa3442b52c8a37d75b2ccb91848",
    "d241a60d5e8f04cc1b2b3e9ef7a4921b27bf526d9f6050ab90f9267a1f9e5c66"⟩

theorem bgeState_ships_measured : AllStates (step ModelLookup.embedHpp) ShipsMeasured bgeState
    [measureAll, .gen true] := by
  refine fresh_run_ships_measured ModelLookup.embedHpp (by decide) fun σ _ => ⟨?_, fun _ _ => ?_⟩
  · intro i model document query pins hi _ _ _ hran block hblock _
    obtain rfl := List.mem_singleton.mp hblock
    obtain rfl := List.mem_singleton.mp (List.mem_of_getElem? hi)
    have ran : embedCorpus bgeState.compiled bgeBlock.id = some bgeBlock.pins := by decide
    exact Option.some.inj (hran.symm.trans ran)
  · exact ⟨trivial, trivial⟩

/-- Pinning keeps the verdict of the old bytes, and the strict generator then ships it. -/
theorem repin_ships_stale_verdict : ¬ ∀ σ : State ModelId,
    (∀ block ∈ σ.blocks, block.parity = "") →
      ∀ as, AllStates (step ModelLookup.embedHpp) ShipsMeasured σ as := by
  intro h
  have shipped := ((h bgeState (by decide) [measureAll, repin]).2 _ rfl).2 _ rfl
  have stale := shipped _ rfl _ (List.mem_singleton_self _)
  revert stale
  decide

end CyborgdbEmbed.ParityMaintenance

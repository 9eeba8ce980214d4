import CyborgdbEmbed.RegistryScripts

set_option autoImplicit false

/-!
# The scripts refine the maintenance of blocks

A state is the text of registry.yaml and the header that was generated last. On a legible
text every script does to the blocks what `ParityMaintenance` has it do.
-/
namespace CyborgdbEmbed.RegistryScripts
open FileSystem (Bytes)
open GenRegistry (Header Tables YamlModel YamlValue)
open ListsInStep (lookup_rel numbered_map numbered_mapIdx zipIdx_filter)
open ParityGate (Measured verdict recordVerdict writeVerdicts)
open ParityMaintenance (Pins embedCorpus pinBlock runArms splitVerdict writeVerdict)
open PinWrites (Outcome Resolution Resolve answer repin)
open RegistryRewrites (readLines lines_readLines)
open RegistryText TextLines TransitionSystem
open VerdictWrites (Entry Trial wanted)

structure State (ι : Type) where
  text : List Char
  compiled : Tables ι

inductive Action (R : Type) where
  | pin (resolve : Resolve)
  | gen (strict : Bool)
  | sweep (run : VerdictWrites.Run R)

def entryOf (model : YamlModel) : Option Entry :=
  match model.id, model.enum with
  | .str id, .str enum => some ⟨id, enum⟩
  | _, _ => none

section
variable {R ι : Type} [DecidableEq ι]

/-- `embed_corpus` ends with an error on a model that its header does not have, or not with
    its pins. -/
def embedded (compiled : Tables ι) (id : String) (t : Trial R) : Trial R :=
  match embedCorpus compiled id with
  | some _ => t
  | none => { t with embed := 1 }

def sweepSummary (compiled : Tables ι) (run : VerdictWrites.Run R) (entries : List Entry) :
    List (String × Measured R) :=
  ((run.rounds entries).map fun r =>
    (r.1.id, (embedded compiled r.1.id r.2).measured run.skipReference)).reverse

variable (readLine : Line → Option (String × YamlValue)) (header : Header ι)

/-- `common.models`, of which `sweep.py` reads the ids and the enumerators. -/
def entries (text : List Char) : Option (List Entry) :=
  (safeLoad readLine (readLines text)).mapM entryOf

omit [DecidableEq ι] in
def gen (strict : Bool) (σ : State ι) : State ι :=
  match GenRegistry.main strict (safeLoad readLine (readLines σ.text)) with
  | .ok emitted =>
    match header.compile emitted with
    | some tables => { σ with compiled := tables }
    | none => σ
  | .error _ => σ

variable [LE R] [LT R] [DecidableLE R] [DecidableLT R] [Sub R] [OfNat R 0] [OfNat R 1]
  [OfScientific R]

def sweep (run : VerdictWrites.Run R) (σ : State ι) : Option (State ι) :=
  (entries readLine σ.text).map fun entries => { σ with
    text := (writeVerdicts (sweepSummary σ.compiled run entries) (readLines σ.text)).flatten }

def step (σ : State ι) : Action R → Option (State ι)
  | .pin resolve => some { σ with text := (PinWrites.main resolve σ.text).1 }
  | .gen strict => some (gen readLine header strict σ)
  | .sweep run => sweep readLine run σ

def pinsOf (pins : Resolution) : Pins :=
  ⟨String.ofList pins.commit, String.ofList pins.sha256, String.ofList pins.tokenizer⟩

/-- The pins that a run writes: none of them where an exception ends it. -/
def resolved (resolve : Resolve) (lines : List Line) (i : ℕ) : Option Pins := do
  let _ ← PinWrites.scan resolve 0 none lines
  let block ← (blocks lines)[i]?
  match answer resolve (block, i) with
  | .ok pins => some (pinsOf pins)
  | .error _ => none

def trialOf (skipReference : Bool) (t : Trial R) : ParityMaintenance.Trial :=
  if !skipReference && t.reference != 0 then .referenceFailed
  else if t.ort != 0 then .ortFailed
  else if t.embed != 0 then .embedFailed
  else .compared ((t.scored .embed .document).map fun c => (verdict c).text)
    ((t.scored .embed .query).map fun c => (verdict c).text)

/-- A model's trial by its place in the file: the run counts only the models it wants. -/
def trials (run : VerdictWrites.Run R) (entries : List Entry) (i : ℕ) : ParityMaintenance.Trial :=
  trialOf run.skipReference (run.trial ((entries.take i).countP (wanted run.models)))

def translate (σ : State ι) : Action R → ParityMaintenance.Action
  | .pin resolve => .pin (resolved resolve (readLines σ.text))
  | .gen strict => .gen strict
  | .sweep run => .sweep run.models (trials run ((entries readLine σ.text).getD []))

/-- The text is legible, and the parser reads the blocks in it. -/
structure Related (σ : State ι) (τ : ParityMaintenance.State ι) : Prop where
  legible : Legible readLine (readLines σ.text)
  models : List.Forall₂ (fun block b => block.id = b.id ∧ block.model readLine = b.model)
    (blocks (readLines σ.text)) τ.blocks
  compiled : τ.compiled = σ.compiled

end

def pinValues (pins : Resolution) (key : String) : Option (List Char) :=
  if key = "revision" then some pins.commit
  else if key = "onnx_sha256" then some pins.sha256
  else if key = "tokenizer_sha256" then some pins.tokenizer
  else none

def answerValues : Outcome → String → Option (List Char)
  | .ok pins => pinValues pins
  | .error _ => fun _ => none

theorem edits_id : Edits id (fun _ => none) where
  plain := by
    intro key value h
    cases h
  write := by
    intro key _ value h
    cases h
  keep := fun _ _ _ _ _ => rfl
  other := fun _ _ => rfl
  only := fun _ _ => rfl

theorem mem_writtenKeys {key : String} : key ∈ writtenKeys ↔
    key = "revision" ∨ key = "onnx_sha256" ∨ key = "tokenizer_sha256" ∨ key = "parity" := by
  unfold writtenKeys
  simp only [List.mem_cons, List.not_mem_nil, or_false]

theorem edits_repin (pins : Resolution) : Edits (repin (some pins)) (pinValues pins) := by
  have other (line : Line) (h : ∀ key ∈ ["revision", "onnx_sha256", "tokenizer_sha256"],
      hasKey key.toList line = false) : repin (some pins) line = line := by
    unfold repin
    dsimp only
    rw [h "revision" (by decide), h "onnx_sha256" (by decide), h "tokenizer_sha256" (by decide)]
    rfl
  constructor
  · intro key value h
    unfold pinValues at h
    split at h
    · exact Option.some.inj h ▸ pins.plainCommit
    · split at h
      · exact Option.some.inj h ▸ pins.plainSha256
      · split at h
        · exact Option.some.inj h ▸ pins.plainTokenizer
        · cases h
  · intro key hkey value h line found
    obtain rfl | rfl | rfl | rfl := mem_writtenKeys.mp hkey
    · obtain rfl := Option.some.inj h
      exact PinWrites.repin_revision found
    · obtain rfl := Option.some.inj h
      exact PinWrites.repin_onnxSha256 found
    · obtain rfl := Option.some.inj h
      exact PinWrites.repin_tokenizerSha256 found
    · cases h
  · intro key hkey h line found
    obtain rfl | rfl | rfl | rfl := mem_writtenKeys.mp hkey
    · cases h
    · cases h
    · cases h
    · apply other
      simp only [List.forall_mem_cons, List.not_mem_nil, false_imp_iff, implies_true, and_true]
      exact ⟨PinWrites.hasKey_apart (d := 'r') found (by decide),
        PinWrites.hasKey_apart (d := 'o') found (by decide),
        PinWrites.hasKey_apart (d := 't') found (by decide)⟩
  · intro line h
    apply other
    intro key hkey
    apply h
    revert key
    decide
  · intro key outside
    rw [mem_writtenKeys, not_or, not_or, not_or] at outside
    unfold pinValues
    rw [if_neg outside.1, if_neg outside.2.1, if_neg outside.2.2.1]

theorem edits_answer {outcome : Outcome} {block block' : Block}
    (done : PinWrites.Done outcome block block') : ∃ f, Edits f (answerValues outcome) ∧
      block' = { block with body := block.body.map f } := by
  cases outcome with
  | ok pins => exact ⟨repin (some pins), edits_repin pins, done⟩
  | error failure =>
    cases failure with
    | caught =>
      refine ⟨id, edits_id, ?_⟩
      rw [List.map_id]
      exact done
    | raised => exact done.elim

section
variable {readLine : Line → Option (String × YamlValue)} {text : List Char} {resolve : Resolve}

theorem pin_file (legible : Legible readLine (readLines text)) {result : PinWrites.Scan}
    (h : PinWrites.scan resolve 0 none (readLines text) = some result) :
    EditedFile (fun p => answerValues (answer resolve p)) (readLines text)
      (readLines (PinWrites.main resolve text).1) := by
  have scanned := PinWrites.scan_scanned (fun line hline => (legible.line line hline).starts) h
  have written : (PinWrites.main resolve text).1 = result.lines.flatten := by
    unfold PinWrites.main
    rw [h]
  have reread : readLines result.lines.flatten = result.lines :=
    ((lines_readLines text).alike scanned.alike).reread
  rw [written, reread]
  refine ⟨?_, scanned.models.imp fun p block' => edits_answer⟩
  rw [scanned.before]
  exact List.map_id' _

theorem pin_raises (h : PinWrites.scan resolve 0 none (readLines text) = none) :
    (PinWrites.main resolve text).1 = text := by
  unfold PinWrites.main
  rw [h]

end

theorem written_answer (outcome : Outcome) (b : ParityMaintenance.Block) :
    written (answerValues outcome) b.model =
      (pinBlock (match outcome with
        | .ok pins => some (pinsOf pins)
        | .error _ => none) b).model := by
  cases outcome with
  | ok pins => rfl
  | error failure => rfl

def verdictValue (results : Option String) (key : String) : Option (List Char) :=
  if key = "parity" then results.map String.toList else none

section
variable {R ι : Type} [LE R] [LT R] [DecidableLE R] [DecidableLT R] [Sub R] [OfNat R 0]
  [OfNat R 1] [OfScientific R] {summary : List (String × Measured R)}

theorem edits_recordVerdict (id : String) : Edits (recordVerdict summary id)
    (verdictValue ((summary.lookup id).map Measured.value)) := by
  constructor
  · intro key value h
    unfold verdictValue at h
    split at h
    · obtain ⟨text, htext, rfl⟩ := Option.map_eq_some_iff.mp h
      obtain ⟨results, -, rfl⟩ := Option.map_eq_some_iff.mp htext
      exact results.value_plain
    · cases h
  · intro key hkey value h line found
    unfold verdictValue at h
    split at h
    · rename_i same
      obtain ⟨text, htext, rfl⟩ := Option.map_eq_some_iff.mp h
      obtain ⟨results, hr, rfl⟩ := Option.map_eq_some_iff.mp htext
      rw [same] at found
      unfold recordVerdict
      rw [hr]
      exact if_pos found
    · cases h
  · intro key hkey h line found
    by_cases same : key = "parity"
    · rw [verdictValue, if_pos same, Option.map_eq_none_iff, Option.map_eq_none_iff] at h
      unfold recordVerdict
      rw [h]
    · apply ParityGate.recordVerdict_eq
      by_contra parity
      have one := hasKey_unique (writtenKeys_plain key hkey).1 (by decide) found
        (eq_true_of_ne_false parity)
      exact same (String.toList_inj.mp one)
  · intro line h
    exact ParityGate.recordVerdict_eq (h "parity" (by decide))
  · intro key outside
    rw [mem_writtenKeys, not_or, not_or, not_or] at outside
    exact if_neg outside.2.2.2

theorem sweep_file (summary : List (String × Measured R)) (text : List Char) :
    EditedFile (fun p => verdictValue ((summary.lookup p.1.id).map Measured.value))
      (readLines text) (readLines (writeVerdicts summary (readLines text)).flatten) := by
  have edits (id : String) : Edits (recordVerdict summary id) _ := edits_recordVerdict id
  have alike := RegistryRewrites.alike_edit (fun id line => (edits id).alike line) none
    (readLines text)
  have reread : readLines (writeVerdicts summary (readLines text)).flatten =
      writeVerdicts summary (readLines text) := ((lines_readLines text).alike alike).reread
  rw [reread]
  refine ⟨RegistryRewrites.bodyOf_edit_none _, ?_⟩
  unfold writeVerdicts
  rw [blocks_edit fun id line h => ((edits id).idOf_eq line).trans h]
  have plainly : (blocks (readLines text)).map (Block.edit (recordVerdict summary)) =
      (blocks (readLines text)).zipIdx.map fun p => p.1.edit (recordVerdict summary) := by
    have same := congrArg (List.map (Block.edit (recordVerdict summary)))
      (List.zipIdx_map_fst 0 (blocks (readLines text)))
    rw [← same, List.map_map]
    rfl
  rw [plainly, List.forall₂_map_right_iff, List.forall₂_same]
  exact fun p _ => ⟨recordVerdict summary p.1.id, edits p.1.id, rfl⟩

variable [DecidableEq ι]

theorem embedded_value (compiled : Tables ι) (id : String) (skipReference : Bool) (t : Trial R) :
    ((embedded compiled id t).measured skipReference).value =
      (runArms compiled id (trialOf skipReference t)).verdict.1 := by
  cases ran : embedCorpus compiled id with
  | some pins =>
    have same : embedded compiled id t = t := by
      unfold embedded
      rw [ran]
    rw [same]
    unfold Trial.measured trialOf
    split
    · rfl
    · split
      · rfl
      · split
        · rfl
        · rw [runArms, ran]
          rfl
  | none =>
    have same : embedded compiled id t = { t with embed := 1 } := by
      unfold embedded
      rw [ran]
    have failed : ((embedded compiled id t).measured skipReference).value = "" := by
      rw [same]
      unfold Trial.measured
      split
      · rfl
      · split
        · rfl
        · rfl
    rw [failed]
    unfold trialOf
    split
    · rfl
    · split
      · rfl
      · split
        · rfl
        · rw [runArms, ran]
          rfl

def toEntry (b : ParityMaintenance.Block) : Entry := ⟨b.id, b.enum⟩

theorem summaries_related (compiled : Tables ι) (blocks : List ParityMaintenance.Block)
    (run : VerdictWrites.Run R) :
    List.Forall₂ (fun x y => x.1 = y.1 ∧ x.2.value = y.2.verdict.1)
      (sweepSummary compiled run (blocks.map toEntry))
      (ParityMaintenance.summary compiled blocks run.models
        (trials run (blocks.map toEntry))) := by
  have rounds : run.rounds (blocks.map toEntry) =
      (blocks.zipIdx.filter fun p => ParityMaintenance.wanted run.models p.1).map fun p =>
        (toEntry p.1, run.trial (((blocks.map toEntry).take p.2).countP (wanted run.models))) := by
    unfold VerdictWrites.Run.rounds
    rw [zipIdx_filter, List.zipIdx_map, List.filter_map, List.map_map, List.map_map]
    simp only [Nat.zero_add]
    rfl
  unfold sweepSummary ParityMaintenance.summary
  rw [List.forall₂_reverse_iff, rounds, List.map_map, List.forall₂_map_left_iff,
    List.forall₂_map_right_iff, List.forall₂_same]
  intro p _
  exact ⟨rfl, embedded_value compiled p.1.id run.skipReference _⟩

end

theorem written_verdict {R : Type} [LE R] [LT R] [DecidableLE R] [DecidableLT R] [Sub R]
    [OfNat R 0] [OfNat R 1] [OfScientific R] {ours : Option (Measured R)}
    {summary : List (String × ParityMaintenance.Results)} {b : ParityMaintenance.Block}
    (results : Option.Rel (fun x y => x.value = y.verdict.1) ours (summary.lookup b.id)) :
    b.id = (writeVerdict summary b).id ∧
      written (verdictValue (ours.map Measured.value)) b.model =
        (writeVerdict summary b).model := by
  unfold writeVerdict
  generalize summary.lookup b.id = theirs at results
  cases results with
  | none => exact ⟨rfl, rfl⟩
  | @some x y same =>
    refine ⟨rfl, ?_⟩
    have value : newValue (verdictValue (some x.value)) "parity" (.str b.parity) =
        .str y.verdict.1 := by
      change YamlValue.str (String.ofList x.value.toList) = _
      rw [String.ofList_toList, same]
    exact congrArg (fun parity => { b.model with parity := parity }) value

section
variable {R ι : Type} [DecidableEq ι] [LE R] [LT R] [DecidableLE R] [DecidableLT R] [Sub R]
  [OfNat R 0] [OfNat R 1] [OfScientific R] {readLine : Line → Option (String × YamlValue)}
  {header : Header ι} {σ σ' : State ι} {τ : ParityMaintenance.State ι}

omit [DecidableEq ι] in
theorem Related.safeLoad (related : Related readLine σ τ) :
    safeLoad readLine (readLines σ.text) = τ.blocks.map ParityMaintenance.Block.model := by
  refine List.forall₂_eq_eq_eq ▸ ?_
  rw [RegistryText.safeLoad, List.forall₂_map_left_iff, List.forall₂_map_right_iff]
  exact related.models.imp fun _ _ same => same.2

omit [DecidableEq ι] in
theorem Related.entries (related : Related readLine σ τ) :
    entries readLine σ.text = some (τ.blocks.map toEntry) := by
  unfold RegistryScripts.entries
  rw [related.safeLoad]
  have one (b : ParityMaintenance.Block) : entryOf b.model = some (toEntry b) := rfl
  exact Fallible.mapM_map_some one τ.blocks

omit [DecidableEq ι] in
theorem Related.pin (related : Related readLine σ τ) (resolve : Resolve) :
    Related readLine { σ with text := (PinWrites.main resolve σ.text).1 }
      { τ with blocks := τ.blocks.mapIdx fun i =>
        pinBlock (resolved resolve (readLines σ.text) i) } := by
  cases h : PinWrites.scan resolve 0 none (readLines σ.text) with
  | none =>
    have unpinned : (τ.blocks.mapIdx fun i =>
        pinBlock (resolved resolve (readLines σ.text) i)) = τ.blocks := by
      have none (i : ℕ) : resolved resolve (readLines σ.text) i = none := by
        unfold resolved
        rw [h]
        rfl
      simp only [none]
      rw [List.mapIdx_eq_zipIdx_map]
      exact List.zipIdx_map_fst 0 τ.blocks
    rw [pin_raises h, unpinned]
    exact related
  | some result =>
    have file := pin_file related.legible h
    have models := (List.forall₂_and_left _ _).mpr ⟨fun _ hp => hp, related.legible.models file⟩
    refine ⟨related.legible.after file, ?_, related.compiled⟩
    refine numbered_mapIdx ?_ models related.models
    rintro block i block' b ⟨hp, hid, hmodel⟩ ⟨same, yaml⟩
    have there : (blocks (readLines σ.text))[i]? = some block := List.mem_zipIdx_iff_getElem?.mp hp
    have pins : resolved resolve (readLines σ.text) i =
        match answer resolve (block, i) with
        | .ok pins => some (pinsOf pins)
        | .error _ => none := by
      unfold resolved
      rw [h, there]
      rfl
    refine ⟨hid.trans same, ?_⟩
    rw [hmodel, yaml, written_answer, pins]

theorem Related.sweep (related : Related readLine σ τ) (run : VerdictWrites.Run R) : ∃ σ',
    sweep readLine run σ = some σ' ∧ Related readLine σ' { τ with
      blocks := τ.blocks.map (writeVerdict (ParityMaintenance.summary τ.compiled τ.blocks
        run.models (trials run (τ.blocks.map toEntry)))) } := by
  let summary := sweepSummary σ.compiled run (τ.blocks.map toEntry)
  have file := sweep_file summary σ.text
  have summaries := summaries_related σ.compiled τ.blocks run
  refine ⟨{ σ with text := (writeVerdicts summary (readLines σ.text)).flatten }, ?_,
    related.legible.after file, ?_, related.compiled⟩
  · unfold RegistryScripts.sweep
    rw [related.entries]
    rfl
  · refine numbered_map ?_ (related.legible.models file) related.models
    rintro block i block' b ⟨hid, hmodel⟩ ⟨same, yaml⟩
    have results := lookup_rel
      (R := fun (x : Measured R) (y : ParityMaintenance.Results) => x.value = y.verdict.1)
      summaries b.id
    rw [hid, hmodel, same, yaml, related.compiled]
    exact written_verdict results

omit [DecidableEq ι] in
theorem Related.gen (related : Related readLine σ τ) (header : Header ι) (strict : Bool) :
    Related readLine (gen readLine header strict σ) (ParityMaintenance.gen header strict τ) := by
  unfold RegistryScripts.gen ParityMaintenance.gen
  rw [related.safeLoad]
  cases GenRegistry.main strict (τ.blocks.map ParityMaintenance.Block.model) with
  | error _ => exact related
  | ok emitted =>
    dsimp only
    cases header.compile emitted with
    | none => exact related
    | some tables => exact ⟨related.legible, related.models, rfl⟩

/-- One step of a script is one step of the maintenance of blocks. -/
theorem Related.step (related : Related readLine σ τ) (header : Header ι) (a : Action R) :
    ∃ σ' τ', step readLine header σ a = some σ' ∧
      ParityMaintenance.step header τ (translate readLine σ a) = some τ' ∧
      Related readLine σ' τ' := by
  cases a with
  | pin resolve => exact ⟨_, _, rfl, rfl, related.pin resolve⟩
  | gen strict => exact ⟨_, _, rfl, rfl, related.gen header strict⟩
  | sweep run =>
    obtain ⟨σ', swept, related'⟩ := related.sweep run
    refine ⟨σ', _, swept, rfl, ?_⟩
    rw [related.entries]
    exact related'

end

def otherLines : List (String × String × YamlValue) :=
  [("    enum: BgeSmallEnV15\n", "enum", .str "BgeSmallEnV15"),
    ("    dim: 384\n", "dim", .int 384),
    ("    pooling: cls_token\n", "pooling", .str "cls_token"),
    ("    normalize: true\n", "normalize", .bool true),
    ("    max_seq_length: 512\n", "max_seq_length", .int 512),
    ("    query_prefix: \"\"\n", "query_prefix", .str ""),
    ("    doc_prefix: \"\"\n", "doc_prefix", .str "")]

def readNew (line : Line) : Option (String × YamlValue) :=
  match idOf line with
  | some id => some ("id", .str id)
  | none =>
    match PinWrites.pathOf line with
    | some path => some ("onnx_path", .str path)
    | none =>
      match writtenKeys.find? fun key => hasKey key.toList line with
      | some key => some (key, .str (String.ofList (RegistryRewrites.quoted line)))
      | none => (otherLines.find? fun row => row.1.toList == line).map Prod.snd

theorem readNew_written {key : String} (hkey : key ∈ writtenKeys) {line : Line}
    (h : hasKey key.toList line = true) :
    readNew line = some (key, .str (String.ofList (RegistryRewrites.quoted line))) := by
  have found : (writtenKeys.find? fun key => hasKey key.toList line) = some key := by
    cases there : writtenKeys.find? fun key => hasKey key.toList line with
    | none => exact absurd h (List.find?_eq_none.mp there key hkey)
    | some other =>
      have other_key := List.mem_of_find?_eq_some there
      have same := hasKey_unique (writtenKeys_plain other other_key).1
        (writtenKeys_plain key hkey).1
        (List.find?_some (p := fun key : String => hasKey key.toList line) there) h
      rw [String.toList_inj.mp same]
  unfold readNew
  rw [idOf_written hkey h, pathOf_written hkey h]
  dsimp only
  rw [found]

theorem readNew_other {line : Line} (id : idOf line = none) (path : PinWrites.pathOf line = none)
    {key : String} {value : YamlValue} (reads : readNew line = some (key, value)) :
    key ∈ writtenKeys ∧ hasKey key.toList line = true ∨ ∃ row ∈ otherLines, row.2.1 = key := by
  unfold readNew at reads
  rw [id, path] at reads
  dsimp only at reads
  split at reads
  · rename_i found
    obtain ⟨rfl, -⟩ := Prod.mk.inj (Option.some.inj reads)
    exact .inl ⟨List.mem_of_find?_eq_some found,
      List.find?_some (p := fun key : String => hasKey key.toList line) found⟩
  · obtain ⟨row, hrow, same⟩ := Option.map_eq_some_iff.mp reads
    exact .inr ⟨row, List.mem_of_find?_eq_some hrow, congrArg Prod.fst same⟩

theorem otherLines_keys : ∀ row ∈ otherLines,
    row.2.1 ≠ "id" ∧ row.2.1 ≠ "onnx_path" ∧ row.2.1 ∉ writtenKeys := by
  decide

theorem readNew_legible {line : Line} (starts : PinWrites.startsId line = (idOf line).isSome)
    (quoted : ∀ key ∈ writtenKeys, hasKey key.toList line = true →
      RegistryRewrites.DoubleQuoted line) : LegibleLine readNew line where
  starts := starts
  id := by
    intro id h
    unfold readNew
    rw [h]
  onlyId := by
    intro h value reads
    cases path : PinWrites.pathOf line with
    | some there =>
      unfold readNew at reads
      rw [h, path] at reads
      exact absurd (Prod.mk.inj (Option.some.inj reads)).1 (by decide)
    | none =>
      obtain ⟨written, -⟩ | ⟨row, hrow, same⟩ := readNew_other h path reads
      · exact absurd written (by decide)
      · exact (otherLines_keys row hrow).1 same
  path := by
    intro path h
    have none : idOf line = none :=
      idOf_of_hasKey (by decide) (by decide) (PinWrites.hasKey_of_pathOf h)
    unfold readNew
    rw [none, h]
  onlyPath := by
    intro h value reads
    cases hid : idOf line with
    | some id =>
      unfold readNew at reads
      rw [hid] at reads
      exact absurd (Prod.mk.inj (Option.some.inj reads)).1 (by decide)
    | none =>
      obtain ⟨written, -⟩ | ⟨row, hrow, same⟩ := readNew_other hid h reads
      · exact absurd written (by decide)
      · exact (otherLines_keys row hrow).2.1 same
  written := by
    intro key hkey h
    obtain ⟨before, old, after, hbefore, hold, rfl⟩ := quoted key hkey h
    refine ⟨⟨_, readNew_written hkey h⟩, before, old, after, hbefore, hold, rfl, ?_⟩
    intro value plain
    have kept : hasKey key.toList (before ++ '"' :: (value ++ '"' :: after)) = true := by
      rw [hasKey_quote (writtenKeys_plain key hkey).2.1 before _ (old ++ '"' :: after), h]
    rw [readNew_written hkey kept, RegistryRewrites.quoted_parts hbefore
      (RegistryRewrites.plain_no_quote plain)]
  onlyWritten := by
    intro key hkey h value reads
    cases hid : idOf line with
    | some id =>
      unfold readNew at reads
      rw [hid] at reads
      exact (writtenKeys_plain key hkey).2.2.2.2.1 (Prod.mk.inj (Option.some.inj reads)).1.symm
    | none =>
      cases path : PinWrites.pathOf line with
      | some there =>
        unfold readNew at reads
        rw [hid, path] at reads
        exact (writtenKeys_plain key hkey).2.2.2.2.2 (Prod.mk.inj (Option.some.inj reads)).1.symm
      | none =>
        obtain ⟨-, found⟩ | ⟨row, hrow, same⟩ := readNew_other hid path reads
        · rw [h] at found
          cases found
        · exact (otherLines_keys row hrow).2.2 (same ▸ hkey)

def newBlock : Block where
  id := "BAAI/bge-small-en-v1.5"
  first := "  - id: BAAI/bge-small-en-v1.5\n".toList
  body := ["    revision: \"\"\n", "    onnx_path: onnx/model.onnx\n", "    onnx_sha256: \"\"\n",
    "    tokenizer_sha256: \"\"\n", "    parity: \"\"\n"].map String.toList ++
    otherLines.map fun row => row.1.toList

def newText : List Char := "models:\n".toList ++ (newBlock.first ++ newBlock.body.flatten)

theorem newText_lines :
    readLines newText = "models:\n".toList :: newBlock.first :: newBlock.body := by
  decide +kernel

theorem newText_blocks : blocks (readLines newText) = [newBlock] := by
  rw [newText_lines]
  decide +kernel

theorem doubleQuoted_of_count {line : Line} (h : 2 ≤ line.count '"') :
    RegistryRewrites.DoubleQuoted line := by
  have first : '"' ∈ line := List.count_pos_iff.mp (by omega)
  obtain ⟨before, rest, rfl, hbefore⟩ := List.eq_append_cons_of_mem first
  rw [List.count_append, List.count_cons_self, List.count_eq_zero_of_not_mem hbefore] at h
  have second : '"' ∈ rest := List.count_pos_iff.mp (by omega)
  obtain ⟨old, after, rfl, hold⟩ := List.eq_append_cons_of_mem second
  exact ⟨before, old, after, hbefore, hold, rfl⟩

theorem newText_legible : Legible readNew (readLines newText) where
  line := by
    have all : ∀ line ∈ readLines newText, PinWrites.startsId line = (idOf line).isSome ∧
        ∀ key ∈ writtenKeys, hasKey key.toList line = true → 2 ≤ line.count '"' := by
      rw [newText_lines]
      decide +kernel
    intro line hline
    obtain ⟨starts, quotes⟩ := all line hline
    exact readNew_legible starts fun key hkey h => doubleQuoted_of_count (quotes key hkey h)
  there := by
    rw [newText_blocks]
    decide +kernel
  onePath := by
    have one : ∀ line ∈ newBlock.body,
        PinWrites.pathOf line = none ∨ PinWrites.pathOf line = PinWrites.pathIn newBlock := by
      decide +kernel
    rw [newText_blocks]
    refine List.forall_mem_singleton.mpr fun line hline path hpath => ?_
    obtain none | same := one line hline
    · rw [none] at hpath
      cases hpath
    · rw [← same, hpath]

/-- The block as the maintenance has it, and a header without models. -/
def newState : State ModelId := ⟨newText, ⟨[], []⟩⟩

def newMaintenance : ParityMaintenance.State ModelId :=
  ⟨[{ ParityMaintenance.bgeBlock with pins := {} }], ⟨[], []⟩⟩

theorem newBlock_model : newBlock.model readNew =
    ParityMaintenance.Block.model { ParityMaintenance.bgeBlock with pins := {} } := by
  decide +kernel

theorem new_related : Related readNew newState newMaintenance where
  legible := newText_legible
  models := by
    change List.Forall₂ _ (blocks (readLines newText)) _
    rw [newText_blocks]
    exact .cons ⟨rfl, newBlock_model⟩ .nil
  compiled := rfl

def someCommit : PinWrites.Hex :=
  ⟨"5c38ec7c405ec4b44b94cc5a9bb96e735b38267a".toList, plain_of_all (by decide +kernel)⟩

def tokenizerUrl : String :=
  PinWrites.fileUrl "BAAI/bge-small-en-v1.5" (String.ofList someCommit.1) "tokenizer.json"

def sampleContents (modelId commit path : String) : Option Bytes :=
  some (if PinWrites.fileUrl modelId commit path = tokenizerUrl then [0x7b, 0x7d]
    else [0x61, 0x62, 0x63])

def sampleSha256 (data : Bytes) : Bytes :=
  if data = [0x7b, 0x7d] then
    [0x44, 0x13, 0x6f, 0xa3, 0x55, 0xb3, 0x67, 0x8a, 0x11, 0x46, 0xad, 0x16, 0xf7, 0xe8, 0x64,
      0x9e, 0x94, 0xfb, 0x4f, 0xc2, 0x1f, 0xe7, 0x7e, 0x83, 0x10, 0xc0, 0x60, 0xf6, 0x1c, 0xaa,
      0xff, 0x8a]
  else
    [0xba, 0x78, 0x16, 0xbf, 0x8f, 0x01, 0xcf, 0xea, 0x41, 0x41, 0x40, 0xde, 0x5d, 0xae, 0x22,
      0x23, 0xb0, 0x03, 0x61, 0xa3, 0x96, 0x17, 0x7a, 0x9c, 0xb4, 0x10, 0xff, 0x61, 0xf2, 0x00,
      0x15, 0xad]

def sampleOid : PinWrites.Hex :=
  ⟨"ba7816bf8f01cfea414140de5dae2223b00361a396177a9cb410ff61f20015ad".toList,
    plain_of_all (by decide +kernel)⟩

def sampleHub : PinWrites.Hub where
  sha := fun _ => .ok someCommit
  tree := fun _ _ _ => .ok [⟨some "onnx/model.onnx", some sampleOid⟩]
  read := fun url => if url = tokenizerUrl then .ok [0x7b, 0x7d] else .error .caught

def identical : VerdictWrites.Run Rat where
  models := []
  skipReference := false
  trial := fun _ =>
    { reference := 0
      ort := 0
      embed := 0
      referenceExists := fun _ => true
      candidateExists := fun _ _ => true
      real := fun _ _ => ⟨80, 80, 0, 1, none⟩ }

def release : List (Action Rat) :=
  [.pin (PinWrites.asks sampleSha256 fun _ => sampleHub), .gen false, .sweep identical, .gen true]

end CyborgdbEmbed.RegistryScripts

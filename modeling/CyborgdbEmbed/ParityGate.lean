import CyborgdbEmbed.ParityMaintenance
import CyborgdbEmbed.RegistryText

set_option autoImplicit false

namespace CyborgdbEmbed.ParityGate
open Fallible GenRegistry RegistryText
open ParityMaintenance (splitVerdict)

inductive Verdict where
  | identical
  | numericallyEquivalent
  | retrievalEquivalent
  | closeButDrifting
  | divergent
  deriving DecidableEq, Repr

def Verdict.text : Verdict → String
  | .identical => "identical"
  | .numericallyEquivalent => "numerically-equivalent"
  | .retrievalEquivalent => "retrieval-equivalent"
  | .closeButDrifting => "close-but-drifting"
  | .divergent => "DIVERGENT"

/-- `report.py` exits with success on these. -/
def Verdict.passing : Verdict → Bool
  | .identical | .numericallyEquivalent | .retrievalEquivalent => true
  | .closeButDrifting | .divergent => false

section
variable {R : Type} [LE R] [LT R] [DecidableLE R] [DecidableLT R] [Sub R] [OfNat R 0] [OfNat R 1]
  [OfScientific R]

/-- Nothing is asked of the order of `R`: it may be that of floats with a NaN. -/
structure Metrics (R : Type) where
  n : ℕ
  bitIdenticalRows : ℕ
  maxAbsDiff : R
  cosineMin : R
  recallAt10 : Option R := none

def cosineFloor : R := 0.9999

def recallFloor : R := 0.99

def verdict (m : Metrics R) : Verdict :=
  if m.bitIdenticalRows = m.n then .identical
  else if m.cosineMin ≥ 1 - 1e-6 ∧ m.maxAbsDiff < 1e-4 then .numericallyEquivalent
  else if m.cosineMin ≥ cosineFloor ∧ m.recallAt10.getD 0 ≥ recallFloor then .retrievalEquivalent
  else if m.recallAt10.getD 0 ≥ 0.90 then .closeButDrifting
  else .divergent

def Close (m : Metrics R) : Prop :=
  m.bitIdenticalRows = m.n ∨ (m.cosineMin ≥ 1 - 1e-6 ∧ m.maxAbsDiff < 1e-4) ∨
    (m.cosineMin ≥ cosineFloor ∧ m.recallAt10.getD 0 ≥ recallFloor)

/-- The entry of one model in the summary: for each arm and direction the numbers behind
    `verdict_real`, those of the real prose. A direction without vectors is left out. -/
inductive Measured (R : Type) where
  | error (arm : String)
  | compared (ortDocument ortQuery embedDocument embedQuery : Option (Metrics R))

def Measured.embed : Measured R → List (Metrics R)
  | .error _ => []
  | .compared _ _ embedDocument embedQuery => embedDocument.toList ++ embedQuery.toList

/-- The value of the set of the `verdict_real` of its arms `embed-`, if it is one. -/
def Measured.value : Measured R → String
  | .error _ => splitVerdict none none
  | .compared _ _ embedDocument embedQuery =>
    splitVerdict (embedDocument.map fun c => (verdict c).text)
      (embedQuery.map fun c => (verdict c).text)

def recordVerdict (summary : List (String × Measured R)) (current : String) (line : Line) : Line :=
  match summary.lookup current with
  | some results =>
    if hasKey "parity".toList line then replaceQuoted results.value.toList line else line
  | none => line

def writeVerdicts (summary : List (String × Measured R)) (lines : List Line) : List Line :=
  edit (recordVerdict summary) none lines

/-- Every embed direction measured has this verdict, and there is one. -/
def Measured.AgreeOn (results : Measured R) (v : Verdict) : Prop :=
  results.embed ≠ [] ∧ ∀ c ∈ results.embed, verdict c = v

def Measured.Passes (results : Measured R) : Prop :=
  results.embed ≠ [] ∧ ∀ c ∈ results.embed, (verdict c).passing = true

variable {readLine : Line → Option (String × YamlValue)} {summary : List (String × Measured R)}

def generate (readLine : Line → Option (String × YamlValue)) (lines : List Line) :
    Except GenError Emitted := main true (safeLoad readLine lines)

/-- Of the models of this run, the strict generator prints only ones that pass. -/
def ShipsOnlyPassing (readLine : Line → Option (String × YamlValue)) (lines : List Line)
    (summary : List (String × Measured R)) : Prop :=
  ∀ emitted, generate readLine (writeVerdicts summary lines) = .ok emitted →
    ∀ row ∈ emitted.kRegistry, ∀ results, summary.lookup row.info.name = some results →
      results.Passes

/-- The block does not stop the generator: its fields are in order, and it has a verdict,
    from this run if it was in it. -/
structure Admitted (readLine : Line → Option (String × YamlValue))
    (summary : List (String × Measured R)) (block : Block) : Prop where
  shippable : Shippable (block.model readLine)
  measured : ∀ results, summary.lookup block.id = some results →
    (∃ line ∈ block.body, hasKey "parity".toList line = true) ∧ ∃ v, results.AgreeOn v
  kept : summary.lookup block.id = none → (block.model readLine).parity.truthy = true

theorem verdict_passing_iff (m : Metrics R) : (verdict m).passing = true ↔ Close m := by
  unfold verdict Close
  split
  · rename_i h
    exact iff_of_true rfl (.inl h)
  · rename_i differ
    rw [or_iff_right differ]
    split
    · rename_i h
      exact iff_of_true rfl (.inl h)
    · rename_i apart
      rw [or_iff_right apart]
      split
      · rename_i h
        exact iff_of_true rfl h
      · rename_i far
        refine iff_of_false ?_ far
        split
        · nofun
        · nofun

theorem Verdict.text_inj {v w : Verdict} (h : v.text = w.text) : v = w := by
  cases v <;> cases w <;> first | rfl | exact absurd h (by decide)

theorem Verdict.text_ne (v : Verdict) : v.text ≠ "" := by cases v <;> decide

theorem Measured.value_of_agree {results : Measured R} {v : Verdict} (h : results.AgreeOn v) :
    results.value = v.text := by
  obtain ⟨some, all⟩ := h
  cases results with
  | error arm => exact absurd rfl some
  | compared ortDocument ortQuery document query =>
    cases document with
    | none =>
      cases query with
      | none => exact absurd rfl some
      | some q => exact congrArg Verdict.text (all q List.mem_cons_self)
    | some d =>
      have hd := congrArg Verdict.text (all d List.mem_cons_self)
      cases query with
      | none => exact hd
      | some q =>
        have hq := congrArg Verdict.text (all q (List.mem_cons_of_mem _ List.mem_cons_self))
        exact (if_pos (hd.trans hq.symm)).trans hd

theorem Measured.agree_of_value {results : Measured R} (h : results.value ≠ "") :
    ∃ v, results.AgreeOn v := by
  cases results with
  | error arm => exact absurd rfl h
  | compared ortDocument ortQuery document query =>
    cases document with
    | none =>
      cases query with
      | none => exact absurd rfl h
      | some q =>
        refine ⟨verdict q, List.cons_ne_nil _ _, fun c hc => ?_⟩
        rw [List.mem_singleton.mp hc]
    | some d =>
      cases query with
      | none =>
        refine ⟨verdict d, List.cons_ne_nil _ _, fun c hc => ?_⟩
        rw [List.mem_singleton.mp hc]
      | some q =>
        by_cases same : (verdict d).text = (verdict q).text
        · refine ⟨verdict d, List.cons_ne_nil _ _, fun c hc => ?_⟩
          cases List.mem_cons.mp hc with
          | inl hd => rw [hd]
          | inr hq => rw [List.mem_singleton.mp hq, Verdict.text_inj same]
        · exact absurd (if_neg same) h

theorem Measured.value_plain (results : Measured R) : Plain results.value.toList := by
  by_cases h : results.value = ""
  · rw [h]
    exact fun c hc => absurd hc List.not_mem_nil
  · obtain ⟨v, agree⟩ := agree_of_value h
    rw [value_of_agree agree]
    have plain : v.text.toList.all (fun c => c.isAlphanum || c == '-') = true := by
      cases v <;> decide
    intro c hc
    simpa using List.all_eq_true.mp plain c hc

theorem idOf_parity {line : Line} (h : hasKey "parity".toList line = true) : idOf line = none :=
  idOf_of_hasKey (by decide) (by decide) h

theorem idOf_recordVerdict (id : String) (line : Line) (h : idOf line = none) :
    idOf (recordVerdict summary id line) = none := by
  unfold recordVerdict
  split
  · split
    · rename_i parity
      apply idOf_parity
      rw [hasKey_replaceQuoted (by decide), parity]
    · exact h
  · exact h

theorem recordVerdict_eq {id : String} {line : Line} (h : hasKey "parity".toList line = false) :
    recordVerdict summary id line = line := by
  unfold recordVerdict
  split
  · rw [h]
    rfl
  · rfl

theorem recordVerdict_reads (file : RegistryFile readLine) {id : String} {line : Line}
    (hline : line ∈ file.lines) (h : hasKey "parity".toList line = true) {results : Measured R}
    (hr : summary.lookup id = some results) :
    readLine (recordVerdict summary id line) = some ("parity", .str results.value) := by
  obtain ⟨before, old, after, hbefore, hold, rfl, reads⟩ := (file.parityLine line hline h).quoted
  unfold recordVerdict
  rw [hr]
  dsimp only
  rw [if_pos h, replaceQuoted_quoted _ hbefore hold, reads _ results.value_plain,
    String.ofList_toList]

theorem recordVerdict_keeps (file : RegistryFile readLine) {id key : String} {line : Line}
    (hline : line ∈ file.lines) (hkey : key ≠ "parity") :
    (readLine (recordVerdict summary id line)).filter (fun field => field.1 == key) =
      (readLine line).filter fun field => field.1 == key := by
  cases h : hasKey "parity".toList line with
  | false => rw [recordVerdict_eq h]
  | true =>
    cases hr : summary.lookup id with
    | none =>
      unfold recordVerdict
      rw [hr]
    | some results =>
      have other : ("parity" == key) = false := beq_eq_false_iff_ne.mpr (Ne.symm hkey)
      obtain ⟨value, before⟩ := (file.parityLine line hline h).reads
      rw [recordVerdict_reads file hline h hr, before, Option.filter_some, Option.filter_some,
        other]
      rfl

theorem recordVerdict_reads_iff (file : RegistryFile readLine) {id : String} {line : Line}
    (hline : line ∈ file.lines) {results : Measured R} (hr : summary.lookup id = some results)
    (value : YamlValue) : readLine (recordVerdict summary id line) = some ("parity", value) ↔
      hasKey "parity".toList line = true ∧ .str results.value = value := by
  cases h : hasKey "parity".toList line with
  | true =>
    rw [recordVerdict_reads file hline h hr, Option.some.injEq, Prod.mk.injEq]
    exact and_congr_left fun _ => iff_of_true rfl rfl
  | false =>
    rw [recordVerdict_eq h]
    exact iff_of_false (file.onlyParity line hline h value) nofun

variable (file : RegistryFile readLine) {block : Block}

theorem written_lines (hb : block ∈ blocks file.lines) :
    (block.first :: block.body).map (recordVerdict summary block.id) =
      block.first :: (block.edit (recordVerdict summary)).body := by
  obtain ⟨-, hid, -⟩ := mem_blocks hb
  have first : hasKey "parity".toList block.first = false := by
    by_contra h
    rw [idOf_parity (eq_true_of_ne_false h)] at hid
    cases hid
  rw [List.map_cons, recordVerdict_eq first]
  rfl

theorem mem_lines (hb : block ∈ blocks file.lines) :
    ∀ line ∈ block.first :: block.body, line ∈ file.lines := by
  obtain ⟨hfirst, -, hbody⟩ := mem_blocks hb
  exact List.forall_mem_cons.mpr ⟨hfirst, fun line hl => (hbody line hl).1⟩

theorem written_get (hb : block ∈ blocks file.lines) {key : String} (hkey : key ≠ "parity") :
    get ((block.first :: (block.edit (recordVerdict summary)).body).filterMap readLine) key =
      get ((block.first :: block.body).filterMap readLine) key := by
  rw [← written_lines file hb]
  apply get_map
  intro line hl
  exact recordVerdict_keeps file (mem_lines file hb line hl) hkey

theorem written_model (hb : block ∈ blocks file.lines) :
    (block.edit (recordVerdict summary)).model readLine =
      { block.model readLine with
        parity := ((block.edit (recordVerdict summary)).model readLine).parity } := by
  have same (key : String) (hkey : key ≠ "parity") : get ((block.first ::
      (block.edit (recordVerdict summary)).body).filterMap readLine) key =
        get ((block.first :: block.body).filterMap readLine) key := written_get file hb hkey
  unfold Block.model
  rw [YamlModel.mk.injEq]
  exact ⟨same "id" (by decide), same "enum" (by decide), same "revision" (by decide),
    same "onnx_path" (by decide), same "onnx_sha256" (by decide),
    same "tokenizer_sha256" (by decide), same "dim" (by decide), same "pooling" (by decide),
    same "normalize" (by decide), same "max_seq_length" (by decide),
    same "query_prefix" (by decide), same "doc_prefix" (by decide), rfl⟩

theorem written_parity (hb : block ∈ blocks file.lines) {results : Measured R}
    (hr : summary.lookup block.id = some results) :
    ((block.edit (recordVerdict summary)).model readLine).parity =
      if ∃ line ∈ block.body, hasKey "parity".toList line = true then .str results.value
      else .null := by
  have first : hasKey "parity".toList block.first ≠ true := by
    intro h
    have := (mem_blocks hb).2.1
    rw [idOf_parity h] at this
    cases this
  have mem (value : YamlValue) : ("parity", value) ∈
      ((block.first :: block.body).map (recordVerdict summary block.id)).filterMap readLine ↔
        (∃ line ∈ block.body, hasKey "parity".toList line = true) ∧ .str results.value = value := by
    simp only [List.mem_filterMap, List.mem_map, exists_exists_and_eq_and]
    constructor
    · rintro ⟨line, hline, hread⟩
      have parity := (recordVerdict_reads_iff file (mem_lines file hb line hline) hr value).mp hread
      cases List.mem_cons.mp hline with
      | inl heq => exact absurd (heq ▸ parity.1) first
      | inr hbody => exact ⟨⟨line, hbody, parity.1⟩, parity.2⟩
    · rintro ⟨⟨line, hbody, hkey⟩, heq⟩
      have hline := List.mem_cons_of_mem block.first hbody
      exact ⟨line, hline, (recordVerdict_reads_iff file (mem_lines file hb line hline) hr value).mpr
        ⟨hkey, heq⟩⟩
  change get ((block.first :: (block.edit (recordVerdict summary)).body).filterMap readLine)
    "parity" = _
  rw [← written_lines file hb]
  split
  · rename_i there
    exact get_of_mem (fun other h => ((mem other).mp h).2.symm) ((mem _).mpr ⟨there, rfl⟩)
  · rename_i gone
    exact get_absent fun value h => gone ((mem value).mp h).1

theorem written_unmeasured (hr : summary.lookup block.id = none) :
    block.edit (recordVerdict summary) = block := by
  have same : recordVerdict summary block.id = id := by
    funext line
    unfold recordVerdict
    rw [hr]
    rfl
  unfold Block.edit
  rw [same, List.map_id]

theorem shippable_parity {model : YamlModel} (parity : YamlValue) :
    Shippable { model with parity := parity } ↔ Shippable model := by
  constructor
  · rintro ⟨hrequired, hpinned, htexts, hoptional, hpooling⟩
    exact ⟨hrequired, hpinned, htexts, hoptional, hpooling⟩
  · rintro ⟨hrequired, hpinned, htexts, hoptional, hpooling⟩
    exact ⟨hrequired, hpinned, htexts, hoptional, hpooling⟩

theorem admitted_iff (hb : block ∈ blocks file.lines) : Admitted readLine summary block ↔
    Shippable ((block.edit (recordVerdict summary)).model readLine) ∧
      ((block.edit (recordVerdict summary)).model readLine).parity.truthy = true := by
  have shippable : Shippable ((block.edit (recordVerdict summary)).model readLine) ↔
      Shippable (block.model readLine) := by
    rw [written_model file hb]
    exact shippable_parity _
  rw [shippable]
  cases hr : summary.lookup block.id with
  | none =>
    rw [written_unmeasured hr]
    constructor
    · rintro ⟨hship, -, kept⟩
      exact ⟨hship, kept hr⟩
    · rintro ⟨hship, parity⟩
      exact ⟨hship, fun _ h => absurd (hr.symm.trans h) nofun, fun _ => parity⟩
  | some results =>
    rw [written_parity file hb hr]
    constructor
    · rintro ⟨hship, measured, -⟩
      obtain ⟨there, v, agree⟩ := measured results hr
      refine ⟨hship, ?_⟩
      rw [if_pos there, Measured.value_of_agree agree]
      exact bne_iff_ne.mpr v.text_ne
    · rintro ⟨hship, parity⟩
      split at parity
      · rename_i there
        refine ⟨hship, fun other h => ?_, fun h => absurd (hr.symm.trans h) nofun⟩
        obtain rfl := Option.some.inj (hr.symm.trans h)
        exact ⟨there, Measured.agree_of_value (bne_iff_ne.mp parity)⟩
      · cases parity

theorem emitEntry_name {model : YamlModel} {row : EmittedEntry} {id : String}
    (h : emitEntry model = .ok row) (hid : model.id = .str id) : row.info.name = id := by
  have hinfo := emitEntry_info h
  unfold emitInfo at hinfo
  obtain ⟨name, hname, hinfo⟩ := bind_ok hinfo
  obtain ⟨revision, -, hinfo⟩ := bind_ok hinfo
  rw [hid] at hname
  obtain rfl : id = name := Except.ok.inj hname
  exact (congrArg EmittedInfo.name (Except.ok.inj hinfo)).symm

theorem written_id (hb : block ∈ blocks file.lines) :
    ((block.edit (recordVerdict summary)).model readLine).id = .str block.id := by
  obtain ⟨hfirst, hid, hbody⟩ := mem_blocks hb
  rw [written_model file hb]
  exact Block.model_id (file.idLine _ hfirst _ hid)
    fun line hl => file.onlyId line (hbody line hl).1 (hbody line hl).2

theorem safeLoad_written : safeLoad readLine (writeVerdicts summary file.lines) =
    (blocks file.lines).map fun block => (block.edit (recordVerdict summary)).model readLine := by
  unfold safeLoad writeVerdicts
  rw [blocks_edit idOf_recordVerdict, List.map_map]
  rfl

theorem generate_ok_iff : (∃ emitted, generate readLine (writeVerdicts summary file.lines) =
    .ok emitted) ↔ ∀ block ∈ blocks file.lines, Admitted readLine summary block := by
  unfold generate
  rw [main_strict_ok_iff, safeLoad_written, List.forall_mem_map]
  exact forall₂_congr fun block hb => (admitted_iff file hb).symm

theorem generated_rows {emitted : Emitted}
    (h : generate readLine (writeVerdicts summary file.lines) = .ok emitted) (id : String) :
    (∃ row ∈ emitted.kRegistry, row.info.name = id) ↔
      ∃ block ∈ blocks file.lines, block.id = id := by
  obtain ⟨-, hrows, -⟩ := main_ok h
  rw [safeLoad_written] at hrows
  obtain ⟨forth, back⟩ := mapM_ok_mem hrows
  constructor
  · rintro ⟨row, hrow, rfl⟩
    obtain ⟨model, hmodel, hemit⟩ := back row hrow
    obtain ⟨block, hb, rfl⟩ := List.mem_map.mp hmodel
    exact ⟨block, hb, (emitEntry_name hemit (written_id file hb)).symm⟩
  · rintro ⟨block, hb, rfl⟩
    obtain ⟨row, hrow, hemit⟩ := forth _ (List.mem_map_of_mem hb)
    exact ⟨row, hrow, emitEntry_name hemit (written_id file hb)⟩

/-- The strict generator stops, or every verdict that is written stands for numbers close
    enough. -/
theorem shipsOnlyPassing_iff (summary : List (String × Measured R)) :
    ShipsOnlyPassing readLine file.lines summary ↔
      (∃ block ∈ blocks file.lines, ¬ Admitted readLine summary block) ∨
      ∀ block ∈ blocks file.lines, ∀ results, summary.lookup block.id = some results →
        (∃ v, results.AgreeOn v) → ∀ c ∈ results.embed, Close c := by
  constructor
  · intro ships
    by_cases admitted : ∀ block ∈ blocks file.lines, Admitted readLine summary block
    · right
      intro block hb results hr _ c hc
      obtain ⟨emitted, h⟩ := (generate_ok_iff file).mpr admitted
      obtain ⟨row, hrow, hname⟩ := (generated_rows file h block.id).mpr ⟨block, hb, rfl⟩
      have passes := ships emitted h row hrow results (hname ▸ hr)
      exact (verdict_passing_iff c).mp (passes.2 c hc)
    · left
      simpa only [not_forall, exists_prop] using admitted
  · intro condition emitted h row hrow results hr
    have admitted := (generate_ok_iff file).mp ⟨emitted, h⟩
    obtain ⟨block, hb, hname⟩ := (generated_rows file h row.info.name).mp ⟨row, hrow, rfl⟩
    rw [← hname] at hr
    obtain ⟨-, agree⟩ := (admitted block hb).measured results hr
    refine ⟨agree.choose_spec.1, fun c hc => (verdict_passing_iff c).mpr ?_⟩
    cases condition with
    | inl stopped =>
      obtain ⟨other, hother, refused⟩ := stopped
      exact absurd (admitted other hother) refused
    | inr close => exact close block hb results hr agree c hc

end

def quotedText (line : Line) : String :=
  String.ofList (((line.dropWhile (· ≠ '"')).drop 1).takeWhile (· ≠ '"'))

def driftingLines : List (String × String × YamlValue) :=
  [("    enum: BgeSmallEnV15\n", "enum", .str "BgeSmallEnV15"),
    ("    revision: \"5c38ec7c405ec4b44b94cc5a9bb96e735b38267a\"\n", "revision",
      .str "5c38ec7c405ec4b44b94cc5a9bb96e735b38267a"),
    ("    onnx_path: onnx/model.onnx\n", "onnx_path", .str "onnx/model.onnx"),
    ("    onnx_sha256: \"828e1496d7fabb79cfa4dcd84fa38625c0d3d21da474a00f08db0f559940cf35\"\n",
      "onnx_sha256", .str "828e1496d7fabb79cfa4dcd84fa38625c0d3d21da474a00f08db0f559940cf35"),
    ("    tokenizer_sha256: \"d241a60d5e8f04cc1b2b3e9ef7a4921b27bf526d9f6050ab90f9267a1f9e5c66\"\n",
      "tokenizer_sha256", .str "d241a60d5e8f04cc1b2b3e9ef7a4921b27bf526d9f6050ab90f9267a1f9e5c66"),
    ("    dim: 384\n", "dim", .int 384),
    ("    pooling: cls_token\n", "pooling", .str "cls_token"),
    ("    normalize: true\n", "normalize", .bool true),
    ("    max_seq_length: 512\n", "max_seq_length", .int 512)]

def readDrifting (line : Line) : Option (String × YamlValue) :=
  match idOf line with
  | some id => some ("id", .str id)
  | none =>
    if hasKey "parity".toList line then some ("parity", .str (quotedText line))
    else (driftingLines.find? fun row => row.1.toList == line).map Prod.snd

theorem readDrifting_parity {before old after : List Char} (hbefore : '"' ∉ before)
    (hkey : hasKey "parity".toList (before ++ ['"']) = true) (hold : '"' ∉ old) :
    readDrifting (before ++ '"' :: (old ++ '"' :: after)) =
      some ("parity", .str (String.ofList old)) := by
  have key : hasKey "parity".toList (before ++ '"' :: (old ++ '"' :: after)) = true := by
    rw [hasKey_quote (by decide) before _ [], hkey]
  unfold readDrifting
  rw [idOf_parity key]
  dsimp only
  rw [if_pos key]
  unfold quotedText
  rw [dropWhile_quote hbefore]
  change some ("parity", YamlValue.str (String.ofList ((old ++ '"' :: after).takeWhile _))) = _
  rw [takeWhile_quote hold]

theorem readDrifting_other {line : Line} (h : hasKey "parity".toList line = false) {key : String}
    {value : YamlValue} (hread : readDrifting line = some (key, value)) :
    key = "id" ∧ idOf line ≠ none ∨ ∃ row ∈ driftingLines, row.2.1 = key ∧ idOf line = none := by
  unfold readDrifting at hread
  cases hid : idOf line with
  | some id =>
    rw [hid] at hread
    exact .inl ⟨(Prod.mk.inj (Option.some.inj hread)).1.symm, nofun⟩
  | none =>
    rw [hid] at hread
    dsimp only at hread
    rw [h] at hread
    obtain ⟨row, hrow, heq⟩ := Option.map_eq_some_iff.mp hread
    exact .inr ⟨row, List.mem_of_find?_eq_some hrow, congrArg Prod.fst heq, rfl⟩

theorem driftingLines_keys : ∀ row ∈ driftingLines, row.2.1 ≠ "id" ∧ row.2.1 ≠ "parity" := by
  decide

def parityText : Line := "    parity: \"numerically-equivalent\"\n".toList

def driftingBlock : Block where
  id := "BAAI/bge-small-en-v1.5"
  first := "  - id: BAAI/bge-small-en-v1.5\n".toList
  body := (driftingLines.map fun row => row.1.toList) ++ [parityText]

def driftingText : List Line := "models:\n".toList :: driftingBlock.first :: driftingBlock.body

theorem driftingLines_read : ∀ row ∈ driftingLines, idOf row.1.toList = none ∧
    hasKey "parity".toList row.1.toList = false ∧ readDrifting row.1.toList = some row.2 := by
  decide +kernel

theorem driftingText_parity : ∀ line ∈ driftingText, hasKey "parity".toList line = true →
    line = parityText := by
  have start : hasKey "parity".toList "models:\n".toList = false := by decide +kernel
  have first : hasKey "parity".toList driftingBlock.first = false := by decide +kernel
  have body : ∀ line ∈ driftingBlock.body, hasKey "parity".toList line = true →
      line = parityText := by
    unfold driftingBlock
    rw [List.forall_mem_append, List.forall_mem_map, List.forall_mem_singleton]
    refine ⟨fun row hrow h => ?_, fun _ => rfl⟩
    cases (driftingLines_read row hrow).2.1.symm.trans h
  unfold driftingText
  rw [List.forall_mem_cons, List.forall_mem_cons]
  refine ⟨fun h => ?_, fun h => ?_, body⟩
  · cases start.symm.trans h
  · cases first.symm.trans h

def driftingFile : RegistryFile readDrifting where
  lines := driftingText
  idLine := by
    intro line _ id h
    unfold readDrifting
    rw [h]
  onlyId := by
    intro line _ h value hread
    cases hkey : hasKey "parity".toList line with
    | true =>
      unfold readDrifting at hread
      rw [h] at hread
      dsimp only at hread
      rw [if_pos hkey] at hread
      exact absurd (Prod.mk.inj (Option.some.inj hread)).1 (by decide)
    | false =>
      cases readDrifting_other hkey hread with
      | inl hid => exact hid.2 h
      | inr hrow =>
        obtain ⟨row, hmem, hid, -⟩ := hrow
        exact (driftingLines_keys row hmem).1 hid
  parityLine := by
    intro line hline h
    obtain rfl := driftingText_parity line hline h
    have split : parityText = "    parity: ".toList ++ '"' :: ("numerically-equivalent".toList ++
        '"' :: ['\n']) := by decide +kernel
    have key : hasKey "parity".toList ("    parity: ".toList ++ ['"']) = true := by decide +kernel
    refine ⟨⟨.str "numerically-equivalent", ?_⟩, _, _, _, by decide +kernel, by decide +kernel,
      split, ?_⟩
    · rw [split]
      exact readDrifting_parity (by decide +kernel) key (by decide +kernel)
    · intro value plain
      apply readDrifting_parity (by decide +kernel) key
      intro quote
      cases plain '"' quote with
      | inl h => exact absurd h (by decide)
      | inr h => exact absurd h (by decide)
  onlyParity := by
    intro line _ h value hread
    cases readDrifting_other h hread with
    | inl hid => exact absurd hid.1 (by decide)
    | inr hrow =>
      obtain ⟨row, hmem, hparity, -⟩ := hrow
      exact (driftingLines_keys row hmem).2 hparity

/-- Half of the neighbours survive the switch, in both directions. -/
def drifting : Measured Rat :=
  let c : Metrics Rat := ⟨80, 0, 0.5, 0.5, some 0.5⟩
  .compared (some c) (some c) (some c) (some c)

theorem drifting_blocks : blocks driftingFile.lines = [driftingBlock] := by
  have start : idOf "models:\n".toList = none := by decide +kernel
  have first : idOf driftingBlock.first = some driftingBlock.id := by decide +kernel
  have parity : idOf parityText = none := by decide +kernel
  have rest : ∀ line ∈ driftingBlock.body, idOf line = none := by
    unfold driftingBlock
    rw [List.forall_mem_append, List.forall_mem_map, List.forall_mem_singleton]
    exact ⟨fun row hrow => (driftingLines_read row hrow).1, parity⟩
  change blocks ("models:\n".toList :: driftingBlock.first :: driftingBlock.body) = _
  rw [blocks_cons_none start, blocks_cons_some first, bodyOf_eq_self rest, blocks_eq_nil rest]

def driftingModel : YamlModel where
  id := .str driftingBlock.id
  enum := .str "BgeSmallEnV15"
  revision := .str "5c38ec7c405ec4b44b94cc5a9bb96e735b38267a"
  onnxPath := .str "onnx/model.onnx"
  onnxSha256 := .str "828e1496d7fabb79cfa4dcd84fa38625c0d3d21da474a00f08db0f559940cf35"
  tokenizerSha256 := .str "d241a60d5e8f04cc1b2b3e9ef7a4921b27bf526d9f6050ab90f9267a1f9e5c66"
  dim := .int 384
  pooling := .str "cls_token"
  normalize := .bool true
  maxSeqLength := .int 512
  parity := .str "numerically-equivalent"

theorem driftingBlock_fields : (driftingBlock.first :: driftingBlock.body).filterMap readDrifting =
    ("id", .str driftingBlock.id) :: (driftingLines.map Prod.snd ++
      [("parity", .str "numerically-equivalent")]) := by
  have first : readDrifting driftingBlock.first = some ("id", .str driftingBlock.id) := by
    decide +kernel
  have parity : readDrifting parityText = some ("parity", .str "numerically-equivalent") := by
    decide +kernel
  have rows : (driftingLines.map fun row => row.1.toList).filterMap readDrifting =
      driftingLines.map Prod.snd := by
    rw [List.filterMap_map, ← List.filterMap_eq_map]
    exact List.filterMap_congr fun row hrow => (driftingLines_read row hrow).2.2
  rw [List.filterMap_cons_some first]
  unfold driftingBlock
  rw [List.filterMap_append, rows, List.filterMap_cons_some parity, List.filterMap_nil]

theorem driftingBlock_model : driftingBlock.model readDrifting = driftingModel := by
  unfold Block.model
  rw [driftingBlock_fields]
  decide +kernel

theorem driftingModel_shippable : Shippable driftingModel where
  required := by decide
  pinned := by decide
  texts := by decide
  optional := by decide
  pooling := ⟨.clsToken, rfl⟩

theorem driftingBlock_shippable : Shippable (driftingBlock.model readDrifting) := by
  rw [driftingBlock_model]
  exact driftingModel_shippable

/-- Both directions agree that the model drifts, and it ships with that verdict. -/
theorem drifting_ships : ¬ ShipsOnlyPassing readDrifting driftingFile.lines
    [(driftingBlock.id, drifting)] := by
  intro h
  have admitted : Admitted readDrifting [(driftingBlock.id, drifting)] driftingBlock := by
    refine ⟨driftingBlock_shippable, fun results hr => ?_, fun hr => absurd hr (by decide)⟩
    obtain rfl : drifting = results := Option.some.inj hr
    refine ⟨⟨parityText, by decide +kernel, by decide +kernel⟩, .divergent,
      List.cons_ne_nil _ _, ?_⟩
    refine List.forall_mem_cons.mpr ⟨?_, List.forall_mem_singleton.mpr ?_⟩
    all_goals decide +kernel
  have all : ∀ block ∈ blocks driftingFile.lines,
      Admitted readDrifting [(driftingBlock.id, drifting)] block := by
    rw [drifting_blocks]
    exact List.forall_mem_singleton.mpr admitted
  have there : ∃ block ∈ blocks driftingFile.lines, block.id = driftingBlock.id := by
    rw [drifting_blocks]
    exact ⟨_, List.mem_singleton_self _, rfl⟩
  obtain ⟨emitted, hgen⟩ := (generate_ok_iff driftingFile).mpr all
  obtain ⟨row, hrow, hname⟩ := (generated_rows driftingFile hgen driftingBlock.id).mpr there
  have passes := h emitted hgen row hrow drifting (by rw [hname]; rfl)
  exact absurd (passes.2 _ List.mem_cons_self) (by decide +kernel)

end CyborgdbEmbed.ParityGate

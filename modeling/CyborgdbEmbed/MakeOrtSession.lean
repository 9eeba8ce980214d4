import CyborgdbEmbed.EncodeEquivalence

set_option autoImplicit false

namespace CyborgdbEmbed
open Utf8 Loops

/-- The HuggingFace library, as far as the shim calls it. -/
structure HuggingFace (δ : Type) where
  fromBytes : Bytes → Option δ
  withTruncation : δ → ℕ → Option δ
  withoutPadding : δ → δ
  encode : δ → String → Option (List UInt32)
  truncates : ∀ definition maxLength truncated text ids,
    withTruncation definition maxLength = some truncated →
      encode (withoutPadding truncated) text = some ids → ids.length ≤ maxLength

/-- A graph that ONNX Runtime has loaded. `run` is told which output to compute. -/
structure OrtGraph (α : Type) where
  inputNames : List String
  outputNames : List String
  run : String → ℕ → Feed → Except String (Buffer α)

/-- ONNX Runtime. An error is what its exception says. -/
structure OnnxRuntime (α : Type) where
  getApi : ℕ → Bool
  environment : Except String Unit
  createSession : Bytes → Except String (OrtGraph α)

def ortApiVersion : ℕ := 30

variable {δ ι α : Type}

def initOrt (ort : OnnxRuntime α) : Status :=
  if ort.getApi ortApiVersion then {}
  else ⟨.modelLoadFailed,
    "ONNX Runtime does not provide API version " ++ toString ortApiVersion⟩

/-- The bytes of a `std::string` are never at a null pointer. -/
def cyborgdbTokenizerNew (library : HuggingFace δ) (json : Bytes) (maxLength : ℕ) :
    Option Handle :=
  if maxLength = 0 then none
  else (library.fromBytes json).bind fun definition =>
    match truncation : library.withTruncation definition maxLength with
    | none => none
    | some truncated => some
        { maxLength
          tokenize := library.encode (library.withoutPadding truncated)
          truncated := fun text ids =>
            library.truncates definition maxLength truncated text ids truncation }

theorem cyborgdbTokenizerNew_maxLength {library : HuggingFace δ} {json : Bytes} {maxLength : ℕ}
    {handle : Handle} (h : cyborgdbTokenizerNew library json maxLength = some handle) :
    handle.maxLength = maxLength := by
  unfold cyborgdbTokenizerNew at h
  split at h
  · cases h
  · obtain ⟨definition, -, h⟩ := Option.bind_eq_some_iff.mp h
    split at h
    · cases h
    · rw [← Option.some.inj h]

/-- `file` is none where it cannot be opened. -/
def Tokenizer.load (library : HuggingFace δ) (path : String) (file : Option Bytes)
    (maxTokens : ℕ) : Except Status Tokenizer :=
  match file with
  | none => .error ⟨.tokenizerFailed, "cannot read " ++ path⟩
  | some json =>
    match made : cyborgdbTokenizerNew library json maxTokens with
    | none => .error ⟨.tokenizerFailed, path ++ " is not a valid tokenizer"⟩
    | some handle => .ok ⟨handle, maxTokens, cyborgdbTokenizerNew_maxLength made⟩

theorem Tokenizer.load_ok {library : HuggingFace δ} {path : String} {json : Bytes}
    {maxTokens : ℕ} {tokenizer : Tokenizer} {definition : δ}
    (h : Tokenizer.load library path (some json) maxTokens = .ok tokenizer)
    (read : library.fromBytes json = some definition) : ∃ truncated,
      library.withTruncation definition maxTokens = some truncated ∧
        tokenizer.handle.tokenize = library.encode (library.withoutPadding truncated) := by
  unfold Tokenizer.load at h
  dsimp only at h
  split at h
  · cases h
  · rename_i handle made
    obtain rfl := Except.ok.inj h
    unfold cyborgdbTokenizerNew at made
    split at made
    · cases made
    · rw [read] at made
      dsimp only [Option.bind_some] at made
      split at made
      · cases made
      · rename_i truncated truncation
        obtain rfl := Option.some.inj made
        exact ⟨truncated, truncation, rfl⟩

/-- A session with what `Session` records of it beside its entry. -/
structure ModelSession (ι α : Type) extends OrtSession ι α where
  provider : Provider
  precision : Precision

def needsTokenTypeIds (inputNames : List String) : Bool :=
  inputNames.foldl (fun needs name => if name = "token_type_ids" then true else needs) false

/-- `hidden` is the output chosen so far. -/
def chooseHidden (hidden name : String) : String :=
  if name = "last_hidden_state" ∨ (name = "token_embeddings" ∧ hidden = "") then name else hidden

def hiddenOutput (outputNames : List String) : String := outputNames.foldl chooseHidden ""

def noHiddenOutput : Status :=
  ⟨.modelLoadFailed, "graph has neither a last_hidden_state nor a token_embeddings output"⟩

/-- What follows the tokenizer. The graph is an error where ONNX Runtime cannot read it. -/
def makeGraphSession (ort : OnnxRuntime α) (entry : RegistryEntry ι) (provider : Provider)
    (precision : Precision) (tokenizer : Tokenizer) (graph : Except String Bytes) :
    Except Status (ModelSession ι α) :=
  match (do ort.environment; ort.createSession (← graph)) with
  | .error message => .error ⟨.modelLoadFailed, message⟩
  | .ok loaded =>
    let hidden := hiddenOutput loaded.outputNames
    if hidden = "" then .error noHiddenOutput
    else .ok
      { entry
        tokenizer
        needsTokenTypeIds := needsTokenTypeIds loaded.inputNames
        run := loaded.run hidden
        provider
        precision }

def makeOrtSession (library : HuggingFace δ) (ort : OnnxRuntime α) (entry : RegistryEntry ι)
    (provider : Provider) (precision : Precision) (tokenizerJson : String)
    (tokenizer : Option Bytes) (graph : Except String Bytes) :
    Except Status (ModelSession ι α) := do
  let tokenizer ← Tokenizer.load library tokenizerJson tokenizer entry.info.maxSeqLength
  makeGraphSession ort entry provider precision tokenizer graph

theorem hiddenOutput_from (names : List String) (hidden : String) :
    names.foldl chooseHidden hidden =
      if "last_hidden_state" ∈ names then "last_hidden_state"
      else if hidden = "" ∧ "token_embeddings" ∈ names then "token_embeddings" else hidden := by
  induction names generalizing hidden with
  | nil => simp
  | cons name names ih =>
    rw [List.foldl_cons, ih, chooseHidden]
    by_cases last : name = "last_hidden_state"
    · subst last
      simp
    · by_cases tokens : name = "token_embeddings"
      · subst tokens
        by_cases empty : hidden = ""
        · subst empty
          simp
        · simp [empty]
      · have other : ¬ "last_hidden_state" = name := fun h => last h.symm
        have other' : ¬ "token_embeddings" = name := fun h => tokens h.symm
        simp [last, tokens, other, other']

/-- The choice does not depend on the order of the outputs. -/
theorem hiddenOutput_eq (names : List String) : hiddenOutput names =
    if "last_hidden_state" ∈ names then "last_hidden_state"
    else if "token_embeddings" ∈ names then "token_embeddings" else "" := by
  rw [hiddenOutput, hiddenOutput_from]
  simp only [true_and]

theorem needsTokenTypeIds_iff (names : List String) :
    needsTokenTypeIds names = true ↔ "token_type_ids" ∈ names := by
  have seen (needs : Bool) : names.foldl
      (fun needs name => if name = "token_type_ids" then true else needs) needs = true ↔
        needs = true ∨ "token_type_ids" ∈ names := by
    induction names generalizing needs with
    | nil => simp
    | cons name names ih =>
      rw [List.foldl_cons, ih, List.mem_cons, eq_comm (a := "token_type_ids")]
      split <;> simp_all
  rw [needsTokenTypeIds, seen]
  simp

section
variable {library : HuggingFace δ} {ort : OnnxRuntime α} {row : RegistryEntry ι}
  {provider : Provider} {precision : Precision} {path : String} {session : ModelSession ι α}

structure MadeOf (library : HuggingFace δ) (ort : OnnxRuntime α) (row : RegistryEntry ι)
    (path : String) (json graph : Bytes) (session : ModelSession ι α) : Prop where
  entry : session.entry = row
  tokenizer : Tokenizer.load library path (some json) row.info.maxSeqLength =
    .ok session.tokenizer
  graph : ∃ loaded, ort.createSession graph = .ok loaded ∧
    ("last_hidden_state" ∈ loaded.outputNames ∨ "token_embeddings" ∈ loaded.outputNames) ∧
    session.run = loaded.run (if "last_hidden_state" ∈ loaded.outputNames
      then "last_hidden_state" else "token_embeddings") ∧
    (session.needsTokenTypeIds = true ↔ "token_type_ids" ∈ loaded.inputNames)

theorem makeGraphSession_ok {tokenizer : Tokenizer} {graph : Except String Bytes}
    (h : makeGraphSession ort row provider precision tokenizer graph = .ok session) :
    ∃ bytes loaded, graph = .ok bytes ∧ ort.createSession bytes = .ok loaded ∧
      hiddenOutput loaded.outputNames ≠ "" ∧ session =
        { entry := row, tokenizer, needsTokenTypeIds := needsTokenTypeIds loaded.inputNames,
          run := loaded.run (hiddenOutput loaded.outputNames), provider, precision } := by
  unfold makeGraphSession at h
  split at h
  · cases h
  · rename_i loaded made
    cases environment : ort.environment with
    | error message =>
      rw [environment] at made
      cases made
    | ok =>
      rw [environment] at made
      cases graph with
      | error message => cases made
      | ok bytes =>
        dsimp only at h
        split at h
        · cases h
        · rename_i hidden
          exact ⟨bytes, loaded, rfl, made, hidden, (Except.ok.inj h).symm⟩

theorem makeOrtSession_ok {tokenizer : Option Bytes} {graph : Except String Bytes}
    (h : makeOrtSession library ort row provider precision path tokenizer graph =
      .ok session) : ∃ json bytes, tokenizer = some json ∧ graph = .ok bytes ∧
        MadeOf library ort row path json bytes session ∧
        session.provider = provider ∧ session.precision = precision := by
  unfold makeOrtSession at h
  cases load : Tokenizer.load library path tokenizer row.info.maxSeqLength with
  | error status =>
    rw [load] at h
    cases h
  | ok made =>
    rw [load] at h
    obtain ⟨bytes, loaded, rfl, created, hidden, rfl⟩ := makeGraphSession_ok h
    obtain ⟨json, rfl⟩ : ∃ json, tokenizer = some json := by
      cases tokenizer with
      | none => cases load
      | some json => exact ⟨json, rfl⟩
    rw [hiddenOutput_eq] at hidden
    refine ⟨json, bytes, rfl, rfl, ⟨rfl, load, loaded, created, ?_, ?_, ?_⟩, rfl, rfl⟩
    · by_cases last : "last_hidden_state" ∈ loaded.outputNames
      · exact .inl last
      · rw [if_neg last] at hidden
        exact .inr (by_contra fun tokens => hidden (if_neg tokens))
    · dsimp only
      rw [hiddenOutput_eq]
      split
      · rfl
      · rename_i last
        rw [if_neg last] at hidden
        rw [if_pos (by_contra fun tokens => hidden (if_neg tokens))]
    · exact needsTokenTypeIds_iff loaded.inputNames

end

section
variable {library : HuggingFace δ} {ort : OnnxRuntime α} {status : Status}

theorem Tokenizer.load_error {path : String} {file : Option Bytes} {maxTokens : ℕ}
    (h : Tokenizer.load library path file maxTokens = .error status) : status.ok = false := by
  unfold Tokenizer.load at h
  split at h
  · rw [← Except.error.inj h]
    rfl
  · split at h
    · rw [← Except.error.inj h]
      rfl
    · cases h

theorem makeOrtSession_error {row : RegistryEntry ι} {provider : Provider}
    {precision : Precision} {path : String} {tokenizer : Option Bytes}
    {graph : Except String Bytes}
    (h : makeOrtSession library ort row provider precision path tokenizer graph = .error status) :
    status.ok = false := by
  unfold makeOrtSession at h
  cases load : Tokenizer.load library path tokenizer row.info.maxSeqLength with
  | error failed =>
    rw [load] at h
    rw [← Except.error.inj h]
    exact Tokenizer.load_error load
  | ok made =>
    rw [load] at h
    change makeGraphSession ort row provider precision made graph = .error status at h
    unfold makeGraphSession at h
    split at h
    · rw [← Except.error.inj h]
      rfl
    · dsimp only at h
      split at h
      · rw [← Except.error.inj h]
        rfl
      · cases h

end
end CyborgdbEmbed

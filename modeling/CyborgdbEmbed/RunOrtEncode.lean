import CyborgdbEmbed.ColdLoad
import CyborgdbEmbed.PoolingArms
import Mathlib.Algebra.BigOperators.Field

set_option autoImplicit false

namespace CyborgdbEmbed
open Fallible Loops ExactFloat Utf8

namespace RunOrt
variable {δ ι : Type}

structure Binding (library : HuggingFace δ) where
  attentionMask : δ → String → List ℕ
  /-- Without padding every position of an encoding is a real one. -/
  unpadded : ∀ definition text ids,
    library.encode (library.withoutPadding definition) text = some ids →
      attentionMask (library.withoutPadding definition) text = List.replicate ids.length 1
  /-- Padding and truncation are set one beside the other. -/
  settings : ∀ definition maxLength truncated,
    library.withTruncation definition maxLength = some truncated →
      library.withTruncation (library.withoutPadding definition) maxLength =
        some (library.withoutPadding truncated)

structure Encoding where
  ids : List UInt32
  attentionMask : List ℕ

/-- The arrays of one `session.run` by the names of their inputs. -/
structure NamedFeed where
  rows : ℕ
  width : ℕ
  arrays : List (String × Buffer ℕ)

/-- What `encode` has opened. An exception is `none`. -/
structure Opened (library : HuggingFace δ) where
  binding : Binding library
  tokenizer : δ
  graph : OrtGraph ExactFloat

def openFiles {library : HuggingFace δ} (binding : Binding library)
    (ort : OnnxRuntime ExactFloat) (entry : RegistryEntry ι) (json graph : Bytes) :
    Option (Opened library) := do
  let definition ← library.fromBytes json
  let tokenizer ← library.withTruncation (library.withoutPadding definition)
    entry.info.maxSeqLength
  let graph ← (ort.createSession graph).toOption
  return ⟨binding, tokenizer, graph⟩

/-- `np.zeros` whose rows are then assigned from the front. -/
def fill (width : ℕ) (rows : List (List ℕ)) : Buffer ℕ := fun k =>
  (rows.getD (k / width) []).getD (k % width) 0

def width (encodings : List Encoding) : ℕ :=
  let longest := ((encodings.map fun e => e.ids.length).max?).getD 1
  if longest = 0 then 1 else longest

def feed (expected : List String) (encodings : List Encoding) : NamedFeed :=
  let width := width encodings
  let feed := [("input_ids", fill width (encodings.map fun e => e.ids.map (·.toNat))),
      ("attention_mask", fill width (encodings.map (·.attentionMask)))] ++
    if "token_type_ids" ∈ expected then [("token_type_ids", fun _ => 0)] else []
  ⟨encodings.length, width, feed.filter fun array => array.1 ∈ expected⟩

/-- The tensors that ONNX Runtime gets. It wants the ids and the mask. -/
def NamedFeed.tensors (feed : NamedFeed) : Option Feed := do
  let inputIds ← feed.arrays.lookup "input_ids"
  let attentionMask ← feed.arrays.lookup "attention_mask"
  return ⟨feed.rows, feed.width, inputIds, attentionMask, feed.arrays.lookup "token_type_ids"⟩

/-- `session.run(None, feed)`: every output of the graph. -/
def runAll (graph : OrtGraph ExactFloat) (batch : ℕ) (feed : NamedFeed) :
    Option (List (Buffer ExactFloat)) := do
  let tensors ← feed.tensors
  graph.outputNames.mapM fun name => (graph.run name batch tensors).toOption

def indexed (hidden : Buffer ExactFloat) (mask : Buffer ℕ) (width dim : ℕ) : Arrays where
  hidden r t d := hidden ((r * width + t) * dim + d)
  mask r t := mask (r * width + t)

section
variable {library : HuggingFace δ} (opened : Opened library) (entry : RegistryEntry ι)

def Opened.encode (text : String) : Option Encoding := do
  let ids ← library.encode opened.tokenizer text
  return ⟨ids, opened.binding.attentionMask opened.tokenizer text⟩

noncomputable def encodeChunk (batch : ℕ) (chunk : List String) :
    Option (List (ℕ → ExactFloat)) := do
  let encodings ← chunk.mapM opened.encode
  let feed := feed opened.graph.inputNames encodings
  let mask := fill feed.width (encodings.map (·.attentionMask))
  let hidden ← (← runAll opened.graph batch feed).head?
  let dim := entry.info.dimension
  return (List.range feed.rows).map (vectors (indexed hidden mask feed.width dim) feed.width dim
    entry.pooling entry.info.normalize)

/-- The loop over chunks of `batchSize` texts. -/
noncomputable def encodeChunks (batchSize : ℕ) (pos : 0 < batchSize) (batch : ℕ)
    (texts : List String) : Option (List (ℕ → ExactFloat)) :=
  if _h : texts = [] then some []
  else do
    let rows ← encodeChunk opened entry batch (texts.take batchSize)
    let rest ← encodeChunks batchSize pos (batch + 1) (texts.drop batchSize)
    return rows ++ rest
termination_by texts.length
decreasing_by
  have shorter := List.length_pos_of_ne_nil _h
  rw [List.length_drop]
  omega

/-- `range` refuses a step of zero, `np.vstack` an empty list. -/
noncomputable def encode (texts : List String) (pre : String) (batchSize : ℤ) :
    Option (List (ℕ → ExactFloat)) :=
  if _h : 0 < batchSize ∧ texts ≠ [] then
    encodeChunks opened entry batchSize.toNat (by omega) 0 (texts.map (pre ++ ·))
  else none

end

section
variable {library : HuggingFace δ} {opened : Opened library} {entry : RegistryEntry ι}

theorem le_width {encodings : List Encoding} {r : ℕ} {e : Encoding}
    (h : encodings[r]? = some e) : e.ids.length ≤ width encodings := by
  have mem : e.ids.length ∈ encodings.map fun e => e.ids.length :=
    List.mem_map_of_mem (List.mem_of_getElem? h)
  obtain ⟨longest, hmax⟩ : ∃ longest, (encodings.map fun e => e.ids.length).max? = some longest :=
    Option.isSome_iff_exists.mp (List.isSome_max?_of_mem mem)
  have bound : e.ids.length ≤ longest := (List.max?_eq_some_iff.mp hmax).2 _ mem
  unfold width
  rw [hmax, Option.getD_some]
  dsimp only
  split <;> omega

theorem fill_at {rows : List (List ℕ)} {r t width : ℕ} (ht : t < width) :
    fill width rows (r * width + t) = (rows.getD r []).getD t 0 := by
  unfold fill
  rw [Nat.mul_comm, Nat.mul_add_div (by omega), Nat.div_eq_of_lt ht, Nat.mul_add_mod,
    Nat.mod_eq_of_lt ht, Nat.add_zero]

def padded (expected : List String) (encodings : List Encoding) : Feed where
  rows := encodings.length
  width := width encodings
  inputIds := fill (width encodings) (encodings.map fun e => e.ids.map (·.toNat))
  attentionMask := fill (width encodings) (encodings.map (·.attentionMask))
  tokenTypeIds := if "token_type_ids" ∈ expected then some fun _ => 0 else none

theorem feed_tensors {expected : List String} (encodings : List Encoding)
    (ids : "input_ids" ∈ expected) (mask : "attention_mask" ∈ expected) :
    (feed expected encodings).tensors = some (padded expected encodings) := by
  unfold NamedFeed.tensors feed padded
  by_cases types : "token_type_ids" ∈ expected <;> simp [ids, mask, types, List.lookup_cons]

theorem padded_carries {encodings : List Encoding} {r : ℕ} {ids : List UInt32}
    (h : encodings[r]? = some ⟨ids, List.replicate ids.length 1⟩) (expected : List String) :
    Carries ("token_type_ids" ∈ expected) (padded expected encodings) r ids where
  row := (List.getElem?_eq_some_iff.mp h).1
  marks := ⟨le_width h, fun t (ht : t < width encodings) => by
    have row : (encodings.map (·.attentionMask)).getD r [] = List.replicate ids.length 1 := by
      rw [List.getD_eq_getElem?_getD, List.getElem?_map, h]
      rfl
    change fill (width encodings) _ (r * width encodings + t) = _
    rw [fill_at ht, row, List.getD_eq_getElem?_getD, List.getElem?_replicate]
    split <;> rfl⟩
  ids := fun t ht => by
    have inside : ids.length ≤ width encodings := le_width h
    have row : (encodings.map fun e => e.ids.map (·.toNat)).getD r [] = ids.map (·.toNat) := by
      rw [List.getD_eq_getElem?_getD, List.getElem?_map, h]
      rfl
    change fill (width encodings) _ (r * width encodings + t) = _
    rw [fill_at (by omega), row]
    simp [List.getD_eq_getElem?_getD, ht]
  types := by simp only [padded, decide_eq_true_eq]

/-- The row is what `encode` makes of a row of some run that carried these ids. -/
def Made (opened : Opened library) (entry : RegistryEntry ι) (ids : List UInt32)
    (row : ℕ → ExactFloat) : Prop :=
  ∃ name batch feed hidden r, opened.graph.outputNames.head? = some name ∧
    opened.graph.run name batch feed = .ok hidden ∧
    Carries ("token_type_ids" ∈ opened.graph.inputNames) feed r ids ∧
    row = vectors (indexed hidden feed.attentionMask feed.width entry.info.dimension) feed.width
      entry.info.dimension entry.pooling entry.info.normalize r

theorem runAll_head {graph : OrtGraph ExactFloat} {batch : ℕ} {feed : NamedFeed}
    {outputs : List (Buffer ExactFloat)} {hidden : Buffer ExactFloat}
    (h : runAll graph batch feed = some outputs) (first : outputs.head? = some hidden) :
    ∃ name tensors, graph.outputNames.head? = some name ∧ feed.tensors = some tensors ∧
      graph.run name batch tensors = .ok hidden := by
  obtain ⟨tensors, htensors, h⟩ := Option.bind_eq_some_iff.mp h
  cases names : graph.outputNames with
  | nil =>
    rw [names] at h
    obtain rfl : [] = outputs := Option.some.inj h
    cases first
  | cons name rest =>
    rw [names, List.mapM_cons] at h
    obtain ⟨output, hrun, h⟩ := Option.bind_eq_some_iff.mp h
    obtain ⟨others, -, h⟩ := Option.bind_eq_some_iff.mp h
    obtain rfl : output :: others = outputs := Option.some.inj h
    obtain rfl : output = hidden := Option.some.inj first
    refine ⟨name, tensors, rfl, htensors, ?_⟩
    cases ran : graph.run name batch tensors with
    | error message =>
      rw [ran] at hrun
      cases hrun
    | ok states =>
      rw [ran] at hrun
      exact congrArg Except.ok (Option.some.inj hrun)

/-- The tokenizer gives no more to the mask than it gives ids. -/
def Unpadded (opened : Opened library) : Prop :=
  ∀ text ids, library.encode opened.tokenizer text = some ids →
    opened.binding.attentionMask opened.tokenizer text = List.replicate ids.length 1

theorem Opened.encode_some {text : String} {e : Encoding} (unpadded : Unpadded opened)
    (h : opened.encode text = some e) : ∃ ids, library.encode opened.tokenizer text = some ids ∧
      e = ⟨ids, List.replicate ids.length 1⟩ := by
  obtain ⟨ids, hids, he⟩ := Option.bind_eq_some_iff.mp h
  refine ⟨ids, hids, ?_⟩
  rw [← unpadded text ids hids]
  exact (Option.some.inj he).symm

section
variable (unpadded : Unpadded opened) (inputIds : "input_ids" ∈ opened.graph.inputNames)
  (mask : "attention_mask" ∈ opened.graph.inputNames)
include unpadded inputIds mask

theorem encodeChunk_made {batch : ℕ} {chunk : List String} {rows : List (ℕ → ExactFloat)}
    (h : encodeChunk opened entry batch chunk = some rows) :
    List.Forall₂ (fun text row => ∃ ids, library.encode opened.tokenizer text = some ids ∧
      Made opened entry ids row) chunk rows := by
  obtain ⟨encodings, hencodings, h⟩ := Option.bind_eq_some_iff.mp h
  obtain ⟨outputs, houtputs, h⟩ := Option.bind_eq_some_iff.mp h
  obtain ⟨hidden, first, h⟩ := Option.bind_eq_some_iff.mp h
  obtain ⟨name, tensors, hname, htensors, hrun⟩ := runAll_head houtputs first
  obtain rfl := Option.some.inj (htensors.symm.trans (feed_tensors encodings inputIds mask))
  obtain rfl := Option.some.inj h
  have lengths := (mapM_some_forall₂ hencodings).length_eq
  refine List.forall₂_iff_get.mpr ⟨?_, fun r hr hr' => ?_⟩
  · rw [List.length_map, List.length_range, lengths]
    rfl
  · obtain ⟨ids, hids, he⟩ := Opened.encode_some unpadded
      ((mapM_some_forall₂ hencodings).get hr (lengths ▸ hr))
    refine ⟨ids, hids, name, batch, padded opened.graph.inputNames encodings, hidden, r, hname,
      hrun, padded_carries ?_ _, ?_⟩
    · rw [List.getElem?_eq_getElem (lengths ▸ hr)]
      exact congrArg some he
    · simp [padded, feed]

theorem encodeChunks_made {batchSize : ℕ} (pos : 0 < batchSize) {batch : ℕ}
    {texts : List String} {rows : List (ℕ → ExactFloat)}
    (h : encodeChunks opened entry batchSize pos batch texts = some rows) :
    List.Forall₂ (fun text row => ∃ ids, library.encode opened.tokenizer text = some ids ∧
      Made opened entry ids row) texts rows := by
  induction hm : texts.length using Nat.strong_induction_on generalizing batch texts rows with
  | _ m ih =>
  by_cases done : texts = []
  · rw [encodeChunks, dif_pos done] at h
    obtain rfl := Option.some.inj h
    rw [done]
    exact .nil
  · rw [encodeChunks, dif_neg done] at h
    obtain ⟨first, hfirst, h⟩ := Option.bind_eq_some_iff.mp h
    obtain ⟨rest, hrest, h⟩ := Option.bind_eq_some_iff.mp h
    obtain rfl := Option.some.inj h
    have shorter : (texts.drop batchSize).length < m := by
      have := List.length_pos_of_ne_nil done
      rw [List.length_drop]
      omega
    rw [← List.take_append_drop batchSize texts]
    exact List.rel_append (encodeChunk_made unpadded inputIds mask hfirst)
      (ih _ shorter hrest rfl)

end

noncomputable def kept (normalize : Bool) (dim : ℕ) (p : ℕ → ℝ) (d : ℕ) : ℝ :=
  if normalize then if euclidean p dim ≤ tinyNorm then p d else p d / euclidean p dim else p d

theorem euclidean_scaled {p : ℕ → ℝ} {dim : ℕ} (h : euclidean p dim ≠ 0) :
    euclidean (fun d => p d / euclidean p dim) dim = 1 := by
  have square : euclidean p dim * euclidean p dim = ∑ d ∈ Finset.range dim, p d * p d :=
    Real.mul_self_sqrt (squares_nonneg p dim)
  have sum : ∑ d ∈ Finset.range dim,
      p d / euclidean p dim * (p d / euclidean p dim) = 1 := by
    rw [Finset.sum_congr rfl fun d _ => div_mul_div_comm (p d) _ (p d) _, ← Finset.sum_div,
      ← square, div_self (mul_ne_zero h h)]
  change Real.sqrt _ = 1
  rw [sum, Real.sqrt_one]

theorem kept_eq_iff (normalize : Bool) (dim : ℕ) (p : ℕ → ℝ) :
    (∀ d, d < dim → (if normalize then p d / max (euclidean p dim) tinyNorm else p d) =
      kept normalize dim p d) ↔
    normalize = false ∨ euclidean (kept normalize dim p) dim = 0 ∨
      tinyNorm < euclidean (kept normalize dim p) dim := by
  cases normalize with
  | false => simp [kept]
  | true =>
    have scaled := scaled_eq_iff p dim
    have short : (∀ d, d < dim → p d / max (euclidean p dim) tinyNorm = kept true dim p d) ↔
        euclidean p dim = 0 ∨ tinyNorm < euclidean p dim := by
      rw [← scaled]
      exact forall₂_congr fun d _ => eq_comm
    rw [or_iff_right (by decide)]
    refine short.trans ?_
    by_cases small : euclidean p dim ≤ tinyNorm
    · have same : kept true dim p = p := funext fun d => if_pos small
      rw [same]
    · have pos : 0 < euclidean p dim := lt_trans (by norm_num [tinyNorm]) (not_le.mp small)
      have unit : euclidean (kept true dim p) dim = 1 := by
        have divided : kept true dim p = fun d => p d / euclidean p dim :=
          funext fun d => if_neg small
        rw [divided, euclidean_scaled pos.ne']
      refine iff_of_true (.inr (not_le.mp small)) (.inr ?_)
      rw [unit]
      norm_num [tinyNorm]

theorem marked_first {mask : Buffer ℕ} {width len : ℕ} (h : MarksFirst mask width len) :
    marked mask width = Finset.range len := by
  ext t
  have le := h.le
  simp only [marked, Finset.mem_filter, Finset.mem_range]
  constructor
  · rintro ⟨inside, one⟩
    rw [h.marks t inside] at one
    by_contra beyond
    exact one (if_neg beyond)
  · intro ht
    exact ⟨by omega, by rw [h.marks t (by omega), if_pos ht]; exact one_ne_zero⟩

theorem reducedReal_congr {states states' : ℕ → ℝ} {len dim d : ℕ} (pos : 0 < len)
    (agree : ∀ t, t < len → states (t * dim + d) = states' (t * dim + d)) (mode : Pooling) :
    reducedReal states (Finset.range len) dim mode d =
      reducedReal states' (Finset.range len) dim mode d := by
  have values (t : ℕ) (ht : t ∈ Finset.range len) :
      states (t * dim + d) = states' (t * dim + d) := agree t (Finset.mem_range.mp ht)
  unfold reducedReal reduced
  cases mode with
  | clsToken =>
    have first := agree 0 pos
    rw [Nat.zero_mul, Nat.zero_add] at first
    dsimp only
    rw [first]
  | maxTokens =>
    dsimp only
    rw [Finset.sup_congr rfl fun t ht => congrArg _ (values t ht)]
  | meanTokens =>
    dsimp only
    rw [Finset.sum_congr rfl values]

section
variable {typed : Bool} {feed feed' : Feed} {r r' : ℕ} {ids : List UInt32}
  {states states' : Buffer ℝ} {dim : ℕ}

theorem rowVector_congr (carries : Carries typed feed r ids) (carries' : Carries typed feed' r' ids)
    (nonempty : 0 < ids.length)
    (same : ∀ t, t < ids.length → ∀ d, d < dim →
      states ((r * feed.width + t) * dim + d) = states' ((r' * feed'.width + t) * dim + d))
    (mode : Pooling) {d : ℕ} (hd : d < dim) :
    rowVector states feed.attentionMask feed.width dim mode r d =
      rowVector states' feed'.attentionMask feed'.width dim mode r' d := by
  unfold rowVector
  rw [marked_first carries.marks, marked_first carries'.marks]
  refine reducedReal_congr nonempty (fun t ht => ?_) mode
  have h := same t ht d hd
  rw [Nat.add_mul, Nat.add_mul, Nat.add_assoc, Nat.add_assoc] at h
  exact h

theorem marks_some (carries : Carries typed feed r ids) (nonempty : 0 < ids.length) :
    (marked (fun t => feed.attentionMask (r * feed.width + t)) feed.width).Nonempty := by
  rw [marked_first carries.marks]
  exact ⟨0, Finset.mem_range.mpr nonempty⟩

end

theorem embedRow_kept {session : OrtSession ι ExactFloat} {states : Buffer ℝ} {feed : Feed}
    {r d : ℕ}
    (some_real : (marked (fun t => feed.attentionMask (r * feed.width + t)) feed.width).Nonempty)
    (hd : d < session.entry.info.dimension) :
    session.embedRow (fun k => real (states k)) feed r d =
      real (kept session.entry.info.normalize session.entry.info.dimension
        (rowVector states feed.attentionMask feed.width session.entry.info.dimension
          session.entry.pooling r) d) := by
  have pooled : ∀ e, e < session.entry.info.dimension →
      poolRow (fun k => real (states (r * feed.width * session.entry.info.dimension + k)))
        (fun t => feed.attentionMask (r * feed.width + t)) feed.width
        session.entry.info.dimension session.entry.pooling e =
      real (rowVector states feed.attentionMask feed.width session.entry.info.dimension
        session.entry.pooling r e) := fun e _ =>
    poolRow_reducedReal _ _ _ _ _ _ fun _ => some_real
  unfold OrtSession.embedRow kept
  cases session.entry.info.normalize with
  | false => exact pooled d hd
  | true => exact normalizeRow_real pooled hd

section
variable {library : HuggingFace δ} {binding : Binding library} {ort : OnnxRuntime ExactFloat}
  {row : RegistryEntry ι} {path : String} {json graph : Bytes}
  {session : ModelSession ι ExactFloat} {opened : Opened library}

/-- Both arms have the same tokenizer, run the same graph and see alike whether it takes
    token types. -/
theorem openFiles_same (made : MadeOf library ort row path json graph session)
    (h : openFiles binding ort row json graph = some opened) :
    session.tokenizer.handle.tokenize = library.encode opened.tokenizer ∧ Unpadded opened ∧
      session.run = opened.graph.run (hiddenOutput opened.graph.outputNames) ∧
      session.needsTokenTypeIds = decide ("token_type_ids" ∈ opened.graph.inputNames) := by
  obtain ⟨definition, hdefinition, h⟩ := Option.bind_eq_some_iff.mp h
  obtain ⟨tokenizer, htokenizer, h⟩ := Option.bind_eq_some_iff.mp h
  obtain ⟨loaded, hloaded, h⟩ := Option.bind_eq_some_iff.mp h
  obtain rfl := Option.some.inj h
  obtain ⟨loaded', hloaded', named, hrun, htypes⟩ := made.graph
  obtain rfl : loaded' = loaded := by
    rw [hloaded'] at hloaded
    exact Option.some.inj hloaded
  obtain ⟨truncated, htruncated, hhandle⟩ := Tokenizer.load_ok made.tokenizer hdefinition
  obtain rfl : library.withoutPadding truncated = tokenizer := by
    rw [binding.settings _ _ _ htruncated] at htokenizer
    exact Option.some.inj htokenizer
  refine ⟨hhandle, binding.unpadded truncated, ?_,
    Bool.eq_iff_iff.mpr (htypes.trans decide_eq_true_iff.symm)⟩
  rw [hrun, hiddenOutput_eq]
  by_cases last : "last_hidden_state" ∈ loaded'.outputNames
  · rw [if_pos last, if_pos last]
  · rw [if_neg last, if_neg last, if_pos (named.resolve_left last)]

section
variable (made : MadeOf library ort row path json graph session)
  (hopen : openFiles binding ort row json graph = some opened)
  (first : opened.graph.outputNames.head? = some (hiddenOutput opened.graph.outputNames))
  (inputIds : "input_ids" ∈ opened.graph.inputNames)
  (mask : "attention_mask" ∈ opened.graph.inputNames)
  (rowOnly : OrtSession.DependsOnRowOnly row.info.dimension session.needsTokenTypeIds session.run
    session.run)
  (finite : ∀ batch feed hidden, session.run batch feed = .ok hidden →
    ∃ states : Buffer ℝ, hidden = fun k => real (states k))
  (yieldsIds : ∀ text ids, session.tokenizer.handle.tokenize text = some ids → 0 < ids.length)
include made hopen first inputIds mask rowOnly finite yieldsIds

omit inputIds mask yieldsIds in
/-- The library's row of a text, and the arm's: both reduce the same pooled vector. -/
theorem written_made {ids : List UInt32} {out : Buffer ExactFloat} {vector : ℕ → ExactFloat}
    {i : ℕ} (nonempty : 0 < ids.length) (written : session.Written out i ids)
    (arm : Made opened row ids vector) : ∃ p : ℕ → ℝ, ∀ d, d < row.info.dimension →
      out (i * row.info.dimension + d) =
        real (kept row.info.normalize row.info.dimension p d) ∧
      vector d = real (if row.info.normalize then
        p d / max (euclidean p row.info.dimension) tinyNorm else p d) := by
  obtain ⟨batch, feed, hidden, r, hrun, carries, hrow⟩ := written
  obtain ⟨name, batch', feed', hidden', r', hname, hrun', carries', hvector⟩ := arm
  obtain rfl := Option.some.inj (hname.symm.trans first)
  obtain ⟨-, -, sameRun, sameTypes⟩ := openFiles_same made hopen
  rw [← sameRun] at hrun'
  rw [← sameTypes] at carries'
  obtain ⟨states, rfl⟩ := finite _ _ _ hrun
  obtain ⟨states', rfl⟩ := finite _ _ _ hrun'
  have same : ∀ t, t < ids.length → ∀ d, d < row.info.dimension →
      states ((r * feed.width + t) * row.info.dimension + d) =
        states' ((r' * feed'.width + t) * row.info.dimension + d) := fun t ht d hd =>
    ExactFloat.real.inj
      (rowOnly _ _ _ _ _ _ _ _ _ carries carries' hrun hrun' t ht d hd)
  have binary : ∀ t, t < feed'.width → feed'.attentionMask (r' * feed'.width + t) = 0 ∨
      feed'.attentionMask (r' * feed'.width + t) = 1 := by
    intro t ht
    rw [carries'.marks.marks t ht]
    split
    · exact .inr rfl
    · exact .inl rfl
  refine ⟨rowVector states feed.attentionMask feed.width row.info.dimension row.pooling r,
    fun d hd => ⟨?_, ?_⟩⟩
  · have h := hrow d (made.entry ▸ hd)
    rw [embedRow_kept (marks_some carries nonempty) (made.entry ▸ hd), made.entry] at h
    exact h
  · have equal : ∀ e, e < row.info.dimension →
        rowVector states feed.attentionMask feed.width row.info.dimension row.pooling r e =
          rowVector states' feed'.attentionMask feed'.width row.info.dimension row.pooling r' e :=
      fun e he => rowVector_congr carries carries' nonempty same row.pooling he
    have norm : euclidean (rowVector states feed.attentionMask feed.width row.info.dimension
          row.pooling r) row.info.dimension =
        euclidean (rowVector states' feed'.attentionMask feed'.width row.info.dimension
          row.pooling r') row.info.dimension := by
      unfold euclidean
      rw [Finset.sum_congr rfl fun e he => by rw [equal e (Finset.mem_range.mp he)]]
    rw [hvector, equal d hd, norm]
    exact runOrt_row row.pooling (marks_some carries' nonempty) binary hd row.info.normalize

/-- Of the same texts the two arms make rows that are equal exactly where the library's
    is zero or longer than the clip, in chunks of whatever size. -/
theorem encode_arms_iff {texts : List String} {pre : String}
    (noNul : ∀ text ∈ texts, '\x00' ∉ (pre ++ text).toList) {out out' : Buffer ExactFloat}
    {outCapacity : ℕ} {status : Status}
    (h : session.encode (some fun i => view (texts.getD i "")) texts.length (view pre) (some out)
      outCapacity = (status, some out')) (ok : status.ok = true)
    {batchSize : ℤ} {rows : List (ℕ → ExactFloat)}
    (hpython : encode opened row texts pre batchSize = some rows) :
    List.Forall₂ (fun i vector => ∃ v : ℕ → ℝ,
        (∀ d, d < row.info.dimension → out' (i * row.info.dimension + d) = real (v d)) ∧
        ((∀ d, d < row.info.dimension → vector d = real (v d)) ↔
          row.info.normalize = false ∨ euclidean v row.info.dimension = 0 ∨
            tinyNorm < euclidean v row.info.dimension))
      (List.range texts.length) rows := by
  have unpadded := (openFiles_same made hopen).2.1
  have tokenizes := (openFiles_same made hopen).1
  unfold encode at hpython
  split at hpython
  · have arm := encodeChunks_made unpadded inputIds mask _ hpython
    rw [List.forall₂_map_left_iff] at arm
    refine List.forall₂_iff_get.mpr ⟨?_, fun i hi hi' => ?_⟩
    · rw [List.length_range]
      exact arm.length_eq
    · rw [List.length_range] at hi
      obtain ⟨ids, hids, made'⟩ := arm.get hi hi'
      obtain ⟨ids', hids', written⟩ := OrtSession.encode_written h ok hi
      have text : texts.getD i "" = texts.get ⟨i, hi⟩ := List.getD_eq_getElem ..
      have whole := (Tokenizer.seesWholeText_iff pre (texts.get ⟨i, hi⟩)).mpr
        (noNul _ (List.get_mem ..))
      rw [text, whole.ids, Tokenizer.answer, tokenizes, hids] at hids'
      obtain rfl := Except.ok.inj hids'
      have nonempty := yieldsIds _ _ (tokenizes ▸ hids)
      obtain ⟨p, same⟩ := written_made made hopen first rowOnly finite nonempty written made'
      refine ⟨kept row.info.normalize row.info.dimension p, fun d hd => ?_, ?_⟩
      · rw [List.get_eq_getElem, List.getElem_range]
        exact (same d hd).1
      · rw [← kept_eq_iff]
        refine forall₂_congr fun d hd => ?_
        rw [(same d hd).2]
        exact ⟨ExactFloat.real.inj, congrArg real⟩
  · cases hpython

end
end

end

def greetingBinding : Binding ColdLoad.greetingTokenizer where
  attentionMask := fun _ text => List.replicate (greetingIds text).length 1
  unpadded := fun _ _ _ h => by rw [← Option.some.inj h]
  settings := fun _ _ _ h => h

noncomputable def addingGraph : OrtGraph ExactFloat where
  inputNames := ["input_ids", "attention_mask", "token_type_ids"]
  outputNames := ["last_hidden_state"]
  run := fun _ _ feed => match feed.tokenTypeIds with
    | none => .error "Missing Input: token_type_ids"
    | some types => .ok fun k => real (greetingStates feed types k : ℝ)

noncomputable def addingRuntime : OnnxRuntime ExactFloat where
  getApi := fun version => version == 30
  environment := .ok ()
  createSession := fun _ => .ok addingGraph

noncomputable def addingSession : ModelSession ModelId ExactFloat where
  entry := bgeSmallEnV15
  tokenizer := greetingSession.tokenizer
  needsTokenTypeIds := true
  run := addingGraph.run "last_hidden_state"
  provider := .cpu
  precision := .fp32

theorem addingSession_made : MadeOf ColdLoad.greetingTokenizer addingRuntime bgeSmallEnV15
    "tokenizer.json" [4] [1, 2, 3] addingSession :=
  ⟨rfl, rfl, _, rfl, .inl (List.mem_singleton_self _), rfl,
    iff_of_true rfl (List.mem_cons_of_mem _ (List.mem_cons_of_mem _ List.mem_cons_self))⟩

theorem addingSession_run {batch : ℕ} {feed : Feed} {hidden : Buffer ExactFloat}
    (hrun : addingSession.run batch feed = .ok hidden) : ∃ types,
      feed.tokenTypeIds = some types ∧
        hidden = fun k => real (greetingStates feed types k : ℝ) := by
  unfold addingSession addingGraph at hrun
  cases types : feed.tokenTypeIds with
  | none =>
    simp only [types] at hrun
    cases hrun
  | some types' =>
    simp only [types] at hrun
    exact ⟨types', rfl, (Except.ok.inj hrun).symm⟩

theorem addingSession_rowOnly : OrtSession.DependsOnRowOnly 384
    addingSession.needsTokenTypeIds addingSession.run addingSession.run := by
  intro batch batch' feed feed' hidden hidden' r r' ids carries carries' hrun hrun' t ht d hd
  obtain ⟨types, given, rfl⟩ := addingSession_run hrun
  obtain ⟨types', given', rfl⟩ := addingSession_run hrun'
  obtain rfl := Option.some.inj (given.symm.trans carries.types)
  obtain rfl := Option.some.inj (given'.symm.trans carries'.types)
  dsimp only
  rw [greetingStates_carries carries ht hd, greetingStates_carries carries' ht hd]

/-- Two texts together, and the same two one by one. -/
theorem encode_arms_greetings : ∃ opened status out' rows,
    openFiles greetingBinding addingRuntime bgeSmallEnV15 [4] [1, 2, 3] = some opened ∧
    addingSession.encode (some fun i => view (["hello world", "hello"].getD i "")) 2 (view "")
      (some fun _ => real 0) 768 = (status, some out') ∧
    encode opened bgeSmallEnV15 ["hello world", "hello"] "" 1 = some rows ∧
    List.Forall₂ (fun i vector => ∃ v : ℕ → ℝ,
        (∀ d, d < 384 → out' (i * 384 + d) = real (v d)) ∧
        ((∀ d, d < 384 → vector d = real (v d)) ↔
          true = false ∨ euclidean v 384 = 0 ∨ tinyNorm < euclidean v 384))
      (List.range 2) rows := by
  obtain ⟨status, out', h⟩ := addingSession.encode_out
    (fun i => view (["hello world", "hello"].getD i "")) 2 (view "") (fun _ => real 0) 768
  have ok : (addingSession.encode (some fun i => view (["hello world", "hello"].getD i "")) 2
      (view "") (some fun _ => real 0) 768).1.ok = true := by
    decide +kernel
  rw [h] at ok
  obtain ⟨opened, hopen⟩ : ∃ opened, openFiles greetingBinding addingRuntime bgeSmallEnV15 [4]
      [1, 2, 3] = some opened := ⟨_, rfl⟩
  obtain ⟨rows, hrows⟩ : ∃ rows, encode opened bgeSmallEnV15 ["hello world", "hello"] "" 1 =
      some rows := by
    obtain rfl := Option.some.inj hopen
    obtain ⟨first, hfirst⟩ : ∃ rows, encodeChunk ⟨greetingBinding, (), addingGraph⟩
        bgeSmallEnV15 0 ["hello world"] = some rows := ⟨_, rfl⟩
    obtain ⟨second, hsecond⟩ : ∃ rows, encodeChunk ⟨greetingBinding, (), addingGraph⟩
        bgeSmallEnV15 1 ["hello"] = some rows := ⟨_, rfl⟩
    refine ⟨first ++ (second ++ []), ?_⟩
    rw [encode, dif_pos (by decide), encodeChunks, dif_neg (by decide), encodeChunks,
      dif_neg (by decide), encodeChunks, dif_pos (by decide)]
    change (encodeChunk _ _ 0 ["hello world"]).bind _ = _
    rw [hfirst, Option.bind_some]
    change ((encodeChunk _ _ 1 ["hello"]).bind _).bind _ = _
    rw [hsecond]
    rfl
  obtain rfl := Option.some.inj hopen
  exact ⟨_, status, out', rows, hopen, h, hrows, encode_arms_iff addingSession_made hopen rfl
    List.mem_cons_self (List.mem_cons_of_mem _ List.mem_cons_self) addingSession_rowOnly
    (fun _ _ _ hrun => (addingSession_run hrun).elim fun _ run => ⟨_, run.2⟩)
    (fun text _ htext => Option.some.inj htext ▸ (greetingIds_length text).1)
    (by decide) h ok hrows⟩

end RunOrt
end CyborgdbEmbed

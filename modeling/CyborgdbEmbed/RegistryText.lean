import CyborgdbEmbed.GenRegistry
import CyborgdbEmbed.ListSplits

set_option autoImplicit false

namespace CyborgdbEmbed.RegistryText
open GenRegistry ListSplits

abbrev Line := List Char

def isSpace (c : Char) : Bool :=
  c.toNat ∈ [9, 10, 11, 12, 13, 28, 29, 30, 31, 32, 0x85, 0xa0, 0x1680, 0x2028, 0x2029, 0x202f,
    0x205f, 0x3000] || (0x2000 ≤ c.toNat && c.toNat ≤ 0x200a)

def skipSpace (cs : List Char) : List Char := cs.dropWhile isSpace

def literal (word cs : List Char) : Option (List Char) :=
  if word.isPrefixOf cs then some (cs.drop word.length) else none

/-- `re.match(r"\s*-\s*id:\s*(\S+)", line)`, the group. -/
def idOf (line : Line) : Option String := do
  let afterDash ← literal ['-'] (skipSpace line)
  let afterKey ← literal ['i', 'd', ':'] (skipSpace afterDash)
  match (skipSpace afterKey).takeWhile (fun c => !isSpace c) with
  | [] => none
  | id => some (String.ofList id)

def hasKey (key : List Char) (line : Line) : Bool :=
  (literal (key ++ [':']) (skipSpace line)).isSome

/-- `re.sub(r'"[^"]*"', f'"{value}"', line, count=1)`, for a value without a backslash. -/
def replaceQuoted (value : List Char) (line : Line) : Line :=
  match line.dropWhile (· ≠ '"') with
  | [] => line
  | _ :: rest =>
    match rest.dropWhile (· ≠ '"') with
    | [] => line
    | _ :: after => line.takeWhile (· ≠ '"') ++ '"' :: (value ++ '"' :: after)

/-- One pass over the lines that keeps in mind the model it is in. -/
def edit (f : String → Line → Line) : Option String → List Line → List Line
  | _, [] => []
  | current, line :: rest =>
    match idOf line, current with
    | some id, _ => line :: edit f (some id) rest
    | none, some id => f id line :: edit f current rest
    | none, none => line :: edit f current rest

structure Block where
  id : String
  first : Line
  body : List Line
  deriving DecidableEq

def bodyOf (lines : List Line) : List Line := lines.takeWhile fun line => (idOf line).isNone

def blocks : List Line → List Block
  | [] => []
  | line :: rest =>
    match idOf line with
    | some id => ⟨id, line, bodyOf rest⟩ :: blocks rest
    | none => blocks rest

def Block.edit (f : String → Line → Line) (block : Block) : Block :=
  { block with body := block.body.map (f block.id) }

def get (fields : List (String × YamlValue)) (key : String) : YamlValue :=
  ((fields.filter fun field => field.1 == key).getLast?.map Prod.snd).getD .null

/-- `readLine` is what the YAML parser makes of a line: a key and its value, or nothing. -/
def Block.model (readLine : Line → Option (String × YamlValue)) (block : Block) : YamlModel :=
  let fields := (block.first :: block.body).filterMap readLine
  { id := get fields "id"
    enum := get fields "enum"
    revision := get fields "revision"
    onnxPath := get fields "onnx_path"
    onnxSha256 := get fields "onnx_sha256"
    tokenizerSha256 := get fields "tokenizer_sha256"
    dim := get fields "dim"
    pooling := get fields "pooling"
    normalize := get fields "normalize"
    maxSeqLength := get fields "max_seq_length"
    queryPrefix := get fields "query_prefix"
    docPrefix := get fields "doc_prefix"
    parity := get fields "parity" }

def safeLoad (readLine : Line → Option (String × YamlValue)) (lines : List Line) :
    List YamlModel :=
  (blocks lines).map (Block.model readLine)

def Plain (value : List Char) : Prop := ∀ c ∈ value, c.isAlphanum = true ∨ c = '-'

theorem plain_of_all {value : List Char}
    (h : (value.all fun c => c.isAlphanum || c == '-') = true) :
    Plain value := by
  intro c hc
  simpa using List.all_eq_true.mp h c hc

structure Quoted (readLine : Line → Option (String × YamlValue)) (key : String)
    (line : Line) : Prop where
  reads : ∃ value, readLine line = some (key, value)
  quoted : ∃ before old after, '"' ∉ before ∧ '"' ∉ old ∧
    line = before ++ '"' :: (old ++ '"' :: after) ∧
    ∀ value, Plain value →
      readLine (before ++ '"' :: (value ++ '"' :: after)) = some (key, .str (String.ofList value))

/-- A file in which the patterns of the scripts and the YAML parser see the same ids and
    the same verdicts. -/
structure RegistryFile (readLine : Line → Option (String × YamlValue)) where
  lines : List Line
  idLine : ∀ line ∈ lines, ∀ id, idOf line = some id → readLine line = some ("id", .str id)
  onlyId : ∀ line ∈ lines, idOf line = none → ∀ value, readLine line ≠ some ("id", value)
  parityLine : ∀ line ∈ lines, hasKey "parity".toList line = true → Quoted readLine "parity" line
  onlyParity : ∀ line ∈ lines, hasKey "parity".toList line = false →
    ∀ value, readLine line ≠ some ("parity", value)

theorem skipSpace_quote (before rest : List Char) :
    skipSpace (before ++ '"' :: rest) = skipSpace before ++ '"' :: rest := by
  unfold skipSpace
  induction before with
  | nil => rfl
  | cons c before ih =>
    by_cases hc : isSpace c = true
    · rw [List.cons_append, List.dropWhile_cons_of_pos hc, List.dropWhile_cons_of_pos hc, ih]
    · rw [List.cons_append, List.dropWhile_cons_of_neg hc, List.dropWhile_cons_of_neg hc]
      rfl

theorem isPrefixOf_quote {word : List Char} (h : '"' ∉ word) (before rest rest' : List Char) :
    word.isPrefixOf (before ++ '"' :: rest) = word.isPrefixOf (before ++ '"' :: rest') := by
  induction word generalizing before with
  | nil => rfl
  | cons c word ih =>
    rw [List.mem_cons, not_or] at h
    cases before with
    | nil =>
      have ne : (c == '"') = false := beq_eq_false_iff_ne.mpr (Ne.symm h.1)
      simp only [List.nil_append, List.isPrefixOf_cons_cons, ne, Bool.false_and]
    | cons b before => simp only [List.cons_append, List.isPrefixOf_cons_cons, ih h.2]

theorem hasKey_quote {key : List Char} (h : '"' ∉ key) (before rest rest' : List Char) :
    hasKey key (before ++ '"' :: rest) = hasKey key (before ++ '"' :: rest') := by
  have word : '"' ∉ key ++ [':'] := by
    rw [List.mem_append, not_or]
    exact ⟨h, by decide⟩
  unfold hasKey literal
  rw [skipSpace_quote, skipSpace_quote, isPrefixOf_quote word _ rest rest']
  split <;> rfl

theorem idOf_of_hasKey {key : List Char} {line : Line} (first : key.head? ≠ some '-')
    (named : key ≠ []) (h : hasKey key line = true) : idOf line = none := by
  cases key with
  | nil => exact absurd rfl named
  | cons c key =>
    unfold hasKey literal at h
    unfold idOf literal
    cases hline : skipSpace line with
    | nil => rfl
    | cons d rest =>
      rw [hline] at h
      have hd : c = d := by
        simp at h
        exact h.1
      have dash : (['-'].isPrefixOf (d :: rest)) = false := by
        rw [List.isPrefixOf_cons_cons, ← hd]
        have ne : ('-' == c) = false :=
          beq_eq_false_iff_ne.mpr fun heq => first (by rw [← heq]; rfl)
        rw [ne]
        rfl
      rw [dash]
      rfl

theorem ne_quote {cs : List Char} (h : '"' ∉ cs) : ∀ c ∈ cs, decide (c ≠ '"') = true := by
  intro c hc
  refine decide_eq_true ?_
  rintro rfl
  exact h hc

theorem dropWhile_quote {cs : List Char} (h : '"' ∉ cs) (rest : List Char) :
    (cs ++ '"' :: rest).dropWhile (· ≠ '"') = '"' :: rest :=
  dropWhile_run (ne_quote h) (by decide)

theorem takeWhile_quote {cs : List Char} (h : '"' ∉ cs) (rest : List Char) :
    (cs ++ '"' :: rest).takeWhile (· ≠ '"') = cs :=
  takeWhile_run (ne_quote h) (by decide)

theorem replaceQuoted_quoted {before old after : List Char} (value : List Char)
    (hbefore : '"' ∉ before) (hold : '"' ∉ old) :
    replaceQuoted value (before ++ '"' :: (old ++ '"' :: after)) =
      before ++ '"' :: (value ++ '"' :: after) := by
  unfold replaceQuoted
  simp only [dropWhile_quote hbefore, dropWhile_quote hold, takeWhile_quote hbefore]

theorem replaceQuoted_cases (value : List Char) (line : Line) : replaceQuoted value line = line ∨
    ∃ before old after, line = before ++ '"' :: (old ++ '"' :: after) ∧
      replaceQuoted value line = before ++ '"' :: (value ++ '"' :: after) := by
  have none {cs : List Char} (h : '"' ∉ cs) : cs.dropWhile (· ≠ '"') = [] :=
    List.dropWhile_eq_nil_iff.mpr (ne_quote h)
  by_cases first : '"' ∈ line
  · obtain ⟨before, rest, rfl, hbefore⟩ := List.eq_append_cons_of_mem first
    by_cases second : '"' ∈ rest
    · obtain ⟨old, after, rfl, hold⟩ := List.eq_append_cons_of_mem second
      exact .inr ⟨before, old, after, rfl, replaceQuoted_quoted value hbefore hold⟩
    · left
      unfold replaceQuoted
      simp only [dropWhile_quote hbefore, none second]
  · left
    unfold replaceQuoted
    simp only [none first]

theorem hasKey_replaceQuoted {key : List Char} (h : '"' ∉ key) (value : List Char) (line : Line) :
    hasKey key (replaceQuoted value line) = hasKey key line := by
  cases replaceQuoted_cases value line with
  | inl hsame => rw [hsame]
  | inr hparts =>
    obtain ⟨before, old, after, hline, hnew⟩ := hparts
    rw [hnew, hline]
    exact hasKey_quote h before _ _

variable {f : String → Line → Line}

theorem bodyOf_cons_some {line : Line} {id : String} (h : idOf line = some id)
    (rest : List Line) : bodyOf (line :: rest) = [] := by
  unfold bodyOf
  refine List.takeWhile_cons_of_neg ?_
  rw [h]
  nofun

theorem bodyOf_cons_none {line : Line} (h : idOf line = none) (rest : List Line) :
    bodyOf (line :: rest) = line :: bodyOf rest := by
  unfold bodyOf
  refine List.takeWhile_cons_of_pos ?_
  rw [h]
  rfl

theorem blocks_cons_some {line : Line} {id : String} (h : idOf line = some id)
    (rest : List Line) : blocks (line :: rest) = ⟨id, line, bodyOf rest⟩ :: blocks rest := by
  rw [blocks, h]

theorem blocks_cons_none {line : Line} (h : idOf line = none) (rest : List Line) :
    blocks (line :: rest) = blocks rest := by
  rw [blocks, h]

theorem bodyOf_eq_self {lines : List Line} (h : ∀ line ∈ lines, idOf line = none) :
    bodyOf lines = lines :=
  List.takeWhile_eq_self_iff.mpr fun line hline => by rw [h line hline]; rfl

theorem blocks_eq_nil {lines : List Line} (h : ∀ line ∈ lines, idOf line = none) :
    blocks lines = [] := by
  induction lines with
  | nil => rfl
  | cons line rest ih =>
    rw [List.forall_mem_cons] at h
    rw [blocks_cons_none h.1, ih h.2]

theorem bodyOf_edit (hf : ∀ id line, idOf line = none → idOf (f id line) = none) (id : String)
    (lines : List Line) : bodyOf (edit f (some id) lines) = (bodyOf lines).map (f id) := by
  induction lines with
  | nil => rfl
  | cons line rest ih =>
    unfold edit
    cases h : idOf line with
    | some id' =>
      dsimp only
      rw [bodyOf_cons_some h, bodyOf_cons_some h, List.map_nil]
    | none =>
      dsimp only
      rw [bodyOf_cons_none h, bodyOf_cons_none (hf id line h), List.map_cons, ih]

/-- An edit that makes no line the first of a model works on each model by itself. -/
theorem blocks_edit (hf : ∀ id line, idOf line = none → idOf (f id line) = none)
    (lines : List Line) (current : Option String) :
    blocks (edit f current lines) = (blocks lines).map (Block.edit f) := by
  induction lines generalizing current with
  | nil => rfl
  | cons line rest ih =>
    unfold edit blocks
    cases h : idOf line with
    | some id =>
      simp only [h, ih, bodyOf_edit hf, List.map_cons]
      rfl
    | none =>
      cases current with
      | none => simp only [h, ih]
      | some id => simp only [hf id line h, ih]

theorem bodyOf_subset (lines : List Line) :
    ∀ line ∈ bodyOf lines, line ∈ lines ∧ idOf line = none := by
  induction lines with
  | nil => exact fun _ h => absurd h List.not_mem_nil
  | cons head rest ih =>
    cases h : idOf head with
    | some id =>
      rw [bodyOf_cons_some h]
      exact fun _ h => absurd h List.not_mem_nil
    | none =>
      rw [bodyOf_cons_none h, List.forall_mem_cons]
      refine ⟨⟨List.mem_cons_self, h⟩, fun line hl => ?_⟩
      exact ⟨List.mem_cons_of_mem _ (ih line hl).1, (ih line hl).2⟩

theorem mem_blocks {lines : List Line} {block : Block} (h : block ∈ blocks lines) :
    block.first ∈ lines ∧ idOf block.first = some block.id ∧
      ∀ line ∈ block.body, line ∈ lines ∧ idOf line = none := by
  induction lines with
  | nil => exact absurd h List.not_mem_nil
  | cons line rest ih =>
    have later (h : block ∈ blocks rest) : block.first ∈ line :: rest ∧
        idOf block.first = some block.id ∧
        ∀ l ∈ block.body, l ∈ line :: rest ∧ idOf l = none := by
      obtain ⟨hfirst, hid, hbody⟩ := ih h
      exact ⟨List.mem_cons_of_mem _ hfirst, hid,
        fun l hl => ⟨List.mem_cons_of_mem _ (hbody l hl).1, (hbody l hl).2⟩⟩
    cases hline : idOf line with
    | some id =>
      rw [blocks_cons_some hline] at h
      cases List.mem_cons.mp h with
      | inl heq =>
        subst heq
        refine ⟨List.mem_cons_self, hline, fun l hl => ?_⟩
        obtain ⟨hmem, hnone⟩ := bodyOf_subset rest l hl
        exact ⟨List.mem_cons_of_mem _ hmem, hnone⟩
      | inr hrest => exact later hrest
    | none =>
      rw [blocks_cons_none hline] at h
      exact later h

section
variable {readLine : Line → Option (String × YamlValue)}

theorem get_lines (lines : List Line) (key : String) : get (lines.filterMap readLine) key =
    ((lines.filterMap fun line => (readLine line).filter fun field => field.1 == key).getLast?.map
      Prod.snd).getD .null := by
  unfold get
  rw [List.filter_filterMap]

theorem get_map {f : Line → Line} {lines : List Line} {key : String}
    (h : ∀ line ∈ lines, (readLine (f line)).filter (fun field => field.1 == key) =
      (readLine line).filter fun field => field.1 == key) :
    get ((lines.map f).filterMap readLine) key = get (lines.filterMap readLine) key := by
  rw [get_lines, get_lines, List.filterMap_map]
  exact congrArg (fun fields => ((fields.getLast?).map Prod.snd).getD YamlValue.null)
    (List.filterMap_congr h)

theorem get_of_mem {fields : List (String × YamlValue)} {key : String} {value : YamlValue}
    (all : ∀ other, (key, other) ∈ fields → other = value) (mem : (key, value) ∈ fields) :
    get fields key = value := by
  unfold get
  cases hl : (fields.filter fun field => field.1 == key).getLast? with
  | none =>
    have empty := List.getLast?_eq_none_iff.mp hl
    have gone := List.filter_eq_nil_iff.mp empty (key, value) mem
    simp at gone
  | some field =>
    obtain ⟨hmem, hkey⟩ := List.mem_filter.mp (List.mem_of_getLast? hl)
    obtain ⟨key', other⟩ := field
    obtain rfl : key' = key := beq_iff_eq.mp hkey
    exact all other hmem

theorem get_absent {fields : List (String × YamlValue)} {key : String}
    (h : ∀ value, (key, value) ∉ fields) : get fields key = .null := by
  have empty : fields.filter (fun field => field.1 == key) = [] := by
    rw [List.filter_eq_nil_iff]
    intro field hfield hkey
    exact h field.2 (beq_iff_eq.mp hkey ▸ hfield)
  unfold get
  rw [empty]
  rfl

/-- The id of a model is the one the patterns find, in the file and after any edit that
    leaves the ids alone. -/
theorem Block.model_id {block : Block} (first : readLine block.first = some ("id", .str block.id))
    (body : ∀ line ∈ block.body, ∀ value, readLine line ≠ some ("id", value)) :
    (block.model readLine).id = .str block.id := by
  change get ((block.first :: block.body).filterMap readLine) "id" = .str block.id
  rw [List.filterMap_cons_some first]
  apply get_of_mem ?_ List.mem_cons_self
  intro other hother
  cases List.mem_cons.mp hother with
  | inl heq => exact (Prod.mk.inj heq).2
  | inr hbody =>
    obtain ⟨line, hline, hread⟩ := List.mem_filterMap.mp hbody
    exact absurd hread (body line hline other)

end

end CyborgdbEmbed.RegistryText

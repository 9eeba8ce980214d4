import CyborgdbEmbed.ListsInStep
import CyborgdbEmbed.PinWrites
import CyborgdbEmbed.VerdictWrites

set_option autoImplicit false

namespace CyborgdbEmbed.RegistryScripts
open GenRegistry (YamlModel YamlValue)
open ListsInStep (exists_left)
open PinWrites (pathIn pathOf startsId)
open RegistryRewrites (readLines)
open RegistryText TextLines

def writtenKeys : List String := ["revision", "onnx_sha256", "tokenizer_sha256", "parity"]

section
variable (readLine : Line → Option (String × YamlValue))

structure LegibleLine (line : Line) : Prop where
  starts : startsId line = (idOf line).isSome
  id : ∀ id, idOf line = some id → readLine line = some ("id", .str id)
  onlyId : idOf line = none → ∀ value, readLine line ≠ some ("id", value)
  path : ∀ path, pathOf line = some path → readLine line = some ("onnx_path", .str path)
  onlyPath : pathOf line = none → ∀ value, readLine line ≠ some ("onnx_path", value)
  written : ∀ key ∈ writtenKeys, hasKey key.toList line = true → Quoted readLine key line
  onlyWritten : ∀ key ∈ writtenKeys, hasKey key.toList line = false →
    ∀ value, readLine line ≠ some (key, value)

structure Legible (lines : List Line) : Prop where
  line : ∀ line ∈ lines, LegibleLine readLine line
  there : ∀ block ∈ blocks lines, ∀ key ∈ writtenKeys,
    ∃ line ∈ block.body, hasKey key.toList line = true
  onePath : ∀ block ∈ blocks lines, ∀ line ∈ block.body, ∀ path, pathOf line = some path →
    pathIn block = some path

end

/-- A pass over the lines of a model that writes `new key` where a key has a new value. -/
structure Edits (f : Line → Line) (new : String → Option (List Char)) : Prop where
  plain : ∀ key value, new key = some value → Plain value
  write : ∀ key ∈ writtenKeys, ∀ value, new key = some value → ∀ line,
    hasKey key.toList line = true → f line = replaceQuoted value line
  keep : ∀ key ∈ writtenKeys, new key = none → ∀ line, hasKey key.toList line = true →
    f line = line
  other : ∀ line, (∀ key ∈ writtenKeys, hasKey key.toList line = false) → f line = line
  only : ∀ key, key ∉ writtenKeys → new key = none

def newValue (new : String → Option (List Char)) (key : String) (old : YamlValue) : YamlValue :=
  match new key with
  | some value => .str (String.ofList value)
  | none => old

def written (new : String → Option (List Char)) (model : YamlModel) : YamlModel :=
  { model with
    revision := newValue new "revision" model.revision
    onnxSha256 := newValue new "onnx_sha256" model.onnxSha256
    tokenizerSha256 := newValue new "tokenizer_sha256" model.tokenizerSha256
    parity := newValue new "parity" model.parity }

theorem hasKey_unique {key key' : List Char} {line : Line} (colon : ':' ∉ key) (colon' : ':' ∉ key')
    (h : hasKey key line = true) (h' : hasKey key' line = true) : key = key' := by
  have starts {k : List Char} (found : hasKey k line = true) : k ++ [':'] <+: skipSpace line := by
    unfold hasKey literal at found
    split at found
    · rename_i word
      exact List.isPrefixOf_iff_prefix.mp word
    · cases found
  obtain ⟨rest, hrest⟩ := starts h
  obtain ⟨rest', hrest'⟩ := starts h'
  rw [List.append_assoc, List.singleton_append] at hrest hrest'
  exact (ListSplits.split_inj colon colon' (hrest.trans hrest'.symm)).1

theorem writtenKeys_plain : ∀ key ∈ writtenKeys, ':' ∉ key.toList ∧ '"' ∉ key.toList ∧
    key.toList ≠ [] ∧ key.toList.head? ≠ some '-' ∧ key ≠ "id" ∧ key ≠ "onnx_path" := by
  decide

theorem idOf_written {key : String} (hkey : key ∈ writtenKeys) {line : Line}
    (h : hasKey key.toList line = true) : idOf line = none := by
  obtain ⟨-, -, named, first, -⟩ := writtenKeys_plain key hkey
  exact idOf_of_hasKey first named h

theorem pathOf_written {key : String} (hkey : key ∈ writtenKeys) {line : Line}
    (h : hasKey key.toList line = true) : pathOf line = none := by
  obtain ⟨colon, -, -, -, -, other⟩ := writtenKeys_plain key hkey
  by_contra found
  obtain ⟨path, hpath⟩ := Option.ne_none_iff_exists'.mp found
  have same := hasKey_unique colon (by decide) h (PinWrites.hasKey_of_pathOf hpath)
  exact other (String.toList_inj.mp same)

theorem startsId_written {key : String} (hkey : key ∈ writtenKeys) {line : Line}
    (h : hasKey key.toList line = true) : startsId line = false := by
  obtain ⟨-, -, named, first, -⟩ := writtenKeys_plain key hkey
  by_contra starts
  have whole : "- id:".toList <+: strip isSpace line :=
    List.isPrefixOf_iff_prefix.mp (eq_true_of_ne_false starts)
  have front : strip isSpace line <+: skipSpace line := by
    unfold strip
    rw [← List.reverse_suffix, List.reverse_reverse]
    exact List.dropWhile_suffix _
  obtain ⟨rest, hrest⟩ := whole.trans front
  obtain ⟨c, tail, shape⟩ := List.exists_cons_of_ne_nil named
  rw [shape] at h first
  have head := PinWrites.hasKey_head h
  rw [← hrest] at head
  exact first head.symm

section
variable {readLine : Line → Option (String × YamlValue)} {line : Line} {key : String}
  {value : List Char}

theorem LegibleLine.replaced (legible : LegibleLine readLine line) (hkey : key ∈ writtenKeys)
    (h : hasKey key.toList line = true) (plain : Plain value) :
    readLine (replaceQuoted value line) = some (key, .str (String.ofList value)) := by
  obtain ⟨before, old, after, hbefore, hold, rfl, reads⟩ := (legible.written key hkey h).quoted
  rw [replaceQuoted_quoted value hbefore hold]
  exact reads value plain

theorem LegibleLine.replace (legible : LegibleLine readLine line) (hkey : key ∈ writtenKeys)
    (h : hasKey key.toList line = true) (plain : Plain value) :
    LegibleLine readLine (replaceQuoted value line) := by
  obtain ⟨-, quote, -, -, notId, notPath⟩ := writtenKeys_plain key hkey
  have h' : hasKey key.toList (replaceQuoted value line) = true := by
    rw [hasKey_replaceQuoted quote, h]
  have reads := legible.replaced hkey h plain
  have no_id := idOf_written hkey h'
  have no_path := pathOf_written hkey h'
  have otherKey {name : String} (ne : key ≠ name) (v : YamlValue) :
      readLine (replaceQuoted value line) ≠ some (name, v) := by
    rw [reads]
    exact fun same => ne (Prod.mk.inj (Option.some.inj same)).1
  refine ⟨?_, ?_, fun _ => otherKey notId, ?_, fun _ => otherKey notPath, ?_, ?_⟩
  · rw [startsId_written hkey h', no_id]
    rfl
  · intro id found
    rw [no_id] at found
    cases found
  · intro path found
    rw [no_path] at found
    cases found
  · intro other hother found
    obtain ⟨colon, -⟩ := writtenKeys_plain key hkey
    obtain ⟨colon', -⟩ := writtenKeys_plain other hother
    obtain rfl : key = other := String.toList_inj.mp (hasKey_unique colon colon' h' found)
    obtain ⟨before, old, after, hbefore, hold, rfl, all⟩ := (legible.written key hkey h).quoted
    refine ⟨⟨_, reads⟩, before, value, after, hbefore,
      RegistryRewrites.plain_no_quote plain, replaceQuoted_quoted value hbefore hold, all⟩
  · intro other _ missing
    apply otherKey
    rintro rfl
    rw [h'] at missing
    cases missing

end

section
variable {readLine : Line → Option (String × YamlValue)} {f : Line → Line}
  {new : String → Option (List Char)} {line : Line}

theorem Edits.cases (edits : Edits f new) (line : Line) : f line = line ∨
    ∃ key ∈ writtenKeys, ∃ value, new key = some value ∧ Plain value ∧
      hasKey key.toList line = true ∧ f line = replaceQuoted value line := by
  by_cases there : ∃ key ∈ writtenKeys, hasKey key.toList line = true
  · obtain ⟨key, hkey, h⟩ := there
    cases hnew : new key with
    | none => exact .inl (edits.keep key hkey hnew line h)
    | some value =>
      exact .inr ⟨key, hkey, value, hnew, edits.plain key value hnew, h,
        edits.write key hkey value hnew line h⟩
  · refine .inl (edits.other line fun key hkey => ?_)
    by_contra found
    exact there ⟨key, hkey, eq_true_of_ne_false found⟩

theorem Edits.legible (edits : Edits f new) (legible : LegibleLine readLine line) :
    LegibleLine readLine (f line) := by
  obtain same | ⟨key, hkey, value, -, plain, h, wrote⟩ := edits.cases line
  · rwa [same]
  · rw [wrote]
    exact legible.replace hkey h plain

theorem Edits.idOf_eq (edits : Edits f new) (line : Line) : idOf (f line) = idOf line := by
  obtain same | ⟨key, hkey, value, -, -, h, wrote⟩ := edits.cases line
  · rw [same]
  · obtain ⟨-, quote, -⟩ := writtenKeys_plain key hkey
    rw [wrote, idOf_written hkey h]
    apply idOf_written hkey
    rw [hasKey_replaceQuoted quote, h]

theorem Edits.pathOf_eq (edits : Edits f new) (line : Line) : pathOf (f line) = pathOf line := by
  obtain same | ⟨key, hkey, value, -, -, h, wrote⟩ := edits.cases line
  · rw [same]
  · obtain ⟨-, quote, -⟩ := writtenKeys_plain key hkey
    rw [wrote, pathOf_written hkey h]
    apply pathOf_written hkey
    rw [hasKey_replaceQuoted quote, h]

theorem Edits.hasKey_eq (edits : Edits f new) {key : String} (quote : '"' ∉ key.toList)
    (line : Line) : hasKey key.toList (f line) = hasKey key.toList line := by
  obtain same | ⟨-, -, value, -, -, -, wrote⟩ := edits.cases line
  · rw [same]
  · rw [wrote]
    exact hasKey_replaceQuoted quote value line

theorem Edits.alike (edits : Edits f new) (line : Line) : Alike line (f line) := by
  obtain same | ⟨-, -, value, -, plain, -, wrote⟩ := edits.cases line
  · rw [same]
    exact Alike.refl line
  · rw [wrote]
    exact RegistryRewrites.alike_replaceQuoted plain line

theorem Edits.keeps (edits : Edits f new) (legible : LegibleLine readLine line) {key : String}
    (none : new key = none) :
    (readLine (f line)).filter (fun field => field.1 == key) =
      (readLine line).filter fun field => field.1 == key := by
  obtain same | ⟨other, hother, value, hnew, plain, h, wrote⟩ := edits.cases line
  · rw [same]
  · have differ : (other == key) = false := by
      refine beq_eq_false_iff_ne.mpr ?_
      rintro rfl
      rw [none] at hnew
      cases hnew
    obtain ⟨before, reads⟩ := (legible.written other hother h).reads
    rw [wrote, legible.replaced hother h plain, reads, Option.filter_some, Option.filter_some,
      differ]
    rfl

variable {block : Block}

theorem Edits.get_keep (edits : Edits f new)
    (legible : ∀ line ∈ block.first :: block.body, LegibleLine readLine line)
    (first : f block.first = block.first) {key : String} (none : new key = none) :
    get ((block.first :: block.body.map f).filterMap readLine) key =
      get ((block.first :: block.body).filterMap readLine) key := by
  have whole : block.first :: block.body.map f = (block.first :: block.body).map f := by
    rw [List.map_cons, first]
  rw [whole]
  exact get_map fun line hline => edits.keeps (legible line hline) none

theorem Edits.get_write (edits : Edits f new)
    (legible : ∀ line ∈ block.first :: block.body, LegibleLine readLine line)
    (first : f block.first = block.first) {key : String} (hkey : key ∈ writtenKeys)
    (there : ∃ line ∈ block.body, hasKey key.toList line = true) {value : List Char}
    (hnew : new key = some value) :
    get ((block.first :: block.body.map f).filterMap readLine) key =
      .str (String.ofList value) := by
  have plain := edits.plain key value hnew
  have reads (line : Line) (hline : line ∈ block.first :: block.body)
      (h : hasKey key.toList line = true) :
      readLine (f line) = some (key, .str (String.ofList value)) := by
    rw [edits.write key hkey value hnew line h]
    exact (legible line hline).replaced hkey h plain
  have whole : block.first :: block.body.map f = (block.first :: block.body).map f := by
    rw [List.map_cons, first]
  rw [whole]
  apply get_of_mem
  · intro other hother
    obtain ⟨line', hline', hread⟩ := List.mem_filterMap.mp hother
    obtain ⟨line, hline, rfl⟩ := List.mem_map.mp hline'
    have h : hasKey key.toList (f line) = true := by
      by_contra missing
      exact (edits.legible (legible line hline)).onlyWritten key hkey
        (eq_false_of_ne_true missing) other hread
    rw [edits.hasKey_eq (writtenKeys_plain key hkey).2.1] at h
    rw [reads line hline h] at hread
    exact ((Prod.mk.inj (Option.some.inj hread)).2).symm
  · obtain ⟨line, hline, h⟩ := there
    have mem := List.mem_cons_of_mem block.first hline
    exact List.mem_filterMap.mpr ⟨f line, List.mem_map_of_mem mem, reads line mem h⟩

theorem Edits.model (edits : Edits f new)
    (legible : ∀ line ∈ block.first :: block.body, LegibleLine readLine line)
    (first : idOf block.first ≠ none)
    (there : ∀ key ∈ writtenKeys, ∃ line ∈ block.body, hasKey key.toList line = true) :
    Block.model readLine { block with body := block.body.map f } =
      written new (block.model readLine) := by
  have kept : f block.first = block.first := by
    apply edits.other
    intro key hkey
    by_contra found
    exact first (idOf_written hkey (eq_true_of_ne_false found))
  have keep (key : String) (none : new key = none) :
      get ((block.first :: block.body.map f).filterMap readLine) key =
        get ((block.first :: block.body).filterMap readLine) key :=
    edits.get_keep legible kept none
  have write (key : String) (hkey : key ∈ writtenKeys) :
      get ((block.first :: block.body.map f).filterMap readLine) key =
        newValue new key (get ((block.first :: block.body).filterMap readLine) key) := by
    unfold newValue
    cases hnew : new key with
    | none => exact keep key hnew
    | some value => exact edits.get_write legible kept hkey (there key hkey) hnew
  have other (key : String) (outside : key ∉ writtenKeys) := keep key (edits.only key outside)
  unfold Block.model written
  rw [YamlModel.mk.injEq]
  exact ⟨other "id" (by decide), other "enum" (by decide), write "revision" (by decide),
    other "onnx_path" (by decide), write "onnx_sha256" (by decide),
    write "tokenizer_sha256" (by decide), other "dim" (by decide), other "pooling" (by decide),
    other "normalize" (by decide), other "max_seq_length" (by decide),
    other "query_prefix" (by decide), other "doc_prefix" (by decide),
    write "parity" (by decide)⟩

end

/-- The models of a file after a pass over each, and the lines before them as they were. -/
structure EditedFile (new : Block × ℕ → String → Option (List Char)) (old edited : List Line) :
    Prop where
  before : bodyOf edited = bodyOf old
  models : List.Forall₂ (fun p block' => ∃ f, Edits f (new p) ∧
    block' = { p.1 with body := p.1.body.map f }) (blocks old).zipIdx (blocks edited)

section
variable {readLine : Line → Option (String × YamlValue)} {lines edited : List Line}
  {new : Block × ℕ → String → Option (List Char)} {block : Block}

theorem Legible.block_line (legible : Legible readLine lines) (hb : block ∈ blocks lines) :
    ∀ line ∈ block.first :: block.body, LegibleLine readLine line := by
  obtain ⟨hfirst, -, hbody⟩ := mem_blocks hb
  exact List.forall_mem_cons.mpr
    ⟨legible.line _ hfirst, fun line hl => legible.line _ (hbody line hl).1⟩

theorem Legible.model_id (legible : Legible readLine lines) (hb : block ∈ blocks lines) :
    (block.model readLine).id = .str block.id := by
  obtain ⟨hfirst, hid, hbody⟩ := mem_blocks hb
  exact Block.model_id ((legible.line _ hfirst).id _ hid)
    fun line hl => (legible.line _ (hbody line hl).1).onlyId (hbody line hl).2

theorem Legible.model_path (legible : Legible readLine lines) (hb : block ∈ blocks lines)
    {path : String} (found : pathIn block = some path) :
    (block.model readLine).onnxPath = .str path := by
  obtain ⟨hfirst, hid, hbody⟩ := mem_blocks hb
  change get ((block.first :: block.body).filterMap readLine) "onnx_path" = .str path
  apply get_of_mem
  · intro other hother
    obtain ⟨line, hline, hread⟩ := List.mem_filterMap.mp hother
    cases hpath : pathOf line with
    | none => exact absurd hread ((legible.block_line hb line hline).onlyPath hpath other)
    | some there =>
      have reads := (legible.block_line hb line hline).path there hpath
      rw [reads] at hread
      have value := (Prod.mk.inj (Option.some.inj hread)).2
      cases List.mem_cons.mp hline with
      | inl first =>
        rw [first, PinWrites.pathOf_first hid] at hpath
        cases hpath
      | inr body =>
        have one := legible.onePath block hb line body there hpath
        rw [found] at one
        rw [← value, Option.some.inj one]
  · obtain ⟨line, hline, hpath⟩ := List.exists_of_findSome?_eq_some found
    have mem := List.mem_cons_of_mem block.first hline
    exact List.mem_filterMap.mpr ⟨line, mem, (legible.block_line hb line mem).path path hpath⟩

theorem Legible.after (legible : Legible readLine lines) (file : EditedFile new lines edited) :
    Legible readLine edited := by
  have back {block' : Block} (hb' : block' ∈ blocks edited) : ∃ block ∈ blocks lines,
      ∃ f new, Edits f new ∧ block' = { block with body := block.body.map f } := by
    obtain ⟨p, hp, f, edits, same⟩ := exists_left file.models hb'
    exact ⟨p.1, List.fst_mem_of_mem_zipIdx hp, f, new p, edits, same⟩
  refine ⟨fun line hline => ?_, fun block' hb' key hkey => ?_,
    fun block' hb' line hline path hpath => ?_⟩
  · rw [RegistryRewrites.lines_blocks edited, List.mem_append, List.mem_flatMap] at hline
    obtain before | ⟨block', hb', hline⟩ := hline
    · rw [file.before] at before
      exact legible.line line (bodyOf_subset lines line before).1
    · obtain ⟨block, hb, f, values, edits, rfl⟩ := back hb'
      obtain first | body := List.mem_cons.mp hline
      · rw [first]
        exact legible.block_line hb _ List.mem_cons_self
      · obtain ⟨old, hold, rfl⟩ := List.mem_map.mp body
        exact edits.legible (legible.block_line hb old (List.mem_cons_of_mem _ hold))
  · obtain ⟨block, hb, f, values, edits, rfl⟩ := back hb'
    obtain ⟨line, hline, h⟩ := legible.there block hb key hkey
    refine ⟨f line, List.mem_map_of_mem hline, ?_⟩
    rw [edits.hasKey_eq (writtenKeys_plain key hkey).2.1, h]
  · obtain ⟨block, hb, f, values, edits, rfl⟩ := back hb'
    obtain ⟨old, hold, rfl⟩ := List.mem_map.mp hline
    rw [edits.pathOf_eq] at hpath
    have same : pathIn { block with body := block.body.map f } = pathIn block := by
      have kept : pathOf ∘ f = pathOf := funext edits.pathOf_eq
      unfold pathIn
      rw [List.findSome?_map, kept]
    rw [same]
    exact legible.onePath block hb old hold path hpath

theorem Legible.models (legible : Legible readLine lines) (file : EditedFile new lines edited) :
    List.Forall₂ (fun p block' => block'.id = p.1.id ∧
      block'.model readLine = written (new p) (p.1.model readLine))
      (blocks lines).zipIdx (blocks edited) := by
  have models := (List.forall₂_and_left _ _).mpr ⟨fun _ hp => hp, file.models⟩
  refine models.imp ?_
  rintro p block' ⟨hp, f, edits, rfl⟩
  have hb := List.fst_mem_of_mem_zipIdx hp
  have first : idOf p.1.first ≠ none := by
    rw [(mem_blocks hb).2.1]
    exact Option.some_ne_none p.1.id
  exact ⟨rfl, edits.model (legible.block_line hb) first (legible.there p.1 hb)⟩

end
end CyborgdbEmbed.RegistryScripts

import CyborgdbEmbed.Fallible
import CyborgdbEmbed.FileSystem
import CyborgdbEmbed.RegistryRewrites
import Mathlib.Data.List.Forall2

set_option autoImplicit false

namespace CyborgdbEmbed.PinWrites
open Fallible RegistryText RegistryRewrites TextLines
open FileSystem (Bytes)

inductive Failure where
  -- URLError, LookupError or KeyError
  | caught
  | raised

abbrev Hex := { value : List Char // Plain value }

/-- An entry of `tree`, with the `oid` of its `lfs`. -/
structure TreeFile where
  path : Option String
  oid : Option Hex

/-- What `fetch` gives for a model and for a directory of it, and the bytes behind a URL. -/
structure Hub where
  sha : (modelId : String) → Except Failure Hex
  tree : (modelId : String) → (commit : Hex) → (directory : List Char) →
    Except Failure (List TreeFile)
  read : (url : String) → Except Failure Bytes

def fileUrl (modelId commit path : String) : String :=
  "https://huggingface.co/" ++ modelId ++ "/resolve/" ++ commit ++ "/" ++ path

/-- Of the digest that `hashlib` made. -/
def hexdigest (raw : Bytes) : List Char :=
  raw.flatMap fun b => [Nat.digitChar (b.toNat / 16), Nat.digitChar (b.toNat % 16)]

theorem hexdigest_plain (raw : Bytes) : Plain (hexdigest raw) := by
  have digit : ∀ v < 16, (Nat.digitChar v).isAlphanum = true := by decide
  intro c hc
  obtain ⟨b, -, hb⟩ := List.mem_flatMap.mp hc
  have small := b.toNat_lt
  rw [List.mem_cons, List.mem_singleton] at hb
  obtain rfl | rfl := hb
  · exact .inl (digit _ (by omega))
  · exact .inl (digit _ (Nat.mod_lt _ (by decide)))

section
variable (sha256 : Bytes → Bytes)

def digestOf (hub : Hub) (modelId : String) (commit : Hex) (path : String) :
    Except Failure Hex := do
  let response ← hub.read (fileUrl modelId (String.ofList commit.1) path)
  return ⟨hexdigest (sha256 response), hexdigest_plain _⟩

/-- `onnx_path.rpartition("/")`, what is before the last slash. -/
def directory (path : String) : List Char :=
  ((path.toList.reverse.dropWhile (· != '/')).drop 1).reverse

/-- `next((f for f in tree if f["path"] == path), None)`. -/
def next (path : String) : List TreeFile → Except Failure (Option TreeFile)
  | [] => .ok none
  | file :: rest =>
    match file.path with
    | none => .error .caught
    | some there => if there = path then .ok (some file) else next path rest

/-- What `resolve` gives for a model. -/
structure Resolution where
  commit : List Char
  sha256 : List Char
  tokenizer : List Char
  plainCommit : Plain commit
  plainSha256 : Plain sha256
  plainTokenizer : Plain tokenizer

abbrev Outcome := Except Failure Resolution

def lfsOid : Option TreeFile → Except Failure Hex
  | none => .error .caught
  | some entry =>
    match entry.oid with
    | none => .error .caught
    | some oid => if oid.1.isEmpty then .error .caught else .ok oid

def resolve (hub : Hub) (modelId : String) (onnxPath : Option String) : Outcome := do
  let commit ← hub.sha modelId
  match onnxPath with
  -- None has no rpartition
  | none => .error .raised
  | some path =>
    let tree ← hub.tree modelId commit (directory path)
    let entry ← next path tree
    let oid ← lfsOid entry
    let _sidecar ← next (path ++ "_data") tree
    let tokenizer ← digestOf sha256 hub modelId commit "tokenizer.json"
    return ⟨commit, oid, tokenizer, commit.2, oid.2, tokenizer.2⟩

structure AtCommit (hub : Hub) (modelId path : String) (pins : Resolution) : Prop where
  commit : hub.sha modelId = .ok ⟨pins.commit, pins.plainCommit⟩
  graph : ∃ tree, hub.tree modelId ⟨pins.commit, pins.plainCommit⟩ (directory path) = .ok tree ∧
    ∃ entry ∈ tree, entry.path = some path ∧ entry.oid = some ⟨pins.sha256, pins.plainSha256⟩
  tokenizer : digestOf sha256 hub modelId ⟨pins.commit, pins.plainCommit⟩ "tokenizer.json" =
    .ok ⟨pins.tokenizer, pins.plainTokenizer⟩

end

theorem next_some {path : String} {tree : List TreeFile} {entry : TreeFile}
    (h : next path tree = .ok (some entry)) : entry ∈ tree ∧ entry.path = some path := by
  induction tree with
  | nil => cases h
  | cons file rest ih =>
    unfold next at h
    split at h
    · cases h
    · rename_i there hthere
      split at h
      · rename_i same
        obtain rfl := Option.some.inj (Except.ok.inj h)
        exact ⟨List.mem_cons_self, by rw [hthere, same]⟩
      · exact ⟨List.mem_cons_of_mem file (ih h).1, (ih h).2⟩

theorem lfsOid_ok {entry : Option TreeFile} {oid : Hex} (h : lfsOid entry = .ok oid) :
    ∃ file, entry = some file ∧ file.oid = some oid := by
  unfold lfsOid at h
  split at h
  · cases h
  · rename_i file
    split at h
    · cases h
    · rename_i there hthere
      split at h
      · cases h
      · obtain rfl := Except.ok.inj h
        exact ⟨file, rfl, hthere⟩

theorem resolve_atCommit {sha256 : Bytes → Bytes} {hub : Hub} {modelId path : String}
    {pins : Resolution} (h : resolve sha256 hub modelId (some path) = .ok pins) :
    AtCommit sha256 hub modelId path pins := by
  obtain ⟨commit, hcommit, h⟩ := bind_ok h
  obtain ⟨tree, htree, h⟩ := bind_ok h
  obtain ⟨entry, hentry, h⟩ := bind_ok h
  obtain ⟨oid, hoid, h⟩ := bind_ok h
  obtain ⟨sidecar, -, h⟩ := bind_ok h
  obtain ⟨tokenizer, htokenizer, h⟩ := bind_ok h
  obtain rfl := Except.ok.inj h
  obtain ⟨file, rfl, hfile⟩ := lfsOid_ok hoid
  obtain ⟨mem, hpath⟩ := next_some hentry
  exact ⟨hcommit, ⟨tree, htree, file, mem, hpath, hfile⟩, htokenizer⟩

abbrev Resolve := ℕ → (modelId : String) → (onnxPath : Option String) → Outcome

def asks (sha256 : Bytes → Bytes) (hubs : ℕ → Hub) : Resolve := fun call =>
  resolve sha256 (hubs call)

/-- `re.match(r"\s*onnx_path:\s*(\S+)", line)`, the group. -/
def pathOf (line : Line) : Option String := do
  let afterKey ← literal "onnx_path:".toList (skipSpace line)
  match (skipSpace afterKey).takeWhile (fun c => !isSpace c) with
  | [] => none
  | path => some (String.ofList path)

/-- `ahead.strip().startswith("- id:")`. -/
def startsId (line : Line) : Bool := "- id:".toList.isPrefixOf (strip isSpace line)

def pathAhead : List Line → Option String
  | [] => none
  | ahead :: rest => if startsId ahead then none else (pathOf ahead).or (pathAhead rest)

def repin (current : Option Resolution) (line : Line) : Line :=
  match current with
  | none => line
  | some pins =>
    if hasKey "revision".toList line then replaceQuoted pins.commit line
    else if hasKey "onnx_sha256".toList line then replaceQuoted pins.sha256 line
    else if hasKey "tokenizer_sha256".toList line then replaceQuoted pins.tokenizer line
    else line

/-- The lines to be written, and the ids of the models that failed. -/
structure Scan where
  lines : List Line
  failures : List String

def Scan.push (line : Line) (scan : Scan) : Scan := { scan with lines := line :: scan.lines }

def scan (resolve : Resolve) : (calls : ℕ) → (current : Option Resolution) → List Line →
    Option Scan
  | _, _, [] => some ⟨[], []⟩
  | calls, current, line :: rest =>
    match idOf line with
    | some id =>
      match resolve calls id ((pathOf line).or (pathAhead rest)) with
      | .ok pins => (scan resolve (calls + 1) (some pins) rest).map (Scan.push line)
      | .error .caught => (scan resolve (calls + 1) none rest).map fun later =>
          { (later.push line) with failures := id :: later.failures }
      | .error .raised => none
    | none => (scan resolve calls current rest).map (Scan.push (repin current line))

/-- The file after a run, and the exit code if the run comes to its end. -/
def main (resolve : Resolve) (text : List Char) : List Char × Option ℕ :=
  match scan resolve 0 none (readLines text) with
  | some result => (result.lines.flatten, some (if result.failures.isEmpty then 0 else 1))
  | none => (text, none)

def pathIn (block : Block) : Option String := block.body.findSome? pathOf

def pinKeys : List String := ["revision", "onnx_sha256", "tokenizer_sha256"]

/-- A registry in which every model has its path and its pins, and these are in double
    quotes. -/
structure Registry where
  text : List Char
  ids : ∀ line ∈ readLines text, startsId line = (idOf line).isSome
  paths : ∀ block ∈ blocks (readLines text), (pathIn block).isSome = true
  pins : ∀ block ∈ blocks (readLines text), ∀ key ∈ pinKeys, HasQuoted key.toList block

/-- The pins are those of one resolution, and nothing else of the block differs. -/
structure Repinned (pins : Resolution) (block block' : Block) : Prop where
  id : block'.id = block.id
  first : block'.first = block.first
  revision : Reads "revision".toList pins.commit block'
  onnxSha256 : Reads "onnx_sha256".toList pins.sha256 block'
  tokenizerSha256 : Reads "tokenizer_sha256".toList pins.tokenizer block'
  others : List.Forall₂ (OnlyAt pinKeys) block.body block'.body

def BlockRight (outcome : Outcome) (block block' : Block) : Prop :=
  match outcome with
  | .ok pins => Repinned pins block block'
  | .error .caught => block' = block
  | .error .raised => False

/-- What `resolve` answers for a model, by its own id and path. -/
def answer (resolve : Resolve) (p : Block × ℕ) : Outcome := resolve p.2 p.1.id (pathIn p.1)

structure PinsTogether (resolve : Resolve) (old new : List Line) : Prop where
  before : bodyOf new = bodyOf old
  models : List.Forall₂ (fun p block' => BlockRight (answer resolve p) p.1 block')
    (blocks old).zipIdx (blocks new)

/-- An exception that is not caught comes up at one of the models. -/
def Raises (resolve : Resolve) (lines : List Line) : Prop :=
  ∃ p ∈ (blocks lines).zipIdx, answer resolve p = .error .raised

/-- The pins of a model move together, or the file stays as it is. Lines are compared as
    `lines` takes them from a file. -/
structure MoveTogether (lines : List Char → List Line) (file : Registry) (resolve : Resolve) :
    Prop where
  unchanged : Raises resolve (readLines file.text) → (main resolve file.text).1 = file.text
  together : ¬ Raises resolve (readLines file.text) →
    PinsTogether resolve (lines file.text) (lines (main resolve file.text).1) ∧
      (lines (main resolve file.text).1).flatten = (main resolve file.text).1

theorem hasKey_of_pathOf {line : Line} {path : String} (h : pathOf line = some path) :
    hasKey "onnx_path".toList line = true := by
  unfold pathOf at h
  obtain ⟨after, found, -⟩ := Option.bind_eq_some_iff.mp h
  unfold hasKey
  exact Option.isSome_iff_exists.mpr ⟨after, found⟩

theorem pathOf_first {line : Line} {id : String} (h : idOf line = some id) :
    pathOf line = none := by
  cases hp : pathOf line with
  | none => rfl
  | some path =>
    rw [idOf_of_hasKey (by decide) (by decide) (hasKey_of_pathOf hp)] at h
    cases h

/-- The scan ahead stays in the block. -/
theorem pathAhead_eq {lines : List Line}
    (ids : ∀ line ∈ lines, startsId line = (idOf line).isSome) :
    pathAhead lines = (bodyOf lines).findSome? pathOf := by
  induction lines with
  | nil => rfl
  | cons line rest ih =>
    rw [List.forall_mem_cons] at ids
    unfold pathAhead
    rw [ids.1]
    cases h : idOf line with
    | some id =>
      rw [bodyOf_cons_some h]
      rfl
    | none =>
      rw [bodyOf_cons_none h, List.findSome?_cons, ih ids.2]
      cases pathOf line with
      | some path => rfl
      | none => rfl

def Resolution.rewrite (pins : Resolution) (_ : String) (line : Line) : Line :=
  repin (some pins) line

def Done (outcome : Outcome) (block block' : Block) : Prop :=
  match outcome with
  | .ok pins => block' = block.edit pins.rewrite
  | .error .caught => block' = block
  | .error .raised => False

theorem idOf_repin (current : Option Resolution) {line : Line} (h : idOf line = none) :
    idOf (repin current line) = none := by
  have rewritten (key : List Char) (value : List Char) (plain : '"' ∉ key)
      (first : key.head? ≠ some '-') (named : key ≠ []) (found : hasKey key line = true) :
      idOf (replaceQuoted value line) = none := by
    apply idOf_of_hasKey first named
    rw [hasKey_replaceQuoted plain, found]
  unfold repin
  split
  · exact h
  · split
    · rename_i found
      exact rewritten _ _ (by decide) (by decide) (by decide) found
    · split
      · rename_i found
        exact rewritten _ _ (by decide) (by decide) (by decide) found
      · split
        · rename_i found
          exact rewritten _ _ (by decide) (by decide) (by decide) found
        · exact h

theorem alike_repin (current : Option Resolution) (line : Line) :
    Alike line (repin current line) := by
  unfold repin
  split
  · exact Alike.refl line
  · rename_i pins
    split
    · exact alike_replaceQuoted pins.plainCommit line
    · split
      · exact alike_replaceQuoted pins.plainSha256 line
      · split
        · exact alike_replaceQuoted pins.plainTokenizer line
        · exact Alike.refl line

section
variable {resolve : Resolve} {calls : ℕ} {current : Option Resolution} {lines : List Line}

theorem scan_id {line : Line} {id : String} (h : idOf line = some id) (rest : List Line)
    (ids : ∀ line ∈ rest, startsId line = (idOf line).isSome) :
    scan resolve calls current (line :: rest) =
      match answer resolve (⟨id, line, bodyOf rest⟩, calls) with
      | .ok pins => (scan resolve (calls + 1) (some pins) rest).map (Scan.push line)
      | .error .caught => (scan resolve (calls + 1) none rest).map fun later =>
          { (later.push line) with failures := id :: later.failures }
      | .error .raised => none := by
  have path : (pathOf line).or (pathAhead rest) = (bodyOf rest).findSome? pathOf := by
    rw [pathOf_first h, pathAhead_eq ids]
    rfl
  rw [scan, h]
  dsimp only
  rw [path]
  rfl

theorem scan_other {line : Line} (h : idOf line = none) (rest : List Line) :
    scan resolve calls current (line :: rest) =
      (scan resolve calls current rest).map (Scan.push (repin current line)) := by
  rw [scan, h]

/-- What a loop that comes to its end has done. The lines up to the next id belong to the
    model that is current. -/
structure Scanned (resolve : Resolve) (calls : ℕ) (current : Option Resolution)
    (old new : List Line) : Prop where
  before : bodyOf new = (bodyOf old).map (repin current)
  models : List.Forall₂ (fun p block' => Done (answer resolve p) p.1 block')
    ((blocks old).zipIdx calls) (blocks new)
  alike : List.Forall₂ Alike old new

theorem Scanned.other {line : Line} {new : List Line} (h : idOf line = none)
    (later : Scanned resolve calls current lines new) :
    Scanned resolve calls current (line :: lines) (repin current line :: new) where
  before := by
    rw [bodyOf_cons_none h, bodyOf_cons_none (idOf_repin current h), List.map_cons, later.before]
  models := by
    rw [blocks_cons_none h, blocks_cons_none (idOf_repin current h)]
    exact later.models
  alike := .cons (alike_repin current line) later.alike

theorem Scanned.first {line : Line} {id : String} {new : List Line} {next : Option Resolution}
    (h : idOf line = some id) (later : Scanned resolve (calls + 1) next lines new)
    (done : Done (answer resolve (⟨id, line, bodyOf lines⟩, calls)) ⟨id, line, bodyOf lines⟩
      ⟨id, line, bodyOf new⟩) :
    Scanned resolve calls current (line :: lines) (line :: new) where
  before := by
    rw [bodyOf_cons_some h, bodyOf_cons_some h]
    rfl
  models := by
    rw [blocks_cons_some h, blocks_cons_some h, List.zipIdx_cons]
    exact .cons done later.models
  alike := .cons (Alike.refl line) later.alike

theorem scan_scanned (ids : ∀ line ∈ lines, startsId line = (idOf line).isSome) {result : Scan}
    (h : scan resolve calls current lines = some result) :
    Scanned resolve calls current lines result.lines := by
  induction lines generalizing calls current result with
  | nil =>
    obtain rfl := Option.some.inj h
    exact ⟨rfl, .nil, .nil⟩
  | cons line rest ih =>
    rw [List.forall_mem_cons] at ids
    cases hid : idOf line with
    | none =>
      rw [scan_other hid] at h
      obtain ⟨later, hlater, rfl⟩ := Option.map_eq_some_iff.mp h
      exact (ih ids.2 hlater).other hid
    | some id =>
      rw [scan_id hid rest ids.2] at h
      cases answered : answer resolve (⟨id, line, bodyOf rest⟩, calls) with
      | ok pins =>
        rw [answered] at h
        obtain ⟨later, hlater, rfl⟩ := Option.map_eq_some_iff.mp h
        have scanned := ih ids.2 hlater
        refine scanned.first hid ?_
        rw [answered, scanned.before]
        rfl
      | error failure =>
        rw [answered] at h
        cases failure with
        | caught =>
          obtain ⟨later, hlater, rfl⟩ := Option.map_eq_some_iff.mp h
          have scanned := ih ids.2 hlater
          refine scanned.first hid ?_
          have kept : repin none = fun line => line := rfl
          rw [answered, scanned.before, kept, List.map_id']
          rfl
        | raised => cases h

theorem scan_none (ids : ∀ line ∈ lines, startsId line = (idOf line).isSome)
    (h : scan resolve calls current lines = none) :
    ∃ p ∈ (blocks lines).zipIdx calls, answer resolve p = .error .raised := by
  induction lines generalizing calls current with
  | nil => cases h
  | cons line rest ih =>
    rw [List.forall_mem_cons] at ids
    cases hid : idOf line with
    | none =>
      rw [scan_other hid, Option.map_eq_none_iff] at h
      rw [blocks_cons_none hid]
      exact ih ids.2 h
    | some id =>
      rw [blocks_cons_some hid, List.zipIdx_cons, List.exists_mem_cons_iff]
      rw [scan_id hid rest ids.2] at h
      cases answered : answer resolve (⟨id, line, bodyOf rest⟩, calls) with
      | ok pins =>
        rw [answered] at h
        exact .inr (ih ids.2 (Option.map_eq_none_iff.mp h))
      | error failure =>
        rw [answered] at h
        cases failure with
        | caught => exact .inr (ih ids.2 (Option.map_eq_none_iff.mp h))
        | raised => exact .inl rfl

end

section
variable {pins : Resolution} {block block' : Block} {line : Line}

theorem hasKey_head {c : Char} {key : List Char} (h : hasKey (c :: key) line = true) :
    (skipSpace line).head? = some c := by
  unfold hasKey literal at h
  split at h
  · rename_i found
    obtain ⟨rest, hrest⟩ := List.isPrefixOf_iff_prefix.mp found
    rw [← hrest]
    rfl
  · cases h

theorem hasKey_apart {c d : Char} {key key' : List Char} (h : hasKey (c :: key) line = true)
    (ne : c ≠ d) : hasKey (d :: key') line = false := by
  by_contra other
  have first := hasKey_head h
  rw [hasKey_head (eq_true_of_ne_false other)] at first
  exact ne (Option.some.inj first).symm

theorem repin_revision (h : hasKey "revision".toList line = true) :
    repin (some pins) line = replaceQuoted pins.commit line := if_pos h

theorem repin_onnxSha256 (h : hasKey "onnx_sha256".toList line = true) :
    repin (some pins) line = replaceQuoted pins.sha256 line := by
  have revision : hasKey "revision".toList line = false :=
    hasKey_apart (d := 'r') h (by decide)
  unfold repin
  dsimp only
  rw [revision, if_neg (by nofun), if_pos h]

theorem repin_tokenizerSha256 (h : hasKey "tokenizer_sha256".toList line = true) :
    repin (some pins) line = replaceQuoted pins.tokenizer line := by
  have revision : hasKey "revision".toList line = false :=
    hasKey_apart (d := 'r') h (by decide)
  have onnxSha256 : hasKey "onnx_sha256".toList line = false :=
    hasKey_apart (d := 'o') h (by decide)
  unfold repin
  dsimp only
  rw [revision, onnxSha256, if_neg (by nofun), if_neg (by nofun), if_pos h]

theorem hasKey_repin {key : List Char} (plain : '"' ∉ key) (current : Option Resolution)
    (line : Line) : hasKey key (repin current line) = hasKey key line := by
  unfold repin
  split
  · rfl
  · split
    · exact hasKey_replaceQuoted plain _ line
    · split
      · exact hasKey_replaceQuoted plain _ line
      · split
        · exact hasKey_replaceQuoted plain _ line
        · rfl

theorem onlyAt_repin (pinned : ∀ key ∈ pinKeys, hasKey key.toList line = true →
    DoubleQuoted line) : OnlyAt pinKeys line (repin (some pins) line) := by
  have one (key : String) (hkey : key ∈ pinKeys) (found : hasKey key.toList line = true)
      (value : List Char) : OnlyAt pinKeys line (replaceQuoted value line) :=
    .inr ⟨⟨key, hkey, found⟩, value, (pinned key hkey found).requoted value⟩
  unfold repin
  dsimp only
  split
  · rename_i found
    exact one "revision" (by decide) found _
  · split
    · rename_i found
      exact one "onnx_sha256" (by decide) found _
    · split
      · rename_i found
        exact one "tokenizer_sha256" (by decide) found _
      · exact .inl rfl

theorem repinned_edit (pinned : ∀ key ∈ pinKeys, HasQuoted key.toList block) :
    Repinned pins block (block.edit pins.rewrite) := by
  have keeps {key : List Char} (plain : '"' ∉ key) (line : Line) :
      hasKey key (pins.rewrite block.id line) = hasKey key line :=
    hasKey_repin plain (some pins) line
  refine ⟨rfl, rfl, ?_, ?_, ?_, ?_⟩
  · exact reads_edit (pinned "revision" (by decide)) pins.plainCommit (keeps (by decide))
      fun _ => repin_revision
  · exact reads_edit (pinned "onnx_sha256" (by decide)) pins.plainSha256 (keeps (by decide))
      fun _ => repin_onnxSha256
  · exact reads_edit (pinned "tokenizer_sha256" (by decide)) pins.plainTokenizer
      (keeps (by decide)) fun _ => repin_tokenizerSha256
  · refine List.forall₂_map_right_iff.mpr (List.forall₂_same.mpr fun line hline => ?_)
    exact onlyAt_repin fun key hkey => (pinned key hkey).quoted line hline

theorem Done.blockRight {outcome : Outcome} (done : Done outcome block block')
    (pinned : ∀ key ∈ pinKeys, HasQuoted key.toList block) :
    BlockRight outcome block block' := by
  cases outcome with
  | ok pins =>
    obtain rfl : block' = block.edit pins.rewrite := done
    exact repinned_edit pinned
  | error failure =>
    cases failure with
    | caught => exact done
    | raised => exact done

end

section
variable {file : Registry} {resolve : Resolve}

theorem scan_of_raises (raises : Raises resolve (readLines file.text)) :
    scan resolve 0 none (readLines file.text) = none := by
  obtain ⟨p, hp, raised⟩ := raises
  cases h : scan resolve 0 none (readLines file.text) with
  | none => rfl
  | some result =>
    have models := (scan_scanned file.ids h).models
    have answered : ∀ p ∈ (blocks (readLines file.text)).zipIdx,
        answer resolve p ≠ .error .raised := by
      refine ((List.forall₂_and_left _ _).mp (models.imp fun p block' done => ⟨?_, done⟩)).1
      intro raised
      rw [raised] at done
      exact done
    exact absurd raised (answered p hp)

theorem written_together (answered : ¬ Raises resolve (readLines file.text)) :
    PinsTogether resolve (readLines file.text) (readLines (main resolve file.text).1) ∧
      (readLines (main resolve file.text).1).flatten = (main resolve file.text).1 := by
  cases h : scan resolve 0 none (readLines file.text) with
  | none => exact absurd (scan_none file.ids h) answered
  | some result =>
    have scanned := scan_scanned file.ids h
    have written : (main resolve file.text).1 = result.lines.flatten := by
      unfold main
      rw [h]
    have reread : readLines result.lines.flatten = result.lines :=
      ((lines_readLines file.text).alike scanned.alike).reread
    rw [written, reread]
    refine ⟨⟨?_, ?_⟩, rfl⟩
    · rw [scanned.before]
      exact List.map_id' _
    · have models := (List.forall₂_and_left _ _).mpr ⟨fun _ hp => hp, scanned.models⟩
      refine models.imp ?_
      rintro p block' ⟨hp, done⟩
      exact done.blockRight (file.pins p.1 (List.fst_mem_of_mem_zipIdx hp))

/-- The three pins of a model move together or not at all, whatever `resolve` answers. -/
theorem moveTogether (file : Registry) (resolve : Resolve) :
    MoveTogether readLines file resolve where
  unchanged := by
    intro raises
    unfold main
    rw [scan_of_raises raises]
  together := written_together

/-- With the hub's answers, a model keeps its pins or gets those of files at one commit. -/
theorem models_atCommit {sha256 : Bytes → Bytes} {hubs : ℕ → Hub}
    (answered : ¬ Raises (asks sha256 hubs) (readLines file.text)) :
    List.Forall₂ (fun p block' => block' = p.1 ∨ ∃ path pins, pathIn p.1 = some path ∧
        AtCommit sha256 (hubs p.2) p.1.id path pins ∧ Repinned pins p.1 block')
      (blocks (readLines file.text)).zipIdx
      (blocks (readLines (main (asks sha256 hubs) file.text).1)) := by
  have right := (written_together answered).1.models
  have models := (List.forall₂_and_left _ _).mpr ⟨fun _ hp => hp, right⟩
  refine models.imp ?_
  rintro p block' ⟨hp, right⟩
  obtain ⟨path, hpath⟩ :=
    Option.isSome_iff_exists.mp (file.paths p.1 (List.fst_mem_of_mem_zipIdx hp))
  cases h : answer (asks sha256 hubs) p with
  | ok pins =>
    rw [h] at right
    unfold answer asks at h
    rw [hpath] at h
    exact .inr ⟨path, pins, hpath, resolve_atCommit h, right⟩
  | error failure =>
    rw [h] at right
    cases failure with
    | caught => exact .inl right
    | raised => exact right.elim

end

def unpinned : Block where
  id := "BAAI/bge-small-en-v1.5"
  first := "  - id: BAAI/bge-small-en-v1.5\n".toList
  body := ["    onnx_path: onnx/model.onnx\n".toList, "    revision: \"\"\n".toList,
    "    onnx_sha256: \"\"\n".toList, "    tokenizer_sha256: \"\"\n".toList]

def crlfText : List Char :=
  ["models:", "  - id: BAAI/bge-small-en-v1.5", "    onnx_path: onnx/model.onnx",
    "    revision: \"\"", "    onnx_sha256: \"\"", "    tokenizer_sha256: \"\""].flatMap
    fun line => line.toList ++ ['\r', '\n']

theorem crlf_lines :
    readLines crlfText = "models:\n".toList :: unpinned.first :: unpinned.body := by
  decide +kernel

theorem crlf_blocks : blocks (readLines crlfText) = [unpinned] := by
  rw [crlf_lines]
  decide +kernel

theorem unpinned_quoted : ∀ key ∈ pinKeys, ∀ line ∈ unpinned.body,
    hasKey key.toList line = true → DoubleQuoted line := by
  have path : ∀ key ∈ pinKeys,
      hasKey key.toList "    onnx_path: onnx/model.onnx\n".toList = false := by
    decide +kernel
  intro key hkey
  refine List.forall_mem_cons.mpr ⟨fun found => ?_, ?_⟩
  · rw [path key hkey] at found
    cases found
  · refine List.forall_mem_cons.mpr ⟨fun _ => ?_, List.forall_mem_cons.mpr ⟨fun _ => ?_,
      List.forall_mem_singleton.mpr fun _ => ?_⟩⟩
    · exact ⟨"    revision: ".toList, [], ['\n'], by decide, by decide, rfl⟩
    · exact ⟨"    onnx_sha256: ".toList, [], ['\n'], by decide, by decide, rfl⟩
    · exact ⟨"    tokenizer_sha256: ".toList, [], ['\n'], by decide, by decide, rfl⟩

def crlfRegistry : Registry where
  text := crlfText
  ids := by
    rw [crlf_lines]
    decide +kernel
  paths := by
    rw [crlf_blocks]
    decide +kernel
  pins := by
    rw [crlf_blocks]
    refine List.forall_mem_singleton.mpr fun key hkey => ⟨?_, unpinned_quoted key hkey⟩
    revert key
    decide +kernel

def offline : Resolve := fun _ _ _ => .error .caught

/-- The hub cannot be reached, and yet the lines are not those that were there. -/
theorem crlf_rewritten : ¬ MoveTogether splitKeep crlfRegistry offline := by
  have rewritten : bodyOf (splitKeep (main offline crlfText).1) ≠ bodyOf (splitKeep crlfText) := by
    decide +kernel
  intro together
  refine rewritten (together.together ?_).1.before
  rintro ⟨p, -, raised⟩
  cases raised

end CyborgdbEmbed.PinWrites

import CyborgdbEmbed.CppReader
import CyborgdbEmbed.GenRegistry

set_option autoImplicit false

namespace CyborgdbEmbed.RegistryHeader
open CppLiterals CppReader

structure Identifier where
  text : String
  valid : isIdentifier text.toList = true

/-- A model of registry.yaml whose enumerator, numbers and flags are such. Its strings can
    be any. -/
structure Model where
  id : String
  enum : Identifier
  revision : Option String
  onnxPath : String
  onnxSha256 : Option String
  tokenizerSha256 : Option String
  dim : ℕ
  pooling : Pooling
  normalize : Bool
  maxSeqLength : ℕ
  queryPrefix : Option String
  docPrefix : Option String
  parity : Option String

def optional : Option String → GenRegistry.YamlValue
  | none => .null
  | some value => .str value

def poolingKey : Pooling → String
  | .clsToken => "cls_token"
  | .meanTokens => "mean_tokens"
  | .maxTokens => "max_tokens"

def Model.yaml (model : Model) : GenRegistry.YamlModel :=
  { id := .str model.id
    enum := .str model.enum.text
    revision := optional model.revision
    onnxPath := .str model.onnxPath
    onnxSha256 := optional model.onnxSha256
    tokenizerSha256 := optional model.tokenizerSha256
    dim := .int model.dim
    pooling := .str (poolingKey model.pooling)
    normalize := .bool model.normalize
    maxSeqLength := .int model.maxSeqLength
    queryPrefix := optional model.queryPrefix
    docPrefix := optional model.docPrefix
    parity := optional model.parity }

/-- `str.replace` of one character. -/
def replace (old : Char) (new : String) (text : String) : String :=
  String.ofList (text.toList.flatMap fun c => if c = old then new.toList else [c])

def escape (text : String) : String := replace '"' "\\\"" (replace '\\' "\\\\" text)

def escapeOr (value : Option String) : String := escape (value.getD "")

def poolingName : Pooling → String
  | .clsToken => "Pooling::ClsToken"
  | .meanTokens => "Pooling::MeanTokens"
  | .maxTokens => "Pooling::MaxTokens"

def entryLines (model : Model) : List String :=
  [ "    \x7b",
    s!"        \x7bModelId::{model.enum.text}, \"{escape model.id}\",",
    s!"         \"{escapeOr model.revision}\", {model.dim},",
    s!"         {model.maxSeqLength}, {model.normalize}\x7d,",
    s!"        \"{escape model.onnxPath}\",",
    s!"        \"{escapeOr model.onnxSha256}\",",
    s!"        \"{escapeOr model.tokenizerSha256}\",",
    s!"        \"{escapeOr model.queryPrefix}\",",
    s!"        \"{escapeOr model.docPrefix}\",",
    s!"        {poolingName model.pooling},",
    "    \x7d," ]

def infoLine (model : Model) : String :=
  s!"    \x7bModelId::{model.enum.text}, \"{escape model.id}\", " ++
  s!"\"{escapeOr model.revision}\", {model.dim}, " ++
  s!"{model.maxSeqLength}, {model.normalize}\x7d,"

def footer : List String :=
  [ "",
    "\x7d  // namespace cyborgdb::embed::detail",
    "",
    "#endif  // CYBORGDB_EMBED_REGISTRY_GENERATED_HPP",
    "" ]

def lines (models : List Model) : List String :=
  ["inline constexpr RegistryEntry kRegistry[] = \x7b"] ++ models.flatMap entryLines ++
  ["\x7d;", "", "inline constexpr ModelInfo kModels[] = \x7b"] ++ models.map infoLine ++
  ["\x7d;", "", s!"inline constexpr std::size_t kModelCount = {models.length};"] ++ footer

/-- The text written, without the lines before `kRegistry`. -/
def main (strict : Bool) (models : List Model) : Except GenRegistry.GenError String := do
  let _ ← GenRegistry.main strict (models.map Model.yaml)
  pure ("\n".intercalate (lines models))

structure Tables where
  kRegistry : List (RegistryEntry String)
  kModels : List (ModelInfo String)
  kModelCount : ℕ
  deriving DecidableEq, Repr

def modelInfo : Reader (ModelInfo String) := do
  expectAll ["\x7b", "ModelId"]
  expect "::"
  let id ← clause identifier
  let name ← clause string
  let revision ← clause string
  let dimension ← clause decimal
  let maxSeqLength ← clause decimal
  let normalize ← boolean
  expect "\x7d"
  pure ⟨id, name, revision, dimension, maxSeqLength, normalize⟩

def pooling : Reader Pooling := do
  expectAll ["Pooling"]
  expect "::"
  let name ← identifier
  if name = "ClsToken" then pure .clsToken
  else if name = "MeanTokens" then pure .meanTokens
  else if name = "MaxTokens" then pure .maxTokens
  else failure

def registryEntry : Reader (RegistryEntry String) := do
  expect "\x7b"
  let info ← clause modelInfo
  let onnxPath ← clause string
  let onnxSha256 ← clause string
  let tokenizerSha256 ← clause string
  let queryPrefix ← clause string
  let docPrefix ← clause string
  let pooling ← clause pooling
  expect "\x7d"
  pure ⟨info, onnxPath, onnxSha256, tokenizerSha256, queryPrefix, docPrefix, pooling⟩

def tables : Reader Tables := do
  expectAll ["inline", "constexpr", "RegistryEntry", "kRegistry", "[", "]", "="]
  let kRegistry ← braced registryEntry
  expect ";"
  expectAll ["inline", "constexpr", "ModelInfo", "kModels", "[", "]", "="]
  let kModels ← braced modelInfo
  expect ";"
  expectAll ["inline", "constexpr", "std", "::", "size_t", "kModelCount", "="]
  let kModelCount ← decimal
  expect ";"
  pure ⟨kRegistry, kModels, kModelCount⟩

def compile (text : String) : Option Tables := (tables.run (logical text.toList)).map Prod.fst

def Model.texts (model : Model) : List String :=
  [ model.id, model.revision.getD "", model.onnxPath, model.onnxSha256.getD "",
    model.tokenizerSha256.getD "", model.queryPrefix.getD "", model.docPrefix.getD "" ]

def Model.info (model : Model) : ModelInfo String :=
  ⟨model.enum.text, model.id, model.revision.getD "", model.dim, model.maxSeqLength,
    model.normalize⟩

def Model.row (model : Model) : RegistryEntry String :=
  ⟨model.info, model.onnxPath, model.onnxSha256.getD "", model.tokenizerSha256.getD "",
    model.queryPrefix.getD "", model.docPrefix.getD "", model.pooling⟩

def newLine (indent : ℕ) : List Char := '\n' :: List.replicate indent ' '

/-- A printed `ModelInfo`, with `gap` where one of the tables breaks the line. -/
def infoText (gap : List Char) (model : Model) (rest : List Char) : List Char :=
  "\x7bModelId::".toList ++ (model.enum.text.toList ++ ',' :: ([' '] ++ '"' ::
    (escaped model.id.toList ++ '"' :: ',' :: (gap ++ '"' ::
    (escaped (model.revision.getD "").toList ++ '"' :: ',' :: ([' '] ++
    (Nat.toDigits 10 model.dim ++ ',' :: (gap ++ (Nat.toDigits 10 model.maxSeqLength ++ ',' ::
    (' ' :: ((toString model.normalize).toList ++ '}' :: rest)))))))))))

def fieldText (text : String) (rest : List Char) : List Char :=
  newLine 8 ++ '"' :: (escaped text.toList ++ '"' :: ',' :: rest)

def entryText (model : Model) (rest : List Char) : List Char :=
  newLine 4 ++ '{' :: (newLine 8 ++ infoText (newLine 9) model (',' ::
    fieldText model.onnxPath (fieldText (model.onnxSha256.getD "")
    (fieldText (model.tokenizerSha256.getD "") (fieldText (model.queryPrefix.getD "")
    (fieldText (model.docPrefix.getD "") (newLine 8 ++ ((poolingName model.pooling).toList ++
    ',' :: (newLine 4 ++ '}' :: ',' :: rest)))))))))

theorem escape_toList (text : String) : (escape text).toList = escaped text.toList := by
  unfold escape replace escaped
  simp only [String.toList_ofList, List.flatMap_assoc]
  refine List.flatMap_congr fun c _ => ?_
  by_cases backslash : c = '\\'
  · subst backslash
    rfl
  · by_cases quote : c = '"'
    · subst quote
      rfl
    · simp [backslash, quote]

theorem toString_toList (n : ℕ) : (toString n).toList = Nat.toDigits 10 n := by
  change (String.ofList (Nat.toDigits 10 n)).toList = _
  rw [String.toList_ofList]

theorem toString_text (text : String) : toString text = text := rfl

theorem fieldLine (text : String) (rest : List Char) :
    '\n' :: (s!"        \"{escape text}\",".toList ++ rest) = fieldText text rest := by
  simp only [String.toList_append, toString_text, escape_toList, List.append_assoc]
  rfl

def printedInfo (model : Model) : List Char := '\n' :: (infoLine model).toList

theorem printedInfo_append (model : Model) (rest : List Char) :
    printedInfo model ++ rest = newLine 4 ++ infoText [' '] model (',' :: rest) := by
  unfold printedInfo infoLine infoText escapeOr
  simp only [String.toList_append, toString_text, toString_toList, escape_toList,
    List.append_assoc, List.cons_append]
  rfl

def printedEntry (model : Model) : List Char :=
  (entryLines model).flatMap fun line => '\n' :: line.toList

theorem printedEntry_append (model : Model) (rest : List Char) :
    printedEntry model ++ rest = entryText model rest := by
  unfold printedEntry entryLines entryText
  simp only [List.flatMap_cons, List.flatMap_nil, List.append_assoc, List.cons_append,
    List.nil_append]
  simp only [escapeOr, fieldLine]
  simp only [String.toList_append, toString_text, toString_toList, escape_toList,
    List.append_assoc]
  rfl

theorem intercalate_cons (line : List Char) (lines : List (List Char)) :
    ['\n'].intercalate (line :: lines) = line ++ lines.flatMap fun line => '\n' :: line := by
  induction lines generalizing line with
  | nil => simp [List.intercalate]
  | cons next lines ih =>
    have step : ['\n'].intercalate (line :: next :: lines) =
        line ++ ('\n' :: ['\n'].intercalate (next :: lines)) := rfl
    rw [step, ih]
    rfl

def tablesText (models : List Model) : List Char :=
  "inline constexpr RegistryEntry kRegistry[] = \x7b".toList ++ (models.flatMap printedEntry ++
  '\n' :: '}' :: ';' :: (['\n', '\n'] ++
  ("inline constexpr ModelInfo kModels[] = \x7b".toList ++ (models.flatMap printedInfo ++
  '\n' :: '}' :: ';' :: (['\n', '\n'] ++
  ("inline constexpr std::size_t kModelCount = ".toList ++ (Nat.toDigits 10 models.length ++
  ';' :: footer.flatMap fun line => '\n' :: line.toList)))))))

theorem lines_eq (models : List Model) :
    ("\n".intercalate (lines models)).toList = tablesText models := by
  have newline : "\n".toList = ['\n'] := rfl
  have empty : "".toList = [] := rfl
  have closing : "\x7d;".toList = ['}', ';'] := rfl
  have semicolon : ";".toList = [';'] := rfl
  have entries : (models.flatMap fun model => (entryLines model).map String.toList).flatMap
      (fun line => '\n' :: line) = models.flatMap printedEntry := by
    rw [List.flatMap_assoc]
    exact List.flatMap_congr fun model _ => List.flatMap_map ..
  rw [String.toList_intercalate, newline, lines]
  simp only [List.map_append, List.map_cons, List.cons_append, List.nil_append,
    List.append_assoc]
  rw [intercalate_cons]
  simp only [List.flatMap_append, List.flatMap_cons, List.flatMap_map, List.map_flatMap,
    List.map_map, entries, String.toList_append, toString_text, toString_toList,
    List.append_assoc, List.cons_append, List.nil_append, empty, closing, semicolon]
  rfl

end CyborgdbEmbed.RegistryHeader

import CyborgdbEmbed.RegistryHeader

set_option autoImplicit false

namespace CyborgdbEmbed.RegistryHeader
open CppLiterals CppReader

theorem newLine_blank (indent : ℕ) : (newLine indent).all isBlank = true := by
  unfold newLine
  rw [List.all_cons, List.all_replicate]
  simp [isBlank]

theorem expect_colons (rest : List Char) :
    (expect "::").run (logical ("::".toList ++ rest)) = some ((), logical rest) := by
  rw [logical_plain (show "::".toList.all isPlain = true from rfl)]
  rfl

theorem expect_close (rest : List Char) :
    (expect "\x7d").run (logical ('}' :: rest)) = some ((), logical rest) :=
  expect_symbol (show List.all [] isBlank = true from rfl) rfl (fun _ => rfl) rest

theorem expect_semicolon (rest : List Char) :
    (expect ";").run (logical (';' :: rest)) = some ((), logical rest) :=
  expect_symbol (show List.all [] isBlank = true from rfl) rfl (fun _ => rfl) rest

theorem info_opens {blanks : List Char} (hblanks : blanks.all isBlank = true) (rest : List Char) :
    (expectAll ["\x7b", "ModelId"]).run (logical (blanks ++ ("\x7bModelId::".toList ++ rest))) =
      some ((), logical ("::".toList ++ rest)) := by
  rw [expectAll_skip hblanks]
  exact expectAll_logical (by decide +kernel) (by decide) rfl rfl rest

/-- Up to the end of its line nothing closes the literal of a revision. -/
theorem dim_line (n : ℕ) (rest : List Char) : body (logical (',' :: ([' '] ++
    (Nat.toDigits 10 n ++ ',' :: '\n' :: rest)))) = none := by
  have inside : (',' :: ' ' :: (Nat.toDigits 10 n ++ [','])).all isOpen = true := by
    rw [List.all_cons, List.all_cons, List.all_append, word_open (toDigits_word n)]
    rfl
  have line := body_line inside rest
  rw [List.cons_append, List.cons_append, List.append_assoc] at line
  exact line

theorem comma_line (indent : ℕ) (rest : List Char) :
    body (logical (',' :: (newLine indent ++ rest))) = none :=
  body_line (show List.all [','] isOpen = true from rfl) _

theorem info_reads {blanks gap : List Char} (hblanks : blanks.all isBlank = true)
    (hgap : gap.all isBlank = true) (model : Model) {rest : List Char}
    (h : Clean model.id.toList ∧ Clean (model.revision.getD "").toList ∨
      ∃ indent, gap = newLine indent) :
    Reads modelInfo (logical (blanks ++ infoText gap model rest)) model.info
      (Clean model.id.toList ∧ Clean (model.revision.getD "").toList) (logical rest) := by
  have space : [' '].all isBlank = true := rfl
  unfold modelInfo infoText
  refine Reads.step (info_opens hblanks _) ?_
  refine Reads.step (expect_colons _) ?_
  refine Reads.step (clause_run (identifier_run model.enum.valid _)) ?_
  refine Reads.bind (string_clause space (h.imp And.left ?_)) (fun _ => ?_) ?_
  · rintro ⟨indent, rfl⟩
    exact comma_line indent _
  · refine Reads.last (string_clause hgap (h.imp And.right ?_)) (fun _ => ?_) ?_
    · rintro ⟨indent, rfl⟩
      exact dim_line model.dim _
    · refine Reads.step (clause_run (decimal_run space model.dim rfl rfl _)) ?_
      refine Reads.step (clause_run (decimal_run hgap model.maxSeqLength rfl rfl _)) ?_
      refine Reads.step (boolean_run model.normalize rest) ?_
      exact Reads.step (expect_close rest) (Reads.pure model.info _)
    · intro x
      iterate 4 refine Returns.bind fun _ => ?_
      exact Returns.pure (congrArg ModelInfo.revision)
  · intro x
    iterate 5 refine Returns.bind fun _ => ?_
    exact Returns.pure (congrArg ModelInfo.name)

theorem pooling_word {word : String} (h : isIdentifier word.toList = true) (rest : List Char) :
    pooling.run (logical (newLine 8 ++ ("Pooling::".toList ++ (word.toList ++ ',' :: rest)))) =
      (if word = "ClsToken" then pure .clsToken
        else if word = "MeanTokens" then pure .meanTokens
        else if word = "MaxTokens" then pure .maxTokens
        else failure : Reader Pooling).run (logical (',' :: rest)) := by
  have opens : (expectAll ["Pooling"]).run (logical (newLine 8 ++ ("Pooling::".toList ++
      (word.toList ++ ',' :: rest)))) = some ((), logical ("::".toList ++ (word.toList ++
      ',' :: rest))) := by
    rw [expectAll_skip (newLine_blank 8)]
    exact expectAll_logical (by decide +kernel) (by decide) rfl rfl _
  rw [pooling, run_step opens, run_step (expect_colons _), run_step (identifier_run h rest)]

def poolingWord : Pooling → String
  | .clsToken => "ClsToken"
  | .meanTokens => "MeanTokens"
  | .maxTokens => "MaxTokens"

theorem poolingName_toList (p : Pooling) :
    (poolingName p).toList = "Pooling::".toList ++ (poolingWord p).toList := by
  cases p with
  | clsToken => decide +kernel
  | meanTokens => decide +kernel
  | maxTokens => decide +kernel

theorem pooling_run (p : Pooling) (rest : List Char) :
    pooling.run (logical (newLine 8 ++ ((poolingName p).toList ++ ',' :: rest))) =
      some (p, logical (',' :: rest)) := by
  have valid : isIdentifier (poolingWord p).toList = true := by
    cases p with
    | clsToken => rfl
    | meanTokens => rfl
    | maxTokens => rfl
  rw [poolingName_toList, List.append_assoc, pooling_word valid]
  cases p with
  | clsToken => rw [poolingWord, if_pos rfl]; rfl
  | meanTokens => rw [poolingWord, if_neg (by decide), if_pos rfl]; rfl
  | maxTokens => rw [poolingWord, if_neg (by decide), if_neg (by decide), if_pos rfl]; rfl

theorem field_reads {text : String} {rest : List Char} (indent : ℕ) :
    Reads (clause string) (logical (fieldText text (newLine indent ++ rest))) text
      (Clean text.toList) (logical (newLine indent ++ rest)) :=
  string_clause (newLine_blank 8) (Or.inr (comma_line indent rest))

theorem entry_reads (model : Model) (rest : List Char) :
    Reads registryEntry (logical (entryText model rest)) model.row
      (∀ text ∈ model.texts, Clean text.toList) (logical (',' :: rest)) := by
  have reads : Reads registryEntry (logical (entryText model rest)) model.row
      ((Clean model.id.toList ∧ Clean (model.revision.getD "").toList) ∧
        Clean model.onnxPath.toList ∧ Clean (model.onnxSha256.getD "").toList ∧
        Clean (model.tokenizerSha256.getD "").toList ∧ Clean (model.queryPrefix.getD "").toList ∧
        Clean (model.docPrefix.getD "").toList) (logical (',' :: rest)) := by
    have info := fun rest => clause_reads (info_reads (newLine_blank 8) (newLine_blank 9) model
      (Or.inr ⟨9, rfl⟩)) (expect_comma rest)
    unfold registryEntry entryText
    refine Reads.step (expect_symbol (newLine_blank 4) rfl (fun _ => rfl) _) ?_
    refine Reads.bind (info _) (fun _ => ?_) ?_
    swap
    · intro x
      iterate 7 refine Returns.bind fun _ => ?_
      exact Returns.pure (congrArg RegistryEntry.info)
    refine Reads.bind (field_reads 8) (fun _ => ?_) ?_
    swap
    · intro x
      iterate 6 refine Returns.bind fun _ => ?_
      exact Returns.pure (congrArg RegistryEntry.onnxPath)
    refine Reads.bind (field_reads 8) (fun _ => ?_) ?_
    swap
    · intro x
      iterate 5 refine Returns.bind fun _ => ?_
      exact Returns.pure (congrArg RegistryEntry.onnxSha256)
    refine Reads.bind (field_reads 8) (fun _ => ?_) ?_
    swap
    · intro x
      iterate 4 refine Returns.bind fun _ => ?_
      exact Returns.pure (congrArg RegistryEntry.tokenizerSha256)
    refine Reads.bind (field_reads 8) (fun _ => ?_) ?_
    swap
    · intro x
      iterate 3 refine Returns.bind fun _ => ?_
      exact Returns.pure (congrArg RegistryEntry.queryPrefix)
    refine Reads.last (field_reads 8) (fun _ => ?_) ?_
    swap
    · intro x
      iterate 2 refine Returns.bind fun _ => ?_
      exact Returns.pure (congrArg RegistryEntry.docPrefix)
    refine Reads.step (clause_run (pooling_run model.pooling _)) ?_
    refine Reads.step (expect_symbol (newLine_blank 4) rfl (fun _ => rfl) _) ?_
    exact Reads.pure model.row _
  refine reads.congr ?_
  simp only [Model.texts, List.forall_mem_cons, List.not_mem_nil, false_imp_iff, implies_true,
    and_true, and_assoc]

theorem mem_printedEntry (model : Model) : '}' ∈ printedEntry model := by
  have brace : '}' ∈ '\n' :: "    \x7d,".toList := by decide +kernel
  have last : "    \x7d," ∈ entryLines model := by
    unfold entryLines
    iterate 10 refine List.mem_cons_of_mem _ ?_
    exact List.mem_cons_self
  exact List.mem_flatMap.mpr ⟨_, last, brace⟩

theorem mem_printedInfo (model : Model) : '}' ∈ printedInfo model := by
  have brace : '}' ∈ "\x7d,".toList := by decide +kernel
  unfold printedInfo infoLine
  rw [String.toList_append]
  refine List.mem_cons_of_mem _ (List.mem_append_right _ ?_)
  rw [String.toList_append]
  exact List.mem_append_right _ brace

theorem list_opens (rest : List Char) :
    (expect "\x7b").run (logical (" \x7b".toList ++ rest)) = some ((), logical rest) := by
  have spelled : " \x7b".toList = [' ', '{'] := rfl
  rw [spelled]
  exact expect_symbol (show [' '].all isBlank = true from rfl) rfl (fun _ => rfl) rest

theorem list_closes (rest : List Char) :
    (expect "\x7d").run (logical ('\n' :: '}' :: rest)) = some ((), logical rest) :=
  expect_symbol (newLine_blank 0) rfl (fun _ => rfl) rest

theorem list_goes_on (rest : List Char) :
    (expect "\x7d").run (logical (newLine 4 ++ '{' :: rest)) = none := by
  rw [logical_blanks (newLine_blank 4), expect_skip (newLine_blank 4), logical_cons rfl]
  rfl

theorem kRegistry_reads (models : List Model) (rest : List Char) :
    Reads (braced registryEntry)
      (logical (" \x7b".toList ++ (models.flatMap printedEntry ++ '\n' :: '}' :: rest)))
      (models.map Model.row) (∀ model ∈ models, ∀ text ∈ model.texts, Clean text.toList)
      (logical rest) := by
  refine braced_reads (list_opens _) (fun model _ more => ?_) (fun model more => ?_)
    (list_closes rest) mem_printedEntry (by simp)
  · rw [printedEntry_append]
    exact clause_reads (entry_reads model more) (expect_comma more)
  · rw [printedEntry_append]
    exact list_goes_on _

/-- The other table has its strings in other places, where they could run into each other. -/
theorem kModels_run {models : List Model}
    (clean : ∀ model ∈ models, ∀ text ∈ model.texts, Clean text.toList) (rest : List Char) :
    (braced modelInfo).run
      (logical (" \x7b".toList ++ (models.flatMap printedInfo ++ '\n' :: '}' :: rest))) =
      some (models.map Model.info, logical rest) := by
  have reads : Reads (braced modelInfo)
      (logical (" \x7b".toList ++ (models.flatMap printedInfo ++ '\n' :: '}' :: rest)))
      (models.map Model.info) (∀ model ∈ models, True) (logical rest) := by
    refine braced_reads (list_opens _) (fun model mem more => ?_) (fun model more => ?_)
      (list_closes rest) mem_printedInfo (by simp)
    · have name : Clean model.id.toList := clean model mem _ (by simp [Model.texts])
      have revision : Clean (model.revision.getD "").toList :=
        clean model mem _ (by simp [Model.texts])
      rw [printedInfo_append]
      have both := And.intro name revision
      refine Reads.congr (clause_reads ?_ (expect_comma more)) (iff_of_true both trivial)
      exact info_reads (newLine_blank 4) rfl model (Or.inl both)
    · rw [printedInfo_append]
      exact list_goes_on _
  exact (reads _).mpr ⟨fun _ _ => trivial, rfl⟩

def tablesOf (models : List Model) : Tables :=
  ⟨models.map Model.row, models.map Model.info, models.length⟩

theorem tables_reads (models : List Model) :
    Reads tables (logical (tablesText models)) (tablesOf models)
      (∀ model ∈ models, ∀ text ∈ model.texts, Clean text.toList)
      (logical (footer.flatMap fun line => '\n' :: line.toList)) := by
  have first : (expectAll ["inline", "constexpr", "RegistryEntry", "kRegistry", "[", "]", "="]).run
      "inline constexpr RegistryEntry kRegistry[] = \x7b".toList = some ((), " \x7b".toList) := by
    decide +kernel
  have second : (expectAll ["inline", "constexpr", "ModelInfo", "kModels", "[", "]", "="]).run
      "inline constexpr ModelInfo kModels[] = \x7b".toList = some ((), " \x7b".toList) := by
    decide +kernel
  have third : (expectAll ["inline", "constexpr", "std", "::", "size_t", "kModelCount", "="]).run
      "inline constexpr std::size_t kModelCount = ".toList = some ((), " ".toList) := by
    decide +kernel
  have ne : " \x7b".toList ≠ [] := by decide
  unfold tables tablesText
  refine Reads.step (expectAll_logical first ne rfl rfl _) ?_
  refine Reads.last (kRegistry_reads models _) (fun clean => ?_) ?_
  · refine Reads.step (expect_semicolon _) ?_
    refine Reads.step ((expectAll_skip rfl _ _ _).trans (expectAll_logical second ne rfl rfl _)) ?_
    refine Reads.step (kModels_run clean _) ?_
    refine Reads.step (expect_semicolon _) ?_
    refine Reads.step ((expectAll_skip rfl _ _ _).trans
      (expectAll_logical third (by decide) rfl rfl _)) ?_
    refine Reads.step (decimal_run rfl models.length rfl rfl _) ?_
    exact Reads.step (expect_semicolon _) (Reads.pure (tablesOf models) _)
  · intro x
    iterate 7 refine Returns.bind fun _ => ?_
    exact Returns.pure (congrArg Tables.kRegistry)

theorem compile_iff (models : List Model) :
    compile ("\n".intercalate (lines models)) = some (tablesOf models) ↔
      ∀ model ∈ models, ∀ text ∈ model.texts, Clean text.toList := by
  unfold compile
  rw [lines_eq, Option.map_eq_some_iff]
  constructor
  · rintro ⟨⟨read, rest⟩, h, rfl⟩
    exact ((tables_reads models rest).mp h).1
  · intro clean
    exact ⟨(tablesOf models, _), (tables_reads models _).mpr ⟨clean, rfl⟩, rfl⟩

/-- One row for each model in their order, the second table in step with the first. -/
structure Agrees (models : List Model) (tables : Tables) : Prop where
  rows : tables.kRegistry = models.map Model.row
  infos : ∀ i : ℕ, tables.kModels[i]? = (tables.kRegistry[i]?).map RegistryEntry.info
  count : tables.kModelCount = models.length

theorem agrees_iff {models : List Model} {tables : Tables} :
    Agrees models tables ↔ tables = tablesOf models := by
  constructor
  · rintro ⟨rows, infos, count⟩
    obtain ⟨kRegistry, kModels, kModelCount⟩ := tables
    obtain rfl : kRegistry = models.map Model.row := rows
    obtain rfl : kModelCount = models.length := count
    have step : kModels = (models.map Model.row).map (·.info) := by
      refine List.ext_getElem? fun i => ?_
      rw [List.getElem?_map]
      exact infos i
    rw [step, List.map_map]
    rfl
  · rintro rfl
    refine ⟨rfl, fun i => ?_, rfl⟩
    change (models.map Model.info)[i]? = ((models.map Model.row)[i]?).map RegistryEntry.info
    rw [← List.getElem?_map, List.map_map]
    rfl

theorem main_ok {strict : Bool} {models : List Model} {out : String}
    (h : main strict models = .ok out) : out = "\n".intercalate (lines models) := by
  obtain ⟨_, -, h⟩ := Fallible.bind_ok h
  exact (Except.ok.inj h).symm

theorem main_of_accepted {strict : Bool} {models : List Model}
    (h : (GenRegistry.main strict (models.map Model.yaml)).toBool = true) :
    main strict models = .ok ("\n".intercalate (lines models)) := by
  unfold main
  cases accepted : GenRegistry.main strict (models.map Model.yaml) with
  | error e =>
    rw [accepted] at h
    cases h
  | ok emitted => rfl

def Model.emitted (model : Model) : GenRegistry.EmittedEntry :=
  ⟨⟨.str model.enum.text, model.id, model.revision.getD "", .int model.dim,
      .int model.maxSeqLength, .bool model.normalize⟩,
    model.onnxPath, model.onnxSha256.getD "", model.tokenizerSha256.getD "",
    model.queryPrefix.getD "", model.docPrefix.getD "", model.pooling⟩

def header : GenRegistry.Header String where
  enumerator
    | .str name => some name
    | _ => none
  number
    | .int n => some n.toNat
    | _ => none
  truth
    | .bool value => some value
    | _ => none
  text := some

theorem escapeOr_optional (value : Option String) :
    GenRegistry.escapeOr (optional value) = .ok (value.getD "") := by
  cases value with
  | none => rfl
  | some text =>
    unfold GenRegistry.escapeOr
    split
    · rfl
    · rename_i empty
      have blank : text = "" := by simpa [optional, GenRegistry.YamlValue.truthy] using empty
      rw [blank]
      rfl

theorem emitInfo_yaml (model : Model) :
    GenRegistry.emitInfo model.yaml = .ok model.emitted.info := by
  unfold GenRegistry.emitInfo Model.yaml
  dsimp only
  rw [escapeOr_optional]
  rfl

theorem emitEntry_yaml (model : Model) :
    GenRegistry.emitEntry model.yaml = .ok model.emitted := by
  have pooling : GenRegistry.poolingOf (.str (poolingKey model.pooling)) = .ok model.pooling := by
    cases model.pooling with
    | clsToken => rfl
    | meanTokens => rfl
    | maxTokens => rfl
  unfold GenRegistry.emitEntry
  rw [emitInfo_yaml]
  unfold Model.yaml
  dsimp only
  rw [escapeOr_optional, escapeOr_optional, escapeOr_optional, escapeOr_optional, pooling]
  rfl

theorem header_entry (model : Model) : header.entry model.emitted = some model.row := rfl

theorem header_info (model : Model) : header.info model.emitted.info = some model.info := rfl

theorem compile_eq_rows {strict : Bool} {models : List Model} {emitted : GenRegistry.Emitted}
    (h : GenRegistry.main strict (models.map Model.yaml) = .ok emitted)
    (clean : ∀ model ∈ models, ∀ text ∈ model.texts, Clean text.toList) :
    compile ("\n".intercalate (lines models)) = (header.compile emitted).map fun tables =>
      ⟨tables.kRegistry, tables.kModels, emitted.kModelCount⟩ := by
  obtain ⟨-, rows, infos, count⟩ := GenRegistry.main_ok h
  have printedRows := rows.symm.trans (Fallible.mapM_map_ok emitEntry_yaml models)
  have printedInfos := infos.symm.trans (Fallible.mapM_map_ok emitInfo_yaml models)
  have readRows : (models.map Model.emitted).mapM header.entry = some (models.map Model.row) :=
    Fallible.mapM_map_some header_entry models
  have readInfos : (models.map (·.emitted.info)).mapM header.info =
      some (models.map Model.info) := Fallible.mapM_map_some header_info models
  unfold GenRegistry.Header.compile
  rw [Except.ok.inj printedRows, Except.ok.inj printedInfos, readRows, readInfos, count,
    List.length_map, (compile_iff models).mpr clean]
  rfl

/-- The tables are read as printed exactly if no string has a NUL or an end of line in it. -/
theorem readsBack_iff_clean {strict : Bool} {models : List Model} {out : String}
    (h : main strict models = .ok out) :
    (∃ tables, compile out = some tables ∧ Agrees models tables) ↔
      ∀ model ∈ models, ∀ text ∈ model.texts, Clean text.toList := by
  simp only [main_ok h, agrees_iff, exists_eq_right]
  exact compile_iff models

def bgeSmall : Model :=
  { id := "BAAI/bge-small-en-v1.5"
    enum := ⟨"BgeSmallEnV15", rfl⟩
    revision := some "5c38ec7c405ec4b44b94cc5a9bb96e735b38267a"
    onnxPath := "onnx/model.onnx"
    onnxSha256 := some "828e1496d7fabb79cfa4dcd84fa38625c0d3d21da474a00f08db0f559940cf35"
    tokenizerSha256 := some "d241a60d5e8f04cc1b2b3e9ef7a4921b27bf526d9f6050ab90f9267a1f9e5c66"
    dim := 384
    pooling := .clsToken
    normalize := true
    maxSeqLength := 512
    queryPrefix := some "Represent this sentence for searching relevant passages: "
    docPrefix := some ""
    parity := some "numerically-equivalent" }

theorem bgeSmall_accepted :
    main true [bgeSmall] = .ok ("\n".intercalate (lines [bgeSmall])) :=
  main_of_accepted (by decide +kernel)

theorem bgeSmall_readsBack : ∃ tables,
    compile ("\n".intercalate (lines [bgeSmall])) = some tables ∧ Agrees [bgeSmall] tables := by
  refine (readsBack_iff_clean bgeSmall_accepted).mpr ?_
  have clean : ∀ text ∈ bgeSmall.texts,
      '\x00' ∉ text.toList ∧ '\n' ∉ text.toList ∧ '\r' ∉ text.toList := by decide +kernel
  intro model hm text ht
  obtain rfl := List.mem_singleton.mp hm
  exact ⟨(clean text ht).1, (clean text ht).2.1, (clean text ht).2.2⟩

def instructed : Model :=
  { bgeSmall with queryPrefix := some "Instruct: find relevant passages\nQuery: " }

theorem instructed_lost : ∃ out, main true [instructed] = .ok out ∧
    ¬∃ tables, compile out = some tables ∧ Agrees [instructed] tables := by
  have accepted : main true [instructed] = .ok ("\n".intercalate (lines [instructed])) :=
    main_of_accepted (by decide +kernel)
  refine ⟨_, accepted, ?_⟩
  rintro ⟨tables, read, agrees⟩
  rw [agrees_iff.mp agrees] at read
  have clean := (compile_iff [instructed]).mp read instructed List.mem_cons_self
    "Instruct: find relevant passages\nQuery: " (by decide +kernel)
  exact clean.newline (by decide +kernel)

end CyborgdbEmbed.RegistryHeader

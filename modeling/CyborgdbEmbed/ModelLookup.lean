import CyborgdbEmbed.GenRegistry
import CyborgdbEmbed.Utf8

set_option autoImplicit false

namespace CyborgdbEmbed.ModelLookup
open Utf8 GenRegistry

def slash : UInt8 := 47

/-- `std::tolower` of the C locale. -/
def tolower (c : UInt8) : UInt8 := if 65 ≤ c ∧ c ≤ 90 then c + 32 else c

def equalsIgnoringCase (a b : Bytes) : Bool :=
  a.length == b.length && (a.zip b).all fun p => tolower p.1 == tolower p.2

def kThirdGeneration : Bytes := view "text-embedding-3-"

/-- OpenAI's embedding models, with or without an owner before the slash. -/
def isHostedModel (name : Bytes) : Bool :=
  let bare := (name.reverse.takeWhile (· ≠ slash)).reverse
  equalsIgnoringCase bare (view "text-embedding-ada-002") ||
    (kThirdGeneration.length < bare.length &&
      equalsIgnoringCase (bare.take kThirdGeneration.length) kThirdGeneration)

/-- What `find_model` reads of a registry entry. -/
structure NamedEntry (ι : Type) where
  id : ι
  name : Bytes

/-- A status whose message may hold any bytes, as a `string_view` does. -/
structure Answer where
  code : StatusCode
  message : Bytes
  deriving DecidableEq

def owner : Bytes := view "sentence-transformers/"

/-- A name without an owner is looked up under sentence-transformers. -/
def qualified (name : Bytes) : Bytes := if slash ∈ name then [] else owner ++ name

def wanted (name : Bytes) : Bytes := if qualified name = [] then name else qualified name

def hostedReason : Bytes := view " is a hosted API model, not supported"

def unknownReason : Bytes := view " is not a supported model"

def reason (name : Bytes) : Bytes := if isHostedModel name then hostedReason else unknownReason

section
variable {ι : Type}

def supported (kRegistry : List (NamedEntry ι)) : Bytes :=
  kRegistry.foldl (fun s entry => (if s = [] then s else s ++ view ", ") ++ entry.name) []

def findModel (kRegistry : List (NamedEntry ι)) (name : Bytes) (out : ι) : Answer × ι :=
  match kRegistry.find? fun entry => equalsIgnoringCase entry.name (wanted name) with
  | some entry => (⟨.ok, []⟩, entry.id)
  | none =>
    (⟨.invalidArgument, name ++ reason name ++ view "; supported: " ++ supported kRegistry⟩, out)

def namedEntry (entry : RegistryEntry ι) : NamedEntry ι := ⟨entry.info.id, view entry.info.name⟩

def named (kRegistry : List (RegistryEntry ι)) (name : String) : Option (RegistryEntry ι) :=
  kRegistry.find? fun entry => equalsIgnoringCase (view entry.info.name) (wanted (view name))

theorem findModel_named (kRegistry : List (RegistryEntry ι)) (name : String) (out : ι) :
    findModel (kRegistry.map namedEntry) (view name) out =
      match named kRegistry name with
      | some entry => (⟨.ok, []⟩, entry.info.id)
      | none => (⟨.invalidArgument, view name ++ reason (view name) ++ view "; supported: " ++
          supported (kRegistry.map namedEntry)⟩, out) := by
  have test : (fun entry : NamedEntry ι => equalsIgnoringCase entry.name (wanted (view name))) ∘
      namedEntry = fun entry : RegistryEntry ι =>
        equalsIgnoringCase (view entry.info.name) (wanted (view name)) := rfl
  unfold findModel named
  rw [List.find?_map, test]
  cases kRegistry.find? fun entry =>
      equalsIgnoringCase (view entry.info.name) (wanted (view name)) with
  | some entry => rfl
  | none => rfl

end

section
variable {ι : Type} [DecidableEq ι]

def find (kRegistry : List (RegistryEntry ι)) (id : ι) : Option (RegistryEntry ι) :=
  kRegistry.find? fun entry => entry.info.id = id

/-- `kModels[0]` is what an unknown id gets. -/
def info (tables : Tables ι) (id : ι) : Option (ModelInfo ι) :=
  match find tables.kRegistry id with
  | some entry => some entry.info
  | none => tables.kModels[0]?

def openEntry (tables : Tables ι) (id : ι) : Except Status (RegistryEntry ι) :=
  match find tables.kRegistry id with
  | some entry => .ok entry
  | none => .error ⟨.invalidArgument, "unknown model"⟩

structure Served where
  name : String
  revision : String
  dimension : ℕ
  maxSeqLength : ℕ
  onnxPath : String
  onnxSha256 : String
  tokenizerSha256 : String
  queryPrefix : String
  docPrefix : String
  pooling : Pooling
  deriving DecidableEq, Repr

def served (entry : RegistryEntry ι) : Served :=
  ⟨entry.info.name, entry.info.revision, entry.info.dimension, entry.info.maxSeqLength,
    entry.onnxPath, entry.onnxSha256, entry.tokenizerSha256, entry.queryPrefix, entry.docPrefix,
    entry.pooling⟩

def Resolves (tables : Tables ι) : Prop :=
  ∀ (i : ℕ) (model : ModelInfo ι) (row : RegistryEntry ι) (out : ι),
    tables.kModels[i]? = some model → tables.kRegistry[i]? = some row →
      ∃ id found opened,
        findModel (tables.kRegistry.map namedEntry) (view model.name) out = (⟨.ok, []⟩, id) ∧
        info tables id = some found ∧ found.name = model.name ∧
        found.revision = model.revision ∧ found.dimension = model.dimension ∧
        found.maxSeqLength = model.maxSeqLength ∧
        openEntry tables id = .ok opened ∧ served opened = served row

def SameName (a b : RegistryEntry ι) : Prop :=
  equalsIgnoringCase (view a.info.name) (view b.info.name) = true

def FirstWith (p : RegistryEntry ι → Prop) (kRegistry : List (RegistryEntry ι))
    (entry : RegistryEntry ι) : Prop :=
  p entry ∧ ∃ before rest, kRegistry = before ++ entry :: rest ∧ ∀ row ∈ before, ¬ p row

/-- Every name has an owner, rows of one name up to case agree, and the first row of a
    name agrees with the first row of its enumerator. -/
structure Unambiguous (kRegistry : List (RegistryEntry ι)) : Prop where
  qualified : ∀ row ∈ kRegistry, slash ∈ view row.info.name
  names : ∀ a ∈ kRegistry, ∀ b ∈ kRegistry, SameName a b → served a = served b
  enums : ∀ a b, FirstWith (SameName · a) kRegistry a →
    FirstWith (·.info.id = a.info.id) kRegistry b → served b = served a

end

theorem equalsIgnoringCase_iff (a b : Bytes) :
    equalsIgnoringCase a b = true ↔ a.map tolower = b.map tolower := by
  unfold equalsIgnoringCase
  induction a generalizing b with
  | nil => cases b <;> simp
  | cons x a ih =>
    cases b with
    | nil => simp
    | cons y b =>
      have tail := ih b
      simp only [Bool.and_eq_true, beq_iff_eq] at tail
      simp only [List.length_cons, List.zip_cons_cons, List.all_cons, Bool.and_eq_true, beq_iff_eq,
        List.map_cons, List.cons.injEq, Nat.add_right_cancel_iff, ← tail]
      tauto

theorem tolower_eq_slash (c : UInt8) : tolower c = slash ↔ c = slash := by
  unfold tolower slash
  grind

theorem slash_mem_fold (a : Bytes) : slash ∈ a.map tolower ↔ slash ∈ a := by
  simp only [List.mem_map, tolower_eq_slash, exists_eq_right]

theorem wanted_of_slash {name : Bytes} (h : slash ∈ name) : wanted name = name := by
  rw [wanted, qualified, if_pos h, if_pos rfl]

theorem slash_mem_wanted (name : Bytes) : slash ∈ wanted name := by
  by_cases h : slash ∈ name
  · rw [wanted_of_slash h]
    exact h
  · have nonempty : owner ++ name ≠ [] :=
      List.append_ne_nil_of_left_ne_nil (by decide) name
    rw [wanted, qualified, if_neg h, if_neg nonempty]
    exact List.mem_append_left _ (by decide)

section
variable {ι : Type} {rows : List (RegistryEntry ι)}

theorem sameName_iff {a b : RegistryEntry ι} : SameName a b ↔
    (view a.info.name).map tolower = (view b.info.name).map tolower :=
  equalsIgnoringCase_iff _ _

theorem find?_eq_some_iff_firstWith (p : RegistryEntry ι → Bool) (entry : RegistryEntry ι) :
    rows.find? p = some entry ↔ FirstWith (fun row => p row = true) rows entry := by
  rw [List.find?_eq_some_iff_append]
  simp only [FirstWith, Bool.not_eq_true', Bool.not_eq_true]

theorem named_of_slash {name : String} (h : slash ∈ view name) : named rows name =
    rows.find? fun entry => equalsIgnoringCase (view entry.info.name) (view name) := by
  rw [named, wanted_of_slash h]

theorem named_fold {name : String} {entry : RegistryEntry ι} (h : named rows name = some entry) :
    (view entry.info.name).map tolower = (wanted (view name)).map tolower := by
  have found := List.find?_some (p := fun e : RegistryEntry ι =>
    equalsIgnoringCase (view e.info.name) (wanted (view name))) h
  exact (equalsIgnoringCase_iff _ _).mp found

theorem find?_fold {v w : Bytes} (h : v.map tolower = w.map tolower) :
    rows.find? (fun entry => equalsIgnoringCase (view entry.info.name) v) =
      rows.find? fun entry => equalsIgnoringCase (view entry.info.name) w := by
  have same (entry : RegistryEntry ι) : equalsIgnoringCase (view entry.info.name) v =
      equalsIgnoringCase (view entry.info.name) w := by
    rw [Bool.eq_iff_iff, equalsIgnoringCase_iff, equalsIgnoringCase_iff, h]
  exact congrArg (fun p => rows.find? p) (funext same)

theorem named_congr {a b : RegistryEntry ι} (ha : slash ∈ view a.info.name)
    (h : SameName a b) : named rows a.info.name = named rows b.info.name := by
  have hb : slash ∈ view b.info.name := by
    rw [← slash_mem_fold, ← sameName_iff.mp h, slash_mem_fold]
    exact ha
  rw [named_of_slash ha, named_of_slash hb]
  exact find?_fold (sameName_iff.mp h)

variable [DecidableEq ι]

/-- The two lookups lead from the name of a row to what that row describes. -/
def LeadsBack (rows : List (RegistryEntry ι)) (row : RegistryEntry ι) : Prop :=
  ∃ entry opened, named rows row.info.name = some entry ∧
    find rows entry.info.id = some opened ∧ served opened = served row

theorem resolves_iff_leadsBack {tables : Tables ι}
    (parallel : tables.kModels = tables.kRegistry.map (·.info)) :
    Resolves tables ↔ ∀ row ∈ tables.kRegistry, LeadsBack tables.kRegistry row := by
  constructor
  · intro h row hrow
    obtain ⟨i, hi⟩ := List.mem_iff_getElem?.mp hrow
    have hmodel : tables.kModels[i]? = some row.info := by
      rw [parallel, List.getElem?_map, hi, Option.map_some]
    obtain ⟨id, found, opened, hname, _, _, _, _, _, hopen, hserved⟩ :=
      h i row.info row row.info.id hmodel hi
    rw [findModel_named] at hname
    unfold openEntry at hopen
    cases hn : named tables.kRegistry row.info.name with
    | none =>
      rw [hn] at hname
      cases congrArg (fun p => p.1.code) hname
    | some entry =>
      rw [hn] at hname
      obtain rfl : entry.info.id = id := congrArg Prod.snd hname
      cases hf : find tables.kRegistry entry.info.id with
      | none =>
        rw [hf] at hopen
        cases hopen
      | some e =>
        rw [hf] at hopen
        obtain rfl : e = opened := Except.ok.inj hopen
        exact ⟨entry, e, hn, hf, hserved⟩
  · intro h i model row out hmodel hrow
    obtain rfl : row.info = model := by
      rw [parallel, List.getElem?_map, hrow, Option.map_some] at hmodel
      exact Option.some.inj hmodel
    obtain ⟨entry, opened, hn, hf, hserved⟩ := h row (List.mem_of_getElem? hrow)
    refine ⟨entry.info.id, opened.info, opened, ?_, ?_, congrArg Served.name hserved,
      congrArg Served.revision hserved, congrArg Served.dimension hserved,
      congrArg Served.maxSeqLength hserved, ?_, hserved⟩
    · rw [findModel_named, hn]
    · rw [info, hf]
    · rw [openEntry, hf]

theorem qualified_of_leadsBack (h : ∀ row ∈ rows, LeadsBack rows row) {row : RegistryEntry ι}
    (hrow : row ∈ rows) : slash ∈ view row.info.name := by
  by_contra bare
  obtain ⟨entry, opened, hn, hf, hserved⟩ := h row hrow
  have fold := named_fold hn
  have owner : slash ∈ view entry.info.name := by
    rw [← slash_mem_fold, fold, slash_mem_fold]
    exact slash_mem_wanted _
  -- the search for the name of that row stops at the same place
  have again : named rows entry.info.name = some entry := by
    rw [← hn, named_of_slash owner, named]
    exact find?_fold fold
  obtain ⟨entry', opened', hn', hf', hserved'⟩ := h entry (List.mem_of_find?_eq_some hn)
  obtain rfl := Option.some.inj (again.symm.trans hn')
  obtain rfl := Option.some.inj (hf.symm.trans hf')
  have names : entry.info.name = row.info.name :=
    congrArg Served.name (hserved'.symm.trans hserved)
  rw [names] at owner
  exact bare owner

theorem leadsBack_iff_unambiguous :
    (∀ row ∈ rows, LeadsBack rows row) ↔ Unambiguous rows := by
  constructor
  · intro h
    refine ⟨fun row hrow => qualified_of_leadsBack h hrow, fun a ha b hb same => ?_,
      fun a b ha hb => ?_⟩
    · obtain ⟨entry, opened, hn, hf, hserved⟩ := h a ha
      obtain ⟨entry', opened', hn', hf', hserved'⟩ := h b hb
      rw [← named_congr (qualified_of_leadsBack h ha) same, hn] at hn'
      obtain rfl := Option.some.inj hn'
      obtain rfl := Option.some.inj (hf.symm.trans hf')
      exact hserved.symm.trans hserved'
    · obtain ⟨_, before, rest, rfl, _⟩ := id ha
      have mem : a ∈ before ++ a :: rest := List.mem_append_right _ List.mem_cons_self
      obtain ⟨entry, opened, hn, hf, hserved⟩ := h a mem
      rw [named_of_slash (qualified_of_leadsBack h mem),
        (find?_eq_some_iff_firstWith _ _).mpr ha] at hn
      obtain rfl := Option.some.inj hn
      have hb' : find (before ++ a :: rest) a.info.id = some b := by
        refine (find?_eq_some_iff_firstWith _ _).mpr ?_
        simpa only [FirstWith, decide_eq_true_eq] using hb
      obtain rfl := Option.some.inj (hb'.symm.trans hf)
      exact hserved
  · intro clean row hrow
    have owner := clean.qualified row hrow
    obtain ⟨entry, hn⟩ : ∃ entry, named rows row.info.name = some entry := by
      rw [← Option.isSome_iff_exists, named_of_slash owner, List.find?_isSome]
      exact ⟨row, hrow, (equalsIgnoringCase_iff _ _).mpr rfl⟩
    have hentry := List.mem_of_find?_eq_some hn
    obtain ⟨opened, hf⟩ : ∃ opened, find rows entry.info.id = some opened := by
      rw [← Option.isSome_iff_exists, find, List.find?_isSome]
      exact ⟨entry, hentry, decide_eq_true rfl⟩
    have same : SameName entry row := by
      rw [sameName_iff, named_fold hn, wanted_of_slash owner]
    have first : FirstWith (SameName · entry) rows entry := by
      have found := hn
      rw [← named_congr (clean.qualified entry hentry) same,
        named_of_slash (clean.qualified entry hentry)] at found
      exact (find?_eq_some_iff_firstWith _ _).mp found
    have firstId : FirstWith (·.info.id = entry.info.id) rows opened := by
      have found := (find?_eq_some_iff_firstWith _ _).mp hf
      simpa only [FirstWith, decide_eq_true_eq] using found
    exact ⟨entry, opened, hn, hf, (clean.enums entry opened first firstId).trans
      (clean.names entry hentry row hrow same)⟩

end

/-- The tables of an accepted registry lead every name to its own row exactly if they
    are unambiguous. -/
theorem resolves_iff_unambiguous {ι : Type} [DecidableEq ι] (header : Header ι)
    {models : List YamlModel} {emitted : Emitted} {tables : Tables ι}
    (accepted : main true models = .ok emitted) (compiled : header.compile emitted = some tables) :
    Resolves tables ↔ Unambiguous tables.kRegistry := by
  rw [resolves_iff_leadsBack (Header.compile_kModels accepted compiled),
    leadsBack_iff_unambiguous]

/-- The two enumerators of `embed.hpp` that the registry below names. Texts read back as
    they are. -/
def embedHpp : Header ModelId where
  enumerator
    | .str "BgeSmallEnV15" => some .bgeSmallEnV15
    | .str "BgeBaseEnV15" => some .bgeBaseEnV15
    | _ => none
  number
    | .int value => if 0 ≤ value then some value.toNat else none
    | _ => none
  truth
    | .bool value => some value
    | _ => none
  text := some

def bgeModel (id revision digest : String) (dim : Int) : YamlModel where
  id := .str id
  enum := .str "BgeSmallEnV15"
  revision := .str revision
  onnxPath := .str "onnx/model.onnx"
  onnxSha256 := .str digest
  tokenizerSha256 := .str "d241a60d5e8f04cc1b2b3e9ef7a4921b27bf526d9f6050ab90f9267a1f9e5c66"
  dim := .int dim
  pooling := .str "cls_token"
  normalize := .bool true
  maxSeqLength := .int 512
  queryPrefix := .str ""
  docPrefix := .str ""
  parity := .str "numerically-equivalent"

/-- The block of a second model copied from the first, its enum line left as it was. -/
def copiedBlock : List YamlModel :=
  [bgeModel "BAAI/bge-small-en-v1.5" "5c38ec7c405ec4b44b94cc5a9bb96e735b38267a"
      "828e1496d7fabb79cfa4dcd84fa38625c0d3d21da474a00f08db0f559940cf35" 384,
    bgeModel "BAAI/bge-base-en-v1.5" "a5beb1e3e68b9ab74eb54cfd186867f64f240e1a"
      "9bc579acdba21c253c62a9bf866891355a63ffa3442b52c8a37d75b2ccb91848" 768]

theorem copiedBlock_resolves_iff : ∃ emitted tables, main true copiedBlock = .ok emitted ∧
    embedHpp.compile emitted = some tables ∧
      (Resolves tables ↔ Unambiguous tables.kRegistry) := by
  refine ⟨_, _, rfl, rfl, ?_⟩
  exact resolves_iff_unambiguous embedHpp (show main true copiedBlock = .ok _ from rfl) rfl

/-- The generator accepts the copied block, and the second model's name opens the first. -/
theorem copiedBlock_opens_first : ¬ ∀ (models : List YamlModel) (emitted : Emitted)
    (tables : Tables ModelId), main true models = .ok emitted →
      embedHpp.compile emitted = some tables → Resolves tables := by
  intro h
  obtain ⟨id, found, opened, hname, _, _, _, _, _, hopen, hserved⟩ :=
    h copiedBlock _ _ rfl rfl 1 _ _ .bgeSmallEnV15 rfl rfl
  obtain rfl : .bgeSmallEnV15 = id := congrArg Prod.snd hname
  have name : opened.info.name = "BAAI/bge-small-en-v1.5" :=
    congrArg (fun entry => entry.info.name) (Except.ok.inj hopen).symm
  have other : opened.info.name = "BAAI/bge-base-en-v1.5" := congrArg Served.name hserved
  rw [name] at other
  revert other
  decide

end CyborgdbEmbed.ModelLookup

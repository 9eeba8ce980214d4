import CyborgdbEmbed.Registry
import CyborgdbEmbed.FilePaths
import Mathlib.Data.Int.Notation

set_option autoImplicit false

namespace CyborgdbEmbed.Resolve
open FileSystem FilePaths

abbrev Env := String → Option String

def env (vars : Env) (name : String) : String := (vars name).getD ""

def defaultCacheDir (vars : Env) : String :=
  if env vars "CYBORGDB_EMBED_CACHE" ≠ "" then env vars "CYBORGDB_EMBED_CACHE"
  else if env vars "XDG_CACHE_HOME" ≠ "" then env vars "XDG_CACHE_HOME" ++ "/cyborgdb-embed"
  else env vars "HOME" ++ "/.cache/cyborgdb-embed"

def resolvedConfig (vars : Env) (given : CacheConfig) : CacheConfig where
  cacheDir := if given.cacheDir = "" then defaultCacheDir vars else given.cacheDir
  endpoint :=
    if given.endpoint = "" then
      if env vars "CYBORGDB_EMBED_ENDPOINT" = "" then "https://huggingface.co"
      else env vars "CYBORGDB_EMBED_ENDPOINT"
    else given.endpoint
  offline := given.offline || env vars "CYBORGDB_EMBED_OFFLINE" != ""

theorem defaultCacheDir_ne (vars : Env) : defaultCacheDir vars ≠ "" := by
  have appended : ∀ s t : String, t ≠ "" → s ++ t ≠ "" :=
    fun s t ht h => ht (String.append_eq_empty_iff.mp h).2
  unfold defaultCacheDir
  split
  · assumption
  · split
    · exact appended _ _ (by decide)
    · exact appended _ _ (by decide)

theorem resolvedConfig_cacheDir_ne (vars : Env) (given : CacheConfig) :
    (resolvedConfig vars given).cacheDir ≠ "" := by
  change (if given.cacheDir = "" then _ else _) ≠ ""
  split
  · exact defaultCacheDir_ne vars
  · assumption

theorem resolvedConfig_twice (vars : Env) (given : CacheConfig) :
    (resolvedConfig vars (resolvedConfig vars given)).cacheDir =
      (resolvedConfig vars given).cacheDir :=
  if_neg (resolvedConfig_cacheDir_ne vars given)

def flatten (id : String) : String :=
  String.ofList (id.toList.map fun c => if c = '/' then '_' else c)

theorem flatten_isName {id : String} (h : id ≠ "") (h' : id ≠ ".") : IsName (flatten id) := by
  have toList : (flatten id).toList = id.toList.map fun c => if c = '/' then '_' else c :=
    String.toList_ofList
  refine ⟨?_, ?_, ?_⟩
  · intro hs
    rw [hs] at toList
    exact h (String.toList_eq_nil_iff.mp (List.map_eq_nil_iff.mp toList.symm))
  · intro hs
    rw [hs] at toList
    obtain ⟨c, hid, hc⟩ := List.map_eq_singleton_iff.mp toList.symm
    split at hc
    · cases hc
    · exact h' (String.toList_inj.mp (hid.trans (congrArg (fun c => [c]) hc)))
  · rw [toList, List.mem_map]
    rintro ⟨c, -, hc⟩
    split at hc
    · cases hc
    · contradiction

def filename (path : String) : String :=
  String.ofList (path.toList.reverse.takeWhile (· != '/')).reverse

def cachedGraphPath {ι : Type} (vars : Env) (entry : RegistryEntry ι) (config : CacheConfig) :
    String :=
  joinPath (joinPath (joinPath (resolvedConfig vars config).cacheDir (flatten entry.info.name))
    entry.info.revision) (filename entry.onnxPath)

structure FileRequest where
  model : String
  revision : String
  repoPath : String
  expected : String
  config : CacheConfig
  path : String

def ensureGraph {ι : Type} (vars : Env) (entry : RegistryEntry ι) (given : CacheConfig) :
    FileRequest :=
  let config := resolvedConfig vars given
  { model := entry.info.name
    revision := entry.info.revision
    repoPath := entry.onnxPath
    expected := entry.onnxSha256
    config := config
    path := cachedGraphPath vars entry config }

def ensureTokenizer {ι : Type} (vars : Env) (entry : RegistryEntry ι) (given : CacheConfig) :
    FileRequest :=
  let config := resolvedConfig vars given
  { model := entry.info.name
    revision := entry.info.revision
    repoPath := "tokenizer.json"
    expected := entry.tokenizerSha256
    config := config
    path := joinPath (parentPath (cachedGraphPath vars entry config)) "tokenizer.json" }

def FileRequest.url (req : FileRequest) : String :=
  req.config.endpoint ++ "/" ++ req.model ++ "/resolve/" ++ req.revision ++ "/" ++ req.repoPath

def kHex : List Char := "0123456789abcdef".toList

def hexDigit (v : ℕ) : Char := kHex.get ⟨v % 16, Nat.mod_lt v (by decide)⟩

/-- The last `n` hexadecimal digits of a number, leading zeros included. -/
def hexDigits : ℕ → ℕ → List Char
  | 0, _ => []
  | n + 1, v => hexDigits n (v / 16) ++ [hexDigit v]

theorem hexDigits_length (n v : ℕ) : (hexDigits n v).length = n := by
  induction n generalizing v with
  | zero => rfl
  | succ n ih => rw [hexDigits, List.length_append, ih, List.length_singleton]

theorem hexDigits_mem (n v : ℕ) : ∀ c ∈ hexDigits n v, c ∈ kHex := by
  induction n generalizing v with
  | zero => exact fun c hc => absurd hc List.not_mem_nil
  | succ n ih =>
    intro c hc
    rw [hexDigits, List.mem_append, List.mem_singleton] at hc
    cases hc with
    | inl hc => exact ih _ c hc
    | inr hc => exact hc ▸ List.get_mem _ _

structure Suffix where
  text : String
  length_eq : text.toList.length = 16
  hex : ∀ c ∈ text.toList, c ∈ kHex

instance : DecidableEq Suffix := fun x y =>
  if h : x.text = y.text then
    .isTrue (by cases x; cases y; cases h; rfl)
  else .isFalse fun hxy => h (congrArg Suffix.text hxy)

/-- `high` and `low` are the two draws from `std::random_device`. -/
def uniqueSuffix (high low : UInt32) : Suffix :=
  let value := (high.toUInt64 <<< 32) ^^^ low.toUInt64
  { text := String.ofList (hexDigits 16 value.toNat)
    length_eq := by rw [String.toList_ofList, hexDigits_length]
    hex := by
      rw [String.toList_ofList]
      exact hexDigits_mem 16 _ }

def FileRequest.partPath (req : FileRequest) (suffix : Suffix) : String :=
  req.path ++ ".partial-" ++ suffix.text

structure Attempt where
  status : Status := {}
  transient : Bool := false
  retryAfter : ℤ := 0

inductive CurlCode where
  | ok
  | couldntResolveHost
  | couldntConnect
  | partialFile
  | operationTimedout
  | gotNothing
  | sendError
  | recvError
  | other (code : ℕ)
  deriving DecidableEq

/-- What libcurl reports of a transfer. `strerror` is its own text for the code. -/
structure CurlResult where
  code : CurlCode
  http : ℤ
  retryAfter : ℤ
  error : String
  strerror : String

def failedAttempt (url : String) (r : CurlResult) : Attempt where
  status := ⟨.downloadFailed, url ++ ": " ++ if r.error ≠ "" then r.error else r.strerror⟩
  transient := r.http == 429 || r.http ≥ 500 || r.code == .operationTimedout ||
    r.code == .couldntConnect || r.code == .couldntResolveHost || r.code == .sendError ||
    r.code == .recvError || r.code == .gotNothing || r.code == .partialFile
  retryAfter := r.retryAfter

def kAttempts : ℕ := 5

def wait (attempt : ℕ) (retryAfter : ℤ) : ℤ := min 60 (max (1 <<< (attempt - 1)) retryAfter)

def hexDigest (raw : Bytes) : String :=
  String.ofList (raw.flatMap fun (b : UInt8) =>
    [hexDigit (b >>> 4).toNat, hexDigit (b &&& 0x0f).toNat])

end CyborgdbEmbed.Resolve

import CyborgdbEmbed.Resolve
import CyborgdbEmbed.ListSplits

set_option autoImplicit false

namespace CyborgdbEmbed.AccessToken
open FilePaths Resolve

def hub : String := "https://huggingface.co/"

def authHeader (vars : Env) (url : String) : String :=
  if hub.toList.isPrefixOf url.toList then
    let token := if env vars "HF_TOKEN" = "" then env vars "HUGGING_FACE_HUB_TOKEN"
      else env vars "HF_TOKEN"
    if token = "" then "" else "Authorization: Bearer " ++ token
  else ""

/-- The headers `download_once` adds to those of libcurl. -/
def headers (vars : Env) (url : String) : List String :=
  let auth := authHeader vars url
  if auth = "" then [] else [auth]

structure Tokens where
  hfToken : Option String
  hubToken : Option String

def withTokens (vars : Env) (tokens : Tokens) : Env := fun name =>
  if name = "HF_TOKEN" then tokens.hfToken
  else if name = "HUGGING_FACE_HUB_TOKEN" then tokens.hubToken
  else vars name

def fileRequest (vars : Env) (given : CacheConfig)
    (model revision repoPath expected path : String) :
    FileRequest where
  model := model
  revision := revision
  repoPath := repoPath
  expected := expected
  config := resolvedConfig vars given
  path := path

section
variable {ι : Type} (vars : Env) (entry : RegistryEntry ι) (given : CacheConfig)

theorem ensureGraph_fileRequest : ensureGraph vars entry given =
    fileRequest vars given entry.info.name entry.info.revision entry.onnxPath entry.onnxSha256
      (cachedGraphPath vars entry (resolvedConfig vars given)) := rfl

theorem ensureTokenizer_fileRequest : ensureTokenizer vars entry given =
    fileRequest vars given entry.info.name entry.info.revision "tokenizer.json"
      entry.tokenizerSha256
      (joinPath (parentPath (cachedGraphPath vars entry (resolvedConfig vars given)))
        "tokenizer.json") := rfl

end

/-- The text before the first `://` and the text after it. -/
def splitScheme : List Char → Option (List Char × List Char)
  | ':' :: '/' :: '/' :: rest => some ([], rest)
  | c :: cs => (splitScheme cs).map fun (scheme, rest) => (c :: scheme, rest)
  | [] => none

def scheme (url : String) : Option String :=
  (splitScheme url.toList).map fun parts => String.ofList parts.1

def endsAuthority (c : Char) : Bool := c == '/' || c == '?' || c == '#'

def authority (url : String) : Option String :=
  (splitScheme url.toList).map fun parts =>
    String.ofList (parts.2.takeWhile fun c => !endsAuthority c)

structure ToHub (url : String) : Prop where
  scheme : scheme url = some "https"
  authority : authority url = some "huggingface.co"

theorem toHub_of_starts {url : String} (h : hub.toList.isPrefixOf url.toList = true) :
    ToHub url := by
  obtain ⟨rest, hrest⟩ := List.isPrefixOf_iff_prefix.mp h
  have split : splitScheme url.toList =
      some ("https".toList, "huggingface.co".toList ++ '/' :: rest) := by
    rw [← hrest]
    rfl
  have host : ∀ c ∈ "huggingface.co".toList, (!endsAuthority c) = true :=
    List.all_eq_true.mp (by decide)
  constructor
  · unfold AccessToken.scheme
    rw [split]
    rfl
  · unfold AccessToken.authority
    rw [split, Option.map_some, ListSplits.takeWhile_run host rfl, String.ofList_toList]

theorem env_withTokens (vars : Env) (tokens : Tokens) {name : String} (h : name ≠ "HF_TOKEN")
    (h' : name ≠ "HUGGING_FACE_HUB_TOKEN") : env (withTokens vars tokens) name = env vars name := by
  unfold env withTokens
  rw [if_neg h, if_neg h']

theorem resolvedConfig_withTokens (vars : Env) (tokens : Tokens) (given : CacheConfig) :
    resolvedConfig (withTokens vars tokens) given = resolvedConfig vars given := by
  have same (name : String) (h : name ≠ "HF_TOKEN") (h' : name ≠ "HUGGING_FACE_HUB_TOKEN") :=
    env_withTokens vars tokens h h'
  unfold resolvedConfig defaultCacheDir
  rw [same "CYBORGDB_EMBED_CACHE" (by decide) (by decide),
    same "XDG_CACHE_HOME" (by decide) (by decide), same "HOME" (by decide) (by decide),
    same "CYBORGDB_EMBED_ENDPOINT" (by decide) (by decide),
    same "CYBORGDB_EMBED_OFFLINE" (by decide) (by decide)]

theorem headers_elsewhere (vars : Env) {url : String} (h : ¬ ToHub url) :
    headers vars url = [] := by
  have other : ¬ hub.toList.isPrefixOf url.toList = true := fun hp => h (toHub_of_starts hp)
  have auth : authHeader vars url = "" := by
    unfold authHeader
    rw [if_neg other]
  unfold headers
  dsimp only
  rw [if_pos auth]

theorem bearer_ne (token : String) : "Authorization: Bearer " ++ token ≠ "" := by
  intro h
  exact absurd (String.append_eq_empty_iff.mp h).1 (by decide)

def Authorizes (sent : List String) : Prop := ∃ token, "Authorization: Bearer " ++ token ∈ sent

theorem headers_hub (vars : Env) {url : String} (h : hub.toList.isPrefixOf url.toList = true) :
    Authorizes (headers vars url) ↔
      env vars "HF_TOKEN" ≠ "" ∨ env vars "HUGGING_FACE_HUB_TOKEN" ≠ "" := by
  unfold headers authHeader
  rw [if_pos h]
  dsimp only
  generalize env vars "HF_TOKEN" = first
  generalize env vars "HUGGING_FACE_HUB_TOKEN" = second
  have sent (token : String) : Authorizes (if (if token = "" then ""
      else "Authorization: Bearer " ++ token) = "" then []
      else [if token = "" then "" else "Authorization: Bearer " ++ token]) ↔ token ≠ "" := by
    by_cases none : token = ""
    · rw [if_pos none, if_pos rfl]
      refine iff_of_false ?_ (not_not.mpr none)
      rintro ⟨_, mem⟩
      exact absurd mem List.not_mem_nil
    · rw [if_neg none, if_neg (bearer_ne token)]
      exact iff_of_true ⟨token, List.mem_singleton_self _⟩ none
  by_cases none : first = ""
  · rw [if_pos none, sent]
    exact (or_iff_right (not_not.mpr none)).symm
  · rw [if_neg none, sent]
    exact (or_iff_left_of_imp fun _ => none).symm

theorem url_hub {req : FileRequest} (h : req.config.endpoint = "https://huggingface.co") :
    hub.toList.isPrefixOf req.url.toList = true := by
  have slash : hub = "https://huggingface.co" ++ "/" := by decide
  rw [List.isPrefixOf_iff_prefix, slash]
  unfold FileRequest.url
  rw [h]
  simp only [String.toList_append, List.append_assoc]
  exact (List.prefix_append_right_inj _).mpr (List.prefix_append _ _)

/-- Two runs of one request whose environments differ in the tokens only. -/
structure Confined (vars : Env) (given : CacheConfig) (tokens tokens' : Tokens)
    (req req' : FileRequest) : Prop where
  url : req'.url = req.url
  elsewhere : ¬ ToHub req.url →
    headers (withTokens vars tokens) req.url = headers (withTokens vars tokens') req'.url
  hub : (resolvedConfig vars given).endpoint = "https://huggingface.co" →
    (Authorizes (headers (withTokens vars tokens) req.url) ↔
      tokens.hfToken.getD "" ≠ "" ∨ tokens.hubToken.getD "" ≠ "")

/-- The token goes to huggingface.co only. -/
theorem token_confined (vars : Env) (given : CacheConfig) (tokens tokens' : Tokens)
    (model revision repoPath expected path : String) : Confined vars given tokens tokens'
      (fileRequest (withTokens vars tokens) given model revision repoPath expected path)
      (fileRequest (withTokens vars tokens') given model revision repoPath expected path) where
  url := by
    unfold fileRequest
    rw [resolvedConfig_withTokens, resolvedConfig_withTokens]
  elsewhere := by
    intro h
    unfold fileRequest at h ⊢
    rw [resolvedConfig_withTokens] at h ⊢
    rw [resolvedConfig_withTokens, headers_elsewhere _ h, headers_elsewhere _ h]
  hub := by
    intro h
    rw [headers_hub]
    · rfl
    · apply url_hub
      rw [← h, ← resolvedConfig_withTokens vars tokens]
      rfl

end CyborgdbEmbed.AccessToken

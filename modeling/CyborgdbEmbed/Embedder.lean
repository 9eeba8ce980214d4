import CyborgdbEmbed.ColdLoad

set_option autoImplicit false

namespace CyborgdbEmbed
open Loops FileSystem Resolve TransitionSystem VerifiedLoads
open Utf8 (view)
open LoadSession (Hash)
open Sha256File (lowercaseHex hexDigest_eq)

variable {δ ι α : Type}

def kRegistryVersion : String := "14afbc250ac9"

structure Identity where
  model : String := ""
  revision : String := ""
  registryVersion : String := ""
  provider : Provider := .cpu
  precision : Precision := .fp32
  deriving DecidableEq, Repr

/-- A handle, with the session it leads to. It leads to none before `open` and once it has
    been moved from. -/
structure Embedder (ι α : Type) where
  session : Option (ModelSession ι α) := none

namespace Embedder

def valid (embedder : Embedder ι α) : Bool := embedder.session.isSome

def dimension (embedder : Embedder ι α) : ℕ :=
  match embedder.session with
  | some session => session.entry.info.dimension
  | none => 0

def identity (embedder : Embedder ι α) : Identity :=
  match embedder.session with
  | some session => ⟨session.entry.info.name, session.entry.info.revision, kRegistryVersion,
      session.provider, session.precision⟩
  | none => {}

section
variable [Arith α] (embedder : Embedder ι α) (texts : Option (ℕ → Bytes)) (n : ℕ)
  (out : Option (Buffer α)) (outCapacity : ℕ)

def embed (pre : RegistryEntry ι → String) : Status × Option (Buffer α) :=
  match embedder.session with
  | some session => session.encode texts n (view (pre session.entry)) out outCapacity
  | none => (⟨.invalidArgument, "embedder is not open"⟩, out)

def embedDocuments : Status × Option (Buffer α) :=
  embedder.embed texts n out outCapacity RegistryEntry.docPrefix

def embedQueries : Status × Option (Buffer α) :=
  embedder.embed texts n out outCapacity RegistryEntry.queryPrefix

end
end Embedder

theorem digitChar_inj : ∀ v w : Fin 16, Nat.digitChar v = Nat.digitChar w → v = w := by decide

theorem lowercaseHex_inj {raw raw' : Bytes} (h : lowercaseHex raw = lowercaseHex raw') :
    raw = raw' := by
  have digit {v w : ℕ} (hv : v < 16) (hw : w < 16) (same : Nat.digitChar v = Nat.digitChar w) :
      v = w := congrArg Fin.val (digitChar_inj ⟨v, hv⟩ ⟨w, hw⟩ same)
  have texts := String.ofList_injective h
  clear h
  induction raw generalizing raw' with
  | nil =>
    cases raw' with
    | nil => rfl
    | cons b raw' => cases texts
  | cons a raw ih =>
    cases raw' with
    | nil => cases texts
    | cons b raw' =>
      simp only [List.flatMap_cons, List.cons_append, List.nil_append, List.cons.injEq] at texts
      obtain ⟨high, low, rest⟩ := texts
      have ha := a.toNat_lt
      have hb := b.toNat_lt
      have high' := digit (by omega) (by omega) high
      have low' := digit (Nat.mod_lt _ (by decide)) (Nat.mod_lt _ (by decide)) low
      rw [ih rest, UInt8.toNat_inj.mp (show a.toNat = b.toNat by omega)]

theorem kRegistry_namesDiffer : (kRegistry.map (·.info.name)).Nodup := by decide +kernel

section
variable {sha256 : Hash} {library : HuggingFace δ} {ort : OnnxRuntime α}
  {row : RegistryEntry ι} {path path' : String} {json graph json' graph' : Bytes}

theorem load_path {maxTokens : ℕ} {tokenizer : Tokenizer}
    (h : Tokenizer.load library path (some json) maxTokens = .ok tokenizer) :
    Tokenizer.load library path' (some json) maxTokens = .ok tokenizer := by
  unfold Tokenizer.load at h ⊢
  dsimp only at h ⊢
  split at h
  · cases h
  · exact h

theorem MadeOf.unique {session session' : ModelSession ι α}
    (h : MadeOf library ort row path json graph session)
    (h' : MadeOf library ort row path' json graph session') :
    session.toOrtSession = session'.toOrtSession := by
  obtain ⟨loaded, created, -, run, types⟩ := h.graph
  obtain ⟨loaded', created', -, run', types'⟩ := h'.graph
  obtain rfl : loaded = loaded' := Except.ok.inj (created.symm.trans created')
  have tokenizer : session.tokenizer = session'.tokenizer :=
    Except.ok.inj (h.tokenizer.symm.trans (load_path h'.tokenizer))
  have entry : session.entry = session'.entry := h.entry.trans h'.entry.symm
  have needs : session.needsTokenTypeIds = session'.needsTokenTypeIds :=
    Bool.eq_iff_iff.mpr (types.trans types'.symm)
  have runs : session.run = session'.run := run.trans run'.symm
  cases session
  cases session'
  exact OrtSession.mk.injEq .. ▸ ⟨entry, tokenizer, needs, runs⟩

theorem hash_eq {bytes bytes' : Bytes} {digest : String}
    (h : hexDigest (sha256.bytes bytes) = digest) (h' : hexDigest (sha256.bytes bytes') = digest) :
    sha256 bytes = sha256 bytes' := by
  rw [← h', hexDigest_eq, hexDigest_eq] at h
  exact Subtype.ext (lowercaseHex_inj h)

structure NoCollision (sha256 : Hash) (json graph json' graph' : Bytes) : Prop where
  tokenizer : sha256 json = sha256 json' → json = json'
  graph : sha256 graph = sha256 graph' → graph = graph'

theorem session_unique {c c' : LoadSession.Call ModelId} {session session' : ModelSession ModelId α}
    (known : c.entry ∈ kRegistry) (known' : c'.entry ∈ kRegistry)
    (pins : FromPins sha256 library ort c json graph session)
    (pins' : FromPins sha256 library ort c' json' graph' session')
    (noCollision : NoCollision sha256 json graph json' graph')
    (same : (⟨some session⟩ : Embedder ModelId α).identity =
      (⟨some session'⟩ : Embedder ModelId α).identity) :
    session.toOrtSession = session'.toOrtSession := by
  have names : session.entry.info.name = session'.entry.info.name := congrArg Identity.model same
  rw [pins.made.entry, pins'.made.entry] at names
  have entries : c.entry = c'.entry :=
    List.inj_on_of_nodup_map kRegistry_namesDiffer known known' names
  have jsons := noCollision.tokenizer (hash_eq (entries ▸ pins.jsonPinned) pins'.jsonPinned)
  have graphs := noCollision.graph (hash_eq (entries ▸ pins.graphPinned) pins'.graphPinned)
  have made := pins.made
  rw [entries, jsons, graphs] at made
  exact made.unique pins'.made

/-- Two embedders with one identity write one vector for a text, whatever caches their models
    were fetched into, whoever else used these, and whatever texts are embedded beside it. -/
theorem identity_vectors [Arith α] {s₀ s s₀' s' : VerifiedLoads.State α}
    {as as' : List VerifiedLoads.Action} (initial : VerifiedLoads.Initial s₀)
    (initial' : VerifiedLoads.Initial s₀')
    (run : Run (VerifiedLoads.step sha256 library ort) s₀ as s)
    (run' : Run (VerifiedLoads.step sha256 library ort) s₀' as' s')
    {t t' : SharedCache.Thread} {l l' : Load α} {session session' : ModelSession ModelId α}
    (ht : s.loads t = some l) (done : l.phase = .loaded json graph session)
    (ht' : s'.loads t' = some l') (done' : l'.phase = .loaded json' graph' session')
    (noCollision : NoCollision sha256 json graph json' graph')
    (same : (⟨some session⟩ : Embedder ModelId α).identity =
      (⟨some session'⟩ : Embedder ModelId α).identity)
    (rowOnly : OrtSession.DependsOnRowOnly session.entry.info.dimension session.needsTokenTypeIds
      session.run session.run)
    (yieldsIds : ∀ text ids, session.tokenizer.handle.tokenize text = some ids → 0 < ids.length)
    {pre : RegistryEntry ModelId → String} {texts texts' : ℕ → Bytes} {n n' : ℕ}
    {out written out' written' : Buffer α} {capacity capacity' : ℕ} {status status' : Status}
    (h : (⟨some session⟩ : Embedder ModelId α).embed (some texts) n (some out) capacity pre =
      (status, some written)) (ok : status.ok = true)
    (h' : (⟨some session'⟩ : Embedder ModelId α).embed (some texts') n' (some out') capacity'
      pre = (status', some written')) (ok' : status'.ok = true)
    {i j : ℕ} (hi : i < n) (hj : j < n') (text : texts i = texts' j) :
    ∀ d, d < session.entry.info.dimension →
      written (i * session.entry.info.dimension + d) =
        written' (j * session.entry.info.dimension + d) := by
  have one : session.toOrtSession = session'.toOrtSession :=
    session_unique l.known l'.known (ColdLoad.loads_verified initial run ht done)
      (ColdLoad.loads_verified initial' run' ht' done') noCollision same
  change session.toOrtSession.encode (some texts) n (view (pre session.toOrtSession.entry))
    (some out) capacity = _ at h
  change session'.toOrtSession.encode (some texts') n' (view (pre session'.toOrtSession.entry))
    (some out') capacity' = _ at h'
  rw [← one] at h'
  intro d hd
  obtain ⟨ids, hids, batch, feed, hidden, r, hrun, carries, row⟩ :=
    OrtSession.encode_written h ok hi
  obtain ⟨ids', hids', batch', feed', hidden', r', hrun', carries', row'⟩ :=
    OrtSession.encode_written h' ok' hj
  rw [← text] at hids'
  obtain rfl : ids = ids' := Except.ok.inj (hids.symm.trans hids')
  obtain ⟨seen, hseen⟩ := Tokenizer.tokenize_of_encode_ok hids
  rw [row d hd, row' d hd]
  exact OrtSession.embedRow_congr rowOnly (yieldsIds seen ids hseen) carries carries' hrun hrun' hd

end

theorem bgeSmall_greets {session : ModelSession ModelId EReal}
    (pins : FromPins ColdLoad.pinnedHash ColdLoad.greetingTokenizer ColdLoad.greetingRuntime
      ColdLoad.bgeSmallCall [4] [1, 2, 3] session) : session.toOrtSession = greetingSession := by
  have greets : MadeOf ColdLoad.greetingTokenizer ColdLoad.greetingRuntime bgeSmallEnV15
      ColdLoad.bgeSmallCall.tokenizer.path [4] [1, 2, 3]
      { greetingSession with provider := .cpu, precision := .fp32 } :=
    ⟨rfl, rfl, _, rfl, .inl (List.mem_singleton_self _), rfl,
      iff_of_true rfl (List.mem_cons_of_mem _ (List.mem_cons_of_mem _ List.mem_cons_self))⟩
  exact pins.made.unique greets

theorem identity_vectors_greetings : ∃ (session : ModelSession ModelId EReal)
    (status status' : Status) (written written' : Buffer EReal),
    (⟨some session⟩ : Embedder ModelId EReal).embedDocuments (some greetings) 2
      (some fun _ => 0) 768 = (status, some written) ∧
    (⟨some session⟩ : Embedder ModelId EReal).embedDocuments (some fun _ => greetings 1) 1
      (some fun _ => 0) 384 = (status', some written') ∧
    ∀ d, d < session.entry.info.dimension →
      written (1 * session.entry.info.dimension + d) =
        written' (0 * session.entry.info.dimension + d) := by
  obtain ⟨as, s, session, run, load⟩ := ColdLoad.bgeSmall_loads
  have greets := bgeSmall_greets (ColdLoad.loads_verified ColdLoad.emptyCache_initial run load rfl)
  obtain ⟨ok, ok'⟩ := greetings_ok
  obtain ⟨status, written, h⟩ := greetingSession.encode_out greetings 2 [] (fun _ => 0) 768
  obtain ⟨status', written', h'⟩ :=
    greetingSession.encode_out (fun _ => greetings 1) 1 [] (fun _ => 0) 384
  rw [h] at ok
  rw [h'] at ok'
  have entry : session.entry = bgeSmallEnV15 := congrArg OrtSession.entry greets
  have embeds (texts : ℕ → Bytes) (n capacity : ℕ) :
      (⟨some session⟩ : Embedder ModelId EReal).embed (some texts) n (some fun _ => 0) capacity
        RegistryEntry.docPrefix = greetingSession.encode (some texts) n [] (some fun _ => 0)
          capacity := by
    change session.toOrtSession.encode _ n (view (RegistryEntry.docPrefix
      session.toOrtSession.entry)) _ capacity = _
    rw [greets]
    rfl
  refine ⟨session, status, status', written, written', (embeds _ _ _).trans h,
    (embeds _ _ _).trans h', ?_⟩
  refine identity_vectors ColdLoad.emptyCache_initial ColdLoad.emptyCache_initial run run load rfl
    load rfl ⟨fun _ => rfl, fun _ => rfl⟩ rfl ?_ ?_ ((embeds _ _ _).trans h) ok
    ((embeds _ _ _).trans h') ok' (by decide) (by decide) rfl
  · rw [greets]
    exact greetingSession_rowOnly
  · rw [greets]
    exact fun text _ htext => Option.some.inj htext ▸ (greetingIds_length text).1

end CyborgdbEmbed

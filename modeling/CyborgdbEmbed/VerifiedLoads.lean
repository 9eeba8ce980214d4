import CyborgdbEmbed.LoadSession
import CyborgdbEmbed.MakeOrtSession

set_option autoImplicit false

namespace CyborgdbEmbed.VerifiedLoads
open FileSystem FilePaths Resolve EnsureFile SharedCache TransitionSystem
open LoadSession (Hash)

variable {δ α : Type}

inductive Phase (α : Type) where
  | fetching (phase : LoadSession.Phase)
  | openingTokenizer
  | readingTokenizer (file : ℕ) (got : Bytes)
  | openingGraph (json : Bytes)
  | readingGraph (json : Bytes) (file : ℕ) (got : Bytes)
  | loaded (json graph : Bytes) (session : ModelSession ModelId α)
  | failed (status : Status)

structure Load (α : Type) where
  call : LoadSession.Call ModelId
  known : call.entry ∈ kRegistry
  phase : Phase α

structure State (α : Type) where
  disk : Disk
  drawn : List Suffix := []
  loads : Thread → Option (Load α) := fun _ => none

inductive Event where
  | file (e : EnsureFile.Event)
  | initOrt
  | openFile
  | openFails (message : String)
  -- at the end of the file nothing is read
  | read (size : ℕ)

inductive Action where
  | start (t : Thread) (call : LoadSession.Call ModelId) (known : call.entry ∈ kRegistry)
  | advance (t : Thread) (e : Event)
  | crash (process : ℕ)

def Phase.finished : Phase α → Bool
  | .fetching (.returned _) | .fetching .threw | .loaded _ _ _ | .failed _ => true
  | _ => false

def State.idle (s : State α) (t : Thread) : Bool :=
  match s.loads t with
  | none => true
  | some l => l.phase.finished

def Event.drawn : Event → List Suffix
  | .file e => e.drawn
  | _ => []

def opened (d : Disk) (p : Path) : Option ℕ :=
  match d.node p with
  | some (.file i) => some i
  | _ => none

def chunk (d : Disk) (file offset size : ℕ) : Bytes := ((d.content file).drop offset).take size

def tokenized (json : Bytes) : Except Status Tokenizer → Phase α
  | .ok _ => .openingGraph json
  | .error status => .failed status

def result (json graph : Bytes) : Except Status (ModelSession ModelId α) → Phase α
  | .ok session => .loaded json graph session
  | .error status => .failed status

section
variable (sha256 : Hash) (library : HuggingFace δ) (ort : OnnxRuntime α)

/-- `load_session` from the fetched files on: `init_ort`, then `make_ort_session`, which
    builds the tokenizer before ONNX Runtime opens the graph. -/
def build (c : LoadSession.Call ModelId) (d : Disk) : Phase α → Event → Option (Phase α)
  | .fetching .ready, .initOrt =>
    some (if (initOrt ort).ok then .openingTokenizer else .failed (initOrt ort))
  | .openingTokenizer, .openFile =>
    (opened d (target c.tokenizer)).map fun file => .readingTokenizer file []
  | .openingTokenizer, .openFails _ =>
    some (.failed ⟨.tokenizerFailed, "cannot read " ++ c.tokenizer.path⟩)
  | .readingTokenizer file got, .read size =>
    if size = 0 then none
    else if chunk d file got.length size = [] then
      some (tokenized got (Tokenizer.load library c.tokenizer.path (some got)
        c.entry.info.maxSeqLength))
    else some (.readingTokenizer file (got ++ chunk d file got.length size))
  | .openingGraph json, .openFile =>
    (opened d (target c.graph)).map fun file => .readingGraph json file []
  | .openingGraph json, .openFails message =>
    some (result json [] (makeOrtSession library ort c.entry c.provider c.precision
      c.tokenizer.path (some json) (.error message)))
  | .readingGraph json file got, .read size =>
    if size = 0 then none
    else if chunk d file got.length size = [] then
      some (result json got (makeOrtSession library ort c.entry c.provider c.precision
        c.tokenizer.path (some json) (.ok got)))
    else some (.readingGraph json file (got ++ chunk d file got.length size))
  | _, _ => none

def stepLoad (c : LoadSession.Call ModelId) (d : Disk) : Phase α → Event →
    Option (Disk × Phase α)
  | .fetching phase, .file e => (LoadSession.step sha256 c ⟨d, phase⟩ (.own e)).map fun s =>
    (s.disk, .fetching s.phase)
  | phase, e => (build library ort c d phase e).map fun phase => (d, phase)

def step (s : State α) : Action → Option (State α)
  | .start t call known =>
    if s.idle t then
      some { s with
        loads := Function.update s.loads t (some ⟨call, known, .fetching call.begin⟩) }
    else none
  | .advance t e =>
    (s.loads t).bind fun l =>
      if e.drawn.all fun x => decide (x ∉ s.drawn) then
        (stepLoad sha256 library ort l.call s.disk l.phase e).map fun (disk, phase) =>
          { disk := disk
            drawn := e.drawn ++ s.drawn
            loads := Function.update s.loads t (some { l with phase }) }
      else none
  | .crash process =>
    some { s with loads := fun t => if t.process = process then none else s.loads t }

end

/-- No name but the final name of a model file leads to this file. -/
structure Settled (d : Disk) (file : ℕ) : Prop where
  allocated : file < d.nextInode
  named : ∀ p, d.node p = some (.file file) → ∃ f : Fetch, p = target f.request

section
variable {d d' : Disk} {file : ℕ}

theorem opened_file {p : Path} (h : opened d p = some file) : d.node p = some (.file file) := by
  unfold opened at h
  split at h
  · rename_i i hi
    rw [hi, Option.some.inj h]
  · cases h

theorem opened_of_read {p : Path} {data : Bytes} (h : d.read p = some data) :
    ∃ file, opened d p = some file ∧ d.content file = data := by
  unfold Disk.read at h
  unfold opened
  cases node : d.node p with
  | none =>
    rw [node] at h
    cases h
  | some n =>
    rw [node] at h
    cases n with
    | directory => cases h
    | file i => exact ⟨i, rfl, Option.some.inj h⟩

theorem settled_opened {f : Fetch} (h : opened d (target f.request) = some file) :
    Settled d file where
  allocated := d.allocated _ _ (opened_file h)
  named := fun _ hp => ⟨f, d.oneName _ _ _ hp (opened_file h)⟩

theorem Settled.not_part (settled : Settled d file) {f : Fetch} {x : Suffix} {i : ℕ}
    (hi : d.node (part f.request x) = some (.file i)) : file ≠ i := by
  rintro rfl
  obtain ⟨g, hg⟩ := settled.named _ hi
  exact f.part_ne_target g x hg

theorem Settled.forgotten (settled : Settled d file) (next : d'.nextInode = d.nextInode)
    (named : ∀ p, d'.node p = some (.file file) → d.node p = some (.file file)) :
    Settled d' file where
  allocated := next ▸ settled.allocated
  named := fun p hp => settled.named p (named p hp)

theorem Settled.mkdir (settled : Settled d file) {dir : Path} (h : d.mkdir dir = some d') :
    Settled d' file ∧ d'.content file = d.content file := by
  unfold Disk.mkdir at h
  split at h
  · obtain rfl := Option.some.inj h
    exact ⟨settled.forgotten rfl (Disk.file_of_update (n := some .directory) (by simp) · file), rfl⟩
  · obtain rfl := Option.some.inj h
    exact ⟨settled, rfl⟩
  · cases h

theorem Settled.openTruncate (settled : Settled d file) {f : Fetch} {x : Suffix} {out : ℕ}
    (h : d.openTruncate (part f.request x) = some (d', out)) :
    Settled d' file ∧ d'.content file = d.content file := by
  have old : file ≠ d.nextInode := Nat.ne_of_lt settled.allocated
  unfold Disk.openTruncate at h
  split at h
  · split at h
    · obtain ⟨rfl, rfl⟩ := Prod.mk.inj (Option.some.inj h)
      refine ⟨⟨Nat.lt_succ_of_lt settled.allocated, fun p hp => ?_⟩,
        Function.update_of_ne old _ _⟩
      change Function.update d.node (part f.request x) (some (.file d.nextInode)) p = _ at hp
      by_cases here : p = part f.request x
      · rw [here, Function.update_self] at hp
        obtain rfl := Node.file.inj (Option.some.inj hp)
        exact absurd rfl old
      · rw [Function.update_of_ne here] at hp
        exact settled.named p hp
    · rename_i i hi
      obtain ⟨rfl, rfl⟩ := Prod.mk.inj (Option.some.inj h)
      exact ⟨settled.forgotten rfl fun _ hp => hp,
        Function.update_of_ne (settled.not_part hi) _ _⟩
    · cases h
  · cases h

theorem Settled.tryRemove (settled : Settled d file) (p : Path) (done : Bool) :
    Settled (tryRemove d p done) file ∧ (tryRemove d p done).content file = d.content file := by
  unfold EnsureFile.tryRemove
  split
  · exact ⟨settled.forgotten rfl (Disk.file_of_update (n := none) (by simp) · file), rfl⟩
  · exact ⟨settled, rfl⟩

theorem Settled.rename (settled : Settled d file) {f : Fetch} {p : Path}
    (h : d.rename p (target f.request) = some d') :
    Settled d' file ∧ d'.content file = d.content file := by
  obtain ⟨-, rfl⟩ := Disk.rename_eq h
  refine ⟨⟨settled.allocated, fun q hq => ?_⟩, rfl⟩
  change (if q = target f.request then d.node p else if q = p then none else d.node q) = _ at hq
  split at hq
  · exact ⟨f, by assumption⟩
  · split at hq
    · cases hq
    · exact settled.named q hq

theorem Settled.moves (settled : Settled d file) {hash : Bytes → Bytes} {f : Fetch}
    {ph ph' : EnsureFile.Phase} {e : EnsureFile.Event}
    (h : Moves hash f.request d ph e d' ph') (sound : EnsureFile.Sound hash f.request d ph) :
    Settled d' file ∧ d'.content file = d.content file := by
  cases h with
  | mkdir hd => exact settled.mkdir hd
  | openOut hd => exact settled.openTruncate hd
  | write =>
    exact ⟨settled.forgotten rfl fun _ hp => hp,
      Function.update_of_ne (settled.not_part sound) _ _⟩
  | removeFailed | leave => exact settled.tryRemove _ _
  | rename hd => exact settled.rename hd
  | _ => exact ⟨settled, rfl⟩

end

section
variable {sha256 : Hash} {library : HuggingFace δ} {ort : OnnxRuntime α} {d d' : Disk}
  {file size : ℕ} {got : Bytes} {digest : String} {c : LoadSession.Call ModelId}
  {ph ph' : Phase α} {e : Event}

/-- What has been read so far of an open file, and that the file is the pinned one. -/
structure Reads (sha256 : Hash) (d : Disk) (file : ℕ) (got : Bytes) (digest : String) :
    Prop where
  settled : Settled d file
  front : got <+: d.content file
  pinned : hexDigest (sha256.bytes (d.content file)) = digest

theorem Reads.kept (h : Reads sha256 d file got digest)
    (same : Settled d' file ∧ d'.content file = d.content file) :
    Reads sha256 d' file got digest where
  settled := same.1
  front := same.2 ▸ h.front
  pinned := same.2 ▸ h.pinned

theorem reads_opened {f : Fetch}
    (verified : Verified sha256.bytes d (target f.request) (pin f.entry f.asset))
    (h : opened d (target f.request) = some file) :
    Reads sha256 d file [] (pin f.entry f.asset) where
  settled := settled_opened h
  front := List.nil_prefix
  pinned := by
    have node := opened_file h
    obtain ⟨bytes, read, matching⟩ := verified.holds (Disk.present_of_file node)
    rw [Disk.read_file node] at read
    rw [Option.some.inj read]
    exact matching

theorem Reads.more (h : Reads sha256 d file got digest) (size : ℕ) :
    Reads sha256 d file (got ++ chunk d file got.length size) digest where
  settled := h.settled
  front := by
    obtain ⟨rest, whole⟩ := h.front
    rw [chunk, ← whole, List.drop_left]
    exact (List.prefix_append_right_inj got).mpr (List.take_prefix size rest)
  pinned := h.pinned

theorem Reads.ended (h : Reads sha256 d file got digest) (asked : size ≠ 0)
    (nothing : chunk d file got.length size = []) : hexDigest (sha256.bytes got) = digest := by
  obtain ⟨rest, whole⟩ := h.front
  rw [chunk, ← whole, List.drop_left, List.take_eq_nil_iff] at nothing
  have all : got = d.content file := by
    rw [← whole, nothing.resolve_left asked, List.append_nil]
  rw [all]
  exact h.pinned

/-- The session is built from bytes with the digests that the registry pins. -/
structure FromPins (sha256 : Hash) (library : HuggingFace δ) (ort : OnnxRuntime α)
    (c : LoadSession.Call ModelId) (json graph : Bytes) (session : ModelSession ModelId α) :
    Prop where
  jsonPinned : hexDigest (sha256.bytes json) = c.entry.tokenizerSha256
  graphPinned : hexDigest (sha256.bytes graph) = c.entry.onnxSha256
  made : MadeOf library ort c.entry c.tokenizer.path json graph session
  provider : session.provider = c.provider
  precision : session.precision = c.precision

def Sound (sha256 : Hash) (library : HuggingFace δ) (ort : OnnxRuntime α)
    (c : LoadSession.Call ModelId) (d : Disk) : Phase α → Prop
  | .readingTokenizer file got => Reads sha256 d file got c.entry.tokenizerSha256
  | .openingGraph json => hexDigest (sha256.bytes json) = c.entry.tokenizerSha256
  | .readingGraph json file got => hexDigest (sha256.bytes json) = c.entry.tokenizerSha256 ∧
      Reads sha256 d file got c.entry.onnxSha256
  | .loaded json graph session => FromPins sha256 library ort c json graph session
  | .fetching _ | .openingTokenizer | .failed _ => True

theorem Sound.kept (h : Sound sha256 library ort c d ph)
    (same : ∀ file, Settled d file → Settled d' file ∧ d'.content file = d.content file) :
    Sound sha256 library ort c d' ph := by
  cases ph with
  | readingTokenizer file got => exact Reads.kept h (same file h.settled)
  | readingGraph json file got => exact ⟨h.1, h.2.kept (same file h.2.settled)⟩
  | fetching | openingTokenizer | openingGraph | loaded | failed => exact h

theorem sound_result {json graph : Bytes} {bytes : Except String Bytes}
    (tokenizer : hexDigest (sha256.bytes json) = c.entry.tokenizerSha256)
    (read : ∀ b, bytes = .ok b → b = graph ∧ hexDigest (sha256.bytes b) = c.entry.onnxSha256) :
    Sound sha256 library ort c d (result json graph (makeOrtSession library ort c.entry
      c.provider c.precision c.tokenizer.path (some json) bytes)) := by
  cases made : makeOrtSession library ort c.entry c.provider c.precision c.tokenizer.path
      (some json) bytes with
  | error status => trivial
  | ok session =>
    obtain ⟨json', b, same, hb, from_bytes, provider, precision⟩ := makeOrtSession_ok made
    obtain rfl := Option.some.inj same
    obtain ⟨rfl, pinned⟩ := read b hb
    exact ⟨tokenizer, pinned, from_bytes, provider, precision⟩

theorem sound_build (verified : ∀ f : Fetch,
      Verified sha256.bytes d (target f.request) (pin f.entry f.asset))
    (known : c.entry ∈ kRegistry) (h : build library ort c d ph e = some ph')
    (sound : Sound sha256 library ort c d ph) : Sound sha256 library ort c d ph' := by
  unfold build at h
  split at h
  · obtain rfl := Option.some.inj h
    split <;> trivial
  · obtain ⟨file, opens, rfl⟩ := Option.map_eq_some_iff.mp h
    let f : Fetch := ⟨c.entry, known, .tokenizer, c.vars, c.given⟩
    exact reads_opened (f := f) (verified f) opens
  · obtain rfl := Option.some.inj h
    trivial
  · rename_i file got size
    split at h
    · cases h
    · rename_i asked
      split at h
      · rename_i nothing
        obtain rfl := Option.some.inj h
        unfold tokenized
        split
        · exact Reads.ended sound asked nothing
        · trivial
      · obtain rfl := Option.some.inj h
        exact Reads.more sound size
  · obtain ⟨file, opens, rfl⟩ := Option.map_eq_some_iff.mp h
    let f : Fetch := ⟨c.entry, known, .graph, c.vars, c.given⟩
    exact ⟨sound, reads_opened (f := f) (verified f) opens⟩
  · obtain rfl := Option.some.inj h
    exact sound_result sound nofun
  · rename_i json file got size
    split at h
    · cases h
    · rename_i asked
      split at h
      · rename_i nothing
        obtain rfl := Option.some.inj h
        refine sound_result sound.1 fun b hb => ?_
        obtain rfl := Except.ok.inj hb
        exact ⟨rfl, sound.2.ended asked nothing⟩
      · obtain rfl := Option.some.inj h
        exact ⟨sound.1, sound.2.more size⟩
  · cases h

end

def Load.fetch (l : Load α) (asset : Asset) : Fetch :=
  ⟨l.call.entry, l.known, asset, l.call.vars, l.call.given⟩

/-- The call of `ensure_file` a load is in. -/
def Load.fetching (l : Load α) : Option SharedCache.Call :=
  match l.phase with
  | .fetching (.graph ph) => some ⟨l.fetch .graph, ph⟩
  | .fetching (.tokenizer ph) => some ⟨l.fetch .tokenizer, ph⟩
  | _ => none

def State.cache (s : State α) : SharedCache.State where
  disk := s.disk
  drawn := s.drawn
  calls := fun t => (s.loads t).bind Load.fetching

structure Inv (sha256 : Hash) (library : HuggingFace δ) (ort : OnnxRuntime α) (s : State α) :
    Prop where
  cache : SharedCache.Inv sha256.bytes s.cache
  sound : ∀ t l, s.loads t = some l → Sound sha256 library ort l.call s.disk l.phase

section
variable {sha256 : Hash} {library : HuggingFace δ} {ort : OnnxRuntime α} {s s' : State α}
  {t : Thread} {l : Load α} {d d' : Disk} {e : Event} {ph ph' : Phase α}

theorem stepLoad_cases {c : LoadSession.Call ModelId}
    (h : stepLoad sha256 library ort c d ph e = some (d', ph')) :
    (∃ p e' u, ph = .fetching p ∧ e = .file e' ∧
      LoadSession.step sha256 c ⟨d, p⟩ (.own e') = some u ∧ d' = u.disk ∧
        ph' = .fetching u.phase) ∨
    (d' = d ∧ e.drawn = [] ∧ build library ort c d ph e = some ph') := by
  unfold stepLoad at h
  split at h
  · rename_i p e'
    obtain ⟨u, hu, same⟩ := Option.map_eq_some_iff.mp h
    obtain ⟨rfl, rfl⟩ := Prod.mk.inj same
    exact .inl ⟨p, e', u, rfl, rfl, hu, rfl, rfl⟩
  · obtain ⟨p, hb, same⟩ := Option.map_eq_some_iff.mp h
    obtain ⟨rfl, rfl⟩ := Prod.mk.inj same
    refine .inr ⟨rfl, ?_, hb⟩
    cases e with
    | file e' =>
      cases ph with
      | fetching p => cases p <;> cases hb
      | _ => cases hb
    | initOrt | openFile | openFails | read => rfl

/-- A step of `load_session` on its files is a step of `ensure_file`. Then the load goes
    on with that call, starts the next one, or has none. -/
theorem fetch_moves {p : LoadSession.Phase} {e : EnsureFile.Event} {u : LoadSession.State}
    (hp : l.phase = .fetching p)
    (h : LoadSession.step sha256 l.call ⟨d, p⟩ (.own e) = some u) :
    ∃ asset q q', l.fetching = some ⟨l.fetch asset, q⟩ ∧
      Moves sha256.bytes (l.fetch asset).request d q e u.disk q' ∧
      ∀ call, ({ l with phase := .fetching u.phase } : Load α).fetching = some call →
        call = ⟨l.fetch asset, q'⟩ ∨ call.phase = .called := by
  unfold LoadSession.step at h
  dsimp only at h
  split at h
  · rename_i q
    obtain ⟨⟨d', q'⟩, moves, rfl⟩ := Option.map_eq_some_iff.mp h
    refine ⟨.graph, q, q', by rw [Load.fetching, hp], advance_moves moves, fun call hcall => ?_⟩
    unfold Load.fetching LoadSession.afterGraph at hcall
    cases q' with
    | returned status =>
      by_cases ok : status.ok = true
      · simp only [ok, if_true, Option.some.injEq] at hcall
        exact .inr (hcall ▸ rfl)
      · simp only [ok, Bool.false_eq_true, if_false, reduceCtorEq] at hcall
    | threw => cases hcall
    | _ => exact .inl (Option.some.inj hcall).symm
  · rename_i q
    obtain ⟨⟨d', q'⟩, moves, rfl⟩ := Option.map_eq_some_iff.mp h
    refine ⟨.tokenizer, q, q', by rw [Load.fetching, hp], advance_moves moves,
      fun call hcall => ?_⟩
    unfold Load.fetching LoadSession.afterTokenizer at hcall
    cases q' with
    | returned status =>
      by_cases ok : status.ok = true
      · simp only [ok, if_true, reduceCtorEq] at hcall
      · simp only [ok, Bool.false_eq_true, if_false, reduceCtorEq] at hcall
    | threw => cases hcall
    | _ => exact .inl (Option.some.inj hcall).symm
  · cases h

theorem build_fetching {c : LoadSession.Call ModelId}
    (h : build library ort c d ph e = some ph') {known : c.entry ∈ kRegistry} :
    Load.fetching ⟨c, known, ph'⟩ = none := by
  unfold build at h
  split at h
  · obtain rfl := Option.some.inj h
    split <;> rfl
  · obtain ⟨file, -, rfl⟩ := Option.map_eq_some_iff.mp h
    rfl
  · obtain rfl := Option.some.inj h
    rfl
  · split at h
    · cases h
    · split at h
      · obtain rfl := Option.some.inj h
        unfold tokenized
        split <;> rfl
      · obtain rfl := Option.some.inj h
        rfl
  · obtain ⟨file, -, rfl⟩ := Option.map_eq_some_iff.mp h
    rfl
  · obtain rfl := Option.some.inj h
    unfold result
    split <;> rfl
  · split at h
    · cases h
    · split at h
      · obtain rfl := Option.some.inj h
        unfold result
        split <;> rfl
      · obtain rfl := Option.some.inj h
        rfl
  · cases h

theorem Inv.fetched (hi : Inv sha256 library ort s) (ht : s.loads t = some l)
    {p : LoadSession.Phase} {e : EnsureFile.Event} {u : LoadSession.State}
    (hp : l.phase = .fetching p) (fresh : s.cache.fresh e = true)
    (h : LoadSession.step sha256 l.call ⟨s.disk, p⟩ (.own e) = some u) :
    Inv sha256 library ort
      { disk := u.disk
        drawn := e.drawn ++ s.drawn
        loads := Function.update s.loads t (some { l with phase := .fetching u.phase }) } := by
  obtain ⟨asset, q, q', fetching, moves, after⟩ := fetch_moves hp h
  have call : s.cache.calls t = some ⟨l.fetch asset, q⟩ := by
    change (s.loads t).bind Load.fetching = _
    rw [ht]
    exact fetching
  constructor
  · refine (hi.cache.moved call fresh moves).recall fun v c hv => ?_
    change (Function.update s.loads t _ v).bind Load.fetching = some c at hv
    by_cases here : v = t
    · rw [here, Function.update_self] at hv
      rcases after c hv with rfl | called
      · exact .inl (by rw [here]; exact Function.update_self ..)
      · exact .inr called
    · rw [Function.update_of_ne here] at hv
      left
      change Function.update s.cache.calls t _ v = some c
      rw [Function.update_of_ne here]
      exact hv
  · intro v l' hv
    by_cases here : v = t
    · rw [here] at hv
      obtain rfl := Option.some.inj ((Function.update_self _ _ s.loads).symm.trans hv)
      trivial
    · have old : s.loads v = some l' := (Function.update_of_ne here _ _).symm.trans hv
      exact (hi.sound v l' old).kept fun file settled =>
        settled.moves moves (hi.cache.sound t _ call)

theorem Inv.built (hi : Inv sha256 library ort s) (ht : s.loads t = some l)
    (h : build library ort l.call s.disk l.phase e = some ph') :
    Inv sha256 library ort
      { s with loads := Function.update s.loads t (some { l with phase := ph' }) } := by
  constructor
  · refine hi.cache.recall fun v c hv => .inl ?_
    change (Function.update s.loads t _ v).bind Load.fetching = some c at hv
    by_cases here : v = t
    · rw [here, Function.update_self] at hv
      rw [Option.bind_some, build_fetching h] at hv
      cases hv
    · rw [Function.update_of_ne here] at hv
      exact hv
  · intro v l' hv
    by_cases here : v = t
    · rw [here] at hv
      obtain rfl := Option.some.inj ((Function.update_self _ _ s.loads).symm.trans hv)
      exact sound_build hi.cache.verified l.known h (hi.sound t l ht)
    · exact hi.sound v l' ((Function.update_of_ne here _ _).symm.trans hv)

theorem begin_called {c : LoadSession.Call ModelId} {known : c.entry ∈ kRegistry}
    {call : SharedCache.Call}
    (h : Load.fetching (⟨c, known, .fetching c.begin⟩ : Load α) = some call) :
    call.phase = .called := by
  unfold Load.fetching LoadSession.Call.begin at h
  dsimp only at h
  split_ifs at h
  cases h
  rfl

theorem inv_step (s : State α) (a : Action) (s' : State α) (hi : Inv sha256 library ort s)
    (h : step sha256 library ort s a = some s') : Inv sha256 library ort s' := by
  cases a with
  | start t c known =>
    unfold step at h
    dsimp only at h
    split at h
    · obtain rfl := Option.some.inj h
      constructor
      · refine hi.cache.recall fun v call hv => ?_
        change (Function.update s.loads t _ v).bind Load.fetching = some call at hv
        by_cases here : v = t
        · rw [here, Function.update_self] at hv
          exact .inr (begin_called hv)
        · rw [Function.update_of_ne here] at hv
          exact .inl hv
      · intro v l hv
        by_cases here : v = t
        · rw [here] at hv
          obtain rfl := Option.some.inj ((Function.update_self _ _ s.loads).symm.trans hv)
          trivial
        · exact hi.sound v l ((Function.update_of_ne here _ _).symm.trans hv)
    · cases h
  | advance t e =>
    obtain ⟨l, ht, h⟩ := Option.bind_eq_some_iff.mp h
    split at h
    · rename_i fresh
      obtain ⟨⟨d', ph'⟩, moved, rfl⟩ := Option.map_eq_some_iff.mp h
      rcases stepLoad_cases moved with ⟨p, e', u, hp, rfl, hu, rfl, rfl⟩ | ⟨rfl, none, hb⟩
      · exact hi.fetched ht hp fresh hu
      · rw [none]
        exact hi.built ht hb
    · cases h
  | crash process =>
    obtain rfl := Option.some.inj h
    constructor
    · refine hi.cache.recall fun v call hv => .inl ?_
      change (if v.process = process then none else s.loads v).bind Load.fetching = _ at hv
      split at hv
      · cases hv
      · exact hv
    · intro v l hv
      change (if v.process = process then none else s.loads v) = some l at hv
      split at hv
      · cases hv
      · exact hi.sound v l hv

/-- No load is running and no model file is there. Anything else may be. -/
structure Initial (s : State α) : Prop where
  idle : ∀ t, s.loads t = none
  empty : ∀ f : Fetch, s.disk.node (target f.request) = none

theorem Initial.inv (h : Initial s) : Inv sha256 library ort s where
  cache := by
    refine SharedCache.Initial.inv ⟨fun t => ?_, h.empty⟩
    change (s.loads t).bind Load.fetching = none
    rw [h.idle t]
    rfl
  sound := fun t l hl => by
    rw [h.idle t] at hl
    cases hl

end

section
variable {sha256 : Hash} {library : HuggingFace δ} {ort : OnnxRuntime α}
  {c : LoadSession.Call ModelId} {ph ph' : Phase α} {e : Event}

/-- Where a load has ended without a session, its status is not Ok. -/
def Honest (entry : RegistryEntry ModelId) : Phase α → Prop
  | .fetching phase => LoadSession.Passed entry phase
  | .failed status => status.ok = false
  | .openingTokenizer | .readingTokenizer _ _ | .openingGraph _ | .readingGraph _ _ _
  | .loaded _ _ _ => True

theorem honest_tokenized (json : Bytes) {made : Except Status Tokenizer}
    (fails : ∀ status, made = .error status → status.ok = false) :
    Honest c.entry (tokenized json made : Phase α) := by
  cases made with
  | ok _ => trivial
  | error status => exact fails status rfl

theorem honest_result (json graph : Bytes) {made : Except Status (ModelSession ModelId α)}
    (fails : ∀ status, made = .error status → status.ok = false) :
    Honest c.entry (result json graph made) := by
  cases made with
  | ok _ => trivial
  | error status => exact fails status rfl

theorem honest_build {d : Disk} (h : build library ort c d ph e = some ph') :
    Honest c.entry ph' := by
  unfold build at h
  split at h
  · obtain rfl := Option.some.inj h
    split
    · trivial
    · rename_i missing
      exact eq_false_of_ne_true missing
  · obtain ⟨file, -, rfl⟩ := Option.map_eq_some_iff.mp h
    trivial
  · obtain rfl := Option.some.inj h
    rfl
  · split at h
    · cases h
    · split at h
      · obtain rfl := Option.some.inj h
        exact honest_tokenized _ fun _ => Tokenizer.load_error
      · obtain rfl := Option.some.inj h
        trivial
  · obtain ⟨file, -, rfl⟩ := Option.map_eq_some_iff.mp h
    trivial
  · obtain rfl := Option.some.inj h
    exact honest_result _ _ fun _ => makeOrtSession_error
  · split at h
    · cases h
    · split at h
      · obtain rfl := Option.some.inj h
        exact honest_result _ _ fun _ => makeOrtSession_error
      · obtain rfl := Option.some.inj h
        trivial
  · cases h

theorem honest_stepLoad {d d' : Disk} (honest : Honest c.entry ph)
    (h : stepLoad sha256 library ort c d ph e = some (d', ph')) : Honest c.entry ph' := by
  rcases stepLoad_cases h with ⟨p, e', u, rfl, rfl, moved, rfl, rfl⟩ | ⟨-, -, built⟩
  · exact LoadSession.step_passed (s := ⟨d, p⟩) honest moved
  · exact honest_build built

theorem step_loads {s s' : State α} {a : Action} (h : step sha256 library ort s a = some s')
    {t : Thread} {l' : Load α} (ht : s'.loads t = some l') :
    s.loads t = some l' ∨
      (∃ call known, a = .start t call known ∧ l' = ⟨call, known, .fetching call.begin⟩) ∨
      ∃ l e d, a = .advance t e ∧ s.loads t = some l ∧ l'.call = l.call ∧
        stepLoad sha256 library ort l.call s.disk l.phase e = some (d, l'.phase) := by
  cases a with
  | start v call known =>
    unfold step at h
    dsimp only at h
    split at h
    · obtain rfl := Option.some.inj h
      by_cases same : t = v
      · subst same
        obtain rfl := Option.some.inj ((Function.update_self _ _ s.loads).symm.trans ht)
        exact .inr (.inl ⟨call, known, rfl, rfl⟩)
      · exact .inl ((Function.update_of_ne same _ _).symm.trans ht)
    · cases h
  | advance v e =>
    obtain ⟨l, hl, h⟩ := Option.bind_eq_some_iff.mp h
    split at h
    · obtain ⟨⟨d, ph⟩, moved, rfl⟩ := Option.map_eq_some_iff.mp h
      by_cases same : t = v
      · subst same
        obtain rfl := Option.some.inj ((Function.update_self _ _ s.loads).symm.trans ht)
        exact .inr (.inr ⟨l, e, d, rfl, hl, rfl, moved⟩)
      · exact .inl ((Function.update_of_ne same _ _).symm.trans ht)
    · cases h
  | crash process =>
    obtain rfl := Option.some.inj h
    change (if t.process = process then none else s.loads t) = some l' at ht
    split at ht
    · cases ht
    · exact .inl ht

end
end CyborgdbEmbed.VerifiedLoads

import CyborgdbEmbed.CacheSafety

set_option autoImplicit false

namespace CyborgdbEmbed.LoadSession
open FileSystem Resolve EnsureFile TransitionSystem

abbrev Hash := Bytes → {raw : Bytes // raw.length = 32}

def Hash.bytes (sha256 : Hash) (data : Bytes) : Bytes := (sha256 data).1

inductive Phase where
  | graph (phase : EnsureFile.Phase)
  | tokenizer (phase : EnsureFile.Phase)
  | ready
  | returned (status : Status)
  | threw

structure Call (ι : Type) where
  entry : RegistryEntry ι
  provider : Provider
  precision : Precision
  vars : Env
  given : CacheConfig

variable {ι : Type}

def Call.graph (c : Call ι) : FileRequest := ensureGraph c.vars c.entry c.given

def Call.tokenizer (c : Call ι) : FileRequest := ensureTokenizer c.vars c.entry c.given

def Call.begin (c : Call ι) : Phase :=
  if !precisionAvailable c.entry.info.id c.precision then
    .returned ⟨.precisionUnavailable, "only fp32 is supported for this model"⟩
  else if !providerAvailable c.provider then
    .returned ⟨.providerUnavailable, "provider is not available in this build"⟩
  else if c.entry.info.revision = "" ∨ c.entry.onnxSha256 = "" then
    .returned ⟨.modelLoadFailed,
      c.entry.info.name ++ " has no pinned revision or digest; run the registry pin job"⟩
  else .graph .called

structure State where
  disk : Disk
  phase : Phase

inductive Action where
  | own (e : Event)
  -- other threads and processes may leave any disk behind
  | others (disk : Disk)

def afterGraph : EnsureFile.Phase → Phase
  | .returned status => if status.ok then .tokenizer .called else .returned status
  | .threw => .threw
  | phase => .graph phase

def afterTokenizer : EnsureFile.Phase → Phase
  | .returned status => if status.ok then .ready else .returned status
  | .threw => .threw
  | phase => .tokenizer phase

def step (sha256 : Hash) (c : Call ι) (s : State) : Action → Option State
  | .others disk => some { s with disk := disk }
  | .own e =>
    match s.phase with
    | .graph phase => (advance sha256.bytes c.graph s.disk phase e).map fun (disk, phase) =>
      ⟨disk, afterGraph phase⟩
    | .tokenizer phase => (advance sha256.bytes c.tokenizer s.disk phase e).map fun (disk, phase) =>
      ⟨disk, afterTokenizer phase⟩
    | _ => none

inductive Outcome where
  | returned (status : Status)
  | threw

/-- What `init_ort` and `make_ort_session` answer. -/
structure Runtime where
  initOrt : Status
  makeOrtSession : (graph tokenizerJson : String) → Outcome

def finish (c : Call ι) (runtime : Runtime) : Phase → Option Outcome
  | .ready => some (if runtime.initOrt.ok then
      runtime.makeOrtSession c.graph.path c.tokenizer.path else .returned runtime.initOrt)
  | .returned status => some (.returned status)
  | .threw => some .threw
  | .graph _ | .tokenizer _ => none

structure Pinned (entry : RegistryEntry ι) : Prop where
  revision : entry.info.revision ≠ ""
  onnxSha256 : entry.onnxSha256 ≠ ""
  tokenizerSha256 : entry.tokenizerSha256 ≠ ""

def LoadsPinned (c : Call ι) (s : State) : Prop :=
  ∀ runtime status, finish c runtime s.phase = some (.returned status) → status.ok = true →
    Pinned c.entry

/-- The tokenizer is already in the cache, and there is no digest to compare it with. -/
def TakesUnpinned (c : Call ι) (s : State) (a : Action) : Prop :=
  s.phase = .tokenizer .called ∧ a = .own .stat ∧
    s.disk.present (target c.tokenizer) = true ∧ c.entry.tokenizerSha256 = ""

theorem hexDigest_ne (sha256 : Hash) (data : Bytes) : hexDigest (sha256.bytes data) ≠ "" := by
  have long : (sha256.bytes data).length = 32 := (sha256 data).2
  unfold hexDigest
  cases digest : sha256.bytes data with
  | nil =>
    rw [digest] at long
    cases long
  | cons b raw =>
    rw [List.flatMap_cons]
    intro h
    have := congrArg String.toList h
    rw [String.toList_ofList] at this
    cases this

def Blocked : EnsureFile.Phase → Prop
  | .comparing _ digest => digest ≠ ""
  | .finalising _ => False
  | .failed _ _ result => result.status.ok = false
  | .leaving _ status | .returned status => status.ok = false
  | _ => True

theorem blocked_afterAttempt (suffix : Suffix) (attempt : ℕ) (result : Attempt) :
    Blocked (afterAttempt suffix attempt result) := by
  unfold afterAttempt
  split
  · split
    · trivial
    · rename_i failed
      exact eq_false_of_ne_true failed
  · trivial

theorem blocked_afterRead (sha256 : Hash) (suffix : Suffix) (file : ℕ) (hashed chunk : Bytes) :
    Blocked (afterRead sha256.bytes suffix file hashed chunk) := by
  unfold afterRead
  split
  · trivial
  · exact hexDigest_ne sha256 _

def Finds (req : FileRequest) (d : Disk) (ph : EnsureFile.Phase) (e : Event) : Prop :=
  ph = .called ∧ e = .stat ∧ d.present (target req) = true

section
variable {sha256 : Hash} {req : FileRequest} {d d' : Disk} {ph ph' : EnsureFile.Phase} {e : Event}

theorem finds_moves (h : Moves sha256.bytes req d ph e d' ph') (found : Finds req d ph e) :
    ph' = .returned {} := by
  obtain ⟨rfl, rfl, there⟩ := found
  cases h
  exact if_pos there

theorem blocked_moves (h : Moves sha256.bytes req d ph e d' ph') (unpinned : req.expected = "")
    (missing : ¬ Finds req d ph e) (blocked : Blocked ph) : Blocked ph' := by
  cases h with
  | stat =>
    unfold afterStat
    split
    · rename_i there
      exact absurd ⟨rfl, rfl, there⟩ missing
    · split
      · rfl
      · trivial
  | statThrows | mkdir | draw | openOut | write | wake | openIn => trivial
  | mkdirFails | openInFails | renameFails | performFailed => rfl
  | notStarted | performed | removeFailed => exact blocked_afterAttempt _ _ _
  | readIn => exact blocked_afterRead ..
  | @compare suffix digest =>
    have differs : digest ≠ "" := blocked
    unfold afterCompare
    rw [unpinned, if_pos differs]
    rfl
  | rename => exact blocked.elim
  | leave => exact blocked

end

structure ChecksPassed (entry : RegistryEntry ι) : Prop where
  revision : entry.info.revision ≠ ""
  onnxSha256 : entry.onnxSha256 ≠ ""

def Passed (entry : RegistryEntry ι) : Phase → Prop
  | .graph _ | .ready => ChecksPassed entry
  | .tokenizer phase => ChecksPassed entry ∧ (entry.tokenizerSha256 = "" → Blocked phase)
  | .returned status => status.ok = false
  | .threw => True

theorem passed_begin (c : Call ι) : Passed c.entry c.begin := by
  unfold Call.begin
  split
  · rfl
  · split
    · rfl
    · split
      · rfl
      · rename_i pinned
        rw [not_or] at pinned
        exact ⟨pinned.1, pinned.2⟩

theorem passed_afterGraph {entry : RegistryEntry ι} (checks : ChecksPassed entry)
    (phase : EnsureFile.Phase) : Passed entry (afterGraph phase) := by
  unfold afterGraph
  split
  · split
    · exact ⟨checks, fun _ => trivial⟩
    · rename_i failed
      exact eq_false_of_ne_true failed
  · trivial
  · exact checks

theorem passed_afterTokenizer {entry : RegistryEntry ι} (checks : ChecksPassed entry)
    {phase : EnsureFile.Phase} (blocked : phase ≠ .returned {} → entry.tokenizerSha256 = "" →
      Blocked phase) : Passed entry (afterTokenizer phase) := by
  unfold afterTokenizer
  split
  · split
    · exact checks
    · rename_i failed
      exact eq_false_of_ne_true failed
  · trivial
  · rename_i inside _
    exact ⟨checks, blocked (inside {})⟩

theorem blocked_not_ready {phase : EnsureFile.Phase} (blocked : Blocked phase) :
    afterTokenizer phase ≠ .ready := by
  cases phase with
  | returned status =>
    have failed : status.ok = false := blocked
    change (if status.ok = true then Phase.ready else .returned status) ≠ .ready
    rw [failed]
    nofun
  | _ => nofun

/-- Whether the answer can be Ok without a digest is decided when the files are there. -/
theorem loadsPinned_iff {c : Call ι} {s : State} (passed : Passed c.entry s.phase) :
    LoadsPinned c s ↔ (s.phase = .ready → c.entry.tokenizerSha256 ≠ "") := by
  unfold LoadsPinned
  constructor
  · intro pinned ready
    rw [ready] at pinned
    exact (pinned ⟨{}, fun _ _ => .returned {}⟩ {} rfl rfl).tokenizerSha256
  · intro pinned runtime status ends ok
    cases phase : s.phase with
    | ready =>
      rw [phase] at passed
      exact ⟨passed.revision, passed.onnxSha256, pinned phase⟩
    | returned status' =>
      rw [phase] at passed ends
      obtain rfl : status' = status := by
        injection Option.some.inj ends
      exact absurd ok (Bool.eq_false_iff.mp passed)
    | graph _ | tokenizer _ | threw =>
      rw [phase] at ends
      cases ends

variable {sha256 : Hash} {c : Call ι} {s u : State} {a : Action}

theorem step_passed (passed : Passed c.entry s.phase) (h : step sha256 c s a = some u) :
    Passed c.entry u.phase := by
  cases a with
  | others disk =>
    obtain rfl := Option.some.inj h
    exact passed
  | own e =>
    unfold step at h
    cases phase : s.phase with
    | graph ph =>
      rw [phase] at h passed
      obtain ⟨⟨d, ph'⟩, -, rfl⟩ := Option.map_eq_some_iff.mp h
      exact passed_afterGraph passed ph'
    | tokenizer ph =>
      rw [phase] at h passed
      obtain ⟨⟨d, ph'⟩, moved, rfl⟩ := Option.map_eq_some_iff.mp h
      have moves := advance_moves moved
      refine passed_afterTokenizer passed.1 fun inside unpinned => ?_
      exact blocked_moves moves unpinned (mt (finds_moves moves) inside) (passed.2 unpinned)
    | ready | returned _ | threw =>
      rw [phase] at h
      cases h

theorem step_loadsPinned (passed : Passed c.entry s.phase) (before : LoadsPinned c s)
    (h : step sha256 c s a = some u) : LoadsPinned c u ↔ ¬ TakesUnpinned c s a := by
  rw [loadsPinned_iff passed] at before
  rw [loadsPinned_iff (step_passed passed h)]
  cases a with
  | others disk =>
    obtain rfl := Option.some.inj h
    exact iff_of_true before fun takes => nomatch takes.2.1
  | own e =>
    unfold step at h
    cases phase : s.phase with
    | graph ph =>
      rw [phase] at h
      obtain ⟨⟨d, ph'⟩, -, rfl⟩ := Option.map_eq_some_iff.mp h
      refine iff_of_true (fun ready => ?_) fun takes => ?_
      · unfold afterGraph at ready
        dsimp only at ready
        split at ready
        · split at ready <;> cases ready
        · cases ready
        · cases ready
      · rw [takes.1] at phase
        cases phase
    | tokenizer ph =>
      rw [phase] at h passed
      obtain ⟨⟨d, ph'⟩, moved, rfl⟩ := Option.map_eq_some_iff.mp h
      have moves := advance_moves moved
      by_cases unpinned : c.entry.tokenizerSha256 = ""
      · by_cases found : Finds c.tokenizer s.disk ph e
        · rw [finds_moves moves found]
          obtain ⟨rfl, rfl, there⟩ := found
          exact iff_of_false (fun pinned => pinned rfl unpinned)
            (not_not.mpr ⟨phase, rfl, there, unpinned⟩)
        · have blocked := blocked_moves moves unpinned found (passed.2 unpinned)
          refine iff_of_true (fun ready => absurd ready (blocked_not_ready blocked)) ?_
          rintro ⟨called, stat, there, -⟩
          refine found ⟨?_, ?_, there⟩
          · rw [called] at phase
            injection phase with same
            exact same.symm
          · injection stat
      · exact iff_of_true (fun _ => unpinned) fun takes => unpinned takes.2.2.2
    | ready | returned _ | threw =>
      rw [phase] at h
      cases h

/-- A call returns Ok without a pin only where it finds the tokenizer in the cache. -/
theorem allStates_loadsPinned (sha256 : Hash) (c : Call ι) (cache : Disk) (as : List Action) :
    AllStates (step sha256 c) (LoadsPinned c) ⟨cache, c.begin⟩ as ↔
      AllSteps (step sha256 c) (fun s a => ¬ TakesUnpinned c s a) ⟨cache, c.begin⟩ as := by
  refine allStates_iff_allSteps (I := fun s => Passed c.entry s.phase)
    (fun s a u => step_passed) (fun s a u => step_loadsPinned) (passed_begin c) ?_
  rw [loadsPinned_iff (passed_begin c)]
  intro ready
  unfold Call.begin at ready
  dsimp only at ready
  split_ifs at ready

def unpinned : RegistryEntry ModelId := { bgeSmallEnV15 with tokenizerSha256 := "" }

def unpinnedCall : Call ModelId where
  entry := unpinned
  provider := .cpu
  precision := .fp32
  vars := fun _ => none
  given := { cacheDir := "/cache" }

def cached : Disk :=
  (((parent unpinnedCall.graph).inits.foldl Disk.makeDirectory SharedCache.emptyDisk).create
    (target unpinnedCall.graph)).create (target unpinnedCall.tokenizer)

theorem present_create (d : Disk) (p q : Path) :
    (d.create p).present q = true ↔ q = p ∨ d.present q = true := by
  unfold Disk.create Disk.present
  by_cases h : q = p
  · simp [h]
  · simp [h]

theorem cached_loads : ¬ AllStates (step (fun _ => ⟨List.replicate 32 0, rfl⟩) unpinnedCall)
    (LoadsPinned unpinnedCall) ⟨cached, unpinnedCall.begin⟩ [.own .stat, .own .stat] := by
  have graph : afterStat unpinnedCall.graph cached = .returned {} := if_pos <|
    (present_create ..).mpr (.inr ((present_create ..).mpr (.inl rfl)))
  have tokenizer : afterStat unpinnedCall.tokenizer cached = .returned {} := if_pos <|
    (present_create ..).mpr (.inl rfl)
  have started : unpinnedCall.begin = .graph .called := rfl
  have first : step (fun _ => ⟨List.replicate 32 0, rfl⟩) unpinnedCall
      ⟨cached, unpinnedCall.begin⟩ (.own .stat) = some ⟨cached, .tokenizer .called⟩ := by
    unfold step
    rw [started]
    dsimp only
    rw [advance, graph]
    rfl
  have second : step (fun _ => ⟨List.replicate 32 0, rfl⟩) unpinnedCall
      ⟨cached, .tokenizer .called⟩ (.own .stat) = some ⟨cached, .ready⟩ := by
    unfold step
    dsimp only
    rw [advance, tokenizer]
    rfl
  intro all
  have last : LoadsPinned unpinnedCall ⟨cached, .ready⟩ := ((all.2 _ first).2 _ second).head
  exact (last ⟨{}, fun _ _ => .returned {}⟩ {} rfl rfl).tokenizerSha256 rfl

end CyborgdbEmbed.LoadSession

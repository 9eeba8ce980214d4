import CyborgdbEmbed.Embedder
import CyborgdbEmbed.ModelLookup
import CyborgdbEmbed.SessionStoreHandles

set_option autoImplicit false

/-!
# The models a process has open

`open` over the session store and the shared cache together. The load of a call goes by the
call's number in process 0. Other processes may load into the same cache between any two
steps, and die.
-/
namespace CyborgdbEmbed.OpenedModels
open FileSystem TransitionSystem VerifiedLoads
open SessionStore (CallId EmbedderId)
open LoadSession (Hash)

structure Options where
  provider : Provider := .cpu
  precision : Precision := .fp32

/-- A session that has been loaded, with the files it was made from. -/
structure Built (α : Type) where
  call : LoadSession.Call ModelId
  json : Bytes
  graph : Bytes
  session : ModelSession ModelId α

def Built.recorded {α : Type} (b : Built α) : SessionStore.Session :=
  ⟨b.session.entry, b.session.provider, b.session.precision⟩

structure State (α : Type) where
  store : SessionStore.State := SessionStore.initial
  files : VerifiedLoads.State α
  sessions : CallId → Option (Built α) := fun _ => none

inductive Action where
  -- a call of `open` comes as far as `acquire`, or returns at once
  | opens (id : ModelId) (options : Options) (out : EmbedderId)
  -- a call goes on, an embedder is made, copied or destroyed, the cache is configured
  | goes (a : SessionStore.Action)
  -- a call enters `load_session`, with these environment variables
  | loadSession (c : CallId) (vars : Resolve.Env)
  -- a load goes on, or another process does something
  | files (a : VerifiedLoads.Action)
  -- `load_session` returns to the call, or throws
  | loaded (c : CallId)

def self : ℕ := 0

def thread (c : CallId) : SharedCache.Thread := ⟨self, c⟩

/-- This process starts loads only from its calls, and is watched while it lives. -/
def allowed : VerifiedLoads.Action → Bool
  | .start t _ _ => t.process != self
  | .advance _ _ => true
  | .crash process => process != self

def ending {α : Type} (l : Load α) : Option (SessionStore.LoadOutcome × Option (Built α)) :=
  match l.phase with
  | .loaded json graph session => some (.returned {}, some ⟨l.call, json, graph, session⟩)
  | .failed status | .fetching (.returned status) => some (.returned status, none)
  | .fetching .threw => some (.threw, none)
  | _ => none

def keep {α : Type} (sessions : CallId → Option (Built α)) (c : CallId) :
    Option (Built α) → CallId → Option (Built α)
  | some b => Function.update sessions c (some b)
  | none => sessions

section
variable {δ α : Type} (sha256 : Hash) (library : HuggingFace δ) (ort : OnnxRuntime α)

def step (s : State α) : Action → Option (State α)
  | .opens id options out =>
    match ModelLookup.find kRegistry id with
    | none => some s
    | some entry =>
      (SessionStore.step s.store (.start entry options.provider options.precision out)).map
        fun store => { s with store }
  | .goes a =>
    if a.starts || a.ofLoad then none
    else (SessionStore.step s.store a).map fun store => { s with store }
  | .loadSession c vars => (s.store.calls c).bind fun call =>
    match call.phase with
    | .loading config =>
      -- an entry is a row of the table, and a call loads once
      if known : call.entry ∈ kRegistry then
        if (s.files.loads (thread c)).isSome then none
        else (VerifiedLoads.step sha256 library ort s.files (.start (thread c)
          ⟨call.entry, call.provider, call.precision, vars, config⟩ known)).map
            fun files => { s with files }
      else none
    | _ => none
  | .files a =>
    if allowed a then
      (VerifiedLoads.step sha256 library ort s.files a).map fun files => { s with files }
    else none
  | .loaded c =>
    ((s.files.loads (thread c)).bind ending).bind fun (outcome, built) =>
      (SessionStore.step s.store (.load c outcome)).map fun store =>
        { s with store, sessions := keep s.sessions c built }

/-- The session of a call is made of the pinned files of its model. -/
structure MadeFor (b : Built α) (x : SessionStore.Session) : Prop where
  known : x.entry ∈ kRegistry
  pins : FromPins sha256 library ort b.call b.json b.graph b.session
  recorded : b.recorded = x

def LoadsFor (store : SessionStore.State) (c : CallId) (asked : LoadSession.Call ModelId) :
    Prop :=
  (store.calls c).map SessionStore.Call.wants =
    some ⟨asked.entry, asked.provider, asked.precision⟩

structure Inv (s : State α) : Prop where
  store : SessionStore.Reachable s.store
  files : VerifiedLoads.Inv sha256 library ort s.files
  known : ∀ c call, s.store.calls c = some call → call.entry ∈ kRegistry
  loads : ∀ c l, s.files.loads (thread c) = some l → LoadsFor s.store c l.call
  honest : ∀ c l, s.files.loads (thread c) = some l → Honest l.call.entry l.phase
  sessions : ∀ c x, s.store.sessions c = some x →
    ∃ b, s.sessions c = some b ∧ MadeFor sha256 library ort b x

structure Initial (s : State α) : Prop where
  store : s.store = SessionStore.initial
  files : VerifiedLoads.Initial s.files

end

section
variable {δ α : Type} {sha256 : Hash} {library : HuggingFace δ} {ort : OnnxRuntime α}
  {s s' : State α} {store : SessionStore.State}

theorem LoadsFor.kept {c : CallId} {asked : LoadSession.Call ModelId}
    (h : LoadsFor s.store c asked)
    (wants : (store.calls c).map SessionStore.Call.wants =
      (s.store.calls c).map SessionStore.Call.wants) : LoadsFor store c asked :=
  wants.trans h

theorem Inv.wants_known (inv : Inv sha256 library ort s) {c : CallId} {x : SessionStore.Session}
    (h : (s.store.calls c).map SessionStore.Call.wants = some x) : x.entry ∈ kRegistry := by
  obtain ⟨call, hc, rfl⟩ := Option.map_eq_some_iff.mp h
  exact inv.known c call hc

theorem Inv.goes (inv : Inv sha256 library ort s) {a : SessionStore.Action}
    (running : a.starts = false) (outside : a.ofLoad = false)
    (h : SessionStore.step s.store a = some store) :
    Inv sha256 library ort { s with store } where
  store := inv.store.next h
  files := inv.files
  known := fun c call hc => by
    have wants := SessionStore.step_wants h running c
    rw [hc] at wants
    exact inv.wants_known wants.symm
  loads := fun c l hl => (inv.loads c l hl).kept (SessionStore.step_wants h running c)
  honest := inv.honest
  sessions := fun c x hx => by
    rw [SessionStore.step_sessions h outside] at hx
    exact inv.sessions c x hx

theorem Inv.opens (inv : Inv sha256 library ort s) {entry : RegistryEntry ModelId}
    {provider : Provider} {precision : Precision} {out : EmbedderId}
    (known : entry ∈ kRegistry)
    (h : SessionStore.step s.store (.start entry provider precision out) = some store) :
    Inv sha256 library ort { s with store } := by
  have reachable := inv.store.next h
  have sessions := SessionStore.step_sessions h rfl
  cases SessionStore.step_transition h with
  | start valid =>
    refine ⟨reachable, inv.files, fun c call hc => ?_, fun c l hl => ?_, inv.honest,
      inv.sessions⟩
    · by_cases new : c = s.store.next
      · subst new
        obtain rfl := Option.some.inj ((Function.update_self _ _ s.store.calls).symm.trans hc)
        exact known
      · exact inv.known c call ((Function.update_of_ne new _ _).symm.trans hc)
    · have loads := inv.loads c l hl
      obtain ⟨call, hc, -⟩ := Option.map_eq_some_iff.mp loads
      have old : c ≠ s.store.next := Nat.ne_of_lt (inv.store.inv.started c call hc)
      refine loads.kept ?_
      change ((Function.update s.store.calls s.store.next _) c).map _ = _
      rw [Function.update_of_ne old]

theorem Inv.moved (inv : Inv sha256 library ort s) {a : VerifiedLoads.Action}
    (allowed : allowed a = true) {files : VerifiedLoads.State α}
    (h : VerifiedLoads.step sha256 library ort s.files a = some files) :
    Inv sha256 library ort { s with files } := by
  have from_call (c : CallId) (l' : Load α) (hl : files.loads (thread c) = some l') :
      ∃ l, s.files.loads (thread c) = some l ∧ l'.call = l.call ∧
        Honest l'.call.entry l'.phase := by
    rcases step_loads h hl with same | ⟨call, known, rfl, -⟩ | ⟨l, e, d, -, old, same, moved⟩
    · exact ⟨l', same, rfl, inv.honest c l' same⟩
    · cases allowed
    · exact ⟨l, old, same, same ▸ honest_stepLoad (inv.honest c l old) moved⟩
  refine ⟨inv.store, VerifiedLoads.inv_step _ _ _ inv.files h, inv.known, fun c l' hl => ?_,
    fun c l' hl => ?_, inv.sessions⟩
  · obtain ⟨l, old, same, -⟩ := from_call c l' hl
    rw [same]
    exact inv.loads c l old
  · obtain ⟨l, -, -, honest⟩ := from_call c l' hl
    exact honest

theorem Inv.loadSession (inv : Inv sha256 library ort s) {c : CallId} {call : SessionStore.Call}
    {asked : LoadSession.Call ModelId} {known : asked.entry ∈ kRegistry}
    {files : VerifiedLoads.State α} (hc : s.store.calls c = some call)
    (wanted : call.wants = ⟨asked.entry, asked.provider, asked.precision⟩)
    (h : VerifiedLoads.step sha256 library ort s.files (.start (thread c) asked known) =
      some files) : Inv sha256 library ort { s with files } := by
  have begun (d : CallId) (l : Load α) (hl : files.loads (thread d) = some l) :
      s.files.loads (thread d) = some l ∨
        (d = c ∧ l = ⟨asked, known, .fetching asked.begin⟩) := by
    rcases step_loads h hl with same | ⟨asked', known', same, rfl⟩ | ⟨l', e, d', other, -⟩
    · exact .inl same
    · injection same with threads calls
      subst calls
      exact .inr ⟨congrArg SharedCache.Thread.index threads.symm, rfl⟩
    · cases other
  refine ⟨inv.store, VerifiedLoads.inv_step _ _ _ inv.files h, inv.known, fun d l hl => ?_,
    fun d l hl => ?_, inv.sessions⟩
  · rcases begun d l hl with old | ⟨rfl, rfl⟩
    · exact inv.loads d l old
    · change (s.store.calls d).map _ = _
      rw [hc, Option.map_some, wanted]
  · rcases begun d l hl with old | ⟨rfl, rfl⟩
    · exact inv.honest d l old
    · exact LoadSession.passed_begin asked

theorem ending_cases {l : Load α} {outcome : SessionStore.LoadOutcome}
    {built : Option (Built α)} (h : ending l = some (outcome, built)) :
    (∃ json graph session, l.phase = .loaded json graph session ∧ outcome = .returned {} ∧
      built = some ⟨l.call, json, graph, session⟩) ∨
    (built = none ∧ (Honest l.call.entry l.phase →
      ∀ status, outcome = .returned status → status.ok = false)) := by
  unfold ending at h
  split at h
  · rename_i json graph session done
    obtain ⟨rfl, rfl⟩ := Prod.mk.inj (Option.some.inj h)
    exact .inl ⟨json, graph, session, done, rfl, rfl⟩
  · rename_i status done
    obtain ⟨rfl, rfl⟩ := Prod.mk.inj (Option.some.inj h)
    refine .inr ⟨rfl, fun honest status' same => ?_⟩
    injection same with same
    rw [done] at honest
    exact same ▸ honest
  · rename_i status done
    obtain ⟨rfl, rfl⟩ := Prod.mk.inj (Option.some.inj h)
    refine .inr ⟨rfl, fun honest status' same => ?_⟩
    injection same with same
    rw [done] at honest
    exact same ▸ honest
  · obtain ⟨rfl, rfl⟩ := Prod.mk.inj (Option.some.inj h)
    exact .inr ⟨rfl, nofun⟩
  · cases h

theorem Inv.loaded (inv : Inv sha256 library ort s) {c : CallId} {l : Load α}
    {outcome : SessionStore.LoadOutcome} {built : Option (Built α)}
    (hl : s.files.loads (thread c) = some l) (ends : ending l = some (outcome, built))
    (h : SessionStore.step s.store (.load c outcome) = some store) :
    Inv sha256 library ort { s with store, sessions := keep s.sessions c built } := by
  have asked := inv.loads c l hl
  have wants := SessionStore.step_wants h rfl
  refine ⟨inv.store.next h, inv.files, fun d call hd => ?_, fun d l' hd => ?_, inv.honest,
    fun d x hx => ?_⟩
  · have same := wants d
    rw [hd] at same
    exact inv.wants_known same.symm
  · exact (inv.loads d l' hd).kept (wants d)
  · change store.sessions d = some x at hx
    rcases ending_cases ends with ⟨json, graph, session, done, rfl, rfl⟩ | ⟨rfl, fails⟩
    · change ∃ b, Function.update s.sessions c _ d = some b ∧ _
      rcases SessionStore.load_sessions h with ⟨_, call, -, -, hc, made⟩ | ⟨bad, -⟩
      · rw [made] at hx
        by_cases same : d = c
        · subst same
          rw [Function.update_self] at hx ⊢
          have sound := inv.files.sound (thread d) l hl
          rw [done] at sound
          have for_call : call.wants = ⟨l.call.entry, l.call.provider, l.call.precision⟩ := by
            unfold LoadsFor at asked
            rw [hc] at asked
            exact Option.some.inj asked
          obtain rfl := Option.some.inj hx
          refine ⟨_, rfl, ⟨?_, sound, ?_⟩⟩
          · rw [for_call]
            exact l.known
          · rw [for_call]
            unfold Built.recorded
            rw [sound.made.entry, sound.provider, sound.precision]
        · rw [Function.update_of_ne same] at hx ⊢
          exact inv.sessions d x hx
      · cases bad {} rfl
    · rcases SessionStore.load_sessions h with ⟨status, _, ended, ok, -⟩ | ⟨-, made⟩
      · have bad := fails (inv.honest c l hl) status ended
        exact absurd ok (Bool.eq_false_iff.mp bad)
      · rw [made] at hx
        exact inv.sessions d x hx

theorem inv_step (s : State α) (a : Action) (s' : State α) (inv : Inv sha256 library ort s)
    (h : step sha256 library ort s a = some s') : Inv sha256 library ort s' := by
  cases a with
  | opens id options out =>
    unfold step at h
    dsimp only at h
    cases found : ModelLookup.find kRegistry id with
    | none =>
      rw [found] at h
      exact Option.some.inj h ▸ inv
    | some entry =>
      rw [found] at h
      obtain ⟨store, moved, rfl⟩ := Option.map_eq_some_iff.mp h
      exact inv.opens (List.mem_of_find?_eq_some found) moved
  | goes a =>
    unfold step at h
    dsimp only at h
    split at h
    · cases h
    · rename_i neither
      rw [Bool.or_eq_true, not_or, Bool.not_eq_true, Bool.not_eq_true] at neither
      obtain ⟨store, moved, rfl⟩ := Option.map_eq_some_iff.mp h
      exact inv.goes neither.1 neither.2 moved
  | loadSession c vars =>
    obtain ⟨call, hc, h⟩ := Option.bind_eq_some_iff.mp h
    split at h
    · split_ifs at h with known begun
      obtain ⟨files, moved, rfl⟩ := Option.map_eq_some_iff.mp h
      exact inv.loadSession hc rfl moved
    · cases h
  | files a =>
    unfold step at h
    dsimp only at h
    split at h
    · rename_i allowed
      obtain ⟨files, moved, rfl⟩ := Option.map_eq_some_iff.mp h
      exact inv.moved allowed moved
    · cases h
  | loaded c =>
    obtain ⟨⟨outcome, built⟩, ended, h⟩ := Option.bind_eq_some_iff.mp h
    obtain ⟨l, hl, ends⟩ := Option.bind_eq_some_iff.mp ended
    obtain ⟨store, moved, rfl⟩ := Option.map_eq_some_iff.mp h
    exact inv.loaded hl ends moved

theorem Initial.inv (initial : Initial s) : Inv sha256 library ort s := by
  have nothing (c : CallId) : s.store.calls c = none := by
    rw [initial.store]
    rfl
  have idle (c : CallId) : s.files.loads (thread c) = none := initial.files.idle _
  refine ⟨⟨[], initial.store ▸ .refl _⟩, initial.files.inv, ?_, ?_, ?_, ?_⟩
  · intro c call hc
    rw [nothing c] at hc
    cases hc
  · intro c l hl
    rw [idle c] at hl
    cases hl
  · intro c l hl
    rw [idle c] at hl
    cases hl
  · intro c x hx
    rw [initial.store] at hx
    cases hx

theorem kRegistry_idsDiffer : (kRegistry.map (·.info.id)).Nodup := by decide +kernel

theorem session_of_key {x y : SessionStore.Session} (hx : x.entry ∈ kRegistry)
    (hy : y.entry ∈ kRegistry) (same : x.key = y.key) : x = y := by
  have ids : x.entry.info.id = y.entry.info.id := congrArg SessionStore.Key.model same
  have entries := List.inj_on_of_nodup_map kRegistry_idsDiffer hx hy ids
  have providers : x.provider = y.provider := congrArg SessionStore.Key.provider same
  have precisions : x.precision = y.precision := congrArg SessionStore.Key.precision same
  cases x
  cases y
  rw [SessionStore.Session.mk.injEq]
  exact ⟨entries, providers, precisions⟩

theorem Inv.served (inv : Inv sha256 library ort s) {c x : CallId} {call : SessionStore.Call}
    (hc : s.store.calls c = some call) (done : call.phase = .done (.ok x)) :
    s.store.impls c = some x ∧
      ∃ b, s.sessions x = some b ∧ MadeFor sha256 library ort b call.wants := by
  have sound := inv.store.inv.sound c call hc
  rw [done] at sound
  obtain ⟨⟨y, hy, key⟩, impl⟩ := sound
  obtain ⟨b, hb, made⟩ := inv.sessions x y hy
  have same : y = call.wants := session_of_key made.known (inv.known c call hc) key
  exact ⟨impl, b, hb, same ▸ made⟩

def State.embedder (s : State α) (e : EmbedderId) : Embedder ModelId α where
  session := ((s.store.embedders[e]?.join).bind s.store.impls).bind fun x =>
    (s.sessions x).map Built.session

/-- Whatever a process opens, from however many threads, over whatever cache others load into
    and die in: an embedder with a handle has a session that is made of the pinned files, and
    its identity is that of the model its call of `open` was for. -/
theorem handles_from_pins {s₀ : State α} {as : List Action} (initial : Initial s₀)
    (run : Run (step sha256 library ort) s₀ as s) {e : EmbedderId} {i : CallId}
    (held : s.store.embedders[e]? = some (some i)) :
    ∃ (call : SessionStore.Call) (b : Built α), s.store.calls i = some call ∧
      (s.embedder e).session = some b.session ∧
      FromPins sha256 library ort b.call b.json b.graph b.session ∧
      b.call.entry = call.entry ∧
      (s.embedder e).identity = ⟨call.entry.info.name, call.entry.info.revision,
        kRegistryVersion, call.provider, call.precision⟩ := by
  have inv : Inv sha256 library ort s := run.invariant inv_step initial.inv
  obtain ⟨call, x, hc, done⟩ := inv.store.handedOut i (List.mem_of_getElem? held)
  obtain ⟨impl, b, hb, made⟩ := inv.served hc done
  have session : (s.embedder e).session = some b.session := by
    unfold State.embedder
    rw [held, Option.join_some, Option.bind_some, impl, Option.bind_some, hb, Option.map_some]
  have recorded := made.recorded
  have entry : b.session.entry = call.entry := congrArg SessionStore.Session.entry recorded
  refine ⟨call, b, hc, session, made.pins, made.pins.made.entry.symm.trans entry, ?_⟩
  unfold Embedder.identity
  rw [session]
  dsimp only
  rw [entry, show b.session.provider = call.provider from
      congrArg SessionStore.Session.provider recorded,
    show b.session.precision = call.precision from
      congrArg SessionStore.Session.precision recorded]

theorem goes_run {store : SessionStore.State} {as : List SessionStore.Action}
    (run : Run SessionStore.step s.store as store)
    (outside : ∀ a ∈ as, (a.starts || a.ofLoad) = false) :
    Run (step sha256 library ort) s (as.map .goes) { s with store } := by
  generalize start : s.store = σ at run
  induction run generalizing s with
  | refl σ =>
    subst start
    exact .refl s
  | @next σ u v a as h tail ih =>
    subst start
    rw [List.forall_mem_cons] at outside
    have first : step sha256 library ort s (.goes a) = some { s with store := u } := by
      unfold step
      dsimp only
      rw [outside.1, h]
      rfl
    exact .next first (ih (s := { s with store := u }) outside.2 rfl)

theorem files_run {files : VerifiedLoads.State α} {as : List VerifiedLoads.Action}
    (run : Run (VerifiedLoads.step sha256 library ort) s.files as files)
    (all : ∀ a ∈ as, allowed a = true) :
    Run (step sha256 library ort) s (as.map .files) { s with files } := by
  generalize start : s.files = σ at run
  induction run generalizing s with
  | refl σ =>
    subst start
    exact .refl s
  | @next σ u v a as h tail ih =>
    subst start
    rw [List.forall_mem_cons] at all
    have first : step sha256 library ort s (.files a) = some { s with files := u } := by
      unfold step
      dsimp only
      rw [all.1, h]
      rfl
    exact .next first (ih (s := { s with files := u }) all.2 rfl)

theorem loadSession_step {c : CallId} {call : SessionStore.Call} {config : CacheConfig}
    {vars : Resolve.Env} {known : call.entry ∈ kRegistry} {files : VerifiedLoads.State α}
    (hc : s.store.calls c = some call) (hp : call.phase = .loading config)
    (once : s.files.loads (thread c) = none)
    (h : VerifiedLoads.step sha256 library ort s.files (.start (thread c)
      ⟨call.entry, call.provider, call.precision, vars, config⟩ known) = some files) :
    step sha256 library ort s (.loadSession c vars) = some { s with files } := by
  unfold step
  dsimp only
  rw [hc, Option.bind_some, hp]
  dsimp only
  rw [dif_pos known, once, Option.isSome_none, if_neg Bool.false_ne_true, h]
  rfl

theorem loaded_step {c : CallId} {l : Load α} {outcome : SessionStore.LoadOutcome}
    {built : Option (Built α)} (hl : s.files.loads (thread c) = some l)
    (ends : ending l = some (outcome, built))
    (h : SessionStore.step s.store (.load c outcome) = some store) :
    step sha256 library ort s (.loaded c) =
      some { s with store, sessions := keep s.sessions c built } := by
  unfold step
  dsimp only
  rw [hl, Option.bind_some, ends, Option.bind_some]
  dsimp only
  rw [h]
  rfl

end

noncomputable def fresh : State EReal where
  files := { disk := SharedCache.emptyDisk }

theorem fresh_initial : Initial fresh := ⟨rfl, ColdLoad.emptyCache_initial⟩

/-- What the store does for one `open`, up to `load_session` and from there on. -/
def before : List SessionStore.Action :=
  [.configure { cacheDir := "cache" }, .construct, .start bgeSmallEnV15 .cpu .fp32 0, .lookup 0]

def returning : List SessionStore.Action := [.setValue 0, .publish 0, .ret 0, .finish 0]

noncomputable abbrev greetingStep : State EReal → Action → Option (State EReal) :=
  step ColdLoad.pinnedHash ColdLoad.greetingTokenizer ColdLoad.greetingRuntime

theorem bgeSmall_opens : ∃ as s, Run greetingStep fresh as s ∧
    s.store.embedders[0]? = some (some 0) := by
  obtain ⟨events, files, run, loaded⟩ := ColdLoad.cold_load_flaky
  obtain ⟨session, loaded⟩ : ∃ session, files.loads (thread 0) = some
      ⟨ColdLoad.bgeSmallCall, ColdLoad.bgeSmallEnV15_known, .loaded [4] [1, 2, 3] session⟩ :=
    ⟨_, loaded⟩
  cases run with
  | @next _ begun _ _ _ begins rest =>
    let calling := SessionStore.after before
    let made := SessionStore.after (before ++ [.load 0 (.returned {})])
    let done := SessionStore.after (before ++ .load 0 (.returned {}) :: returning)
    let sessions := keep (fun _ => none) 0 (some ⟨ColdLoad.bgeSmallCall, [4], [1, 2, 3], session⟩)
    have calls : Run greetingStep fresh [.goes (.configure { cacheDir := "cache" }),
        .goes .construct, .opens .bgeSmallEnV15 {} 0, .goes (.lookup 0)]
        { fresh with store := calling } := exec_run rfl
    have enters : greetingStep { fresh with store := calling }
        (.loadSession 0 fun _ => none) = some { store := calling, files := begun } :=
      loadSession_step rfl rfl rfl begins
    have fetches : Run greetingStep { store := calling, files := begun } _
        { store := calling, files } := files_run rest (by simp [allowed])
    have returns : greetingStep { store := calling, files } (.loaded 0) =
        some { store := made, files, sessions } := loaded_step loaded rfl rfl
    have ends : Run greetingStep { store := made, files, sessions } (returning.map .goes)
        { store := done, files, sessions } := goes_run (exec_run rfl) (by decide)
    exact ⟨_, _, calls.trans (.next enters (fetches.trans (.next returns ends))), rfl⟩

theorem handles_from_pins_bgeSmall : ∃ (s : State EReal) (call : SessionStore.Call)
    (b : Built EReal), s.store.calls 0 = some call ∧ (s.embedder 0).session = some b.session ∧
      FromPins ColdLoad.pinnedHash ColdLoad.greetingTokenizer ColdLoad.greetingRuntime b.call
        b.json b.graph b.session ∧
      b.call.entry = call.entry ∧
      (s.embedder 0).identity = ⟨call.entry.info.name, call.entry.info.revision,
        kRegistryVersion, call.provider, call.precision⟩ := by
  obtain ⟨as, s, run, held⟩ := bgeSmall_opens
  exact ⟨s, handles_from_pins fresh_initial run held⟩

end CyborgdbEmbed.OpenedModels

import CyborgdbEmbed.SessionStoreAtRest
import CyborgdbEmbed.SessionStoreHandles

set_option autoImplicit false

namespace CyborgdbEmbed.SessionStore
open TransitionSystem

def nextStep (outcome : LoadOutcome) (c : CallId) : Phase → Option Action
  | .entered => some (.lookup c)
  | .loading _ => some (.load c outcome)
  | .loaded _ => some (.setValue c)
  | .unwinding => some (.unwind c)
  | .resolved _ => some (.publish c)
  | .waiting _ => some (.get c)
  | .sharing _ | .published _ | .got _ _ => some (.ret c)
  | .acquired _ => some (.finish c)
  | .done _ => none

def runCall (outcome : LoadOutcome) (c : CallId) : ℕ → State → Option (State × Outcome)
  | 0, _ => none
  | n + 1, σ => (σ.calls c).bind fun call =>
    match call.phase with
    | .done result => some (σ, result)
    | phase => ((nextStep outcome c phase).bind (step σ)).bind (runCall outcome c n)

/-- A call takes six steps at most. One that is blocked does not return. -/
def openAlone (σ : State) (entry : RegistryEntry ModelId) (provider : Provider)
    (precision : Precision) (out : EmbedderId) (outcome : LoadOutcome) :
    Option (State × Outcome) :=
  (step σ (.start entry provider precision out)).bind (runCall outcome σ.next 7)

section
variable {σ σ' u : State} {a : Action} {c : CallId} {call : Call} {outcome : LoadOutcome}
  {result : Outcome} {n : ℕ} {p : Phase}

theorem runCall_step (hc : σ.calls c = some call) (next : nextStep outcome c call.phase = some a)
    (h : step σ a = some u) : runCall outcome c (n + 1) σ = runCall outcome c n u := by
  rw [runCall, hc, Option.bind_some]
  split
  · rename_i done
    rw [done] at next
    cases next
  · rw [next, Option.bind_some, h, Option.bind_some]

theorem runCall_done (hc : σ.calls c = some call) (hp : call.phase = .done result) :
    runCall outcome c (n + 1) σ = some (σ, result) := by
  rw [runCall, hc, Option.bind_some, hp]

structure Quiet (σ : State) : Prop where
  reachable : Reachable σ
  returned : ∀ c call, σ.calls c = some call →
    ∃ result, call.phase = .done result ∧ ∀ f, result ≠ .threw f

theorem Quiet.atRest (quiet : Quiet σ) : AtRest σ := by
  intro c call hc
  obtain ⟨result, hp, -⟩ := quiet.returned c call hc
  exact ⟨result, hp⟩

structure Opened (σ : State) (call : Call) (result : Outcome) (σ' : State) : Prop where
  reachable : Reachable σ'
  next : σ'.next = σ.next + 1
  calls : σ'.calls = Function.update σ.calls σ.next (some { call with phase := .done result })
  handle : ∀ s, result = .ok s → σ'.impls = Function.update σ.impls σ.next (some s) ∧
    σ'.embedders = σ.embedders.set call.target (some σ.next)
  nothing : (∀ s, result ≠ .ok s) → σ'.impls = σ.impls ∧ σ'.embedders = σ.embedders

theorem Opened.quiet (opened : Opened σ call result σ') (quiet : Quiet σ)
    (returned : ∀ f, result ≠ .threw f) : Quiet σ' where
  reachable := opened.reachable
  returned := fun c other hc => by
    rw [opened.calls] at hc
    by_cases new : c = σ.next
    · subst new
      rw [Function.update_self] at hc
      obtain rfl := Option.some.inj hc
      exact ⟨result, rfl, returned⟩
    · rw [Function.update_of_ne new] at hc
      exact quiet.returned c other hc

end

section
variable {σ : State} {entry : RegistryEntry ModelId} {provider : Provider}
  {precision : Precision} {out : EmbedderId} {outcome : LoadOutcome} {s : CallId}

/-- The store after the call has come to `acquire`. -/
def State.started (σ : State) (call : Call) : State :=
  { σ with calls := Function.update σ.calls σ.next (some call), next := σ.next + 1 }

theorem started_calls (σ : State) (call : Call) : (σ.started call).calls σ.next = some call :=
  Function.update_self ..

theorem Quiet.no_pending (quiet : Quiet σ) {call : Call} (entered : call.phase = .entered)
    (reached : Reachable (σ.started call)) {k : Key} {e : Entry}
    (he : σ.entries.lookup k = some e) : e.pending = none := by
  refine Option.eq_none_iff_forall_ne_some.mpr fun f hf => ?_
  obtain ⟨-, loader, hl, -, flight⟩ := reached.inv.pending k e f he hf
  by_cases new : f = σ.next
  · subst new
    obtain rfl := Option.some.inj ((started_calls σ call).symm.trans hl)
    rw [entered] at flight
    exact flight.elim id nofun
  · have old : σ.calls f = some loader := (Function.update_of_ne new _ _).symm.trans hl
    obtain ⟨result, hp, returned⟩ := quiet.returned f loader old
    rw [hp] at flight
    exact flight.elim id fun threw => returned f (Phase.done.inj threw)

/-- All that keeps a session alive there is a handle. -/
theorem Quiet.live_iff (quiet : Quiet σ) {call : Call} (entered : call.phase = .entered)
    (reached : Reachable (σ.started call)) :
    0 < (σ.started call).useCount s ↔ HeldByHandle σ s := by
  rw [useCount_pos_iff reached.inv.numbered]
  refine ⟨?_, fun held => .inr (.inr held)⟩
  have phases {c : CallId} {other : Call} (hc : (σ.started call).calls c = some other) :
      other.phase = .entered ∨ ∃ result, other.phase = .done result := by
    by_cases new : c = σ.next
    · subst new
      obtain rfl := Option.some.inj ((started_calls σ call).symm.trans hc)
      exact .inl entered
    · obtain ⟨result, hp, -⟩ :=
        quiet.returned c other ((Function.update_of_ne new _ _).symm.trans hc)
      exact .inr ⟨result, hp⟩
  rintro (⟨c, other, hc, hs⟩ | ⟨f, -, ⟨k, e, he, hf⟩ | ⟨c, other, hc, hf⟩⟩ | held)
  · obtain hp | ⟨result, hp⟩ := phases hc <;> simp [Call.session, hp] at hs
  · rw [quiet.no_pending entered reached he] at hf
    cases hf
  · obtain hp | ⟨result, hp⟩ := phases hc <;> simp [Call.future, hp] at hf
  · exact held

end

section
variable {σ : State} {entry : RegistryEntry ModelId} {provider : Provider}
  {precision : Precision} {out : EmbedderId} {outcome : LoadOutcome} {s d : CallId}

theorem step_start (valid : out < σ.embedders.length) :
    step σ (.start entry provider precision out) =
      some (σ.started { entry, provider, precision, target := out }) := if_pos valid

theorem step_lookup {c : CallId} {call : Call} (hc : σ.calls c = some call)
    (hp : call.phase = .entered) : step σ (.lookup c) = some (σ.lookup c call) := by
  simp only [step, hc, Option.bind_some, hp]

theorem lookup_live {c : CallId} {call : Call} {e : Entry}
    (he : σ.entries.lookup call.key = some e) (live : σ.lock e.session = some s) :
    σ.lookup c call = { σ.setPhase c call (.sharing s) with shared := σ.shared + 1 } := by
  unfold State.lookup
  rw [he]
  dsimp only
  rw [live]

theorem lookup_gone {c : CallId} {call : Call}
    (gone : ∀ e, σ.entries.lookup call.key = some e →
      σ.lock e.session = none ∧ e.pending = none) : σ.lookup c call = σ.beginLoad c call := by
  unfold State.lookup
  split
  · rename_i e he
    obtain ⟨dead, idle⟩ := gone e he
    rw [dead, idle]
  · rfl

theorem step_publish {c : CallId} {call : Call} {status : Status} (hc : σ.calls c = some call)
    (hp : call.phase = .resolved status) :
    step σ (.publish c) = some (σ.publish c call status) := by
  simp only [step, hc, Option.bind_some, hp]

theorem step_finish {c : CallId} {call : Call} (hc : σ.calls c = some call)
    (hp : call.phase = .acquired s) : step σ (.finish c) = some (σ.finish c call s) := by
  simp only [step, hc, Option.bind_some, hp]

def LoadOutcome.result (c : CallId) : LoadOutcome → Outcome
  | .returned status => if status.ok then .ok c else .failed c status
  | .threw => .threw c

theorem publish_eq (σ : State) (c : CallId) (call : Call) (status : Status) :
    ∃ entries,
      σ.publish c call status = { σ.setPhase c call (.published status) with entries } := by
  unfold State.publish
  split
  · split <;> exact ⟨_, rfl⟩
  · exact ⟨_, rfl⟩

/-- The open has come to `phase`, and nothing else has happened. -/
structure Midway (σ : State) (call : Call) (phase : Phase) (τ : State) : Prop where
  reachable : Reachable τ
  next : τ.next = σ.next + 1
  calls : τ.calls = Function.update σ.calls σ.next (some { call with phase })
  impls : τ.impls = σ.impls
  embedders : τ.embedders = σ.embedders

section
variable {τ u : State} {call : Call} {phase : Phase} {status : Status} {n : ℕ}

theorem Midway.here (h : Midway σ call phase τ) :
    τ.calls σ.next = some { call with phase } := by
  rw [h.calls, Function.update_self]

theorem Midway.moves {a : Action} (h : Midway σ call phase τ) (phase' : Phase)
    (hs : step τ a = some u) (next : u.next = τ.next)
    (calls : u.calls = Function.update τ.calls σ.next (some { call with phase := phase' }))
    (impls : u.impls = τ.impls) (embedders : u.embedders = τ.embedders) :
    Midway σ call phase' u where
  reachable := h.reachable.next hs
  next := next.trans h.next
  calls := by rw [calls, h.calls, Function.update_idem]
  impls := impls.trans h.impls
  embedders := embedders.trans h.embedders

theorem Midway.acquires (h : Midway σ call phase τ)
    (ready : retPhase σ.next phase = some (.acquired s))
    (returns : nextStep outcome σ.next phase = some (.ret σ.next)) :
    ∃ σ', runCall outcome σ.next (n + 3) τ = some (σ', .ok s) ∧ Opened σ call (.ok s) σ' := by
  have ret := step_ret h.here ready
  have acquired := h.moves (.acquired s) ret rfl rfl rfl rfl
  have finish := step_finish acquired.here rfl
  refine ⟨_, ?_, ⟨acquired.reachable.next finish, acquired.next, ?_, fun t same => ?_,
    fun other => absurd rfl (other s)⟩⟩
  · rw [runCall_step h.here returns ret, runCall_step acquired.here rfl finish]
    exact runCall_done (Function.update_self ..) rfl
  · change Function.update (State.calls _) σ.next _ = _
    rw [acquired.calls, Function.update_idem]
  · obtain rfl := Outcome.ok.inj same
    constructor
    · change Function.update (State.impls _) σ.next _ = _
      rw [acquired.impls]
    · change (State.embedders _).set call.target _ = _
      rw [acquired.embedders]

theorem Midway.fails {result : Outcome} (h : Midway σ call (.done result) τ)
    (failed : ∀ s, result ≠ .ok s) :
    ∃ σ', runCall outcome σ.next (n + 1) τ = some (σ', result) ∧ Opened σ call result σ' :=
  ⟨τ, runCall_done h.here rfl, ⟨h.reachable, h.next, h.calls,
    fun s same => absurd same (failed s), fun _ => ⟨h.impls, h.embedders⟩⟩⟩

theorem Midway.returns (h : Midway σ call (.loaded status) τ) :
    ∃ σ', runCall outcome σ.next (n + 5) τ =
        some (σ', (LoadOutcome.returned status).result σ.next) ∧
      Opened σ call ((LoadOutcome.returned status).result σ.next) σ' := by
  have set := step_setValue h.here rfl
  have resolved := h.moves (.resolved status) set rfl rfl rfl rfl
  have publish := step_publish resolved.here rfl
  obtain ⟨entries, same⟩ := publish_eq _ _ _ _
  rw [same] at publish
  have published := resolved.moves (.published status) publish rfl rfl rfl rfl
  rw [runCall_step h.here rfl set, runCall_step resolved.here rfl publish]
  dsimp only [LoadOutcome.result]
  by_cases ok : status.ok = true
  · rw [if_pos ok]
    exact published.acquires (congrArg some (if_pos ok)) rfl
  · rw [if_neg ok]
    have ret := step_ret published.here (congrArg some (if_neg ok))
    have failed := published.moves (.done (.failed σ.next status)) ret rfl rfl rfl rfl
    rw [runCall_step published.here rfl ret]
    exact failed.fails nofun

end

/-- A model of which a handle is held is shared. -/
theorem openAlone_shares (outcome : LoadOutcome) (quiet : Quiet σ)
    (valid : out < σ.embedders.length)
    (held : HandleHeld σ ⟨entry.info.id, provider, precision⟩ d) (of : σ.impls d = some s) :
    ∃ σ', openAlone σ entry provider precision out outcome = some (σ', .ok s) ∧
      Opened σ { entry, provider, precision, target := out } (.ok s) σ' := by
  let call : Call := { entry, provider, precision, target := out }
  have inv := quiet.reachable.inv
  have start : step σ (.start entry provider precision out) = some (σ.started call) :=
    step_start valid
  have reached := quiet.reachable.next start
  obtain ⟨e, t, he, hs⟩ := quiet.atRest.handleHeld_listed inv held
  have handle := (quiet.atRest.handleHeld_iff inv he hs d).mp held
  obtain rfl : s = t := Option.some.inj (of.symm.trans handle.1)
  have listed : (σ.started call).entries.lookup call.key = some e := he
  have live : (σ.started call).lock e.session = some s :=
    lock_eq_some_iff.mpr ⟨hs, (quiet.live_iff rfl reached).mpr ⟨d, handle⟩⟩
  have lookup := step_lookup (started_calls σ call) rfl
  rw [lookup_live listed live] at lookup
  have sharing : Midway σ call (.sharing s) _ :=
    ⟨reached.next lookup, rfl, Function.update_idem .., rfl, rfl⟩
  rw [openAlone, start, Option.bind_some, runCall_step (started_calls σ call) rfl lookup]
  exact sharing.acquires rfl rfl

theorem Quiet.gone (quiet : Quiet σ) {call : Call} (entered : call.phase = .entered)
    (reached : Reachable (σ.started call)) (free : ∀ d, ¬ HandleHeld σ call.key d) (e : Entry)
    (he : (σ.started call).entries.lookup call.key = some e) :
    (σ.started call).lock e.session = none ∧ e.pending = none := by
  refine ⟨Option.eq_none_iff_forall_ne_some.mpr fun s live => ?_,
    quiet.no_pending entered reached he⟩
  obtain ⟨hs, used⟩ := lock_eq_some_iff.mp live
  obtain ⟨i, handle⟩ := (quiet.live_iff entered reached).mp used
  exact free i ((quiet.atRest.handleHeld_iff quiet.reachable.inv he hs i).mpr handle)

/-- A model of which no handle is held is loaded. -/
theorem openAlone_loads (outcome : LoadOutcome) (quiet : Quiet σ)
    (valid : out < σ.embedders.length)
    (free : ∀ d, ¬ HandleHeld σ ⟨entry.info.id, provider, precision⟩ d) :
    ∃ σ', openAlone σ entry provider precision out outcome =
        some (σ', outcome.result σ.next) ∧
      Opened σ { entry, provider, precision, target := out } (outcome.result σ.next) σ' := by
  let call : Call := { entry, provider, precision, target := out }
  have start : step σ (.start entry provider precision out) = some (σ.started call) :=
    step_start valid
  have reached := quiet.reachable.next start
  have lookup := step_lookup (started_calls σ call) rfl
  rw [lookup_gone (quiet.gone rfl reached free)] at lookup
  have loading : Midway σ call (.loading σ.config) _ :=
    ⟨reached.next lookup, rfl, Function.update_idem .., rfl, rfl⟩
  rw [openAlone, start, Option.bind_some, runCall_step (started_calls σ call) rfl lookup]
  have load : step _ (.load σ.next outcome) = _ := step_load loading.here rfl
  cases outcome with
  | threw =>
    have unwinding := loading.moves .unwinding load rfl rfl rfl rfl
    have unwind := step_unwind unwinding.here rfl
    have thrown := unwinding.moves (.done (.threw σ.next)) unwind rfl rfl rfl rfl
    rw [runCall_step loading.here rfl load, runCall_step unwinding.here rfl unwind]
    exact thrown.fails nofun
  | returned status =>
    by_cases ok : status.ok = true
    · have returned := load.trans (congrArg some (if_pos ok))
      rw [runCall_step loading.here rfl returned]
      exact (loading.moves (.loaded status) returned rfl rfl rfl rfl).returns
    · have returned := load.trans (congrArg some (if_neg ok))
      rw [runCall_step loading.here rfl returned]
      exact (loading.moves (.loaded status) returned rfl rfl rfl rfl).returns

end

section
variable {σ σ' : State} {a : Action} {k : Key} {n : ℕ}

theorem Quiet.kept (quiet : Quiet σ) (h : step σ a = some σ') (calls : σ'.calls = σ.calls) :
    Quiet σ' :=
  ⟨quiet.reachable.next h, fun c call hc => quiet.returned c call (calls ▸ hc)⟩

theorem Quiet.rows (quiet : Quiet σ) (j : Key) (others : ∀ c, ¬ HandleHeld σ j c) :
    (loaded σ).filter (fun m => m.key = j) = [] := by
  have none : {c | HandleHeld σ j c} = ∅ := Set.eq_empty_of_forall_notMem others
  rw [quiet.atRest.rows quiet.reachable.inv j, none, Set.ncard_empty]
  exact if_pos rfl

theorem Quiet.loaded_one (quiet : Quiet σ) (held : {c | HandleHeld σ k c}.ncard = n + 1)
    (only : ∀ j c, HandleHeld σ j c → j = k) :
    loaded σ = [⟨k.model, k.provider, k.precision, (n + 1 : ℕ)⟩] := by
  have row := quiet.atRest.rows quiet.reachable.inv k
  rw [held, if_neg (Nat.succ_ne_zero n)] at row
  rw [← row, eq_comm, List.filter_eq_self]
  intro m hm
  rw [decide_eq_true_eq]
  by_contra other
  have nothing := quiet.rows m.key fun c handle => other (only m.key c handle)
  rw [List.filter_eq_nil_iff] at nothing
  exact nothing m hm (decide_eq_true rfl)

end
end CyborgdbEmbed.SessionStore

import CyborgdbEmbed.Registry
import CyborgdbEmbed.TransitionSystem
import Mathlib.Data.List.AList
import Mathlib.Logic.Function.Basic

set_option autoImplicit false

/-!
# The session store as a step function

`SessionStore::acquire` and the `open` around it, cut at the points where other
threads can run: the two locked sections, the load between them, `set_value`,
`get` and the return. A call is numbered when it starts, and everything it
creates (its promise, the session its load builds, the handle its `open` makes)
goes by the number of the call.
-/
namespace CyborgdbEmbed.SessionStore

abbrev CallId := ℕ
abbrev EmbedderId := ℕ

structure Key where
  model : ModelId
  provider : Provider
  precision : Precision
  deriving DecidableEq, Repr

structure Session where
  entry : RegistryEntry ModelId
  provider : Provider
  precision : Precision
  deriving DecidableEq, Repr

def Session.key (x : Session) : Key := ⟨x.entry.info.id, x.provider, x.precision⟩

/-- `session` is the weak pointer, empty or naming a session that may have
    expired. `pending` is the shared future, `none` when it is not valid. -/
structure Entry where
  session : Option CallId := none
  pending : Option CallId := none
  deriving DecidableEq, Repr

/-- The shared state behind a promise. Destroying an unset promise breaks it. -/
inductive SharedState where
  | empty
  | value (session : Option CallId)
  | broken
  deriving DecidableEq, Repr

/-- How `load_session` ends. A status that is ok comes with a session. -/
inductive LoadOutcome where
  | returned (status : Status)
  | threw
  deriving DecidableEq, Repr

/-- What the caller of `open` sees. An error or an exception names the load it
    comes from, which is the call's own number for the loader itself. -/
inductive Outcome where
  | ok (session : CallId)
  | failed (load : CallId) (status : Status)
  | threw (load : CallId)
  deriving DecidableEq, Repr

inductive Phase where
  | entered
  | sharing (session : CallId)
  | loading (config : CacheConfig)
  | loaded (status : Status)
  | unwinding
  | resolved (status : Status)
  | published (status : Status)
  | waiting (load : CallId)
  | got (load : CallId) (session : Option CallId)
  | acquired (session : CallId)
  | done (outcome : Outcome)
  deriving DecidableEq, Repr

structure Call where
  entry : RegistryEntry ModelId
  provider : Provider
  precision : Precision
  /-- The `Embedder` variable the caller passes as `out`. -/
  target : EmbedderId
  phase : Phase := .entered
  deriving DecidableEq, Repr

def Call.key (call : Call) : Key := ⟨call.entry.info.id, call.provider, call.precision⟩

/-- The one shared pointer to a session among a call's locals: the loader's
    `session`, or `out` once it is set, which is the `session` of `open`. -/
def Call.session (c : CallId) (call : Call) : Option CallId :=
  match call.phase with
  | .sharing s | .acquired s => some s
  | .loaded status | .resolved status | .published status => if status.ok then some c else none
  | .got _ s => s
  | _ => none

/-- The shared state a call's `promise` and `pending` keep alive. -/
def Call.future (c : CallId) (call : Call) : Option CallId :=
  match call.phase with
  | .loading _ | .loaded _ | .unwinding | .resolved _ | .published _ => some c
  | .waiting f | .got f _ => some f
  | _ => none

structure State where
  entries : AList (fun _ : Key => Entry) := ∅
  config : CacheConfig := {}
  shared : ℕ := 0
  loaded : ℕ := 0
  /-- Calls `0, …, next - 1` have started. -/
  next : ℕ := 0
  calls : CallId → Option Call := fun _ => none
  futures : CallId → SharedState := fun _ => .empty
  sessions : CallId → Option Session := fun _ => none
  impls : CallId → Option CallId := fun _ => none
  embedders : List (Option CallId) := []

def initial : State := {}

namespace State

def futureAlive (σ : State) (f : CallId) : Bool :=
  σ.entries.entries.any (fun p => p.2.pending == some f) ||
    (List.range σ.next).any fun c => (σ.calls c).any fun call => call.future c == some f

/-- `use_count()`: the shared pointers to a session in the locals of calls, in the
    shared states still referenced, and in the handles some `Embedder` holds. -/
def useCount (σ : State) (s : CallId) : ℕ :=
  (List.range σ.next).countP (fun c => (σ.calls c).any fun call => call.session c == some s) +
  (List.range σ.next).countP (fun f => σ.futures f == .value (some s) && σ.futureAlive f) +
  (List.range σ.next).countP (fun i => σ.impls i == some s && σ.embedders.contains (some i))

def lock (σ : State) (w : Option CallId) : Option CallId :=
  w.filter fun s => 0 < σ.useCount s

def setPhase (σ : State) (c : CallId) (call : Call) (phase : Phase) : State :=
  { σ with calls := Function.update σ.calls c (some { call with phase }) }

def beginLoad (σ : State) (c : CallId) (call : Call) : State :=
  { σ.setPhase c call (.loading σ.config) with
    loaded := σ.loaded + 1
    futures := Function.update σ.futures c .empty
    entries := σ.entries.insert call.key { pending := some c } }

/-- The first locked section of `acquire`. -/
def lookup (σ : State) (c : CallId) (call : Call) : State :=
  match σ.entries.lookup call.key with
  | some e =>
    match σ.lock e.session with
    | some live => { σ.setPhase c call (.sharing live) with shared := σ.shared + 1 }
    | none =>
      match e.pending with
      | some f => { σ.setPhase c call (.waiting f) with shared := σ.shared + 1 }
      | none => σ.beginLoad c call
  | none => σ.beginLoad c call

def load (σ : State) (c : CallId) (call : Call) : LoadOutcome → State
  | .threw => σ.setPhase c call .unwinding
  | .returned status =>
    if status.ok then
      { σ.setPhase c call (.loaded status) with
        sessions := Function.update σ.sessions c
          (some ⟨call.entry, call.provider, call.precision⟩) }
    else σ.setPhase c call (.loaded status)

/-- `promise->set_value(status.ok() ? session : nullptr)`, outside the lock. -/
def setValue (σ : State) (c : CallId) (call : Call) (status : Status) : State :=
  { σ.setPhase c call (.resolved status) with
    futures := Function.update σ.futures c (.value (if status.ok then some c else none)) }

/-- The final locked section of `acquire`. -/
def publish (σ : State) (c : CallId) (call : Call) (status : Status) : State :=
  let σ' := σ.setPhase c call (.published status)
  match σ.entries.lookup call.key with
  | some _ =>
    if status.ok then
      { σ' with entries := σ.entries.insert call.key { session := some c } }
    else { σ' with entries := σ.entries.erase call.key }
  | none => σ'

/-- The exception leaves `acquire`, which destroys the promise unset. -/
def unwind (σ : State) (c : CallId) (call : Call) : State :=
  { σ.setPhase c call (.done (.threw c)) with
    futures := Function.update σ.futures c .broken }

def concurrentLoadFailed : Status :=
  ⟨.modelLoadFailed, "a concurrent load of this model failed"⟩

/-- `open` wraps the session in a new `Impl` and assigns it to `out`. -/
def finish (σ : State) (c : CallId) (call : Call) (s : CallId) : State :=
  { σ.setPhase c call (.done (.ok s)) with
    impls := Function.update σ.impls c (some s)
    embedders := σ.embedders.set call.target (some c) }

end State

inductive Action where
  | start (entry : RegistryEntry ModelId) (provider : Provider) (precision : Precision)
      (target : EmbedderId)
  | lookup (c : CallId)
  | load (c : CallId) (outcome : LoadOutcome)
  | setValue (c : CallId)
  | publish (c : CallId)
  | unwind (c : CallId)
  | get (c : CallId)
  | ret (c : CallId)
  | finish (c : CallId)
  | construct
  | copy (dst src : EmbedderId)
  | move (dst src : EmbedderId)
  | destroy (e : EmbedderId)
  | configure (config : CacheConfig)
  deriving DecidableEq

/-- `get` blocks on an empty shared state and rethrows from a broken one. -/
def getPhase (f : CallId) : SharedState → Option Phase
  | .empty => none
  | .value s => some (.got f s)
  | .broken => some (.done (.threw f))

/-- `acquire` returns and its locals go, all but what it hands over in `out`. -/
def retPhase (c : CallId) : Phase → Option Phase
  | .sharing s => some (.acquired s)
  | .published status =>
    some (if status.ok then .acquired c else .done (.failed c status))
  | .got _ (some s) => some (.acquired s)
  | .got f none => some (.done (.failed f State.concurrentLoadFailed))
  | _ => none

def step (σ : State) : Action → Option State
  | .start entry provider precision target =>
    if target < σ.embedders.length then
      some { σ with
        calls := Function.update σ.calls σ.next (some { entry, provider, precision, target })
        next := σ.next + 1 }
    else none
  | .lookup c => (σ.calls c).bind fun call =>
    match call.phase with
    | .entered => some (σ.lookup c call)
    | _ => none
  | .load c outcome => (σ.calls c).bind fun call =>
    match call.phase with
    | .loading _ => some (σ.load c call outcome)
    | _ => none
  | .setValue c => (σ.calls c).bind fun call =>
    match call.phase with
    | .loaded status => some (σ.setValue c call status)
    | _ => none
  | .publish c => (σ.calls c).bind fun call =>
    match call.phase with
    | .resolved status => some (σ.publish c call status)
    | _ => none
  | .unwind c => (σ.calls c).bind fun call =>
    match call.phase with
    | .unwinding => some (σ.unwind c call)
    | _ => none
  | .get c => (σ.calls c).bind fun call =>
    match call.phase with
    | .waiting f => (getPhase f (σ.futures f)).map (σ.setPhase c call)
    | _ => none
  | .ret c => (σ.calls c).bind fun call => (retPhase c call.phase).map (σ.setPhase c call)
  | .finish c => (σ.calls c).bind fun call =>
    match call.phase with
    | .acquired s => some (σ.finish c call s)
    | _ => none
  | .construct => some { σ with embedders := σ.embedders ++ [none] }
  | .copy dst src =>
    (σ.embedders[src]?).map fun i => { σ with embedders := σ.embedders.set dst i }
  | .move dst src =>
    (σ.embedders[src]?).map fun i =>
      if dst = src then σ
      else { σ with embedders := (σ.embedders.set src none).set dst i }
  | .destroy e => some { σ with embedders := σ.embedders.set e none }
  | .configure config => some { σ with config }

structure LoadedModel where
  model : ModelId
  provider : Provider
  precision : Precision
  -- an `int`, cast from `use_count()`; the owners of a session are taken to be fewer than that
  handles : Int
  deriving DecidableEq, Repr

def LoadedModel.key (m : LoadedModel) : Key := ⟨m.model, m.provider, m.precision⟩

/-- The row `loaded` adds for one entry. `live` is itself a reference while it
    counts, so it is taken off again. -/
def loadedRow (σ : State) (k : Key) (e : Entry) : Option LoadedModel :=
  (σ.lock e.session).map fun live =>
    ⟨k.model, k.provider, k.precision, ((σ.useCount live + 1 : ℕ) : Int) - 1⟩

def loaded (σ : State) : List LoadedModel :=
  σ.entries.entries.filterMap fun p => loadedRow σ p.1 p.2

structure LoadStats where
  shared : ℕ
  loaded : ℕ
  deriving DecidableEq, Repr

def stats (σ : State) : LoadStats := ⟨σ.shared, σ.loaded⟩

def Reachable (σ : State) : Prop := ∃ as, TransitionSystem.Run step initial as σ

def after (as : List Action) : State := (TransitionSystem.exec step initial as).getD initial

theorem reachable_after {as : List Action}
    (h : (TransitionSystem.exec step initial as).isSome = true) : Reachable (after as) :=
  ⟨as, TransitionSystem.run_exec h⟩

end CyborgdbEmbed.SessionStore

import CyborgdbEmbed.Registry
import CyborgdbEmbed.TransitionSystem
import Mathlib.Data.Int.Notation
import Mathlib.Logic.Function.Basic

set_option autoImplicit false

/-!
# The process-wide runtime

`configure_runtime` and the part of `make_ort_session` that reaches the one
ONNX Runtime environment, for any number of threads. The calls are cut at every
access to the shared state; the mutex is part of that state.
-/
namespace CyborgdbEmbed.ThreadPool
open TransitionSystem

abbrev CallId := ℕ

structure RuntimeConfig where
  threads : ℤ := 1
  deriving DecidableEq, Repr

/-- `Ort::Env`, as far as its `Ort::ThreadingOptions` go. -/
structure Env where
  globalIntraOpNumThreads : ℤ
  globalInterOpNumThreads : ℤ := 1
  globalSpinControl : ℤ := 0
  deriving DecidableEq, Repr

/-- The struct `Runtime` and the function-local static of `environment()`, which
    is `none` until an initialisation of it has completed. -/
structure Runtime where
  mutex : Option CallId := none
  started : Bool := false
  threads : ℤ := 1
  env : Option Env := none
  deriving DecidableEq, Repr

inductive Thrown where
  | ort (what : String)
  | other
  deriving DecidableEq, Repr

inductive LoadResult where
  | returned (status : Status)
  | threw
  deriving DecidableEq, Repr

/-- `make_ort_session` catches `Ort::Exception` only. -/
def Thrown.result : Thrown → LoadResult
  | .ort what => .returned ⟨.modelLoadFailed, what⟩
  | .other => .threw

inductive ConfigurePhase where
  | called
  | locking
  | locked
  | unlocking (status : Status)
  | returned (status : Status)
  deriving DecidableEq, Repr

inductive LoadPhase where
  | tokenizing
  | locking
  | locked
  | constructed
  | unlocking
  | unwinding (thrown : Thrown)
  | building
  | returned (result : LoadResult)
  deriving DecidableEq, Repr

inductive Call where
  | configure (config : RuntimeConfig) (phase : ConfigurePhase)
  | load (phase : LoadPhase)
  deriving DecidableEq, Repr

/-- What the code outside decides: `Tokenizer::load`, the constructor of `Ort::Env`,
    and everything after `environment()` has returned. -/
inductive Event where
  | next
  | tokenizer (status : Status)
  | construct (thrown : Option Thrown)
  | build (result : LoadResult)
  deriving DecidableEq, Repr

def tooFewThreads : Status := ⟨.invalidArgument, "threads must be at least 1"⟩

def alreadyStarted (threads : ℤ) : Status :=
  ⟨.invalidArgument, "the thread pool already started with " ++ toString threads ++
    " threads; configure the runtime before the first open"⟩

namespace Runtime

/-- The locked section of `configure_runtime`. -/
def configure (m : Runtime) (config : RuntimeConfig) : Runtime × Status :=
  if m.started && config.threads != m.threads then (m, alreadyStarted m.threads)
  else ({ m with threads := config.threads }, {})

def newEnv (m : Runtime) : Env := { globalIntraOpNumThreads := m.threads }

def lock (m : Runtime) (c : CallId) : Option Runtime :=
  if m.mutex = none then some { m with mutex := some c } else none

def unlock (m : Runtime) : Runtime := { m with mutex := none }

end Runtime

def advance (c : CallId) (m : Runtime) : Call → Event → Option (Runtime × Call)
  | .configure config .called, .next =>
    if config.threads < 1 then some (m, .configure config (.returned tooFewThreads))
    else some (m, .configure config .locking)
  | .configure config .locking, .next =>
    (m.lock c).map fun m => (m, .configure config .locked)
  | .configure config .locked, .next =>
    let (m, status) := m.configure config
    some (m, .configure config (.unlocking status))
  | .configure config (.unlocking status), .next =>
    some (m.unlock, .configure config (.returned status))
  | .load .tokenizing, .tokenizer status =>
    some (m, .load (if status.ok then .locking else .returned (.returned status)))
  | .load .locking, .next => (m.lock c).map fun m => (m, .load .locked)
  | .load .locked, .construct thrown =>
    -- A static whose initialiser throws stays uninitialised; the next call tries again.
    match m.env, thrown with
    | none, none => some ({ m with env := some m.newEnv }, .load .constructed)
    | none, some thrown => some (m, .load (.unwinding thrown))
    | some _, _ => none
  | .load .locked, .next => if m.env.isSome then some (m, .load .constructed) else none
  | .load .constructed, .next => some ({ m with started := true }, .load .unlocking)
  | .load .unlocking, .next => some (m.unlock, .load .building)
  | .load (.unwinding thrown), .next => some (m.unlock, .load (.returned thrown.result))
  | .load .building, .build result => some (m, .load (.returned result))
  | _, _ => none

structure State where
  runtime : Runtime := {}
  calls : CallId → Option Call := fun _ => none

def initial : State := {}

inductive Action where
  | configureRuntime (c : CallId) (config : RuntimeConfig)
  | makeOrtSession (c : CallId)
  | advance (c : CallId) (e : Event)
  deriving DecidableEq, Repr

def State.begin (s : State) (c : CallId) (call : Call) : Option State :=
  match s.calls c with
  | none => some { s with calls := Function.update s.calls c (some call) }
  | some _ => none

def step (s : State) : Action → Option State
  | .configureRuntime c config => s.begin c (.configure config .called)
  | .makeOrtSession c => s.begin c (.load .tokenizing)
  | .advance c e =>
    (s.calls c).bind fun call => (advance c s.runtime call e).map fun (runtime, call) =>
      { runtime, calls := Function.update s.calls c (some call) }

end CyborgdbEmbed.ThreadPool

import CyborgdbEmbed.SessionStoreState
import Mathlib.Tactic.Common

set_option autoImplicit false

namespace CyborgdbEmbed.SessionStore
open TransitionSystem

theorem State.setPhase_calls (σ : State) (c : CallId) (call : Call) (p : Phase) :
    (σ.setPhase c call p).calls = Function.update σ.calls c (some { call with phase := p }) := rfl

/-- The load of `c` is between its fresh entry and its final locked section. -/
def Phase.inFlight : Phase → Prop
  | .loading _ | .loaded _ | .unwinding | .resolved _ => True
  | _ => False

inductive Transition (σ : State) : Action → State → Prop where
  | start {entry : RegistryEntry ModelId} {provider : Provider} {precision : Precision}
      {target : EmbedderId} (valid : target < σ.embedders.length) :
      Transition σ (.start entry provider precision target)
        { σ with
          calls := Function.update σ.calls σ.next (some { entry, provider, precision, target })
          next := σ.next + 1 }
  | share {c s : CallId} {call : Call} {e : Entry} (hc : σ.calls c = some call)
      (hp : call.phase = .entered) (he : σ.entries.lookup call.key = some e)
      (hs : e.session = some s) (live : 0 < σ.useCount s) :
      Transition σ (.lookup c) { σ.setPhase c call (.sharing s) with shared := σ.shared + 1 }
  | join {c f : CallId} {call : Call} {e : Entry} (hc : σ.calls c = some call)
      (hp : call.phase = .entered) (he : σ.entries.lookup call.key = some e)
      (hs : σ.lock e.session = none) (hf : e.pending = some f) :
      Transition σ (.lookup c) { σ.setPhase c call (.waiting f) with shared := σ.shared + 1 }
  | fresh {c : CallId} {call : Call} (hc : σ.calls c = some call)
      (hp : call.phase = .entered)
      (gone : ∀ e, σ.entries.lookup call.key = some e →
        σ.lock e.session = none ∧ e.pending = none) :
      Transition σ (.lookup c) (σ.beginLoad c call)
  | loadOk {c : CallId} {call : Call} {config : CacheConfig} {status : Status}
      (hc : σ.calls c = some call) (hp : call.phase = .loading config) (ok : status.ok = true) :
      Transition σ (.load c (.returned status))
        { σ.setPhase c call (.loaded status) with
          sessions := Function.update σ.sessions c
            (some ⟨call.entry, call.provider, call.precision⟩) }
  | loadFail {c : CallId} {call : Call} {config : CacheConfig} {status : Status}
      (hc : σ.calls c = some call) (hp : call.phase = .loading config) (bad : status.ok = false) :
      Transition σ (.load c (.returned status)) (σ.setPhase c call (.loaded status))
  | loadThrow {c : CallId} {call : Call} {config : CacheConfig}
      (hc : σ.calls c = some call) (hp : call.phase = .loading config) :
      Transition σ (.load c .threw) (σ.setPhase c call .unwinding)
  | setValue {c : CallId} {call : Call} {status : Status} (hc : σ.calls c = some call)
      (hp : call.phase = .loaded status) :
      Transition σ (.setValue c) (σ.setValue c call status)
  | publish {c : CallId} {call : Call} {status : Status} (hc : σ.calls c = some call)
      (hp : call.phase = .resolved status) :
      Transition σ (.publish c) (σ.publish c call status)
  | unwind {c : CallId} {call : Call} (hc : σ.calls c = some call)
      (hp : call.phase = .unwinding) : Transition σ (.unwind c) (σ.unwind c call)
  | get {c f : CallId} {call : Call} {p : Phase} (hc : σ.calls c = some call)
      (hp : call.phase = .waiting f) (ready : getPhase f (σ.futures f) = some p) :
      Transition σ (.get c) (σ.setPhase c call p)
  | ret {c : CallId} {call : Call} {p : Phase} (hc : σ.calls c = some call)
      (ready : retPhase c call.phase = some p) :
      Transition σ (.ret c) (σ.setPhase c call p)
  | finish {c s : CallId} {call : Call} (hc : σ.calls c = some call)
      (hp : call.phase = .acquired s) : Transition σ (.finish c) (σ.finish c call s)
  | construct : Transition σ .construct { σ with embedders := σ.embedders ++ [none] }
  | copy {dst src : EmbedderId} {i : Option CallId} (hi : σ.embedders[src]? = some i) :
      Transition σ (.copy dst src) { σ with embedders := σ.embedders.set dst i }
  | moveSelf {e : EmbedderId} {i : Option CallId} (hi : σ.embedders[e]? = some i) :
      Transition σ (.move e e) σ
  | move {dst src : EmbedderId} {i : Option CallId} (hi : σ.embedders[src]? = some i)
      (distinct : dst ≠ src) : Transition σ (.move dst src)
        { σ with embedders := (σ.embedders.set src none).set dst i }
  | destroy {e : EmbedderId} :
      Transition σ (.destroy e) { σ with embedders := σ.embedders.set e none }
  | configure {config : CacheConfig} : Transition σ (.configure config) { σ with config }

theorem bind_call {σ σ' : State} {c : CallId} {h : Call → Option State}
    (hs : (σ.calls c).bind h = some σ') : ∃ call, σ.calls c = some call ∧ h call = some σ' :=
  Option.bind_eq_some_iff.mp hs

theorem lookup_transition {σ : State} {c : CallId} {call : Call} (hc : σ.calls c = some call)
    (hp : call.phase = .entered) : Transition σ (.lookup c) (σ.lookup c call) := by
  unfold State.lookup
  split
  · rename_i e he
    split
    · rename_i live hl
      obtain ⟨hs, hu⟩ := Option.filter_eq_some_iff.mp hl
      exact .share hc hp he hs (by simpa using hu)
    · rename_i hl
      split
      · rename_i f hf
        exact .join hc hp he hl hf
      · rename_i hf
        refine .fresh hc hp fun e' h => ?_
        obtain rfl : e = e' := Option.some.inj (he.symm.trans h)
        exact ⟨hl, hf⟩
  · rename_i he
    exact .fresh hc hp fun e h => by simp [he] at h

theorem load_transition {σ : State} {c : CallId} {call : Call} {config : CacheConfig}
    (hc : σ.calls c = some call) (hp : call.phase = .loading config) (outcome : LoadOutcome) :
    Transition σ (.load c outcome) (σ.load c call outcome) := by
  cases outcome with
  | threw => exact .loadThrow hc hp
  | returned status =>
    by_cases ok : status.ok = true
    · simpa only [State.load, ok, ↓reduceIte] using Transition.loadOk hc hp ok
    · have bad : status.ok = false := Bool.not_eq_true _ ▸ ok
      simpa only [State.load, bad, Bool.false_eq_true, ↓reduceIte] using
        Transition.loadFail hc hp bad

theorem step_transition {σ σ' : State} {a : Action} (h : step σ a = some σ') :
    Transition σ a σ' := by
  cases a with
  | start entry provider precision target =>
    simp only [step, Option.ite_none_right_eq_some, Option.some.injEq] at h
    obtain ⟨valid, rfl⟩ := h
    exact .start valid
  | lookup c =>
    obtain ⟨call, hc, h⟩ := bind_call h
    split at h
    · rename_i hp
      obtain rfl := Option.some.inj h
      exact lookup_transition hc hp
    · cases h
  | load c outcome =>
    obtain ⟨call, hc, h⟩ := bind_call h
    split at h
    · rename_i hp
      obtain rfl := Option.some.inj h
      exact load_transition hc hp outcome
    · cases h
  | setValue c =>
    obtain ⟨call, hc, h⟩ := bind_call h
    split at h
    · rename_i hp
      obtain rfl := Option.some.inj h
      exact .setValue hc hp
    · cases h
  | publish c =>
    obtain ⟨call, hc, h⟩ := bind_call h
    split at h
    · rename_i hp
      obtain rfl := Option.some.inj h
      exact .publish hc hp
    · cases h
  | unwind c =>
    obtain ⟨call, hc, h⟩ := bind_call h
    split at h
    · rename_i hp
      obtain rfl := Option.some.inj h
      exact .unwind hc hp
    · cases h
  | get c =>
    obtain ⟨call, hc, h⟩ := bind_call h
    split at h
    · rename_i hp
      obtain ⟨p, ready, rfl⟩ := Option.map_eq_some_iff.mp h
      exact .get hc hp ready
    · cases h
  | ret c =>
    obtain ⟨call, hc, h⟩ := bind_call h
    obtain ⟨p, ready, rfl⟩ := Option.map_eq_some_iff.mp h
    exact .ret hc ready
  | finish c =>
    obtain ⟨call, hc, h⟩ := bind_call h
    split at h
    · rename_i hp
      obtain rfl := Option.some.inj h
      exact .finish hc hp
    · cases h
  | construct =>
    obtain rfl := Option.some.inj h
    exact .construct
  | copy dst src =>
    obtain ⟨i, hi, rfl⟩ := Option.map_eq_some_iff.mp h
    exact .copy hi
  | move dst src =>
    obtain ⟨i, hi, rfl⟩ := Option.map_eq_some_iff.mp h
    by_cases he : dst = src
    · subst he
      simpa only [↓reduceIte] using Transition.moveSelf hi
    · simpa only [he, ↓reduceIte] using Transition.move hi he
  | destroy e =>
    obtain rfl := Option.some.inj h
    exact .destroy
  | configure config =>
    obtain rfl := Option.some.inj h
    exact .configure

inductive Advances (σ : State) (key : Key) : Action → CallId → Phase → Phase → Prop where
  | share {c s : CallId} {e : Entry} (he : σ.entries.lookup key = some e)
      (hs : e.session = some s) : Advances σ key (.lookup c) c .entered (.sharing s)
  | join {c f : CallId} {e : Entry} (he : σ.entries.lookup key = some e)
      (hf : e.pending = some f) : Advances σ key (.lookup c) c .entered (.waiting f)
  | begin {c : CallId} (none : ∀ e, σ.entries.lookup key = some e → e.pending = none) :
      Advances σ key (.lookup c) c .entered (.loading σ.config)
  | load {c : CallId} {config : CacheConfig} {status : Status} :
      Advances σ key (.load c (.returned status)) c (.loading config) (.loaded status)
  | throw {c : CallId} {config : CacheConfig} :
      Advances σ key (.load c .threw) c (.loading config) .unwinding
  | setValue {c : CallId} {status : Status} :
      Advances σ key (.setValue c) c (.loaded status) (.resolved status)
  | publish {c : CallId} {status : Status} :
      Advances σ key (.publish c) c (.resolved status) (.published status)
  | unwind {c : CallId} : Advances σ key (.unwind c) c .unwinding (.done (.threw c))
  | get {c f : CallId} {p : Phase} (ready : getPhase f (σ.futures f) = some p) :
      Advances σ key (.get c) c (.waiting f) p
  | ret {c : CallId} {q p : Phase} (ready : retPhase c q = some p) :
      Advances σ key (.ret c) c q p
  | finish {c s : CallId} : Advances σ key (.finish c) c (.acquired s) (.done (.ok s))

@[simp] theorem State.publish_calls (σ : State) (c : CallId) (call : Call) (status : Status) :
    (σ.publish c call status).calls = (σ.setPhase c call (.published status)).calls := by
  unfold State.publish
  split
  · split <;> rfl
  · rfl

@[simp] theorem State.publish_embedders (σ : State) (c : CallId) (call : Call)
    (status : Status) : (σ.publish c call status).embedders = σ.embedders := by
  unfold State.publish
  split
  · split <;> rfl
  · rfl

theorem Transition.calls {σ σ' : State} {a : Action} (h : Transition σ a σ') :
    σ'.calls = σ.calls ∨
      (∃ call, call.phase = .entered ∧ σ'.calls = Function.update σ.calls σ.next (some call)) ∨
      ∃ c call p, σ.calls c = some call ∧ Advances σ call.key a c call.phase p ∧
        σ'.calls = Function.update σ.calls c (some { call with phase := p }) := by
  cases h with
  | start valid => exact .inr (.inl ⟨_, rfl, rfl⟩)
  | share hc hp he hs => exact .inr (.inr ⟨_, _, _, hc, hp ▸ .share he hs, rfl⟩)
  | join hc hp he _ hf => exact .inr (.inr ⟨_, _, _, hc, hp ▸ .join he hf, rfl⟩)
  | fresh hc hp gone =>
    exact .inr (.inr ⟨_, _, _, hc, hp ▸ .begin fun e he => (gone e he).2, rfl⟩)
  | loadOk hc hp => exact .inr (.inr ⟨_, _, _, hc, hp ▸ .load, rfl⟩)
  | loadFail hc hp => exact .inr (.inr ⟨_, _, _, hc, hp ▸ .load, rfl⟩)
  | loadThrow hc hp => exact .inr (.inr ⟨_, _, _, hc, hp ▸ .throw, rfl⟩)
  | setValue hc hp => exact .inr (.inr ⟨_, _, _, hc, hp ▸ .setValue, rfl⟩)
  | publish hc hp => exact .inr (.inr ⟨_, _, _, hc, hp ▸ .publish, State.publish_calls ..⟩)
  | unwind hc hp => exact .inr (.inr ⟨_, _, _, hc, hp ▸ .unwind, rfl⟩)
  | get hc hp ready => exact .inr (.inr ⟨_, _, _, hc, hp ▸ .get ready, rfl⟩)
  | ret hc ready => exact .inr (.inr ⟨_, _, _, hc, .ret ready, rfl⟩)
  | finish hc hp => exact .inr (.inr ⟨_, _, _, hc, hp ▸ .finish, rfl⟩)
  | construct | copy | moveSelf | move | destroy | configure => exact .inl rfl

/-- Backward: a call after a step was there before, or has just started, or was moved. -/
theorem step_call {σ σ' : State} {a : Action} (h : step σ a = some σ') {c : CallId}
    {call' : Call} (hc : σ'.calls c = some call') :
    σ.calls c = some call' ∨ (c = σ.next ∧ call'.phase = .entered) ∨
      ∃ call, σ.calls c = some call ∧ call'.key = call.key ∧
        Advances σ call.key a c call.phase call'.phase := by
  rcases (step_transition h).calls with same | ⟨call, hp, new⟩ | ⟨d, call, p, hd, adv, moved⟩
  · exact .inl (same ▸ hc)
  · rw [new] at hc
    by_cases hn : c = σ.next
    · subst hn
      obtain rfl := Option.some.inj ((Function.update_self _ _ σ.calls).symm.trans hc)
      exact .inr (.inl ⟨rfl, hp⟩)
    · exact .inl ((Function.update_of_ne hn _ _).symm.trans hc)
  · rw [moved] at hc
    by_cases hcd : c = d
    · subst hcd
      obtain rfl := Option.some.inj ((Function.update_self _ _ σ.calls).symm.trans hc)
      exact .inr (.inr ⟨call, hd, rfl, adv⟩)
    · exact .inl ((Function.update_of_ne hcd _ _).symm.trans hc)

/-- Forward: a call that has started stays, at the same phase or moved by this step. -/
theorem call_step {σ σ' : State} {a : Action} (h : step σ a = some σ') {c : CallId} {call : Call}
    (hc : σ.calls c = some call) (old : c < σ.next) :
    ∃ call', σ'.calls c = some call' ∧ call'.key = call.key ∧
      (call' = call ∨ Advances σ call.key a c call.phase call'.phase) := by
  rcases (step_transition h).calls with same | ⟨new, _, hnew⟩ | ⟨d, mover, p, hd, adv, moved⟩
  · exact ⟨call, same ▸ hc, rfl, .inl rfl⟩
  · have hn : c ≠ σ.next := Nat.ne_of_lt old
    exact ⟨call, by rw [hnew, Function.update_of_ne hn, hc], rfl, .inl rfl⟩
  · rw [moved]
    by_cases hcd : c = d
    · subst hcd
      obtain rfl : call = mover := Option.some.inj (hc.symm.trans hd)
      exact ⟨_, Function.update_self .., rfl, .inr adv⟩
    · exact ⟨call, (Function.update_of_ne hcd _ _).trans hc, rfl, .inl rfl⟩

end CyborgdbEmbed.SessionStore

import CyborgdbEmbed.SessionStoreListing
import CyborgdbEmbed.SessionStoreProgress

set_option autoImplicit false

namespace CyborgdbEmbed.SessionStore
open TransitionSystem

def Call.wants (call : Call) : Session := ⟨call.entry, call.provider, call.precision⟩

def Action.ofLoad : Action → Bool
  | .load .. => true
  | _ => false

section
variable {σ σ' : State} {a : Action}

theorem wants_moved {c : CallId} {call : Call} {p : Phase} (hc : σ.calls c = some call)
    (moved : σ'.calls = Function.update σ.calls c (some { call with phase := p }))
    (d : CallId) : (σ'.calls d).map Call.wants = (σ.calls d).map Call.wants := by
  rw [moved]
  by_cases same : d = c
  · subst same
    rw [Function.update_self, hc]
    rfl
  · rw [Function.update_of_ne same]

theorem step_wants (h : step σ a = some σ') (running : a.starts = false) (d : CallId) :
    (σ'.calls d).map Call.wants = (σ.calls d).map Call.wants := by
  cases step_transition h with
  | start => cases running
  | share hc | join hc | fresh hc | loadOk hc | loadFail hc | loadThrow hc | setValue hc
  | unwind hc | get hc | ret hc | finish hc => exact wants_moved hc rfl d
  | publish hc => exact wants_moved hc (State.publish_calls ..) d
  | construct | copy | moveSelf | move | destroy | configure => rfl

@[simp] theorem State.publish_sessions (c : CallId) (call : Call) (status : Status) :
    (σ.publish c call status).sessions = σ.sessions := by
  unfold State.publish
  split
  · split <;> rfl
  · rfl

theorem step_sessions (h : step σ a = some σ') (outside : a.ofLoad = false) :
    σ'.sessions = σ.sessions := by
  cases step_transition h with
  | loadOk | loadFail | loadThrow => cases outside
  | publish => exact State.publish_sessions ..
  | start | share | join | fresh | setValue | unwind | get | ret | finish | construct | copy
  | moveSelf | move | destroy | configure => rfl

theorem load_sessions {c : CallId} {outcome : LoadOutcome}
    (h : step σ (.load c outcome) = some σ') :
    (∃ status call, outcome = .returned status ∧ status.ok = true ∧ σ.calls c = some call ∧
      σ'.sessions = Function.update σ.sessions c (some call.wants)) ∨
    ((∀ status, outcome = .returned status → status.ok = false) ∧ σ'.sessions = σ.sessions) := by
  cases step_transition h with
  | loadOk hc hp ok => exact .inl ⟨_, _, rfl, ok, hc, rfl⟩
  | loadFail hc hp bad =>
    refine .inr ⟨fun status same => ?_, rfl⟩
    injection same with same
    exact same ▸ bad
  | loadThrow => exact .inr ⟨nofun, rfl⟩

theorem Advances.not_done {k : Key} {c : CallId} {outcome : Outcome} {p : Phase} :
    ¬ Advances σ k a c (.done outcome) p := by
  intro h
  exact absurd h.remaining_lt (Nat.not_lt_zero _)

/-- What an `Embedder` holds has been handed out by a call that returned Ok. -/
def HandedOut (σ : State) : Prop := ∀ i, some i ∈ σ.embedders →
  ∃ call x, σ.calls i = some call ∧ call.phase = .done (.ok x)

theorem handedOut_step (inv : Inv σ) (handed : HandedOut σ) (h : step σ a = some σ') :
    HandedOut σ' := by
  intro i hi
  rcases step_embedders h hi with old | rfl
  · obtain ⟨call, x, hc, done⟩ := handed i old
    obtain ⟨call', hc', -, same | moved⟩ := call_step h hc (inv.started i call hc)
    · exact ⟨call', x, hc', same ▸ done⟩
    · rw [done] at moved
      exact absurd moved Advances.not_done
  · cases step_transition h with
    | finish hc hp => exact ⟨_, _, Function.update_self .., rfl⟩

theorem Reachable.handedOut (h : Reachable σ) : HandedOut σ := by
  obtain ⟨as, run⟩ := h
  have both : Inv σ ∧ HandedOut σ :=
    run.invariant (I := fun σ => Inv σ ∧ HandedOut σ)
      (fun σ a σ' held moved =>
        ⟨inv_step σ a σ' held.1 moved, handedOut_step held.1 held.2 moved⟩)
      ⟨inv_initial, fun i hi => absurd hi List.not_mem_nil⟩
  exact both.2

end
end CyborgdbEmbed.SessionStore

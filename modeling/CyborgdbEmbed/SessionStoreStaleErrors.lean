import CyborgdbEmbed.SessionStoreFailures

set_option autoImplicit false

namespace CyborgdbEmbed.SessionStore
open TransitionSystem

def AnsweredWith (σ : State) (c f : CallId) : Prop :=
  ∃ call status, σ.calls c = some call ∧ call.phase = .done (.failed f status)

def Ended (σ : State) (c : CallId) : Prop :=
  ∃ call outcome, σ.calls c = some call ∧ call.phase = .done outcome

/-- The first locked section of `c` runs while the load of `f` for the same key is
    still before its own final locked section. -/
def AsksDuring (c f : CallId) (σ : State) (a : Action) : Prop :=
  a = .lookup c ∧ ∃ call, σ.calls c = some call ∧ LoadInProgress σ f call.key

/-- What a call can be once only the failure of load `f` is left for it. -/
def Phase.failing (f : CallId) : Phase → Prop
  | .waiting g => g = f
  | .got g s => g = f ∧ s = none
  | .done (.failed g _) => g = f
  | _ => False

def Failing (σ : State) (c f : CallId) : Prop :=
  ∃ call, σ.calls c = some call ∧ call.phase.failing f

/-- The load of `f` has started and its shared state holds no session. -/
def FailedLoad (σ : State) (f : CallId) : Prop :=
  σ.futures f = .value none ∧ ∃ k, Started σ f k

theorem Inv.failedLoad {σ : State} (inv : Inv σ) {c f : CallId} (h : AnsweredWith σ c f) :
    FailedLoad σ f := by
  obtain ⟨call, status, hc, hp⟩ := h
  have sound := inv.sound c call hc
  rw [hp] at sound
  exact ⟨sound.2, call.key, sound.1⟩

theorem Inv.failedLoad_inProgress {σ : State} (inv : Inv σ) {f : CallId} (failed : FailedLoad σ f)
    {k : Key} {e : Entry} (he : σ.entries.lookup k = some e) (hf : e.pending = some f) :
    LoadInProgress σ f k := by
  obtain ⟨_, call, hc, hk, flight | threw⟩ := inv.pending k e f he hf
  · exact ⟨call, hc, hk, flight⟩
  · have sound := inv.sound f call hc
    rw [threw] at sound
    have broken : σ.futures f = .broken := (sound rfl).2
    rw [failed.1] at broken
    cases broken

section
variable {σ σ' : State} {a : Action} {c f : CallId}

theorem Advances.failing {k : Key} {q p : Phase} (h : Advances σ k a c q p)
    (failed : σ.futures f = .value none) (hq : q.failing f) : p.failing f := by
  cases h with
  | get ready =>
    obtain rfl : _ = f := hq
    rw [failed] at ready
    obtain rfl := Option.some.inj ready
    exact ⟨rfl, rfl⟩
  | @ret _ q p ready =>
    cases q with
    | got g s =>
      obtain ⟨rfl, rfl⟩ := hq
      obtain rfl := Option.some.inj ready
      exact rfl
    | sharing | published => exact hq.elim
    | entered | loading | loaded | unwinding | resolved | waiting | acquired | done =>
      cases ready
  | share | join | begin | load | throw | setValue | publish | unwind | finish => exact hq.elim

/-- Only a first locked section while the load is listed brings a new call under its
    failure. -/
theorem Advances.failing_inv (inv : Inv σ) (failed : FailedLoad σ f) (other : f ≠ c) {k : Key}
    {q p : Phase} (h : Advances σ k a c q p) (hp : p.failing f) :
    q.failing f ∨ (a = .lookup c ∧ LoadInProgress σ f k) := by
  cases h with
  | join he hf =>
    obtain rfl : _ = f := hp
    exact .inr ⟨rfl, inv.failedLoad_inProgress failed he hf⟩
  | @get _ g p ready =>
    left
    cases hv : σ.futures g with
    | empty =>
      rw [hv] at ready
      cases ready
    | value s =>
      rw [hv] at ready
      obtain rfl := Option.some.inj ready
      exact hp.1
    | broken =>
      rw [hv] at ready
      obtain rfl := Option.some.inj ready
      exact hp.elim
  | @ret _ q p ready =>
    cases q with
    | sharing s =>
      obtain rfl := Option.some.inj ready
      exact hp.elim
    | published status =>
      obtain rfl := Option.some.inj ready
      by_cases ok : status.ok = true
      · simp only [ok, ↓reduceIte, Phase.failing] at hp
      · simp only [ok, Bool.false_eq_true, ↓reduceIte, Phase.failing] at hp
        exact absurd hp.symm other
    | got g s =>
      cases s with
      | some s =>
        obtain rfl := Option.some.inj ready
        exact hp.elim
      | none =>
        obtain rfl := Option.some.inj ready
        exact .inl ⟨hp, rfl⟩
    | entered | loading | loaded | unwinding | resolved | waiting | acquired | done =>
      cases ready
  | share | begin | load | throw | setValue | publish | unwind | finish => exact hp.elim

theorem Inv.asks_joins (inv : Inv σ) (h : step σ (.lookup c) = some σ') {call : Call}
    (hc : σ.calls c = some call) (listed : LoadInProgress σ f call.key) : Failing σ' c f := by
  have owns : Owns σ f call.key := inv.inFlight_owns listed
  cases step_transition h with
  | share hd hp he hs =>
    obtain rfl := Option.some.inj (hc.symm.trans hd)
    obtain rfl := Option.some.inj (owns.symm.trans he)
    cases hs
  | join hd hp he hs hf =>
    obtain rfl := Option.some.inj (hc.symm.trans hd)
    obtain rfl := Option.some.inj (owns.symm.trans he)
    exact ⟨_, Function.update_self .., (Option.some.inj hf).symm⟩
  | fresh hd hp gone =>
    obtain rfl := Option.some.inj (hc.symm.trans hd)
    cases (gone _ owns).2

theorem failing_step (inv : Inv σ) (failed : FailedLoad σ f) (other : f ≠ c)
    (h : step σ a = some σ') : Failing σ' c f ↔ Failing σ c f ∨ AsksDuring c f σ a := by
  constructor
  · rintro ⟨call', hc', hp⟩
    rcases step_call h hc' with old | ⟨_, new⟩ | ⟨call, hc, _, adv⟩
    · exact .inl ⟨call', old, hp⟩
    · rw [new] at hp
      exact hp.elim
    · rcases adv.failing_inv inv failed other hp with hq | ⟨rfl, listed⟩
      · exact .inl ⟨call, hc, hq⟩
      · exact .inr ⟨rfl, call, hc, listed⟩
  · rintro (⟨call, hc, hp⟩ | ⟨rfl, call, hc, listed⟩)
    · obtain ⟨call', hc', _, rfl | adv⟩ := call_step h hc (inv.started c call hc)
      · exact ⟨call', hc', hp⟩
      · exact ⟨call', hc', adv.failing failed.1 hp⟩
    · exact inv.asks_joins h hc listed

theorem answeredWith_step (inv : Inv σ) (answered : AnsweredWith σ c f)
    (h : step σ a = some σ') : AnsweredWith σ' c f := by
  obtain ⟨call, status, hc, hp⟩ := answered
  obtain ⟨call', hc', _, rfl | adv⟩ := call_step h hc (inv.started c call hc)
  · exact ⟨call', status, hc', hp⟩
  · rw [hp] at adv
    cases adv with
    | ret ready => cases ready

theorem answeredWith_iff (ended : Ended σ c) : AnsweredWith σ c f ↔ Failing σ c f := by
  obtain ⟨call, outcome, hc, hp⟩ := ended
  constructor
  · rintro ⟨call', status, hc', hp'⟩
    exact ⟨call', hc', by rw [hp']; rfl⟩
  · rintro ⟨call', hc', hf⟩
    obtain rfl := Option.some.inj (hc.symm.trans hc')
    rw [hp] at hf
    cases outcome with
    | failed g status =>
      obtain rfl : g = f := hf
      exact ⟨call, status, hc, hp⟩
    | ok | threw => exact hf.elim

end

/-- Some call has been answered with the failure of `f`, and `c₂` starts later. In any
    run from there `c₂` is not answered with it too exactly if, when it ends, it has not
    asked while `f` was still listed. -/
theorem not_answered_iff_not_asked {σ₁ σ₂ : State} (reachable : Reachable σ₁) {c₁ c₂ f : CallId}
    (returned : AnsweredWith σ₁ c₁ f) (later : σ₁.calls c₂ = none) {as : List Action}
    (run : Run step σ₁ as σ₂) :
    ¬ AnsweredWith σ₂ c₂ f ↔
      (Ended σ₂ c₂ → AllSteps step (fun σ a => ¬ AsksDuring c₂ f σ a) σ₁ as) := by
  have other : f ≠ c₂ := by
    rintro rfl
    obtain ⟨_, _, call, hf, _⟩ := reachable.inv.failedLoad returned
    rw [later] at hf
    cases hf
  have spared : ¬ Failing σ₂ c₂ f ↔
      AllSteps step (fun σ a => ¬ AsksDuring c₂ f σ a) σ₁ as := by
    refine run.last_iff_allSteps (I := fun σ => Inv σ ∧ AnsweredWith σ c₁ f)
      (P := fun σ => ¬ Failing σ c₂ f) ?_ ?_
      ⟨reachable.inv, returned⟩ ?_
    · rintro σ a σ' ⟨inv, answered⟩ h
      exact ⟨inv_step σ a σ' inv h, answeredWith_step inv answered h⟩
    · rintro σ a σ' ⟨inv, answered⟩ h
      rw [failing_step inv (inv.failedLoad answered) other h, not_or]
    · rintro ⟨call, hc, _⟩
      rw [later] at hc
      cases hc
  rw [← spared]
  constructor
  · intro h ended
    rwa [← answeredWith_iff ended]
  · rintro h ⟨call, status, hc, hp⟩
    have ended : Ended σ₂ c₂ := ⟨call, _, hc, hp⟩
    exact h ended ((answeredWith_iff ended).mp ⟨call, status, hc, hp⟩)

def curlFailed : Status := ⟨.downloadFailed, "could not initialise curl"⟩

/-- The load of call 0 fails, and its waiter, call 1, returns before the entry goes. -/
def waiterFails : List Action :=
  [.construct, .construct, .construct, .start bgeSmallEnV15 .cpu .fp32 0,
    .start bgeSmallEnV15 .cpu .fp32 1, .lookup 0, .lookup 1,
    .load 0 (.returned curlFailed), .setValue 0, .get 1, .ret 1]

def thenRetries : List Action :=
  [.start bgeSmallEnV15 .cpu .fp32 2, .lookup 2, .get 2, .ret 2]

theorem answeredWith_of_phase {σ : State} {c f : CallId} (status : Status)
    (h : (σ.calls c).map (·.phase) = some (.done (.failed f status))) : AnsweredWith σ c f := by
  obtain ⟨call, hc, hp⟩ := Option.map_eq_some_iff.mp h
  exact ⟨call, status, hc, hp⟩

theorem waiterFails_answered : AnsweredWith (after waiterFails) 1 0 :=
  answeredWith_of_phase State.concurrentLoadFailed (by decide)

theorem thenRetries_run :
    Run step (after waiterFails) thenRetries (after (waiterFails ++ thenRetries)) := by
  obtain ⟨σ, hσ⟩ := Option.isSome_iff_exists.mp
    (show (exec step (after waiterFails) thenRetries).isSome = true by decide)
  have whole : after (waiterFails ++ thenRetries) = σ := by
    obtain ⟨τ, hτ⟩ := Option.isSome_iff_exists.mp
      (show (exec step initial waiterFails).isSome = true by decide)
    have start : after waiterFails = τ := by rw [after, hτ, Option.getD_some]
    rw [start] at hσ
    rw [after, ((exec_run hτ).trans (exec_run hσ)).exec_eq, Option.getD_some]
  rw [whole]
  exact exec_run hσ

theorem not_answered_iff_retry :
    ¬ AnsweredWith (after (waiterFails ++ thenRetries)) 2 0 ↔
      (Ended (after (waiterFails ++ thenRetries)) 2 →
        AllSteps step (fun σ a => ¬ AsksDuring 2 0 σ a) (after waiterFails) thenRetries) :=
  not_answered_iff_not_asked (reachable_after (by decide)) waiterFails_answered rfl
    thenRetries_run

/-- Call 1 has returned with the failure of call 0's load, and call 2, which starts
    only after that, is answered with the same failure. -/
theorem retry_inherits_error :
    ¬ ∀ σ₁, Reachable σ₁ → ∀ c₁ c₂ f, AnsweredWith σ₁ c₁ f → σ₁.calls c₂ = none →
      ∀ as σ₂, Run step σ₁ as σ₂ → ¬ AnsweredWith σ₂ c₂ f := by
  intro h
  refine h (after waiterFails) (reachable_after (by decide)) 1 2 0 waiterFails_answered rfl
    thenRetries _ thenRetries_run ?_
  exact answeredWith_of_phase State.concurrentLoadFailed (by decide)

end CyborgdbEmbed.SessionStore

import CyborgdbEmbed.SessionStorePreservation

set_option autoImplicit false

namespace CyborgdbEmbed.SessionStore
open TransitionSystem

def LoadInProgress (σ : State) (c : CallId) (k : Key) : Prop :=
  ∃ call, σ.calls c = some call ∧ call.key = k ∧ call.phase.inFlight

def Alive (σ : State) (s : CallId) (k : Key) : Prop := BuiltFor σ s k ∧ 0 < σ.useCount s

def ReturnedOk (σ : State) (c s : CallId) (k : Key) : Prop :=
  ∃ call, σ.calls c = some call ∧ call.key = k ∧
    (call.phase = .acquired s ∨ call.phase = .done (.ok s))

/-- Call `c` for key `k` has joined the load of `f` and not heard from it. -/
def WaitsFor (σ : State) (c f : CallId) (k : Key) : Prop :=
  ∃ call, σ.calls c = some call ∧ call.key = k ∧ call.phase = .waiting f

def Phase.joined (f : CallId) : Phase → Prop
  | .waiting g => g = f
  | .got g s => g = f ∧ ∀ t, s = some t → t = f
  | .acquired s | .done (.ok s) => s = f
  | .done (.failed g _) | .done (.threw g) => g = f
  | _ => False

theorem getPhase_joined {σ : State} (inv : Inv σ) {f g : CallId} {p : Phase}
    (hg : (Phase.waiting g).joined f) (h : getPhase g (σ.futures g) = some p) : p.joined f := by
  obtain rfl : g = f := hg
  cases hv : σ.futures g with
  | empty => simp [hv, getPhase] at h
  | value s =>
    obtain rfl : Phase.got g s = p := by simpa [hv, getPhase] using h
    refine ⟨rfl, ?_⟩
    rintro t rfl
    obtain ⟨_, _, hs⟩ := inv.future g (by simp [hv])
    exact (hs t hv).1
  | broken =>
    obtain rfl : Phase.done (.threw g) = p := by simpa [hv, getPhase] using h
    rfl

theorem retPhase_joined {c f : CallId} {q p : Phase} (hq : q.joined f)
    (h : retPhase c q = some p) : p.joined f := by
  cases q with
  | got g s =>
    obtain ⟨rfl, hs⟩ := hq
    cases s with
    | some s =>
      obtain rfl : Phase.acquired s = p := by simpa [retPhase] using h
      exact hs s rfl
    | none =>
      obtain rfl : Phase.done (.failed g State.concurrentLoadFailed) = p := by
        simpa [retPhase] using h
      rfl
  | sharing | published => exact hq.elim
  | entered | loading | loaded | unwinding | resolved | waiting | acquired | done =>
    simp [retPhase] at h

theorem Advances.joined {σ : State} (inv : Inv σ) {k : Key} {a : Action} {c f : CallId}
    {q p : Phase} (h : Advances σ k a c q p) (hq : q.joined f) : p.joined f := by
  cases h with
  | get ready => exact getPhase_joined inv hq ready
  | ret ready => exact retPhase_joined hq ready
  | finish => exact hq
  | share | join | begin | load | throw | setValue | publish | unwind => exact hq.elim

theorem joined_step {σ σ' : State} {a : Action} {c f : CallId} {k : Key} (inv : Inv σ)
    (h : step σ a = some σ')
    (joined : ∃ call, σ.calls c = some call ∧ call.key = k ∧ call.phase.joined f) :
    ∃ call, σ'.calls c = some call ∧ call.key = k ∧ call.phase.joined f := by
  obtain ⟨call, hc, hk, hj⟩ := joined
  obtain ⟨call', hc', hk', rfl | adv⟩ := call_step h hc (inv.started c call hc)
  · exact ⟨call', hc', hk, hj⟩
  · exact ⟨call', hc', hk'.trans hk, adv.joined inv hj⟩

structure SingleFlight (σ : State) (k : Key) : Prop where
  oneLoad : ∀ c d, LoadInProgress σ c k → LoadInProgress σ d k → c = d
  oneSession : ∀ s t, Alive σ s k → Alive σ t k → s = t
  noneAliveAtStart : ∀ c σ', step σ (.lookup c) = some σ' → LoadInProgress σ' c k →
    ∀ s, ¬ Alive σ s k
  ownEntry : ∀ c call status, σ.calls c = some call → call.key = k →
    call.phase = .resolved status → σ.entries.lookup k = some { pending := some c }
  builtForKey : ∀ c s, ReturnedOk σ c s k →
    ∃ x, σ.sessions s = some x ∧ x.key = k ∧ Started σ s k
  joinedLoad : ∀ c f, WaitsFor σ c f k → Started σ f k ∧
    ∀ as σ' s, Run step σ as σ' → ReturnedOk σ' c s k → s = f

section
variable {σ : State} {k : Key}

theorem Inv.inFlight_owns (inv : Inv σ) {c : CallId} (h : LoadInProgress σ c k) : Owns σ c k := by
  obtain ⟨call, hc, rfl, hp⟩ := h
  have sound := inv.sound c call hc
  cases hq : call.phase with
  | loading | loaded | unwinding | resolved =>
    rw [hq] at sound
    exact sound.1
  | entered | sharing | published | waiting | got | acquired | done =>
    simp [hq, Phase.inFlight] at hp

theorem window_inFlight {p : Phase} (h : p.window) : p.inFlight := by
  cases p with
  | loaded | resolved => trivial
  | entered | sharing | loading | unwinding | published | waiting | got | acquired | done =>
    exact h.elim

/-- A session that is alive is the one listed for its key, or the one its loader
    has built and not yet published. -/
theorem Inv.alive_cases (inv : Inv σ) {s : CallId} (h : Alive σ s k) :
    (∃ e, σ.entries.lookup k = some e ∧ e.session = some s) ∨
      (LoadInProgress σ s k ∧ ∃ call, σ.calls s = some call ∧ call.phase.window) := by
  obtain ⟨built, used⟩ := h
  rcases inv.placed s k built ((useCount_pos_iff inv.numbered s).mp used) with listed |
    ⟨call, hs, hw⟩
  · exact .inl listed
  · obtain rfl := inv.builtKey hs built
    exact .inr ⟨⟨call, hs, rfl, window_inFlight hw⟩, call, hs, hw⟩

theorem Inv.alive_unique (inv : Inv σ) {s t : CallId} (hs : Alive σ s k) (ht : Alive σ t k) :
    s = t := by
  -- a listed session and a load in flight for one key exclude each other
  have apart {u v : CallId} {e : Entry} (he : σ.entries.lookup k = some e)
      (hu : e.session = some u) (hv : LoadInProgress σ v k) : False := by
    obtain rfl := Option.some.inj (he.symm.trans (inv.inFlight_owns hv))
    cases hu
  rcases inv.alive_cases hs with ⟨e, he, hes⟩ | ⟨hls, _⟩ <;>
    rcases inv.alive_cases ht with ⟨e', he', het⟩ | ⟨hlt, _⟩
  · obtain rfl := Option.some.inj (he.symm.trans he')
    exact Option.some.inj (hes.symm.trans het)
  · exact (apart he hes hlt).elim
  · exact (apart he' het hls).elim
  · exact (inv.inFlight_owns hls).unique (inv.inFlight_owns hlt)

theorem Inv.fresh_none_alive (inv : Inv σ) {c : CallId} {σ' : State}
    (h : step σ (.lookup c) = some σ') (begun : LoadInProgress σ' c k) (s : CallId) :
    ¬ Alive σ s k := by
  obtain ⟨call', hc', hk', hp'⟩ := begun
  cases step_transition h with
  | share hc | join hc =>
    obtain rfl := Option.some.inj ((Function.update_self _ _ σ.calls).symm.trans hc')
    exact hp'.elim
  | @fresh _ call hc hp gone =>
    have hk : call.key = k := by
      obtain rfl := Option.some.inj ((Function.update_self _ _ σ.calls).symm.trans hc')
      exact hk'
    subst hk
    intro alive
    rcases inv.alive_cases alive with ⟨e, he, hs⟩ | ⟨loading, _⟩
    · have dead := (gone e he).1
      simp only [State.lock, hs, Option.filter_some, alive.2, decide_true, ↓reduceIte,
        reduceCtorEq] at dead
    · cases (gone _ (inv.inFlight_owns loading)).2

theorem Inv.builtForKey (inv : Inv σ) {c s : CallId} (h : ReturnedOk σ c s k) :
    ∃ x, σ.sessions s = some x ∧ x.key = k ∧ Started σ s k := by
  obtain ⟨call, hc, rfl, hp⟩ := h
  have sound := inv.sound c call hc
  obtain ⟨x, hx, hk⟩ : BuiltFor σ s call.key := by
    rcases hp with hp | hp <;> rw [hp] at sound
    · exact sound
    · exact sound.1
  obtain ⟨loader, hs, hxk⟩ := inv.session s x hx
  exact ⟨x, hx, hk, loader, hs, hxk.symm.trans hk⟩

theorem Inv.joinedLoad (inv : Inv σ) {c f : CallId} (h : WaitsFor σ c f k) :
    Started σ f k ∧ ∀ as σ' s, Run step σ as σ' → ReturnedOk σ' c s k → s = f := by
  obtain ⟨call, hc, rfl, hp⟩ := h
  have sound : f ≠ c ∧ Started σ f call.key := by
    simpa only [hp, Sound] using inv.sound c call hc
  refine ⟨sound.2, fun as σ' s run returned => ?_⟩
  -- the induction is on the run; the invariant is carried beside what the waiter became
  let I : State → Prop := fun τ => Inv τ ∧
    ∃ call', τ.calls c = some call' ∧ call'.key = call.key ∧ call'.phase.joined f
  have kept : I σ' := run.invariant (I := I)
    (fun τ a τ' hi hs => ⟨inv_step τ a τ' hi.1 hs, joined_step hi.1 hs hi.2⟩)
    ⟨inv, call, hc, rfl, by rw [hp]; rfl⟩
  obtain ⟨_, call', hc', _, hj⟩ := kept
  obtain ⟨call'', hc'', _, hp''⟩ := returned
  obtain rfl := Option.some.inj (hc'.symm.trans hc'')
  rcases hp'' with hp'' | hp'' <;> simpa only [hp'', Phase.joined] using hj

end

theorem singleFlight {σ : State} (h : Reachable σ) (k : Key) : SingleFlight σ k where
  oneLoad := fun _ _ hc hd => (h.inv.inFlight_owns hc).unique (h.inv.inFlight_owns hd)
  oneSession := fun _ _ hs ht => h.inv.alive_unique hs ht
  noneAliveAtStart := fun _ _ hs begun => h.inv.fresh_none_alive hs begun
  ownEntry := fun _ _ _ hc hk hp => h.inv.inFlight_owns ⟨_, hc, hk, by rw [hp]; trivial⟩
  builtForKey := fun _ _ hr => h.inv.builtForKey hr
  joinedLoad := fun _ _ hw => h.inv.joinedLoad hw

/-- Two opens of one model: the second joins the load of the first and is woken by it. -/
def twoOpens (entry : RegistryEntry ModelId) : List Action :=
  [.construct, .construct, .start entry .cpu .fp32 0, .start entry .cpu .fp32 1,
    .lookup 0, .lookup 1, .load 0 (.returned {}), .setValue 0, .get 1]

theorem singleFlight_twoOpens : SingleFlight (after (twoOpens bgeSmallEnV15))
    ⟨.bgeSmallEnV15, .cpu, .fp32⟩ :=
  singleFlight (reachable_after (by decide)) _

end CyborgdbEmbed.SessionStore

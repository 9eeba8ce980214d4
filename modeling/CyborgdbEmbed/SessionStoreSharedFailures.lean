import CyborgdbEmbed.SessionStoreStaleErrors
import CyborgdbEmbed.SessionStoreStats

set_option autoImplicit false

namespace CyborgdbEmbed.SessionStore
open TransitionSystem

/-- The load of call `f`, which is in this phase, has failed. -/
def Phase.failed (f : CallId) : Phase → Prop
  | .loaded status | .resolved status | .published status => status.ok = false
  | .unwinding => True
  | .done (.failed g _) | .done (.threw g) => g = f
  | _ => False

def LoadOutcome.bad : LoadOutcome → Prop
  | .returned status => status.ok = false
  | .threw => True

def Doomed (σ : State) (f : CallId) : Prop := ∃ call, σ.calls f = some call ∧ call.phase.failed f

/-- What `c` gets is the failure of another call's load. -/
def Phase.inherits (σ : State) (c : CallId) : Phase → Prop
  | .waiting f => Doomed σ f
  | .got _ s => s = none
  | .done (.failed f _) | .done (.threw f) => f ≠ c
  | _ => False

def SharesFailure (σ : State) : Prop := ∃ c call, σ.calls c = some call ∧ call.phase.inherits σ c

/-- A load fails with some call waiting on it, or a call joins a load that has failed. -/
def JoinsFailure (σ : State) : Action → Prop
  | .load f outcome => outcome.bad ∧ ∃ c call, σ.calls c = some call ∧ call.phase = .waiting f
  | .lookup c => ∃ call e f, σ.calls c = some call ∧ σ.entries.lookup call.key = some e ∧
      e.pending = some f ∧ Doomed σ f
  | _ => False

section
variable {σ σ' : State} {a : Action} {c f : CallId}

theorem Doomed.future (inv : Inv σ) (h : Doomed σ f) : ∀ s, σ.futures f ≠ .value (some s) := by
  obtain ⟨call, hc, failed⟩ := h
  have sound := inv.sound f call hc
  intro s hs
  cases hp : call.phase with
  | loaded status =>
    rw [hp] at sound
    rw [sound.2.1] at hs
    cases hs
  | resolved status =>
    rw [hp] at sound failed
    have bad : status.ok = false := failed
    rw [sound.2.1, bad] at hs
    cases hs
  | published status =>
    rw [hp] at sound failed
    have bad : status.ok = false := failed
    rw [sound.1, bad] at hs
    cases hs
  | unwinding =>
    rw [hp] at sound
    rw [sound.2] at hs
    cases hs
  | done outcome =>
    rw [hp] at sound failed
    cases outcome with
    | ok t => exact failed
    | failed g status =>
      obtain rfl : g = f := failed
      rw [sound.2] at hs
      cases hs
    | threw g =>
      obtain rfl : g = f := failed
      rw [(sound rfl).2] at hs
      cases hs
  | entered | sharing | loading | waiting | got | acquired =>
    rw [hp] at failed
    exact failed

theorem Inv.doomed_of_future (inv : Inv σ) (roles : Roles σ)
    (h : σ.futures f = .value none ∨ σ.futures f = .broken) : Doomed σ f := by
  have set : σ.futures f ≠ .empty := by
    rcases h with h | h <;> rw [h] <;> nofun
  obtain ⟨call, hc, _⟩ := inv.future f set
  have sound := inv.sound f call hc
  have lender : ¬ (call.phase = .entered ∨ call.phase.borrows f = true) :=
    fun role => set (roles.borrower f call hc role).1
  have builder := roles.builder f call hc
  have unsuccessful : ∀ s, σ.futures f ≠ .value (some s) := by
    intro s hs
    rw [hs] at h
    rcases h with h | h <;> cases h
  refine ⟨call, hc, ?_⟩
  cases hp : call.phase with
  | loaded status =>
    rw [hp] at sound
    exact absurd sound.2.1 set
  | resolved status =>
    rw [hp] at sound
    change status.ok = false
    cases ok : status.ok with
    | false => rfl
    | true => exact absurd (sound.2.1.trans (by rw [if_pos ok])) (unsuccessful f)
  | published status =>
    rw [hp] at sound
    change status.ok = false
    cases ok : status.ok with
    | false => rfl
    | true => exact absurd (sound.1.trans (by rw [if_pos ok])) (unsuccessful f)
  | unwinding => trivial
  | loading config =>
    rw [hp] at sound
    exact absurd sound.2 set
  | acquired s =>
    rw [hp] at lender builder
    by_cases own : s = f
    · exact absurd (builder own) (unsuccessful f)
    · exact absurd (.inr (bne_iff_ne.mpr own)) lender
  | done outcome =>
    rw [hp] at lender builder
    cases outcome with
    | ok s =>
      by_cases own : s = f
      · exact absurd (builder own) (unsuccessful f)
      · exact absurd (.inr (bne_iff_ne.mpr own)) lender
    | failed g status | threw g =>
      by_contra other
      exact lender (.inr (bne_iff_ne.mpr other))
  | entered => exact absurd (.inl hp) lender
  | sharing | waiting | got =>
    rw [hp] at lender
    exact absurd (.inr rfl) lender

theorem Advances.failed {k : Key} {q p : Phase} (h : Advances σ k a f q p) (hq : q.failed f) :
    p.failed f := by
  cases h with
  | setValue | publish => exact hq
  | unwind => exact rfl
  | @ret _ q p ready =>
    cases q with
    | published status =>
      have bad : status.ok = false := hq
      obtain rfl := Option.some.inj ready
      rw [bad]
      exact rfl
    | sharing | got => exact hq.elim
    | entered | loading | loaded | unwinding | resolved | waiting | acquired | done => cases ready
  | share | join | begin | load | throw | get | finish => exact hq.elim

theorem Advances.failed_inv {k : Key} {q p : Phase} (sound : Sound σ f k q) (apart : q.apart f)
    (h : Advances σ k a f q p) (hp : p.failed f) :
    q.failed f ∨ ∃ outcome, a = .load f outcome ∧ outcome.bad := by
  cases h with
  | load => exact .inr ⟨_, rfl, hp⟩
  | throw => exact .inr ⟨_, rfl, trivial⟩
  | setValue | publish => exact .inl hp
  | unwind => exact .inl trivial
  | @get _ g p ready =>
    cases hv : σ.futures g with
    | broken =>
      rw [hv] at ready
      obtain rfl := Option.some.inj ready
      exact absurd hp sound.1
    | empty | value =>
      rw [hv] at ready
      cases ready
      try exact hp.elim
  | @ret _ q p ready =>
    cases q with
    | published status =>
      obtain rfl := Option.some.inj ready
      cases ok : status.ok with
      | false => exact .inl ok
      | true =>
        rw [ok] at hp
        exact hp.elim
    | got g s =>
      cases s with
      | some s =>
        obtain rfl := Option.some.inj ready
        exact hp.elim
      | none =>
        obtain rfl := Option.some.inj ready
        exact absurd hp apart
    | sharing s =>
      obtain rfl := Option.some.inj ready
      exact hp.elim
    | entered | loading | loaded | unwinding | resolved | waiting | acquired | done => cases ready
  | share | join | begin | finish => exact hp.elim

theorem doomed_step (inv : Inv σ) (roles : Roles σ) (h : step σ a = some σ') :
    Doomed σ' f ↔ Doomed σ f ∨ ∃ outcome, a = .load f outcome ∧ outcome.bad := by
  constructor
  · rintro ⟨call', hc', hp⟩
    rcases step_call h hc' with old | ⟨_, new⟩ | ⟨call, hc, _, adv⟩
    · exact .inl ⟨call', old, hp⟩
    · rw [new] at hp
      exact hp.elim
    · refine (adv.failed_inv (inv.sound f call hc) (roles.apart f call hc) hp).imp_left ?_
      exact fun hq => ⟨call, hc, hq⟩
  · rintro (⟨call, hc, hp⟩ | ⟨outcome, rfl, bad⟩)
    · obtain ⟨call', hc', _, rfl | adv⟩ := call_step h hc (inv.started f call hc)
      · exact ⟨call', hc', hp⟩
      · exact ⟨call', hc', adv.failed hp⟩
    · cases step_transition h with
      | loadOk hc hp ok =>
        have hbad : _ = false := bad
        rw [ok] at hbad
        cases hbad
      | loadFail hc hp => exact ⟨_, Function.update_self .., bad⟩
      | loadThrow hc hp => exact ⟨_, Function.update_self .., trivial⟩

theorem Advances.inherits (inv : Inv σ) {k : Key} {q p : Phase} (sound : Sound σ c k q)
    (apart : q.apart c) (h : Advances σ k a c q p) (hq : q.inherits σ c) : p.inherits σ' c := by
  cases h with
  | @get _ f p ready =>
    have doomed : Doomed σ f := hq
    cases hv : σ.futures f with
    | empty =>
      rw [hv] at ready
      cases ready
    | value s =>
      rw [hv] at ready
      obtain rfl := Option.some.inj ready
      cases s with
      | none => exact rfl
      | some s => exact absurd hv (doomed.future inv s)
    | broken =>
      rw [hv] at ready
      obtain rfl := Option.some.inj ready
      exact sound.1
  | @ret _ q p ready =>
    cases q with
    | got f s =>
      obtain rfl : s = none := hq
      obtain rfl := Option.some.inj ready
      exact apart
    | sharing | published => exact hq.elim
    | entered | loading | loaded | unwinding | resolved | waiting | acquired | done => cases ready
  | share | join | begin | load | throw | setValue | publish | unwind | finish => exact hq.elim

theorem Advances.inherits_inv (inv : Inv σ) (roles : Roles σ) {k : Key} {q p : Phase}
    (h : Advances σ k a c q p) (hp : p.inherits σ c) :
    q.inherits σ c ∨ ∃ e f, a = .lookup c ∧ σ.entries.lookup k = some e ∧ e.pending = some f ∧
      Doomed σ f := by
  cases h with
  | join he hf => exact .inr ⟨_, _, rfl, he, hf, hp⟩
  | @get _ f p ready =>
    left
    cases hv : σ.futures f with
    | empty =>
      rw [hv] at ready
      cases ready
    | value s =>
      rw [hv] at ready
      obtain rfl := Option.some.inj ready
      obtain rfl : s = none := hp
      exact inv.doomed_of_future roles (.inl hv)
    | broken => exact inv.doomed_of_future roles (.inr hv)
  | @ret _ q p ready =>
    cases q with
    | sharing s =>
      obtain rfl := Option.some.inj ready
      exact hp.elim
    | published status =>
      obtain rfl := Option.some.inj ready
      cases ok : status.ok with
      | true =>
        rw [ok] at hp
        exact hp.elim
      | false =>
        rw [ok] at hp
        exact absurd rfl hp
    | got f s =>
      cases s with
      | some s =>
        obtain rfl := Option.some.inj ready
        exact hp.elim
      | none => exact .inl rfl
    | entered | loading | loaded | unwinding | resolved | waiting | acquired | done => cases ready
  | unwind => exact absurd rfl hp
  | share | begin | load | throw | setValue | publish | finish => exact hp.elim

theorem inherits_mono (inv : Inv σ) (roles : Roles σ) (h : step σ a = some σ') {p : Phase}
    (hp : p.inherits σ c) : p.inherits σ' c := by
  cases p with
  | waiting f => exact (doomed_step inv roles h).mpr (.inl hp)
  | got => exact hp
  | done outcome => cases outcome <;> exact hp
  | entered | sharing | loading | loaded | unwinding | resolved | published | acquired =>
    exact hp.elim

theorem inherits_back (inv : Inv σ) (roles : Roles σ) (h : step σ a = some σ') {p : Phase}
    (hp : p.inherits σ' c) :
    p.inherits σ c ∨ ∃ f outcome, p = .waiting f ∧ a = .load f outcome ∧ outcome.bad := by
  cases p with
  | waiting f =>
    apply ((doomed_step inv roles h).mp hp).imp_right
    exact fun ⟨outcome, ha, bad⟩ => ⟨f, outcome, rfl, ha, bad⟩
  | got => exact .inl hp
  | done outcome => cases outcome <;> exact .inl hp
  | entered | sharing | loading | loaded | unwinding | resolved | published | acquired =>
    exact hp.elim

theorem sharesFailure_step (inv : Inv σ) (roles : Roles σ) (h : step σ a = some σ') :
    SharesFailure σ' ↔ SharesFailure σ ∨ JoinsFailure σ a := by
  constructor
  · rintro ⟨c, call', hc', hp⟩
    have back := inherits_back inv roles h hp
    rcases step_call h hc' with old | ⟨_, new⟩ | ⟨call, hc, _, adv⟩
    · rcases back with hq | ⟨f, outcome, hw, rfl, bad⟩
      · exact .inl ⟨c, call', old, hq⟩
      · exact .inr ⟨bad, c, call', old, hw⟩
    · rw [new] at hp
      exact hp.elim
    · rcases back with hq | ⟨f, outcome, hw, rfl, bad⟩
      · rcases adv.inherits_inv inv roles hq with hq | ⟨e, f, rfl, he, hf, doomed⟩
        · exact .inl ⟨c, call, hc, hq⟩
        · exact .inr ⟨call, e, f, hc, he, hf, doomed⟩
      · generalize call.phase = q at adv
        rw [hw] at adv
        cases adv
  · rintro (⟨c, call, hc, hp⟩ | joins)
    · obtain ⟨call', hc', _, rfl | adv⟩ := call_step h hc (inv.started c call hc)
      · exact ⟨c, call', hc', inherits_mono inv roles h hp⟩
      · exact ⟨c, call', hc', adv.inherits inv (inv.sound c call hc) (roles.apart c call hc) hp⟩
    · cases a with
      | load f outcome =>
        obtain ⟨bad, c, call, hc, hw⟩ := joins
        have doomed : Doomed σ' f := (doomed_step inv roles h).mpr (.inr ⟨outcome, rfl, bad⟩)
        obtain ⟨call', hc', _, rfl | adv⟩ := call_step h hc (inv.started c call hc)
        · exact ⟨c, call', hc', by rw [hw]; exact doomed⟩
        · rw [hw] at adv
          cases adv
      | lookup c =>
        obtain ⟨call, e, f, hc, he, hf, failed⟩ := joins
        have doomed : Doomed σ' f := (doomed_step inv roles h).mpr (.inl failed)
        have weak : e.session = none := (inv.pending _ e f he hf).1
        cases step_transition h with
        | share hd hp he' hs live =>
          obtain rfl := Option.some.inj (hc.symm.trans hd)
          obtain rfl := Option.some.inj (he.symm.trans he')
          rw [weak] at hs
          cases hs
        | join hd hp he' hs hf' =>
          obtain rfl := Option.some.inj (hc.symm.trans hd)
          obtain rfl := Option.some.inj (he.symm.trans he')
          obtain rfl := Option.some.inj (hf.symm.trans hf')
          exact ⟨c, _, Function.update_self .., doomed⟩
        | fresh hd hp gone =>
          obtain rfl := Option.some.inj (hc.symm.trans hd)
          have vacant := (gone e he).2
          rw [hf] at vacant
          cases vacant
      | _ => exact joins.elim

theorem Phase.returned_cases {p : Phase} (h : p.returned = true) :
    (∃ s, p = .acquired s) ∨ ∃ outcome, p = .done outcome := by
  cases p with
  | acquired s => exact .inl ⟨s, rfl⟩
  | done outcome => exact .inr ⟨outcome, rfl⟩
  | _ => cases h

theorem Idle.no_loading (idle : Idle σ) : tally Phase.isLoading σ = 0 := by
  apply Finset.sum_eq_zero
  intro c _
  cases hc : σ.calls c with
  | none => rfl
  | some call =>
    rw [Option.any_some]
    rcases Phase.returned_cases (idle c call hc) with ⟨s, hp⟩ | ⟨outcome, hp⟩
    · rw [hp]
      rfl
    · rw [hp]
      rfl

theorem Phase.returned_borrows {p : Phase} (h : p.returned = true) :
    (p.borrows c).toNat = (p.sharedOk c).toNat + (p.sharedFailure c).toNat := by
  rcases Phase.returned_cases h with ⟨s, rfl⟩ | ⟨outcome, rfl⟩
  · rfl
  · cases outcome with
    | ok s => rfl
    | failed | threw => exact (Nat.zero_add _).symm

theorem Idle.borrows_eq (idle : Idle σ) :
    tally Phase.borrows σ = tally Phase.sharedOk σ + tally Phase.sharedFailure σ := by
  unfold tally
  rw [← Finset.sum_add_distrib]
  apply Finset.sum_congr rfl
  intro c _
  cases hc : σ.calls c with
  | none => rfl
  | some call => exact Phase.returned_borrows (idle c call hc)

theorem Phase.returned_inherits {p : Phase} (h : p.returned = true) :
    p.inherits σ c ↔ (p.sharedFailure c).toNat ≠ 0 := by
  rcases Phase.returned_cases h with ⟨s, rfl⟩ | ⟨outcome, rfl⟩
  · simp [Phase.inherits, Phase.sharedFailure]
  · cases outcome with
    | ok s => simp [Phase.inherits, Phase.sharedFailure]
    | failed | threw => simp [Phase.inherits, Phase.sharedFailure]

theorem Idle.sharedFailure_eq_zero_iff (inv : Inv σ) (idle : Idle σ) :
    tally Phase.sharedFailure σ = 0 ↔ ¬ SharesFailure σ := by
  unfold tally SharesFailure
  rw [Finset.sum_eq_zero_iff]
  constructor
  · rintro spared ⟨c, call, hc, hp⟩
    have zero := spared c (Finset.mem_range.mpr (inv.started c call hc))
    rw [hc, Option.any_some] at zero
    exact (Phase.returned_inherits (idle c call hc)).mp hp zero
  · intro spared c _
    cases hc : σ.calls c with
    | none => rfl
    | some call =>
      by_contra nonzero
      exact spared ⟨c, call, hc, (Phase.returned_inherits (idle c call hc)).mpr nonzero⟩

/-- In a state with no `acquire` in progress both counters are exact just when, on the way
    there, no call was waiting on a load when it failed and none joined a failed load. -/
theorem stats_exact_iff {as : List Action} (run : Run step initial as σ) (idle : Idle σ) :
    ((stats σ).loaded = as.countP Action.loads ∧ (stats σ).shared = tally Phase.sharedOk σ) ↔
      AllSteps step (fun σ a => ¬ JoinsFailure σ a) initial as := by
  have counters := Reachable.counters run
  have inv : Inv σ := Reachable.inv ⟨as, run⟩
  have spared : ¬ SharesFailure σ ↔
      AllSteps step (fun σ a => ¬ JoinsFailure σ a) initial as := by
    refine run.last_iff_allSteps (I := fun σ => Inv σ ∧ Roles σ)
      (P := fun σ => ¬ SharesFailure σ) ?_ ?_ ⟨inv_initial, roles_initial⟩ ?_
    · intro s a u ⟨inv, roles⟩ h
      exact ⟨inv_step s a u inv h, roles_transition inv roles (step_transition h)⟩
    · intro s a u ⟨inv, roles⟩ h
      rw [sharesFailure_step inv roles h, not_or]
    · rintro ⟨c, call, hc, _⟩
      cases hc
  rw [← spared, ← idle.sharedFailure_eq_zero_iff inv]
  change σ.loaded = _ ∧ σ.shared = _ ↔ _
  rw [counters.1, counters.2, idle.no_loading, idle.borrows_eq]
  omega

end

theorem Idle.of_range {σ : State} (h : Reachable σ)
    (returned : ∀ c, c < σ.next → (σ.calls c).all (·.phase.returned) = true) : Idle σ := by
  intro c call hc
  have phase := returned c (h.inv.started c call hc)
  rwa [hc, Option.all_some] at phase

def joinedLoad (status : Status) : List Action :=
  [.construct, .construct, .start bgeSmallEnV15 .cpu .fp32 0, .start bgeSmallEnV15 .cpu .fp32 1,
    .lookup 0, .lookup 1, .load 0 (.returned status), .setValue 0, .publish 0, .ret 0, .get 1,
    .ret 1]

theorem joinedLoad_idle : Idle (after (joinedLoad {})) :=
  .of_range (reachable_after (by decide)) (by decide)

theorem joinedLoad_exact :
    AllSteps step (fun σ a => ¬ JoinsFailure σ a) initial (joinedLoad {}) :=
  (stats_exact_iff (run_exec (by decide)) joinedLoad_idle).mp (by decide)

/-- The joined load fails: call 1 got no session, and is still counted. -/
theorem failedJoin_counted :
    ¬ ∀ as σ, Run step initial as σ → Idle σ →
      (∀ a ∈ as, ∀ c, a ≠ .load c .threw) →
      (stats σ).loaded = as.countP Action.loads ∧ (stats σ).shared = tally Phase.sharedOk σ := by
  intro h
  have idle : Idle (after (joinedLoad curlFailed)) :=
    .of_range (reachable_after (by decide)) (by decide)
  have exact_stats := (h (joinedLoad curlFailed) _ (run_exec (by decide)) idle (by
    intro a ha c
    rintro rfl
    simp [joinedLoad] at ha)).2
  revert exact_stats
  decide
end CyborgdbEmbed.SessionStore

import CyborgdbEmbed.SessionStoreExclusion

set_option autoImplicit false

namespace CyborgdbEmbed.SessionStore
open TransitionSystem

def LoadThrew (σ : State) (c : CallId) (k : Key) : Prop :=
  ∃ call, σ.calls c = some call ∧ call.key = k ∧ call.phase = .done (.threw c)

structure LeavesNothing (σ : State) (k : Key) : Prop where
  noStaleFuture : ∀ e f, σ.entries.lookup k = some e → e.pending = some f →
    LoadInProgress σ f k
  nextLoads : (∀ c, ¬ LoadInProgress σ c k) → (∀ s, ¬ Alive σ s k) →
    ∀ c call, σ.calls c = some call → call.key = k → call.phase = .entered →
      ∃ σ', step σ (.lookup c) = some σ' ∧ LoadInProgress σ' c k

theorem Inv.lock_dead {σ : State} (inv : Inv σ) {k : Key} {e : Entry}
    (he : σ.entries.lookup k = some e) (dead : ∀ s, ¬ Alive σ s k) : σ.lock e.session = none := by
  cases hs : e.session with
  | none => rfl
  | some s =>
    have unused : ¬ 0 < σ.useCount s := fun used => dead s ⟨inv.listed k e s he hs, used⟩
    simp only [State.lock, Option.filter_some, unused, decide_false, Bool.false_eq_true,
      ↓reduceIte]

theorem Inv.leavesNothing_iff {σ : State} (inv : Inv σ) (k : Key) :
    LeavesNothing σ k ↔ ∀ c, ¬ LoadThrew σ c k := by
  constructor
  · rintro ⟨fresh, _⟩ c ⟨call, hc, rfl, hp⟩
    have stuck : Owns σ c call.key := by
      have sound := inv.sound c call hc
      rw [hp] at sound
      exact (sound rfl).1
    obtain ⟨call', hc', _, flight⟩ := fresh _ _ stuck rfl
    obtain rfl := Option.some.inj (hc.symm.trans hc')
    simp [hp, Phase.inFlight] at flight
  · intro clean
    have noStale : ∀ e f, σ.entries.lookup k = some e → e.pending = some f →
        LoadInProgress σ f k := by
      intro e f he hf
      obtain ⟨_, call, hc, hk, hp⟩ := inv.pending k e f he hf
      exact ⟨call, hc, hk, hp.resolve_right fun hp => clean f ⟨call, hc, hk, hp⟩⟩
    refine ⟨noStale, fun idle dead c call hc hk hp => ?_⟩
    have begins : σ.lookup c call = σ.beginLoad c call := by
      unfold State.lookup
      cases he : σ.entries.lookup call.key with
      | none => rfl
      | some e =>
        subst hk
        have gone : e.pending = none := Option.eq_none_iff_forall_ne_some.mpr
          fun f hf => idle f (noStale e f he hf)
        simp only [inv.lock_dead he dead, gone]
    refine ⟨σ.beginLoad c call, ?_, ⟨_, Function.update_self .., hk, trivial⟩⟩
    simp only [step, hc, Option.bind_some, hp, begins]

/-- The step lets an exception out of an `acquire` for `k`, which is what a throwing
    `load_session` comes to. -/
def LetsExceptionOut (k : Key) (σ : State) (a : Action) : Prop :=
  ∃ c call, a = .unwind c ∧ σ.calls c = some call ∧ call.key = k

theorem loadThrew_step {σ σ' : State} {a : Action} (inv : Inv σ) (h : step σ a = some σ')
    (k : Key) : (∃ c, LoadThrew σ' c k) ↔ (∃ c, LoadThrew σ c k) ∨ LetsExceptionOut k σ a := by
  constructor
  · rintro ⟨c, call', hc', hk, hp⟩
    rcases step_call h hc' with old | ⟨_, new⟩ | ⟨call, hc, hk', adv⟩
    · exact .inl ⟨c, call', old, hk, hp⟩
    · cases hp.symm.trans new
    · rw [hp] at adv
      generalize hq : call.phase = q at adv
      cases adv with
      | unwind => exact .inr ⟨c, call, rfl, hc, hk'.symm.trans hk⟩
      | get ready =>
        -- a waiter never waits for its own load
        have sound := inv.sound c call hc
        rw [hq] at sound
        unfold getPhase at ready
        split at ready <;> simp only [reduceCtorEq, Option.some.injEq, Phase.done.injEq,
          Outcome.threw.injEq] at ready
        exact absurd ready sound.1
      | ret ready =>
        unfold retPhase at ready
        split at ready <;> try split at ready
        all_goals simp only [reduceCtorEq, Option.some.injEq, Phase.done.injEq] at ready
  · rintro (⟨c, call, hc, hk, hp⟩ | ⟨c, call, rfl, hc, hk⟩)
    · obtain ⟨call', hc', hk', rfl | adv⟩ := call_step h hc (inv.started c call hc)
      · exact ⟨c, call', hc', hk, hp⟩
      · rw [hp] at adv
        cases adv with
        | ret ready => cases ready
    · cases step_transition h with
      | unwind hd hp =>
        obtain rfl := Option.some.inj (hc.symm.trans hd)
        exact ⟨c, _, Function.update_self .., hk, rfl⟩

theorem leavesNothing_initial (k : Key) : LeavesNothing initial k :=
  (inv_initial.leavesNothing_iff k).mpr fun c ⟨call, hc, _⟩ => by cases hc

/-- A run leaves nothing behind for a key in any state it visits exactly if no load
    of that key throws. -/
theorem leavesNothing_iff_no_throw (k : Key) (as : List Action) :
    AllStates step (LeavesNothing · k) initial as ↔
      AllSteps step (fun σ a => ¬ LetsExceptionOut k σ a) initial as := by
  refine allStates_iff_allSteps (I := Inv) inv_step ?_ inv_initial (leavesNothing_initial k)
  intro σ a σ' inv clean h
  rw [(inv_step σ a σ' inv h).leavesNothing_iff, ← not_exists, loadThrew_step inv h]
  have old : ¬ ∃ c, LoadThrew σ c k := not_exists.mpr ((inv.leavesNothing_iff k).mp clean)
  simp only [old, false_or]

/-- The cache directory cannot be searched, so `exists` throws out of the load. After
    that the model is opened again. -/
def throwThenReopen : List Action :=
  [.construct, .start bgeSmallEnV15 .cpu .fp32 0, .lookup 0, .load 0 .threw, .unwind 0,
    .start bgeSmallEnV15 .cpu .fp32 0, .lookup 1, .get 1]

/-- After a throw nothing is in flight and nothing is alive, yet the entry keeps its
    future and the next open ends with the old load's exception. -/
theorem throw_leaves_entry :
    ¬ (∀ σ, Reachable σ → ∀ k, LeavesNothing σ k) ∧
      ((after throwThenReopen).calls 1).map (·.phase) = some (.done (.threw 0)) := by
  refine ⟨fun h => ?_, by decide⟩
  have clean := h (after throwThenReopen) (reachable_after (by decide))
    ⟨.bgeSmallEnV15, .cpu, .fp32⟩
  obtain ⟨call, hc, _, flight⟩ := clean.noStaleFuture { pending := some 0 } 0 (by decide) rfl
  have done : ((after throwThenReopen).calls 0).map (·.phase) = some (.done (.threw 0)) := by
    decide
  rw [hc, Option.map_some, Option.some.injEq] at done
  simp only [done, Phase.inFlight] at flight

theorem loadThrew_persists {σ σ' : State} {a : Action} (inv : Inv σ) (h : step σ a = some σ')
    {c : CallId} {k : Key} (threw : LoadThrew σ c k) : LoadThrew σ' c k := by
  obtain ⟨call, hc, hk, hp⟩ := threw
  obtain ⟨call', hc', hk', rfl | adv⟩ := call_step h hc (inv.started c call hc)
  · exact ⟨call', hc', hk, hp⟩
  · rw [hp] at adv
    cases adv with
    | ret ready => cases ready

def Phase.doomed (c : CallId) (p : Phase) : Prop :=
  p = .entered ∨ p = .waiting c ∨ p = .done (.threw c)

theorem Advances.doomed {σ : State} (inv : Inv σ) {c d : CallId} {k : Key}
    (threw : LoadThrew σ c k) {a : Action} {q p : Phase} (h : Advances σ k a d q p)
    (hq : q.doomed c) : p.doomed c := by
  obtain ⟨owns, broken⟩ : Owns σ c k ∧ σ.futures c = .broken := by
    obtain ⟨call, hc, rfl, hp⟩ := threw
    have sound := inv.sound c call hc
    rw [hp] at sound
    exact sound rfl
  cases h with
  | share he hs =>
    obtain rfl := Option.some.inj (owns.symm.trans he)
    cases hs
  | join he hf =>
    obtain rfl := Option.some.inj (owns.symm.trans he)
    exact .inr (.inl (congrArg _ (Option.some.inj hf).symm))
  | begin none => cases none _ owns
  | get ready =>
    obtain hq | hq | hq := hq <;> cases hq
    rw [broken] at ready
    exact .inr (.inr (Option.some.inj ready).symm)
  | ret ready => obtain rfl | rfl | rfl := hq <;> cases ready
  | load | throw | setValue | publish | unwind | finish => obtain hq | hq | hq := hq <;> cases hq

/-- Every later open of the key joins the broken future, so none of them ever succeeds. -/
theorem Inv.threw_forever {σ σ' : State} (inv : Inv σ) {c : CallId} {k : Key}
    (threw : LoadThrew σ c k) {as : List Action} (run : Run step σ as σ') {d s : CallId}
    (later : σ.calls d = none) : ¬ ReturnedOk σ' d s k := by
  let I : State → Prop := fun τ => (Inv τ ∧ LoadThrew τ c k) ∧
    ∀ call, τ.calls d = some call → call.key = k → call.phase.doomed c
  have kept : I σ' := by
    refine run.invariant (I := I) ?_ ⟨⟨inv, threw⟩, fun call hd => by simp [later] at hd⟩
    rintro τ a τ' ⟨⟨hi, ht⟩, hdoom⟩ h
    refine ⟨⟨inv_step τ a τ' hi h, loadThrew_persists hi h ht⟩, fun call' hd hk => ?_⟩
    rcases step_call h hd with old | ⟨_, new⟩ | ⟨call, hd, hk', adv⟩
    · exact hdoom call' old hk
    · exact .inl new
    · have hkey : call.key = k := hk'.symm.trans hk
      exact (hkey ▸ adv).doomed hi ht (hdoom call hd hkey)
  rintro ⟨call, hd, hk, hp⟩
  obtain h | h | h := kept.2 call hd hk <;> rw [h] at hp <;> simp at hp

end CyborgdbEmbed.SessionStore

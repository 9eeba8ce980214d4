import CyborgdbEmbed.SessionStoreExclusion
import Mathlib.Data.Set.Card

set_option autoImplicit false

namespace CyborgdbEmbed.SessionStore
open TransitionSystem

/-- The `Impl` that open `c` made shares session `s`, and some `Embedder` has it. -/
def HandleOf (σ : State) (c s : CallId) : Prop := σ.impls c = some s ∧ some c ∈ σ.embedders

/-- An open of `k` by call `c` has returned Ok, and its `Embedder` or a copy is still there. -/
def HandleHeld (σ : State) (k : Key) (c : CallId) : Prop :=
  ∃ call s, σ.calls c = some call ∧ call.key = k ∧ call.phase = .done (.ok s) ∧
    some c ∈ σ.embedders

def Listed (σ : State) (k : Key) : Prop := ∃ m ∈ loaded σ, m.key = k ∧ 1 ≤ m.handles

theorem lock_eq_some_iff {σ : State} {w : Option CallId} {s : CallId} :
    σ.lock w = some s ↔ w = some s ∧ 0 < σ.useCount s := by
  simp only [State.lock, Option.filter_eq_some_iff, decide_eq_true_eq]

theorem loadedRow_key {σ : State} {k : Key} {e : Entry} {m : LoadedModel}
    (h : loadedRow σ k e = some m) : m.key = k := by
  obtain ⟨s, _, rfl⟩ := Option.map_eq_some_iff.mp h
  rfl

theorem mem_loaded_iff {σ : State} {m : LoadedModel} :
    m ∈ loaded σ ↔ ∃ e, σ.entries.lookup m.key = some e ∧ loadedRow σ m.key e = some m := by
  simp only [loaded, List.mem_filterMap, Sigma.exists, mem_entries_iff]
  constructor
  · rintro ⟨k, e, he, hm⟩
    obtain rfl := loadedRow_key hm
    exact ⟨e, he, hm⟩
  · rintro ⟨e, he, hm⟩
    exact ⟨m.key, e, he, hm⟩

theorem listed_iff {σ : State} {k : Key} :
    Listed σ k ↔ ∃ e s, σ.entries.lookup k = some e ∧ e.session = some s ∧ 0 < σ.useCount s := by
  constructor
  · rintro ⟨m, hm, rfl, _⟩
    obtain ⟨e, he, hrow⟩ := mem_loaded_iff.mp hm
    obtain ⟨s, hs, _⟩ := Option.map_eq_some_iff.mp hrow
    obtain ⟨hs, used⟩ := lock_eq_some_iff.mp hs
    exact ⟨e, s, he, hs, used⟩
  · rintro ⟨e, s, he, hs, used⟩
    let m : LoadedModel :=
      ⟨k.model, k.provider, k.precision, ((σ.useCount s + 1 : ℕ) : Int) - 1⟩
    have hrow : loadedRow σ k e = some m := by
      rw [loadedRow, lock_eq_some_iff.mpr ⟨hs, used⟩, Option.map_some]
    have counted : 1 ≤ m.handles := by
      change 1 ≤ ((σ.useCount s + 1 : ℕ) : Int) - 1
      omega
    exact ⟨m, mem_loaded_iff.mpr ⟨e, he, hrow⟩, rfl, counted⟩

section
variable {σ σ' : State} {k : Key}

theorem Inv.held_handle (inv : Inv σ) {c : CallId} (held : HandleHeld σ k c) :
    ∃ s, HandleOf σ c s ∧ BuiltFor σ s k := by
  obtain ⟨call, s, hc, rfl, hp, hmem⟩ := held
  have sound := inv.sound c call hc
  rw [hp] at sound
  exact ⟨s, ⟨sound.2, hmem⟩, sound.1⟩

/-- Open `c` has handed out session `s` while the loader of `s` is still short of its
    final locked section. -/
def EarlyHandle (σ : State) (c s : CallId) : Prop :=
  ∃ call loader, σ.calls c = some call ∧ call.phase = .done (.ok s) ∧ some c ∈ σ.embedders ∧
    σ.calls s = some loader ∧ loader.phase.window

theorem Inv.not_listed (inv : Inv σ) {s : CallId} {loader : Call}
    (hs : σ.calls s = some loader) (hw : loader.phase.inFlight) : ¬ Listed σ loader.key := by
  intro listed
  obtain ⟨e, t, he, ht, _⟩ := listed_iff.mp listed
  obtain rfl := Option.some.inj (he.symm.trans (inv.inFlight_owns ⟨loader, hs, rfl, hw⟩))
  cases ht

theorem Inv.held_listed_iff (inv : Inv σ) :
    (∀ k c, HandleHeld σ k c → Listed σ k) ↔ ∀ c s, ¬ EarlyHandle σ c s := by
  constructor
  · rintro h c s ⟨call, loader, hc, hp, hmem, hs, hw⟩
    have built : BuiltFor σ s call.key := by
      have sound := inv.sound c call hc
      rw [hp] at sound
      exact sound.1
    have hk : call.key = loader.key := inv.builtKey hs built
    refine inv.not_listed hs (window_inFlight hw) ?_
    rw [← hk]
    exact h _ c ⟨call, s, hc, rfl, hp, hmem⟩
  · intro clean k c held
    obtain ⟨s, handle, built⟩ := inv.held_handle held
    have used : Holds σ s := .inr (.inr ⟨c, handle⟩)
    rcases inv.placed s k built used with ⟨e, he, hs⟩ | ⟨loader, hs, hw⟩
    · exact listed_iff.mpr ⟨e, s, he, hs, (useCount_pos_iff inv.numbered s).mpr used⟩
    · obtain ⟨call, hc, hp⟩ := inv.impl c s handle.1
      exact absurd ⟨call, loader, hc, hp, handle.2, hs, hw⟩ (clean c s)

theorem step_embedders {a : Action} (h : step σ a = some σ') {c : CallId}
    (hmem : some c ∈ σ'.embedders) : some c ∈ σ.embedders ∨ a = .finish c := by
  cases step_transition h with
  | finish hd hp =>
    rcases List.mem_or_eq_of_mem_set hmem with old | new
    · exact .inl old
    · exact .inr (congrArg _ (Option.some.inj new).symm)
  | construct =>
    rcases List.mem_append.mp hmem with old | new
    · exact .inl old
    · cases List.mem_singleton.mp new
  | copy hi =>
    rcases List.mem_or_eq_of_mem_set hmem with old | new
    · exact .inl old
    · exact .inl (List.mem_of_getElem? (hi.trans (congrArg some new.symm)))
  | move hi =>
    rcases List.mem_or_eq_of_mem_set hmem with old | new
    · rcases List.mem_or_eq_of_mem_set old with old | new
      · exact .inl old
      · cases new
    · exact .inl (List.mem_of_getElem? (hi.trans (congrArg some new.symm)))
  | destroy =>
    rcases List.mem_or_eq_of_mem_set hmem with old | new
    · exact .inl old
    · cases new
  | publish hd hp =>
    rw [State.publish_embedders] at hmem
    exact .inl hmem
  | start | share | join | fresh | loadOk | loadFail | loadThrow | setValue | unwind | get | ret
  | moveSelf | configure => exact .inl hmem

/-- Open `c` is about to return Ok with session `s`, and the loader of `s` has not
    run its final locked section. -/
def ReturnsEarly (σ : State) (a : Action) : Prop :=
  ∃ c s call loader, a = .finish c ∧ σ.calls c = some call ∧ call.phase = .acquired s ∧
    σ.calls s = some loader ∧ loader.phase.window

theorem Advances.inFlight_of_window {a : Action} {c : CallId} {q p : Phase}
    (h : Advances σ k a c q p) (hw : p.window) : q.inFlight ∧ ∀ d, a ≠ .finish d := by
  cases h with
  | load | setValue => exact ⟨trivial, fun _ => by simp⟩
  | get ready =>
    unfold getPhase at ready
    split at ready <;> cases ready <;> exact hw.elim
  | ret ready =>
    unfold retPhase at ready
    split at ready <;> try split at ready
    all_goals cases ready <;> exact hw.elim
  | share | join | begin | throw | publish | unwind | finish => exact hw.elim

theorem Advances.finish_of_ok {a : Action} {c s : CallId} {q : Phase}
    (h : Advances σ k a c q (.done (.ok s))) : a = .finish c ∧ q = .acquired s := by
  cases h with
  | finish => exact ⟨rfl, rfl⟩
  | get ready =>
    unfold getPhase at ready
    split at ready <;> cases ready
  | ret ready =>
    unfold retPhase at ready
    split at ready <;> try split at ready
    all_goals cases ready

theorem step_window {a : Action} (h : step σ a = some σ') {s : CallId} {loader' : Call}
    (hs : σ'.calls s = some loader') (hw : loader'.phase.window) :
    ∃ loader, σ.calls s = some loader ∧ loader.phase.inFlight ∧
      ∀ d, a = .finish d → loader.phase.window := by
  rcases step_call h hs with old | ⟨_, new⟩ | ⟨loader, hs, _, adv⟩
  · exact ⟨loader', old, window_inFlight hw, fun _ _ => hw⟩
  · rw [new] at hw
    exact hw.elim
  · obtain ⟨flight, noFinish⟩ := adv.inFlight_of_window hw
    exact ⟨loader, hs, flight, fun d hd => absurd hd (noFinish d)⟩

theorem earlyHandle_step (inv : Inv σ) (listed : ∀ k c, HandleHeld σ k c → Listed σ k)
    {a : Action} (h : step σ a = some σ') :
    (∃ c s, EarlyHandle σ' c s) ↔ ReturnsEarly σ a := by
  constructor
  · rintro ⟨c, s, call', loader', hc, hp, hmem, hs, hw⟩
    obtain ⟨loader, hs, flight, kept⟩ := step_window h hs hw
    rcases step_call h hc with old | ⟨_, new⟩ | ⟨call, hc, _, adv⟩
    · -- the handle was there before, so its model was listed and no load in flight
      rcases step_embedders h hmem with old' | rfl
      · have held : HandleHeld σ call'.key c := ⟨call', s, old, rfl, hp, old'⟩
        have hk : call'.key = loader.key := by
          have sound := inv.sound c call' old
          rw [hp] at sound
          exact inv.builtKey hs sound.1
        exact absurd (hk ▸ listed _ c held) (inv.not_listed hs flight)
      · cases step_transition h with
        | finish hd hq =>
          obtain rfl := Option.some.inj (old.symm.trans hd)
          cases hp.symm.trans hq
    · cases hp.symm.trans new
    · rw [hp] at adv
      obtain ⟨rfl, hq⟩ := adv.finish_of_ok
      exact ⟨c, s, call, loader, rfl, hc, hq, hs, kept c rfl⟩
  · rintro ⟨c, s, call, loader, rfl, hc, hp, hs, hw⟩
    have apart : s ≠ c := by
      rintro rfl
      obtain rfl := Option.some.inj (hc.symm.trans hs)
      rw [hp] at hw
      exact hw
    cases step_transition h with
    | finish hd hq =>
      obtain rfl := Option.some.inj (hc.symm.trans hd)
      obtain rfl : s = _ := Phase.acquired.inj (hp.symm.trans hq)
      exact ⟨c, s, _, loader, Function.update_self .., rfl,
        List.mem_set (inv.target c call hc) _, (Function.update_of_ne apart _ _).trans hs, hw⟩

end

/-- Every held model is listed in every state of a run exactly if no open in it returns
    Ok before the loader of its session has run its final locked section. -/
theorem held_listed_iff_none_early (as : List Action) :
    AllStates step (fun σ => ∀ k c, HandleHeld σ k c → Listed σ k) initial as ↔
      AllSteps step (fun σ a => ¬ ReturnsEarly σ a) initial as := by
  refine allStates_iff_allSteps (I := Inv) inv_step ?_ inv_initial ?_
  · intro σ a σ' inv listed h
    rw [(inv_step σ a σ' inv h).held_listed_iff, ← earlyHandle_step inv listed h]
    simp only [not_exists]
  · rintro k c ⟨call, s, hc, _⟩
    cases hc

/-- The waiter takes the session from the future and returns, all before the loader
    has locked the store again. -/
def waiterReturnsFirst : List Action :=
  [.construct, .construct, .start bgeSmallEnV15 .cpu .fp32 0, .start bgeSmallEnV15 .cpu .fp32 1,
    .lookup 0, .lookup 1, .load 0 (.returned {}), .setValue 0, .get 1, .ret 1, .finish 1]

/-- A handle is held and `loaded_models` returns an empty list. -/
theorem waiter_not_listed :
    ¬ ∀ σ, Reachable σ → ∀ k c, HandleHeld σ k c → Listed σ k := by
  intro h
  have empty : loaded (after waiterReturnsFirst) = [] := by decide
  obtain ⟨call, hc, hp⟩ := Option.map_eq_some_iff.mp
    (show ((after waiterReturnsFirst).calls 1).map (fun call => (call.key, call.phase)) =
      some (⟨.bgeSmallEnV15, .cpu, .fp32⟩, .done (.ok 0)) by decide)
  obtain ⟨hk, hp⟩ := Prod.mk.inj hp
  obtain ⟨m, hm, _⟩ := h (after waiterReturnsFirst) (reachable_after (by decide)) _ 1
    ⟨call, 0, hc, hk, hp, by decide⟩
  rw [empty] at hm
  cases hm

end CyborgdbEmbed.SessionStore

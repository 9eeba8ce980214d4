import CyborgdbEmbed.SessionStoreExclusion
import CyborgdbEmbed.SessionStoreStats

set_option autoImplicit false

namespace CyborgdbEmbed.SessionStore
open TransitionSystem

def Phase.remaining : Phase → ℕ
  | .entered => 6
  | .loading _ => 5
  | .loaded _ => 4
  | .resolved _ | .waiting _ => 3
  | .published _ | .got _ _ | .sharing _ => 2
  | .acquired _ | .unwinding => 1
  | .done _ => 0

def owed : Option Call → ℕ
  | some call => call.phase.remaining
  | none => 0

def outstanding (σ : State) : ℕ := ∑ c ∈ Finset.range σ.next, owed (σ.calls c)

/-- The call that takes the step, when it is the step of a call that has started. -/
def Action.caller : Action → Option CallId
  | .lookup c | .load c _ | .setValue c | .publish c | .unwind c | .get c | .ret c | .finish c =>
    some c
  | _ => none

def Action.ofCall (a : Action) : Bool := a.caller.isSome

def Action.starts : Action → Bool
  | .start .. => true
  | _ => false

/-- What call `d` can do, its load ending with `outcome`. -/
def stepsOf (outcome : LoadOutcome) (d : CallId) : List Action :=
  [.lookup d, .load d outcome, .setValue d, .publish d, .unwind d, .get d, .ret d, .finish d]

theorem caller_stepsOf {outcome : LoadOutcome} {d : CallId} {a : Action}
    (h : a ∈ stepsOf outcome d) : a.caller = some d := by
  simp only [stepsOf, List.mem_cons, List.not_mem_nil, or_false] at h
  rcases h with rfl | rfl | rfl | rfl | rfl | rfl | rfl | rfl <;> rfl

section
variable {σ σ' : State} {a : Action} {c : CallId} {call : Call} {p q : Phase}

theorem getPhase_remaining {f : CallId} {v : SharedState} (ready : getPhase f v = some p) :
    p.remaining < 3 := by
  cases v with
  | empty => cases ready
  | value s | broken =>
    obtain rfl := Option.some.inj ready
    simp [Phase.remaining]

theorem retPhase_remaining (ready : retPhase c q = some p) : p.remaining < q.remaining := by
  cases q with
  | sharing s =>
    obtain rfl := Option.some.inj ready
    exact Nat.lt_succ_self 1
  | published status =>
    obtain rfl := Option.some.inj ready
    split <;> simp [Phase.remaining]
  | got f s =>
    cases s with
    | some s | none =>
      obtain rfl := Option.some.inj ready
      simp [Phase.remaining]
  | entered | loading | loaded | unwinding | resolved | waiting | acquired | done => cases ready

theorem Advances.remaining_lt {k : Key} (h : Advances σ k a c q p) :
    p.remaining < q.remaining := by
  cases h with
  | get ready => exact getPhase_remaining ready
  | ret ready => exact retPhase_remaining ready
  | share | join | begin | load | throw | setValue | publish | unwind | finish =>
    simp [Phase.remaining]

theorem outstanding_moved (hc : σ.calls c = some call) (started : c < σ.next)
    (calls : σ'.calls = Function.update σ.calls c (some { call with phase := p }))
    (next : σ'.next = σ.next) (less : p.remaining < call.phase.remaining) :
    outstanding σ' + 1 ≤ outstanding σ := by
  have mem : c ∈ Finset.range σ.next := Finset.mem_range.mpr started
  have others : ∀ d ∈ (Finset.range σ.next).erase c, owed (σ'.calls d) = owed (σ.calls d) := by
    intro d hd
    rw [calls, Function.update_of_ne (Finset.ne_of_mem_erase hd)]
  have after : outstanding σ' =
      p.remaining + ∑ d ∈ (Finset.range σ.next).erase c, owed (σ.calls d) := by
    unfold outstanding
    rw [next, ← Finset.add_sum_erase _ _ mem, Finset.sum_congr rfl others, calls,
      Function.update_self, owed]
  have before : outstanding σ = call.phase.remaining +
      ∑ d ∈ (Finset.range σ.next).erase c, owed (σ.calls d) := by
    unfold outstanding
    rw [← Finset.add_sum_erase _ _ mem, hc, owed]
  omega

theorem outstanding_started (entered : call.phase = .entered)
    (calls : σ'.calls = Function.update σ.calls σ.next (some call))
    (next : σ'.next = σ.next + 1) : outstanding σ' = outstanding σ + 6 := by
  unfold outstanding
  rw [next, Finset.sum_range_succ, calls, Function.update_self, owed, entered, Phase.remaining]
  congr 1
  apply Finset.sum_congr rfl
  intro d hd
  rw [Function.update_of_ne (Nat.ne_of_lt (Finset.mem_range.mp hd))]

theorem outstanding_same (calls : σ'.calls = σ.calls) (next : σ'.next = σ.next) :
    outstanding σ' = outstanding σ := by
  unfold outstanding
  rw [calls, next]

/-- What a step brings to a run, beside its own unit, in steps still to take. -/
def Action.brings (a : Action) : ℕ :=
  if a.ofCall then 0 else if a.starts then 7 else 1

theorem outstanding_step (inv : Inv σ) (h : step σ a = some σ') :
    outstanding σ' + 1 ≤ outstanding σ + a.brings := by
  have moves {c : CallId} {call : Call} {p q : Phase} (hc : σ.calls c = some call)
      (hp : call.phase = q)
      (calls : σ'.calls = Function.update σ.calls c (some { call with phase := p }))
      (next : σ'.next = σ.next) (less : p.remaining < q.remaining) :
      outstanding σ' + 1 ≤ outstanding σ + a.brings :=
    (outstanding_moved hc (inv.started c call hc) calls next (hp ▸ less)).trans
      (Nat.le_add_right _ _)
  cases step_transition h with
  | start valid => exact Nat.le_of_eq (congrArg (· + 1) (outstanding_started rfl rfl rfl))
  | share hc hp | join hc hp | fresh hc hp | loadOk hc hp | loadFail hc hp | loadThrow hc hp
  | setValue hc hp | unwind hc hp | finish hc hp =>
    exact moves hc hp rfl rfl (by simp [Phase.remaining])
  | @publish c call status hc hp =>
    have next : (σ.publish c call status).next = σ.next := by
      unfold State.publish
      split
      · split <;> rfl
      · rfl
    exact moves hc hp (State.publish_calls ..) next (by simp [Phase.remaining])
  | get hc hp ready => exact moves hc hp rfl rfl (getPhase_remaining ready)
  | ret hc ready => exact moves hc rfl rfl rfl (retPhase_remaining ready)
  | construct | copy | moveSelf | move | destroy | configure =>
    exact Nat.le_of_eq (congrArg (· + 1) (outstanding_same rfl rfl))

/-- Every step of a call is paid for by the call: at most six for each that starts. -/
theorem run_ofCall_le {as : List Action} (run : Run step σ as σ') (inv : Inv σ) :
    as.countP Action.ofCall + outstanding σ' ≤ outstanding σ + 6 * as.countP Action.starts := by
  have bound := run.length_le outstanding Action.brings
    (fun s a u inv h => inv_step s a u inv h) (fun _ _ _ inv h => outstanding_step inv h) inv
  have split (as : List Action) : total Action.brings as + as.countP Action.ofCall =
      as.length + 6 * as.countP Action.starts := by
    induction as with
    | nil => rfl
    | cons a as ih =>
      rw [total, List.countP_cons, List.countP_cons, List.length_cons]
      cases a <;> simp only [Action.brings, Action.ofCall, Action.caller, Option.isSome_some,
        Option.isSome_none, Action.starts, if_true, Bool.false_eq_true, if_false] <;> omega
  have := split as
  omega

end

section
variable {σ σ' : State} {a : Action} {c f : CallId} {call : Call} {p q : Phase}

/-- Call `f` has taken up a load of its own, or has returned from it. -/
def Phase.lends (f : CallId) (p : Phase) : Prop := p ≠ .entered ∧ p.borrows f = false

def Lent (σ : State) : Prop := ∀ c call f, σ.calls c = some call → call.phase = .waiting f →
  ∃ loader, σ.calls f = some loader ∧ loader.key = call.key ∧ loader.phase.lends f

theorem Advances.lends {k : Key} (h : Advances σ k a f q p) (sound : Sound σ f k q)
    (apart : q.apart f) (lends : q.lends f) : p.lends f := by
  obtain ⟨started, own⟩ := lends
  cases h with
  | share | join | begin => exact absurd rfl started
  | get => cases own
  | ret ready =>
    refine ⟨?_, (retPhase_borrows sound apart ready).trans own⟩
    rintro rfl
    have less := retPhase_remaining ready
    cases q <;> simp [Phase.remaining] at less
  | unwind => exact ⟨Phase.noConfusion, bne_self_eq_false f⟩
  | finish => exact ⟨Phase.noConfusion, own⟩
  | load | throw | setValue | publish => exact ⟨Phase.noConfusion, rfl⟩

theorem lender_step (inv : Inv σ) (roles : Roles σ) (h : step σ a = some σ') {k : Key}
    (lender : ∃ loader, σ.calls f = some loader ∧ loader.key = k ∧ loader.phase.lends f) :
    ∃ loader, σ'.calls f = some loader ∧ loader.key = k ∧ loader.phase.lends f := by
  obtain ⟨loader, hf, rfl, lends⟩ := lender
  obtain ⟨loader', hf', hk, rfl | adv⟩ := call_step h hf (inv.started f loader hf)
  · exact ⟨loader', hf', rfl, lends⟩
  · exact ⟨loader', hf', hk,
      adv.lends (inv.sound f loader hf) (roles.apart f loader hf) lends⟩

theorem lent_step (inv : Inv σ) (roles : Roles σ) (lent : Lent σ) (h : step σ a = some σ') :
    Lent σ' := by
  intro c call' f hc' hp'
  refine lender_step inv roles h ?_
  rcases step_call h hc' with old | ⟨_, entered⟩ | ⟨call, hc, hk, adv⟩
  · exact lent c call' f old hp'
  · rw [hp'] at entered
    cases entered
  · rw [hp'] at adv
    rw [hk]
    -- only the first locked section makes a call wait, on the pending entry it finds
    generalize call.phase = q at adv
    cases adv with
    | join he hf =>
      obtain ⟨_, loader, hf, hkey, flight⟩ := inv.pending _ _ _ he hf
      refine ⟨loader, hf, hkey, ?_⟩
      rcases flight with flight | failed
      · cases hq : loader.phase <;> rw [hq] at flight <;>
          first | exact flight.elim | exact ⟨Phase.noConfusion, rfl⟩
      · rw [failed]
        exact ⟨Phase.noConfusion, bne_self_eq_false f⟩
    | get ready =>
      cases hv : σ.futures _ <;> rw [hv] at ready <;> cases ready
    | @ret _ q _ ready =>
      cases q with
      | published status =>
        have := Option.some.inj ready
        split at this <;> cases this
      | got f s => cases s <;> cases ready
      | _ => cases ready

theorem Reachable.lent (h : Reachable σ) : Lent σ := by
  obtain ⟨as, run⟩ := h
  have all : Inv σ ∧ Roles σ ∧ Lent σ := by
    refine run.invariant (I := fun σ => Inv σ ∧ Roles σ ∧ Lent σ) ?_
      ⟨inv_initial, roles_initial, fun c call f h => by cases h⟩
    intro σ a σ' ⟨inv, roles, lent⟩ h
    exact ⟨inv_step σ a σ' inv h, roles_transition inv roles (step_transition h),
      lent_step inv roles lent h⟩
  exact all.2.2

/-- Until it has its answer, the call that a waiter waits for is at its load, or between
    the load and `set_value`, or throwing. -/
theorem Reachable.load_awaited (h : Reachable σ) (hc : σ.calls c = some call)
    (hp : call.phase = .waiting f) (unset : σ.futures f = .empty) :
    ∃ loader, σ.calls f = some loader ∧ loader.key = call.key ∧
      ((∃ config, loader.phase = .loading config) ∨ (∃ status, loader.phase = .loaded status) ∨
        loader.phase = .unwinding) := by
  obtain ⟨loader, hf, hk, started, own⟩ := h.lent c call f hc hp
  refine ⟨loader, hf, hk, ?_⟩
  have sound := h.inv.sound f loader hf
  have builder := h.roles.builder f loader hf
  cases hq : loader.phase with
  | entered => exact absurd hq started
  | loading config => exact .inl ⟨config, rfl⟩
  | loaded status => exact .inr (.inl ⟨status, rfl⟩)
  | unwinding => exact .inr (.inr rfl)
  | resolved status =>
    rw [hq] at sound
    exact SharedState.noConfusion <| unset.symm.trans sound.2.1
  | published status =>
    rw [hq] at sound
    exact SharedState.noConfusion <| unset.symm.trans sound.1
  | sharing s | waiting g | got g s =>
    rw [hq] at own
    cases own
  | acquired s =>
    rw [hq] at own builder
    have built : (Phase.acquired s).builtOwn f := by
      simpa [Phase.borrows, Phase.builtOwn] using own
    exact SharedState.noConfusion <| unset.symm.trans (builder built)
  | done outcome =>
    rw [hq] at own builder sound
    cases outcome with
    | ok s =>
      have built : (Phase.done (.ok s)).builtOwn f := by
        simpa [Phase.borrows, Phase.builtOwn] using own
      exact SharedState.noConfusion <| unset.symm.trans (builder built)
    | failed g status =>
      obtain rfl : g = f := by simpa [Phase.borrows] using own
      exact SharedState.noConfusion <| unset.symm.trans sound.2
    | threw g =>
      obtain rfl : g = f := by simpa [Phase.borrows] using own
      exact SharedState.noConfusion <| unset.symm.trans (sound rfl).2

end

section
variable {σ u : State} {a : Action} {c f : CallId} {call : Call} {outcome : LoadOutcome} {n : ℕ}

/-- Steps of calls `c` and `f` alone, `n` of them at most, take `c` to its return. -/
def Finishes (outcome : LoadOutcome) (c f : CallId) (n : ℕ) (σ : State) : Prop :=
  ∃ as σ' call' result, as.length ≤ n ∧ Run step σ as σ' ∧
    (∀ a ∈ as, a ∈ stepsOf outcome c ∨ a ∈ stepsOf outcome f) ∧
    σ'.calls c = some call' ∧ call'.phase = .done result

theorem Finishes.first (h : step σ a = some u)
    (ours : a ∈ stepsOf outcome c ∨ a ∈ stepsOf outcome f) (rest : Finishes outcome c f n u) :
    Finishes outcome c f (n + 1) σ := by
  obtain ⟨as, σ', call', result, len, run, all, hc', hp'⟩ := rest
  exact ⟨a :: as, σ', call', result, Nat.succ_le_succ len, .next h run,
    List.forall_mem_cons.mpr ⟨ours, all⟩, hc', hp'⟩

theorem Finishes.mono {m : ℕ} (h : Finishes outcome c f n σ) (le : n ≤ m) :
    Finishes outcome c f m σ := by
  obtain ⟨as, σ', call', result, len, rest⟩ := h
  exact ⟨as, σ', call', result, len.trans le, rest⟩

theorem Reachable.next (h : Reachable σ) (hs : step σ a = some u) : Reachable u := by
  obtain ⟨as, run⟩ := h
  exact ⟨as ++ [a], run.trans (.next hs (.refl u))⟩

theorem step_load {config : CacheConfig} (hc : σ.calls c = some call)
    (hp : call.phase = .loading config) :
    step σ (.load c outcome) = some (σ.load c call outcome) := by
  simp only [step, hc, Option.bind_some, hp]

theorem step_setValue {status : Status} (hc : σ.calls c = some call)
    (hp : call.phase = .loaded status) :
    step σ (.setValue c) = some (σ.setValue c call status) := by
  simp only [step, hc, Option.bind_some, hp]

theorem step_unwind (hc : σ.calls c = some call) (hp : call.phase = .unwinding) :
    step σ (.unwind c) = some (σ.unwind c call) := by
  simp only [step, hc, Option.bind_some, hp]

theorem step_ret {p : Phase} (hc : σ.calls c = some call) (ready : retPhase c call.phase = some p) :
    step σ (.ret c) = some (σ.setPhase c call p) := by
  simp only [step, hc, Option.bind_some, ready, Option.map_some]

theorem own_step (hc : σ.calls c = some call) (entered : call.phase ≠ .entered)
    (unfinished : ∀ result, call.phase ≠ .done result)
    (ready : ∀ g, call.phase = .waiting g → σ.futures g ≠ .empty) (outcome : LoadOutcome) :
    ∃ a ∈ stepsOf outcome c, ∃ u, step σ a = some u := by
  cases hp : call.phase with
  | entered => exact absurd hp entered
  | loading config => exact ⟨.load c outcome, by simp [stepsOf], _, step_load hc hp⟩
  | loaded status => exact ⟨.setValue c, by simp [stepsOf], _, step_setValue hc hp⟩
  | resolved status =>
    exact ⟨.publish c, by simp [stepsOf], σ.publish c call status, by
      simp only [step, hc, Option.bind_some, hp]⟩
  | unwinding => exact ⟨.unwind c, by simp [stepsOf], _, step_unwind hc hp⟩
  | acquired s =>
    exact ⟨.finish c, by simp [stepsOf], σ.finish c call s, by
      simp only [step, hc, Option.bind_some, hp]⟩
  | sharing s | published status =>
    exact ⟨.ret c, by simp [stepsOf], _, step_ret hc (by rw [hp]; rfl)⟩
  | got g s =>
    cases s <;> exact ⟨.ret c, by simp [stepsOf], _, step_ret hc (by rw [hp]; rfl)⟩
  | waiting g =>
    obtain ⟨p, hg⟩ : ∃ p, getPhase g (σ.futures g) = some p := by
      cases hv : σ.futures g with
      | empty => exact absurd hv (ready g hp)
      | value s | broken => exact ⟨_, rfl⟩
    exact ⟨.get c, by simp [stepsOf], σ.setPhase c call p, by
      simp only [step, hc, Option.bind_some, hp, hg, Option.map_some]⟩
  | done result => exact absurd hp (unfinished result)

theorem step_moves (h : step σ a = some u) (caller : a.caller = some c) :
    ∃ call p, σ.calls c = some call ∧ Advances σ call.key a c call.phase p ∧
      u.calls = Function.update σ.calls c (some { call with phase := p }) := by
  cases step_transition h with
  | start | construct | copy | moveSelf | move | destroy | configure => cases caller
  | share hc hp he hs =>
    obtain rfl := Option.some.inj caller
    exact ⟨_, _, hc, hp ▸ .share he hs, rfl⟩
  | join hc hp he _ hf =>
    obtain rfl := Option.some.inj caller
    exact ⟨_, _, hc, hp ▸ .join he hf, rfl⟩
  | fresh hc hp gone =>
    obtain rfl := Option.some.inj caller
    exact ⟨_, _, hc, hp ▸ .begin fun e he => (gone e he).2, rfl⟩
  | loadOk hc hp | loadFail hc hp =>
    obtain rfl := Option.some.inj caller
    exact ⟨_, _, hc, hp ▸ .load, rfl⟩
  | loadThrow hc hp =>
    obtain rfl := Option.some.inj caller
    exact ⟨_, _, hc, hp ▸ .throw, rfl⟩
  | setValue hc hp =>
    obtain rfl := Option.some.inj caller
    exact ⟨_, _, hc, hp ▸ .setValue, rfl⟩
  | publish hc hp =>
    obtain rfl := Option.some.inj caller
    exact ⟨_, _, hc, hp ▸ .publish, State.publish_calls ..⟩
  | unwind hc hp =>
    obtain rfl := Option.some.inj caller
    exact ⟨_, _, hc, hp ▸ .unwind, rfl⟩
  | get hc hp ready =>
    obtain rfl := Option.some.inj caller
    exact ⟨_, _, hc, hp ▸ .get ready, rfl⟩
  | ret hc ready =>
    obtain rfl := Option.some.inj caller
    exact ⟨_, _, hc, .ret ready, rfl⟩
  | finish hc hp =>
    obtain rfl := Option.some.inj caller
    exact ⟨_, _, hc, hp ▸ .finish, rfl⟩

theorem Advances.not_waiting {k : Key} {p q : Phase} (h : Advances σ k a c q p)
    (entered : q ≠ .entered) (g : CallId) : p ≠ .waiting g := by
  rintro rfl
  cases h with
  | join => exact entered rfl
  | get ready =>
    have less := getPhase_remaining ready
    exact absurd less (Nat.lt_irrefl 3)
  | ret ready =>
    have less := retPhase_remaining ready
    cases q with
    | published status =>
      have := Option.some.inj ready
      split at this <;> cases this
    | got f s => cases s <;> cases ready
    | _ => cases ready

theorem Advances.not_entered {k : Key} {p q : Phase} (h : Advances σ k a c q p) :
    p ≠ .entered := by
  rintro rfl
  have less := h.remaining_lt
  cases q <;> simp [Phase.remaining] at less

theorem finishes_alone (outcome : LoadOutcome) (f : CallId) (n : ℕ) :
    ∀ {σ : State} {call : Call}, σ.calls c = some call → call.phase ≠ .entered →
      (∀ g, call.phase = .waiting g → σ.futures g ≠ .empty) → call.phase.remaining ≤ n →
      Finishes outcome c f n σ := by
  induction n with
  | zero =>
    intro σ call hc entered ready bound
    cases hp : call.phase with
    | done result => exact ⟨[], σ, call, result, Nat.le_refl 0, .refl σ, by simp, hc, hp⟩
    | _ =>
      rw [hp] at bound
      exact absurd bound (by simp [Phase.remaining])
  | succ n ih =>
    intro σ call hc entered ready bound
    by_cases finished : ∃ result, call.phase = .done result
    · obtain ⟨result, hp⟩ := finished
      exact ⟨[], σ, call, result, Nat.zero_le _, .refl σ, by simp, hc, hp⟩
    · obtain ⟨a, mem, u, h⟩ :=
        own_step hc entered (fun result hp => finished ⟨result, hp⟩) ready outcome
      obtain ⟨call', p, hc', adv, moved⟩ := step_moves h (caller_stepsOf mem)
      obtain rfl : call = call' := Option.some.inj (hc.symm.trans hc')
      have less := adv.remaining_lt
      have moved' : u.calls c = some { call with phase := p } := by
        rw [moved, Function.update_self]
      refine .first h (.inl mem) (ih moved' adv.not_entered
        (fun g hg => absurd hg (adv.not_waiting entered g)) ?_)
      dsimp only
      omega

theorem Reachable.waiting_finishes (h : Reachable σ) (hc : σ.calls c = some call)
    (hp : call.phase = .waiting f) (outcome : LoadOutcome) : Finishes outcome c f 5 σ := by
  have answered {τ : State} (hτ : τ.calls c = some call) (set : τ.futures f ≠ .empty) :
      Finishes outcome c f 3 τ := by
    refine finishes_alone outcome f 3 hτ (by simp [hp]) (fun g hg => ?_) ?_
    · obtain rfl : f = g := Phase.waiting.inj (hp.symm.trans hg)
      exact set
    · rw [hp]
      exact Nat.le_refl 3
  have other : f ≠ c := by
    have sound := h.inv.sound c call hc
    rw [hp] at sound
    exact sound.1
  have kept {τ : State} {loader : Call} {p : Phase} (hτ : τ.calls c = some call) :
      (τ.setPhase f loader p).calls c = some call := by
    rw [State.setPhase_calls, Function.update_of_ne other.symm, hτ]
  have resolves {τ : State} {loader : Call} {status : Status} (hτ : τ.calls c = some call)
      (hf : τ.calls f = some loader) (hl : loader.phase = .loaded status) :
      Finishes outcome c f 4 τ := by
    refine .first (step_setValue hf hl) (.inr (by simp [stepsOf])) (answered (kept hτ) ?_)
    simp [State.setValue]
  have breaks {τ : State} {loader : Call} (hτ : τ.calls c = some call)
      (hf : τ.calls f = some loader) (hl : loader.phase = .unwinding) :
      Finishes outcome c f 4 τ := by
    refine .first (step_unwind hf hl) (.inr (by simp [stepsOf])) (answered (kept hτ) ?_)
    simp [State.unwind]
  by_cases unset : σ.futures f = .empty
  · obtain ⟨loader, hf, -, ⟨config, hl⟩ | ⟨status, hl⟩ | hl⟩ := h.load_awaited hc hp unset
    · have hs : step σ (.load f outcome) = some (σ.load f loader outcome) := step_load hf hl
      refine .first hs (.inr (by simp [stepsOf])) ?_
      cases outcome with
      | threw => exact breaks (kept hc) (Function.update_self ..) rfl
      | returned status =>
        have calls : (σ.load f loader (.returned status)).calls =
            (σ.setPhase f loader (.loaded status)).calls := by
          dsimp only [State.load]
          split <;> rfl
        have waits : (σ.load f loader (.returned status)).calls c = some call := by
          rw [calls]
          exact kept hc
        have done : (σ.load f loader (.returned status)).calls f =
            some { loader with phase := .loaded status } := by
          rw [calls]
          exact Function.update_self ..
        exact resolves waits done rfl
    · exact (resolves hc hf hl).mono (by omega)
    · exact (breaks hc hf hl).mono (by omega)
  · exact (answered hc unset).mono (by omega)

theorem Reachable.finishes (h : Reachable σ) (hc : σ.calls c = some call)
    (outcome : LoadOutcome) : ∃ f, Started σ f call.key ∧ Finishes outcome c f 6 σ := by
  cases hp : call.phase with
  | waiting f =>
    have sound := h.inv.sound c call hc
    rw [hp] at sound
    exact ⟨f, sound.2, (h.waiting_finishes hc hp outcome).mono (by omega)⟩
  | entered =>
    have hs : step σ (.lookup c) = some (σ.lookup c call) := by
      simp only [step, hc, Option.bind_some, hp]
    obtain ⟨call', p, hc', adv, moved⟩ := step_moves hs rfl
    obtain rfl : call = call' := Option.some.inj (hc.symm.trans hc')
    have calls : (σ.lookup c call).calls c = some { call with phase := p } := by
      rw [moved, Function.update_self]
    have mem : Action.lookup c ∈ stepsOf outcome c := by simp [stepsOf]
    rw [hp] at adv
    cases adv with
    | @join _ f _ he hf =>
      obtain ⟨_, loader, hl, hk, _⟩ := h.inv.pending _ _ _ he hf
      exact ⟨f, ⟨loader, hl, hk⟩,
        .first hs (.inl mem) ((h.next hs).waiting_finishes calls rfl outcome)⟩
    | share | begin =>
      exact ⟨c, ⟨call, hc, rfl⟩, .first hs (.inl mem)
        (finishes_alone outcome c 5 calls (by simp) (by simp) (by simp [Phase.remaining]))⟩
  | loading | loaded | unwinding | resolved | published | got | sharing | acquired | done =>
    exact ⟨c, ⟨call, hc, rfl⟩, finishes_alone outcome c 6 hc (by simp [hp])
      (by simp [hp]) (by simp [hp, Phase.remaining])⟩

/-- No call is ever held up but by the load for its key: whatever the state and however that
    load ends, six steps of the two take the call to its return. Over a run the calls take
    at most six steps for each that starts, so once no call starts they all return, and
    they have all returned where none can take a step. -/
theorem calls_finish (h : Reachable σ) :
    (∀ c call outcome, σ.calls c = some call →
      ∃ f, Started σ f call.key ∧ Finishes outcome c f 6 σ) ∧
    (∀ as σ', Run step σ as σ' →
      as.countP Action.ofCall + outstanding σ' ≤ outstanding σ + 6 * as.countP Action.starts) ∧
    ((∀ a, a.ofCall = true → step σ a = none) →
      ∀ c call, σ.calls c = some call → ∃ result, call.phase = .done result) := by
  refine ⟨fun c call outcome hc => h.finishes hc outcome,
    fun as σ' run => run_ofCall_le run h.inv, fun stuck c call hc => ?_⟩
  obtain ⟨f, -, as, σ', call', result, -, run, ours, hc', hp'⟩ := h.finishes hc .threw
  cases run with
  | refl =>
    obtain rfl := Option.some.inj (hc.symm.trans hc')
    exact ⟨result, hp'⟩
  | @next _ _ _ a as hs _ =>
    have mine : a.ofCall = true := by
      rcases ours a List.mem_cons_self with mem | mem <;>
        rw [Action.ofCall, caller_stepsOf mem, Option.isSome_some]
    rw [stuck a mine] at hs
    cases hs

/-- The second open of one model, waiting while the load of the first throws. -/
theorem calls_finish_joined :
    ∃ f, Started (after ((twoOpens bgeSmallEnV15).take 6)) f ⟨.bgeSmallEnV15, .cpu, .fp32⟩ ∧
      Finishes .threw 1 f 6 (after ((twoOpens bgeSmallEnV15).take 6)) := by
  have reached : Reachable (after ((twoOpens bgeSmallEnV15).take 6)) :=
    reachable_after (by decide)
  exact (calls_finish reached).1 1 _ .threw rfl

end
end CyborgdbEmbed.SessionStore

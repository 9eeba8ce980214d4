import CyborgdbEmbed.SessionStoreRoles
import Mathlib.Algebra.BigOperators.Group.Finset.Basic
import Mathlib.Algebra.BigOperators.Intervals

set_option autoImplicit false

namespace CyborgdbEmbed.SessionStore
open TransitionSystem

/-- The number of calls in a phase that `p` accepts. -/
def tally (p : CallId → Phase → Bool) (σ : State) : ℕ :=
  ∑ c ∈ Finset.range σ.next, ((σ.calls c).any fun call => p c call.phase).toNat

def Phase.isLoading (_ : CallId) : Phase → Bool
  | .loading _ => true
  | _ => false

def Phase.sharedOk (c : CallId) : Phase → Bool
  | .acquired s | .done (.ok s) => s != c
  | _ => false

def Phase.sharedFailure (c : CallId) : Phase → Bool
  | .done (.failed f _) | .done (.threw f) => f != c
  | _ => false

def Phase.returned : Phase → Bool
  | .acquired _ | .done _ => true
  | _ => false

/-- No `acquire` is in progress: each call has returned from it. -/
def Idle (σ : State) : Prop := ∀ c call, σ.calls c = some call → call.phase.returned = true

/-- A `load_session` call returns or throws. -/
def Action.loads : Action → Bool
  | .load _ _ => true
  | _ => false

section
variable {σ σ' : State} {c : CallId} {call call' : Call}

theorem tally_moved (p : CallId → Phase → Bool) (hc : σ.calls c = some call)
    (started : c < σ.next) (calls : σ'.calls = Function.update σ.calls c (some call'))
    (next : σ'.next = σ.next) :
    tally p σ' + (p c call.phase).toNat = tally p σ + (p c call'.phase).toNat := by
  have mem : c ∈ Finset.range σ.next := Finset.mem_range.mpr started
  have others : ∀ d ∈ (Finset.range σ.next).erase c,
      ((σ'.calls d).any fun call => p d call.phase).toNat =
        ((σ.calls d).any fun call => p d call.phase).toNat := by
    intro d hd
    rw [calls, Function.update_of_ne (Finset.ne_of_mem_erase hd)]
  have after : tally p σ' = (p c call'.phase).toNat +
      ∑ d ∈ (Finset.range σ.next).erase c, ((σ.calls d).any fun call => p d call.phase).toNat := by
    unfold tally
    rw [next, ← Finset.add_sum_erase _ _ mem, Finset.sum_congr rfl others, calls,
      Function.update_self, Option.any_some]
  have before : tally p σ = (p c call.phase).toNat +
      ∑ d ∈ (Finset.range σ.next).erase c, ((σ.calls d).any fun call => p d call.phase).toNat := by
    unfold tally
    rw [← Finset.add_sum_erase _ _ mem, hc, Option.any_some]
  omega

theorem tally_started (p : CallId → Phase → Bool) (new : p σ.next call.phase = false)
    (calls : σ'.calls = Function.update σ.calls σ.next (some call))
    (next : σ'.next = σ.next + 1) : tally p σ' = tally p σ := by
  unfold tally
  rw [next, Finset.sum_range_succ, calls, Function.update_self, Option.any_some, new,
    Bool.toNat_false, Nat.add_zero]
  apply Finset.sum_congr rfl
  intro d hd
  rw [Function.update_of_ne (Nat.ne_of_lt (Finset.mem_range.mp hd))]

theorem tally_same (p : CallId → Phase → Bool) (calls : σ'.calls = σ.calls)
    (next : σ'.next = σ.next) : tally p σ' = tally p σ := by
  unfold tally
  rw [calls, next]

theorem retPhase_borrows {k : Key} {p q : Phase} (sound : Sound σ c k q) (apart : q.apart c)
    (ready : retPhase c q = some p) :
    p.borrows c = q.borrows c := by
  cases q with
  | sharing s =>
    obtain rfl := Option.some.inj ready
    exact bne_iff_ne.mpr apart
  | published status =>
    obtain rfl := Option.some.inj ready
    split <;> simp [Phase.borrows]
  | got f s =>
    cases s with
    | some s =>
      obtain rfl := Option.some.inj ready
      rw [(sound.2.2 s rfl).1]
      exact bne_iff_ne.mpr apart
    | none =>
      obtain rfl := Option.some.inj ready
      exact bne_iff_ne.mpr apart
  | entered | loading | loaded | unwinding | resolved | waiting | acquired | done => cases ready

theorem getPhase_borrows {f : CallId} {p : Phase} {v : SharedState} (other : f ≠ c)
    (ready : getPhase f v = some p) : p.borrows c = true := by
  cases v with
  | empty => cases ready
  | value s =>
    obtain rfl := Option.some.inj ready
    rfl
  | broken =>
    obtain rfl := Option.some.inj ready
    exact bne_iff_ne.mpr other

end

section
variable {σ σ' : State} {a : Action}

/-- The step changes the counters by as much as the tallies of borrowers and of loads
    under way. -/
def Balanced (σ σ' : State) (a : Action) : Prop :=
  σ'.shared + tally Phase.borrows σ = σ.shared + tally Phase.borrows σ' ∧
  σ'.loaded + tally Phase.isLoading σ = σ.loaded + tally Phase.isLoading σ' + a.loads.toNat

theorem balanced_same (calls : σ'.calls = σ.calls) (next : σ'.next = σ.next)
    (shared : σ'.shared = σ.shared) (loaded : σ'.loaded = σ.loaded) (quiet : a.loads = false) :
    Balanced σ σ' a := by
  unfold Balanced
  rw [tally_same _ calls next, tally_same _ calls next, shared, loaded, quiet]
  exact ⟨rfl, rfl⟩

theorem balanced_started {call : Call} (hp : call.phase = .entered)
    (calls : σ'.calls = Function.update σ.calls σ.next (some call)) (next : σ'.next = σ.next + 1)
    (shared : σ'.shared = σ.shared) (loaded : σ'.loaded = σ.loaded) (quiet : a.loads = false) :
    Balanced σ σ' a := by
  unfold Balanced
  rw [tally_started _ (by rw [hp]; rfl) calls next, tally_started _ (by rw [hp]; rfl) calls next,
    shared, loaded, quiet]
  exact ⟨rfl, rfl⟩

theorem balanced_moved {c : CallId} {call : Call} {p q : Phase} (inv : Inv σ)
    (hc : σ.calls c = some call) (hp : call.phase = q)
    (calls : σ'.calls = Function.update σ.calls c (some { call with phase := p }))
    (next : σ'.next = σ.next)
    (shared : σ'.shared + (q.borrows c).toNat = σ.shared + (p.borrows c).toNat)
    (loaded : σ'.loaded + (q.isLoading c).toNat =
      σ.loaded + (p.isLoading c).toNat + a.loads.toNat) : Balanced σ σ' a := by
  have started := inv.started c call hc
  have borrows := tally_moved Phase.borrows hc started calls next
  have loading := tally_moved Phase.isLoading hc started calls next
  subst hp
  unfold Balanced
  dsimp only at borrows loading
  omega

theorem balanced_step (inv : Inv σ) (roles : Roles σ) (h : Transition σ a σ') :
    Balanced σ σ' a := by
  cases h with
  | start valid => exact balanced_started rfl rfl rfl rfl rfl rfl
  | share hc hp he hs live => exact balanced_moved inv hc hp rfl rfl rfl rfl
  | join hc hp he hs hf => exact balanced_moved inv hc hp rfl rfl rfl rfl
  | fresh hc hp gone => exact balanced_moved inv hc hp rfl rfl rfl rfl
  | loadOk hc hp ok => exact balanced_moved inv hc hp rfl rfl rfl rfl
  | loadFail hc hp bad => exact balanced_moved inv hc hp rfl rfl rfl rfl
  | loadThrow hc hp => exact balanced_moved inv hc hp rfl rfl rfl rfl
  | setValue hc hp => exact balanced_moved inv hc hp rfl rfl rfl rfl
  | @publish c call status hc hp =>
    have same : (σ.publish c call status).next = σ.next ∧
        (σ.publish c call status).shared = σ.shared ∧
        (σ.publish c call status).loaded = σ.loaded := by
      unfold State.publish
      split
      · split <;> exact ⟨rfl, rfl, rfl⟩
      · exact ⟨rfl, rfl, rfl⟩
    refine balanced_moved inv hc hp (State.publish_calls ..) same.1 ?_ ?_
    · rw [same.2.1]
      rfl
    · rw [same.2.2]
      rfl
  | @unwind c call hc hp =>
    refine balanced_moved inv hc hp rfl rfl ?_ rfl
    simp [Phase.borrows, State.unwind, State.setPhase]
  | @get c f call p hc hp ready =>
    have other : f ≠ c := by
      have sound := inv.sound c call hc
      rw [hp] at sound
      exact sound.1
    refine balanced_moved inv hc hp rfl rfl ?_ ?_
    · rw [getPhase_borrows other ready]
      rfl
    · cases hv : σ.futures f <;> rw [hv] at ready <;> cases ready <;> rfl
  | @ret c call p hc ready =>
    have sound := inv.sound c call hc
    have borrows := retPhase_borrows sound (roles.apart c call hc) ready
    have loading : p.isLoading c = call.phase.isLoading c := by
      cases hq : call.phase with
      | published status =>
        rw [hq] at ready
        obtain rfl := Option.some.inj ready
        split <;> rfl
      | got f s =>
        rw [hq] at ready
        cases s <;> cases ready <;> rfl
      | _ =>
        rw [hq] at ready
        cases ready
        try rfl
    refine balanced_moved inv hc rfl rfl rfl ?_ ?_
    · rw [borrows]
      rfl
    · rw [loading]
      rfl
  | finish hc hp => exact balanced_moved inv hc hp rfl rfl rfl rfl
  | construct | copy | moveSelf | move | destroy | configure =>
    exact balanced_same rfl rfl rfl rfl rfl

theorem Reachable.counters {as : List Action} (run : Run step initial as σ) :
    σ.shared = tally Phase.borrows σ ∧
      σ.loaded = tally Phase.isLoading σ + as.countP Action.loads := by
  suffices general : ∀ {s v : State} {as : List Action}, Run step s as v → Inv s → Roles s →
      v.shared + tally Phase.borrows s = s.shared + tally Phase.borrows v ∧
      v.loaded + tally Phase.isLoading s =
        s.loaded + tally Phase.isLoading v + as.countP Action.loads by
    have h := general run inv_initial roles_initial
    have empty : ∀ p, tally p initial = 0 := fun _ => rfl
    rw [empty, empty] at h
    have zero : initial.shared = 0 ∧ initial.loaded = 0 := ⟨rfl, rfl⟩
    omega
  intro s v as run
  induction run with
  | refl s => exact fun _ _ => ⟨rfl, rfl⟩
  | @next s u v a as h tail ih =>
    intro inv roles
    have transition := step_transition h
    have now := balanced_step inv roles transition
    have later := ih (inv_step s a u inv h) (roles_transition inv roles transition)
    unfold Balanced at now
    rw [List.countP_cons]
    cases hload : a.loads with
    | false =>
      rw [hload, Bool.toNat_false] at now
      simp only [Bool.false_eq_true, if_false]
      omega
    | true =>
      rw [hload, Bool.toNat_true] at now
      simp only [if_true]
      omega

end
end CyborgdbEmbed.SessionStore

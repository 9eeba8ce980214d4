import CyborgdbEmbed.SessionStoreFailures

set_option autoImplicit false

namespace CyborgdbEmbed.SessionStore
open TransitionSystem

/-- Call `c` took its result from the session or the load of another call. -/
def Phase.borrows (c : CallId) : Phase → Bool
  | .sharing _ | .waiting _ | .got _ _ => true
  | .acquired s | .done (.ok s) => s != c
  | .done (.failed f _) | .done (.threw f) => f != c
  | _ => false

def Phase.apart (c : CallId) : Phase → Prop
  | .sharing s => s ≠ c
  | .got f _ => f ≠ c
  | _ => True

def Phase.builtOwn (c : CallId) : Phase → Prop
  | .acquired s | .done (.ok s) => s = c
  | _ => False

structure Roles (σ : State) : Prop where
  borrower : ∀ c call, σ.calls c = some call →
    call.phase = .entered ∨ call.phase.borrows c = true →
    σ.futures c = .empty ∧ σ.sessions c = none
  apart : ∀ c call, σ.calls c = some call → call.phase.apart c
  builder : ∀ c call, σ.calls c = some call → call.phase.builtOwn c →
    σ.futures c = .value (some c)

theorem roles_initial : Roles initial where
  borrower := fun c call h => by cases h
  apart := fun c call h => by cases h
  builder := fun c call h => by cases h

section
variable {σ σ' : State} {c : CallId} {call : Call} {p : Phase}

theorem Roles.moved (roles : Roles σ)
    (calls : σ'.calls = Function.update σ.calls c (some { call with phase := p }))
    (futures : ∀ d, d ≠ c → σ'.futures d = σ.futures d)
    (sessions : ∀ d, d ≠ c → σ'.sessions d = σ.sessions d)
    (borrower : p = .entered ∨ p.borrows c = true → σ'.futures c = .empty ∧ σ'.sessions c = none)
    (apart : p.apart c) (builder : p.builtOwn c → σ'.futures c = .value (some c)) :
    Roles σ' := by
  have old : ∀ d call', σ'.calls d = some call' →
      (d = c ∧ call'.phase = p) ∨ (d ≠ c ∧ σ.calls d = some call') := by
    intro d call' hd
    rw [calls] at hd
    by_cases hdc : d = c
    · subst hdc
      rw [Function.update_self] at hd
      obtain rfl := Option.some.inj hd
      exact .inl ⟨rfl, rfl⟩
    · rw [Function.update_of_ne hdc] at hd
      exact .inr ⟨hdc, hd⟩
  constructor
  · intro d call' hd role
    rcases old d call' hd with ⟨rfl, rfl⟩ | ⟨hdc, hd⟩
    · exact borrower role
    · rw [futures d hdc, sessions d hdc]
      exact roles.borrower d call' hd role
  · intro d call' hd
    rcases old d call' hd with ⟨rfl, rfl⟩ | ⟨_, hd⟩
    · exact apart
    · exact roles.apart d call' hd
  · intro d call' hd role
    rcases old d call' hd with ⟨rfl, rfl⟩ | ⟨hdc, hd⟩
    · exact builder role
    · rw [futures d hdc]
      exact roles.builder d call' hd role

theorem Roles.own (roles : Roles σ)
    (calls : σ'.calls = Function.update σ.calls c (some { call with phase := p }))
    (futures : ∀ d, d ≠ c → σ'.futures d = σ.futures d)
    (sessions : ∀ d, d ≠ c → σ'.sessions d = σ.sessions d)
    (entered : p ≠ .entered) (lender : p.borrows c = false) (apart : p.apart c)
    (running : ¬ p.builtOwn c) : Roles σ' :=
  roles.moved calls futures sessions
    (fun h => by
      rcases h with h | h
      · exact absurd h entered
      · rw [lender] at h
        cases h)
    apart fun h => absurd h running

theorem Roles.setPhase (roles : Roles σ)
    (borrower : p = .entered ∨ p.borrows c = true → σ.futures c = .empty ∧ σ.sessions c = none)
    (apart : p.apart c) (builder : p.builtOwn c → σ.futures c = .value (some c)) :
    Roles (σ.setPhase c call p) :=
  roles.moved rfl (fun _ _ => rfl) (fun _ _ => rfl) borrower apart builder

end

section
variable {σ σ' : State} {a : Action} {c : CallId}

theorem roles_get (inv : Inv σ) (roles : Roles σ) {call : Call} {f : CallId} {p : Phase}
    (hc : σ.calls c = some call) (hp : call.phase = .waiting f)
    (ready : getPhase f (σ.futures f) = some p) : Roles (σ.setPhase c call p) := by
  have own := roles.borrower c call hc (.inr (by rw [hp]; rfl))
  have other : f ≠ c := by
    have sound := inv.sound c call hc
    rw [hp] at sound
    exact sound.1
  cases hv : σ.futures f with
  | empty =>
    rw [hv] at ready
    cases ready
  | value s =>
    rw [hv] at ready
    obtain rfl := Option.some.inj ready
    exact roles.setPhase (fun _ => own) other False.elim
  | broken =>
    rw [hv] at ready
    obtain rfl := Option.some.inj ready
    exact roles.setPhase (fun _ => own) trivial False.elim

theorem roles_ret (inv : Inv σ) (roles : Roles σ) {call : Call} {p : Phase}
    (hc : σ.calls c = some call) (ready : retPhase c call.phase = some p) :
    Roles (σ.setPhase c call p) := by
  have sound := inv.sound c call hc
  have apart := roles.apart c call hc
  have borrower := roles.borrower c call hc
  cases hp : call.phase with
  | sharing s =>
    rw [hp] at ready apart borrower
    obtain rfl := Option.some.inj ready
    refine roles.setPhase (fun _ => borrower (.inr rfl)) trivial fun h => absurd h apart
  | published status =>
    rw [hp] at ready sound
    obtain rfl := Option.some.inj ready
    by_cases ok : status.ok = true
    · have value : σ.futures c = .value (some c) := by
        rw [sound.1, if_pos ok]
      rw [if_pos ok]
      refine roles.setPhase (fun h => ?_) trivial fun _ => value
      simp [Phase.borrows] at h
    · rw [if_neg ok]
      refine roles.setPhase (fun h => ?_) trivial False.elim
      simp [Phase.borrows] at h
  | got f s =>
    rw [hp] at ready apart borrower sound
    cases s with
    | some s =>
      obtain rfl := Option.some.inj ready
      refine roles.setPhase (fun _ => borrower (.inr rfl)) trivial fun h => ?_
      have same := (sound.2.2 s rfl).1
      exact absurd (same.symm.trans h) apart
    | none =>
      obtain rfl := Option.some.inj ready
      exact roles.setPhase (fun _ => borrower (.inr rfl)) trivial False.elim
  | entered | loading | loaded | unwinding | resolved | waiting | acquired | done =>
    rw [hp] at ready
    cases ready

theorem roles_transition (inv : Inv σ) (roles : Roles σ) (h : Transition σ a σ') : Roles σ' := by
  cases h with
  | @start entry provider precision target valid =>
    have free : σ.futures σ.next = .empty ∧ σ.sessions σ.next = none := by
      constructor
      · by_contra used
        obtain ⟨call, hc, _⟩ := inv.future σ.next used
        exact Nat.lt_irrefl _ (inv.started _ call hc)
      · cases hs : σ.sessions σ.next with
        | none => rfl
        | some x =>
          obtain ⟨call, hc, _⟩ := inv.session σ.next x hs
          exact absurd (inv.started _ call hc) (Nat.lt_irrefl _)
    have calls : Function.update σ.calls σ.next
        (some ({ entry, provider, precision, target } : Call)) =
        Function.update σ.calls σ.next
          (some { ({ entry, provider, precision, target } : Call) with phase := .entered }) := rfl
    exact roles.moved calls (fun _ _ => rfl) (fun _ _ => rfl) (fun _ => free) trivial
      False.elim
  | @share c s call e hc hp he hs live =>
    have own := roles.borrower c call hc (.inl hp)
    have other : s ≠ c := by
      rintro rfl
      obtain ⟨x, hx, _⟩ := inv.listed _ e s he hs
      rw [own.2] at hx
      cases hx
    exact roles.moved rfl (fun _ _ => rfl) (fun _ _ => rfl) (fun _ => own) other
      False.elim
  | @join c f call e hc hp he hs hf =>
    have own := roles.borrower c call hc (.inl hp)
    exact roles.moved rfl (fun _ _ => rfl) (fun _ _ => rfl) (fun _ => own) trivial
      False.elim
  | fresh hc hp gone =>
    exact roles.own rfl (fun _ hd => Function.update_of_ne hd _ _) (fun _ _ => rfl) nofun rfl
      trivial id
  | loadOk hc hp ok =>
    exact roles.own rfl (fun _ _ => rfl) (fun _ hd => Function.update_of_ne hd _ _) nofun rfl
      trivial id
  | loadFail hc hp bad =>
    exact roles.own rfl (fun _ _ => rfl) (fun _ _ => rfl) nofun rfl trivial
      id
  | loadThrow hc hp =>
    exact roles.own rfl (fun _ _ => rfl) (fun _ _ => rfl) nofun rfl trivial
      id
  | setValue hc hp =>
    exact roles.own rfl (fun _ hd => Function.update_of_ne hd _ _) (fun _ _ => rfl) nofun rfl
      trivial id
  | @publish c call status hc hp =>
    have futures : (σ.publish c call status).futures = σ.futures := by
      unfold State.publish
      split
      · split <;> rfl
      · rfl
    have sessions : (σ.publish c call status).sessions = σ.sessions := by
      unfold State.publish
      split
      · split <;> rfl
      · rfl
    exact roles.own (State.publish_calls ..) (fun _ _ => by rw [futures])
      (fun _ _ => by rw [sessions]) nofun rfl trivial id
  | @unwind c call hc hp =>
    refine roles.own rfl (fun _ hd => Function.update_of_ne hd _ _) (fun _ _ => rfl) nofun ?_
      trivial id
    simp [Phase.borrows]
  | get hc hp ready => exact roles_get inv roles hc hp ready
  | ret hc ready => exact roles_ret inv roles hc ready
  | @finish c s call hc hp =>
    have borrower := roles.borrower c call hc
    have builder := roles.builder c call hc
    rw [hp] at borrower builder
    exact roles.moved rfl (fun _ _ => rfl) (fun _ _ => rfl)
      (fun h => borrower (.inr (h.resolve_left nofun))) trivial builder
  | construct | copy | moveSelf | move | destroy | configure =>
    exact ⟨roles.borrower, roles.apart, roles.builder⟩

theorem Reachable.roles {σ : State} (h : Reachable σ) : Roles σ := by
  obtain ⟨as, run⟩ := h
  have both : Inv σ ∧ Roles σ := by
    refine run.invariant (I := fun σ => Inv σ ∧ Roles σ) ?_ ⟨inv_initial, roles_initial⟩
    intro σ a σ' ⟨inv, roles⟩ h
    exact ⟨inv_step σ a σ' inv h, roles_transition inv roles (step_transition h)⟩
  exact both.2

end
end CyborgdbEmbed.SessionStore

import CyborgdbEmbed.SessionStoreReferences

set_option autoImplicit false

namespace CyborgdbEmbed.SessionStore

def BuiltFor (σ : State) (s : CallId) (k : Key) : Prop :=
  ∃ x, σ.sessions s = some x ∧ x.key = k

/-- The entry for `k` is the fresh one that call `c` inserted. -/
def Owns (σ : State) (c : CallId) (k : Key) : Prop :=
  σ.entries.lookup k = some { pending := some c }

def Started (σ : State) (f : CallId) (k : Key) : Prop :=
  ∃ call, σ.calls f = some call ∧ call.key = k

/-- What call `c` for key `k` may rely on in each phase. -/
def Sound (σ : State) (c : CallId) (k : Key) : Phase → Prop
  | .entered => σ.futures c = .empty
  | .sharing s | .acquired s => BuiltFor σ s k
  | .loading _ | .unwinding => Owns σ c k ∧ σ.futures c = .empty
  | .loaded status => Owns σ c k ∧ σ.futures c = .empty ∧ (status.ok = true → BuiltFor σ c k)
  | .resolved status => Owns σ c k ∧
      σ.futures c = .value (if status.ok then some c else none) ∧
      (status.ok = true → BuiltFor σ c k)
  | .published status => σ.futures c = .value (if status.ok then some c else none) ∧
      (status.ok = true → BuiltFor σ c k)
  | .waiting f => f ≠ c ∧ Started σ f k
  | .got f s => Started σ f k ∧ σ.futures f = .value s ∧ ∀ t, s = some t → t = f ∧ BuiltFor σ t k
  | .done (.ok s) => BuiltFor σ s k ∧ σ.impls c = some s
  | .done (.failed f _) => Started σ f k ∧ σ.futures f = .value none
  | .done (.threw f) => f = c → Owns σ c k ∧ σ.futures c = .broken

def Phase.window : Phase → Prop
  | .loaded status | .resolved status => status.ok = true
  | _ => False

structure Inv (σ : State) : Prop where
  started : ∀ c call, σ.calls c = some call → c < σ.next
  sound : ∀ c call, σ.calls c = some call → Sound σ c call.key call.phase
  target : ∀ c call, σ.calls c = some call → call.target < σ.embedders.length
  pending : ∀ k e f, σ.entries.lookup k = some e → e.pending = some f →
    e.session = none ∧ ∃ call, σ.calls f = some call ∧ call.key = k ∧
      (call.phase.inFlight ∨ call.phase = .done (.threw f))
  listed : ∀ k e s, σ.entries.lookup k = some e → e.session = some s → BuiltFor σ s k
  future : ∀ f, σ.futures f ≠ .empty → ∃ call, σ.calls f = some call ∧
    ∀ s, σ.futures f = .value (some s) → s = f ∧ BuiltFor σ f call.key
  session : ∀ s x, σ.sessions s = some x → ∃ call, σ.calls s = some call ∧ x.key = call.key
  impl : ∀ i s, σ.impls i = some s → ∃ call, σ.calls i = some call ∧ call.phase = .done (.ok s)
  placed : ∀ s k, BuiltFor σ s k → Holds σ s →
    (∃ e, σ.entries.lookup k = some e ∧ e.session = some s) ∨
      ∃ call, σ.calls s = some call ∧ call.phase.window

theorem Inv.numbered {σ : State} (inv : Inv σ) : Numbered σ where
  calls := inv.started
  futures := fun f hf => by
    obtain ⟨call, hc, _⟩ := inv.future f hf
    exact inv.started f call hc
  impls := fun i s hi => by
    obtain ⟨call, hc, _⟩ := inv.impl i s hi
    exact inv.started i call hc

theorem Inv.counters {σ : State} (inv : Inv σ) (config : CacheConfig) (shared loaded : ℕ) :
    Inv { σ with config, shared, loaded } :=
  ⟨inv.started, inv.sound, inv.target, inv.pending, inv.listed, inv.future, inv.session, inv.impl,
    inv.placed⟩

theorem inv_initial : Inv initial where
  started := fun c call h => by cases h
  sound := fun c call h => by cases h
  target := fun c call h => by cases h
  pending := fun k e f h => by cases h
  listed := fun k e s h => by cases h
  future := fun f h => absurd rfl h
  session := fun s x h => by cases h
  impl := fun i s h => by cases h
  placed := fun s k h => by obtain ⟨x, hx, _⟩ := h; cases hx

theorem Sound.mono {σ σ' : State} {c : CallId} {k : Key} {q : Phase} (h : Sound σ c k q)
    (owns : Owns σ c k → Owns σ' c k) (futures : σ'.futures c = σ.futures c)
    (stable : ∀ f, σ.futures f ≠ .empty → σ'.futures f = σ.futures f)
    (built : ∀ s j, BuiltFor σ s j → BuiltFor σ' s j)
    (started : ∀ f j, Started σ f j → Started σ' f j)
    (impls : σ'.impls c = σ.impls c) : Sound σ' c k q := by
  cases q with
  | entered => exact futures.trans h
  | sharing s | acquired s => exact built s k h
  | loading _ | unwinding => exact ⟨owns h.1, futures.trans h.2⟩
  | loaded status => exact ⟨owns h.1, futures.trans h.2.1, fun ok => built c k (h.2.2 ok)⟩
  | resolved status => exact ⟨owns h.1, futures.trans h.2.1, fun ok => built c k (h.2.2 ok)⟩
  | published status => exact ⟨futures.trans h.1, fun ok => built c k (h.2 ok)⟩
  | waiting f => exact ⟨h.1, started f k h.2⟩
  | got f s =>
    have hv : σ'.futures f = .value s := (stable f (by simp [h.2.1])).trans h.2.1
    exact ⟨started f k h.1, hv, fun t ht => ⟨(h.2.2 t ht).1, built t k (h.2.2 t ht).2⟩⟩
  | done outcome =>
    cases outcome with
    | ok s => exact ⟨built s k h.1, impls.trans h.2⟩
    | failed f status => exact ⟨started f k h.1, (stable f (by simp [h.2])).trans h.2⟩
    | threw f => exact fun he => ⟨owns (h he).1, futures.trans (h he).2⟩

end CyborgdbEmbed.SessionStore

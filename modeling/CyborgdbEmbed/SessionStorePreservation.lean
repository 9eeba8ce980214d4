import CyborgdbEmbed.SessionStoreInvariant

set_option autoImplicit false

namespace CyborgdbEmbed.SessionStore
open TransitionSystem

/-- Call `c` moves to phase `p`; other calls keep what they own and read. -/
structure Moved (σ σ' : State) (c : CallId) (call : Call) (p : Phase) : Prop where
  mover : σ.calls c = some call
  calls : σ'.calls = (σ.setPhase c call p).calls
  next : σ'.next = σ.next
  futures : ∀ f, f ≠ c → σ'.futures f = σ.futures f
  unset : σ'.futures c = σ.futures c ∨ σ.futures c = .empty
  built : ∀ s k, BuiltFor σ s k → BuiltFor σ' s k
  sessions : ∀ s, s ≠ c → σ'.sessions s = σ.sessions s
  owns : ∀ d k, d ≠ c → Owns σ d k → Owns σ' d k
  impls : ∀ i, i ≠ c → σ'.impls i = σ.impls i
  embedders : σ'.embedders.length = σ.embedders.length

section
variable {σ σ' : State} {c : CallId} {call : Call} {p : Phase}

theorem Moved.self (m : Moved σ σ' c call p) : σ'.calls c = some { call with phase := p } := by
  rw [m.calls, State.setPhase_calls, Function.update_self]

theorem Moved.other (m : Moved σ σ' c call p) {d : CallId} (hd : d ≠ c) :
    σ'.calls d = σ.calls d := by
  rw [m.calls, State.setPhase_calls, Function.update_of_ne hd]

theorem Moved.started (m : Moved σ σ' c call p) (f : CallId) (k : Key) (h : Started σ f k) :
    Started σ' f k := by
  obtain ⟨call', hf, hk⟩ := h
  by_cases hfc : f = c
  · subst hfc
    obtain rfl : call = call' := Option.some.inj (m.mover.symm.trans hf)
    exact ⟨_, m.self, hk⟩
  · exact ⟨call', (m.other hfc).trans hf, hk⟩

theorem Moved.stable (m : Moved σ σ' c call p) (f : CallId) (h : σ.futures f ≠ .empty) :
    σ'.futures f = σ.futures f := by
  by_cases hfc : f = c
  · subst hfc
    exact m.unset.resolve_right h
  · exact m.futures f hfc

theorem Moved.cases (m : Moved σ σ' c call p) {d : CallId} {call' : Call}
    (h : σ'.calls d = some call') :
    (d = c ∧ call' = { call with phase := p }) ∨ (d ≠ c ∧ σ.calls d = some call') := by
  by_cases hd : d = c
  · subst hd
    exact .inl ⟨rfl, Option.some.inj (h.symm.trans m.self)⟩
  · exact .inr ⟨hd, (m.other hd).symm.trans h⟩

theorem Inv.moved (inv : Inv σ) (m : Moved σ σ' c call p) (sound : Sound σ' c call.key p)
    (pending : ∀ k e f, σ'.entries.lookup k = some e → e.pending = some f → e.session = none ∧
      ((f = c ∧ k = call.key ∧ (p.inFlight ∨ p = .done (.threw c))) ∨
        (f ≠ c ∧ σ.entries.lookup k = some e)))
    (listed : ∀ k e s, σ'.entries.lookup k = some e → e.session = some s → BuiltFor σ' s k)
    (value : ∀ s, σ'.futures c = .value (some s) → s = c ∧ BuiltFor σ' c call.key)
    (session : ∀ x, σ'.sessions c = some x → x.key = call.key)
    (impl : ∀ s, σ'.impls c = some s → p = .done (.ok s))
    (placed : ∀ s k, BuiltFor σ' s k → Holds σ' s →
      (∃ e, σ'.entries.lookup k = some e ∧ e.session = some s) ∨ (s = c ∧ p.window) ∨
        (s ≠ c ∧ ∃ call', σ.calls s = some call' ∧ call'.phase.window)) : Inv σ' := by
  constructor
  · intro d call' h
    rw [m.next]
    rcases m.cases h with ⟨rfl, _⟩ | ⟨_, h⟩
    · exact inv.started d call m.mover
    · exact inv.started d call' h
  · intro d call' h
    rcases m.cases h with ⟨rfl, rfl⟩ | ⟨hd, h⟩
    · exact sound
    · exact (inv.sound d call' h).mono (m.owns d _ hd) (m.futures d hd) m.stable m.built m.started
        (m.impls d hd)
  · intro d call' h
    rw [m.embedders]
    rcases m.cases h with ⟨rfl, rfl⟩ | ⟨_, h⟩
    · exact inv.target d call m.mover
    · exact inv.target d call' h
  · intro k e f he hf
    obtain ⟨hs, ⟨rfl, rfl, hp⟩ | ⟨hfc, old⟩⟩ := pending k e f he hf
    · exact ⟨hs, _, m.self, rfl, hp⟩
    · obtain ⟨_, call', hf', hk, hp⟩ := inv.pending k e f old hf
      exact ⟨hs, call', (m.other hfc).trans hf', hk, hp⟩
  · exact listed
  · intro f hf
    by_cases hfc : f = c
    · subst hfc
      exact ⟨_, m.self, value⟩
    · rw [m.futures f hfc] at hf
      obtain ⟨call', hf', hv⟩ := inv.future f hf
      refine ⟨call', (m.other hfc).trans hf', fun s hs => ?_⟩
      rw [m.futures f hfc] at hs
      exact ⟨(hv s hs).1, m.built _ _ (hv s hs).2⟩
  · intro s x hx
    by_cases hsc : s = c
    · subst hsc
      exact ⟨_, m.self, session x hx⟩
    · rw [m.sessions s hsc] at hx
      obtain ⟨call', hs, hk⟩ := inv.session s x hx
      exact ⟨call', (m.other hsc).trans hs, hk⟩
  · intro i s hi
    by_cases hic : i = c
    · subst hic
      exact ⟨_, m.self, impl s hi⟩
    · obtain ⟨call', hi', hp⟩ := inv.impl i s ((m.impls i hic).symm.trans hi)
      exact ⟨call', (m.other hic).trans hi', hp⟩
  · intro s k hb hh
    rcases placed s k hb hh with h | ⟨rfl, hw⟩ | ⟨hsc, call', hs, hw⟩
    · exact .inl h
    · exact .inr ⟨_, m.self, hw⟩
    · exact .inr ⟨call', (m.other hsc).trans hs, hw⟩

/-- A move that gives the mover nothing new and keeps the shared state of others
    from gaining references or a value leaves no new session alive. -/
theorem Moved.holds (m : Moved σ σ' c call p) {s : CallId}
    (session : ({ call with phase := p } : Call).session c = some s → Holds σ s)
    (future : ∀ f, ({ call with phase := p } : Call).future c = some f →
      FutureHeld σ f ∨ σ'.futures f ≠ .value (some s))
    (entries : ∀ k e f, σ'.entries.lookup k = some e → e.pending = some f →
      FutureHeld σ f ∨ σ'.futures f ≠ .value (some s))
    (value : FutureHeld σ c → σ'.futures c = .value (some s) → Holds σ s)
    (handle : HeldByHandle σ' s → Holds σ s) (h : Holds σ' s) : Holds σ s := by
  rcases h with ⟨d, call', hd, hs⟩ | ⟨f, hv, hf⟩ | h
  · rcases m.cases hd with ⟨rfl, rfl⟩ | ⟨_, hd⟩
    · exact session hs
    · exact .inl ⟨d, call', hd, hs⟩
  · have held : FutureHeld σ f := by
      rcases hf with ⟨k, e, he, hp⟩ | ⟨d, call', hd, hp⟩
      · exact (entries k e f he hp).resolve_right (not_not_intro hv)
      · rcases m.cases hd with ⟨rfl, rfl⟩ | ⟨_, hd⟩
        · exact (future f hp).resolve_right (not_not_intro hv)
        · exact .inr ⟨d, call', hd, hp⟩
    by_cases hfc : f = c
    · subst hfc
      exact value held hv
    · exact .inr (.inl ⟨f, (m.futures f hfc) ▸ hv, held⟩)
  · exact handle h

theorem Inv.sessionKey (inv : Inv σ) (hc : σ.calls c = some call) {x : Session}
    (hx : σ.sessions c = some x) : x.key = call.key := by
  obtain ⟨call', hc', hk⟩ := inv.session c x hx
  obtain rfl : call = call' := Option.some.inj (hc.symm.trans hc')
  exact hk

theorem Inv.builtKey (inv : Inv σ) (hc : σ.calls c = some call) {k : Key}
    (h : BuiltFor σ c k) : k = call.key := by
  obtain ⟨x, hx, rfl⟩ := h
  exact inv.sessionKey hc hx

theorem Inv.no_impl (inv : Inv σ) (hc : σ.calls c = some call)
    (running : ∀ outcome, call.phase ≠ .done outcome) (s : CallId) : σ.impls c ≠ some s := by
  intro hi
  obtain ⟨call', hi', hp⟩ := inv.impl c s hi
  obtain rfl : call = call' := Option.some.inj (hc.symm.trans hi')
  exact running _ hp

theorem Inv.pending_ne (inv : Inv σ) (hc : σ.calls c = some call)
    (landed : ¬ call.phase.inFlight) (running : ∀ outcome, call.phase ≠ .done outcome)
    {k : Key} {e : Entry} {f : CallId} (he : σ.entries.lookup k = some e)
    (hf : e.pending = some f) : f ≠ c := by
  rintro rfl
  obtain ⟨_, call', hc', _, hp⟩ := inv.pending k e f he hf
  obtain rfl : call = call' := Option.some.inj (hc.symm.trans hc')
  exact hp.elim landed (running _)

theorem window_ne (hc : σ.calls c = some call) (closed : ¬ call.phase.window) {s : CallId}
    {call' : Call} (hs : σ.calls s = some call') (hw : call'.phase.window) : s ≠ c := by
  rintro rfl
  obtain rfl : call = call' := Option.some.inj (hc.symm.trans hs)
  exact closed hw

theorem Owns.unique {d : CallId} {k : Key} (hc : Owns σ c k) (hd : Owns σ d k) : c = d := by
  simpa using Option.some.inj (hc.symm.trans hd)

theorem moved_setPhase (p : Phase) (hc : σ.calls c = some call) :
    Moved σ (σ.setPhase c call p) c call p :=
  ⟨hc, rfl, rfl, fun _ _ => rfl, .inl rfl, fun _ _ h => h, fun _ _ => rfl, fun _ _ _ h => h,
    fun _ _ => rfl, rfl⟩

theorem Inv.advance (inv : Inv σ) (hc : σ.calls c = some call) (sound : Sound σ c call.key p)
    (running : ∀ outcome, call.phase ≠ .done outcome)
    (flight : call.phase.inFlight → p.inFlight) (closed : ¬ call.phase.window)
    (session : ∀ s, ({ call with phase := p } : Call).session c = some s → Holds σ s)
    (future : ∀ f, ({ call with phase := p } : Call).future c = some f → FutureHeld σ f) :
    Inv (σ.setPhase c call p) := by
  have m := moved_setPhase p hc
  refine inv.moved m (sound.mono id rfl m.stable (fun _ _ h => h) m.started rfl)
    ?_ inv.listed ?_
    (fun x hx => inv.sessionKey hc hx) (fun s hi => absurd hi (inv.no_impl hc running s)) ?_
  · intro k e f he hf
    obtain ⟨hs, call', hf', hk, hp⟩ := inv.pending k e f he hf
    refine ⟨hs, ?_⟩
    by_cases hfc : f = c
    · subst hfc
      obtain rfl : call = call' := Option.some.inj (hc.symm.trans hf')
      exact .inl ⟨rfl, hk.symm, .inl (flight (hp.resolve_right (running _)))⟩
    · exact .inr ⟨hfc, he⟩
  · intro s hs
    obtain ⟨call', hc', hv⟩ := inv.future c (by simp [show σ.futures c = _ from hs])
    obtain rfl : call = call' := Option.some.inj (hc.symm.trans hc')
    exact hv s hs
  · intro s k hb hh
    have old : Holds σ s :=
      m.holds (session s) (fun f hf => .inl (future f hf))
        (fun k e f he hf => .inl (.inl ⟨k, e, he, hf⟩))
        (fun hf hv => .inr (.inl ⟨c, hv, hf⟩)) (fun h => .inr (.inr h)) hh
    rcases inv.placed s k hb old with h | ⟨call', hs, hw⟩
    · exact .inl h
    · exact .inr (.inr ⟨window_ne hc closed hs hw, call', hs, hw⟩)

theorem Inv.beginLoad (inv : Inv σ) (hc : σ.calls c = some call) (hp : call.phase = .entered)
    (gone : ∀ e, σ.entries.lookup call.key = some e →
      σ.lock e.session = none ∧ e.pending = none) : Inv (σ.beginLoad c call) := by
  have running : ∀ outcome, call.phase ≠ .done outcome := by simp [hp]
  have landed : ¬ call.phase.inFlight := by simp [hp, Phase.inFlight]
  have closed : ¬ call.phase.window := by simp [hp, Phase.window]
  have self {e : Entry} (he : (σ.beginLoad c call).entries.lookup call.key = some e) :
      e = { pending := some c } := Option.some.inj (he.symm.trans (AList.lookup_insert _))
  have other {k : Key} (h : k ≠ call.key) :
      (σ.beginLoad c call).entries.lookup k = σ.entries.lookup k := AList.lookup_insert_ne h
  have value : (σ.beginLoad c call).futures c = .empty := Function.update_self ..
  have unset : σ.futures c = .empty := by
    simpa only [hp, Sound] using inv.sound c call hc
  have m : Moved σ (σ.beginLoad c call) c call (.loading σ.config) := by
    refine ⟨hc, rfl, rfl, fun f hf => Function.update_of_ne hf _ _, .inr unset, fun _ _ h => h,
      fun _ _ => rfl, fun d k _ hd => ?_, fun _ _ => rfl, rfl⟩
    have hk : k ≠ call.key := by
      rintro rfl
      cases (gone _ hd).2
    exact (other hk).trans hd
  refine inv.moved m ⟨AList.lookup_insert _, value⟩ ?_ ?_ (fun s hs => ?_)
    (fun x hx => inv.sessionKey hc hx) (fun s hi => absurd hi (inv.no_impl hc running s)) ?_
  · intro k e f he hf
    by_cases hk : k = call.key
    · subst hk
      obtain rfl := self he
      obtain rfl : c = f := Option.some.inj hf
      exact ⟨rfl, .inl ⟨rfl, rfl, .inl trivial⟩⟩
    · rw [other hk] at he
      exact ⟨(inv.pending k e f he hf).1, .inr ⟨inv.pending_ne hc landed running he hf, he⟩⟩
  · intro k e s he hs
    by_cases hk : k = call.key
    · subst hk
      obtain rfl := self he
      cases hs
    · rw [other hk] at he
      exact inv.listed k e s he hs
  · cases value.symm.trans hs
  · intro s k hb hh
    have old : Holds σ s := by
      refine m.holds (fun h => by cases h) (fun f hf => .inr ?_) (fun k' e f he hf => ?_)
        (fun _ hv => by cases value.symm.trans hv) (fun h => .inr (.inr h)) hh
      · obtain rfl : c = f := Option.some.inj hf
        simp [value]
      · by_cases hk : k' = call.key
        · subst hk
          obtain rfl := self he
          obtain rfl : c = f := Option.some.inj hf
          exact .inr (by simp [value])
        · exact .inl (.inl ⟨k', e, (other hk).symm.trans he, hf⟩)
    rcases inv.placed s k hb old with ⟨e, he, hs⟩ | ⟨call', hs, hw⟩
    · have hk : k ≠ call.key := by
        rintro rfl
        have dead := (gone e he).1
        have live : 0 < σ.useCount s := (useCount_pos_iff inv.numbered s).mpr old
        simp only [State.lock, hs, Option.filter_some, live, decide_true, ↓reduceIte,
          reduceCtorEq] at dead
      exact .inl ⟨e, (other hk).trans he, hs⟩
    · exact .inr (.inr ⟨window_ne hc closed hs hw, call', hs, hw⟩)

theorem Inv.loadOk (inv : Inv σ) {config : CacheConfig} {status : Status}
    (hc : σ.calls c = some call) (hp : call.phase = .loading config) (ok : status.ok = true) :
    Inv { σ.setPhase c call (.loaded status) with
      sessions := Function.update σ.sessions c
        (some ⟨call.entry, call.provider, call.precision⟩) } := by
  have running : ∀ outcome, call.phase ≠ .done outcome := by simp [hp]
  have closed : ¬ call.phase.window := by simp [hp, Phase.window]
  have owns : Owns σ c call.key ∧ σ.futures c = .empty := by
    simpa only [hp, Sound] using inv.sound c call hc
  let σ' : State := { σ.setPhase c call (.loaded status) with
    sessions := Function.update σ.sessions c (some ⟨call.entry, call.provider, call.precision⟩) }
  have fresh : BuiltFor σ' c call.key := ⟨_, Function.update_self .., rfl⟩
  have m : Moved σ σ' c call (.loaded status) := by
    refine ⟨hc, rfl, rfl, fun _ _ => rfl, .inl rfl, fun s k h => ?_,
      fun s hs => Function.update_of_ne hs _ _, fun _ _ _ h => h, fun _ _ => rfl, rfl⟩
    by_cases hs : s = c
    · subst hs
      exact inv.builtKey hc h ▸ fresh
    · obtain ⟨x, hx, hk⟩ := h
      exact ⟨x, (Function.update_of_ne hs _ _).trans hx, hk⟩
  have empty : ∀ s, σ'.futures c ≠ .value (some s) := fun s h => by cases owns.2.symm.trans h
  refine inv.moved m ⟨owns.1, owns.2, fun _ => fresh⟩ ?_
    (fun k e s he hs => m.built s k (inv.listed k e s he hs)) (fun s hs => absurd hs (empty s))
    (fun x hx => ?_) (fun s hi => absurd hi (inv.no_impl hc running s)) ?_
  · intro k e f he hf
    obtain ⟨hs, call', hf', hk, _⟩ := inv.pending k e f he hf
    refine ⟨hs, ?_⟩
    by_cases hfc : f = c
    · subst hfc
      obtain rfl : call = call' := Option.some.inj (hc.symm.trans hf')
      exact .inl ⟨rfl, hk.symm, .inl trivial⟩
    · exact .inr ⟨hfc, he⟩
  · obtain rfl := Option.some.inj ((Function.update_self c _ σ.sessions).symm.trans hx)
    rfl
  · intro s k hb hh
    by_cases hsc : s = c
    · exact .inr (.inl ⟨hsc, ok⟩)
    · have old : Holds σ s := by
        refine m.holds (fun h => ?_) (fun f hf => ?_)
          (fun k e f he hf => .inl (.inl ⟨k, e, he, hf⟩))
          (fun _ hv => absurd hv (empty s)) (fun h => .inr (.inr h)) hh
        · simp only [Call.session, ok, ↓reduceIte, Option.some.injEq] at h
          exact absurd h.symm hsc
        · obtain rfl : c = f := Option.some.inj hf
          exact .inr (empty s)
      have hb' : BuiltFor σ s k := by
        obtain ⟨x, hx, hk⟩ := hb
        exact ⟨x, (Function.update_of_ne hsc _ _).symm.trans hx, hk⟩
      rcases inv.placed s k hb' old with h | ⟨call', hs, hw⟩
      · exact .inl h
      · exact .inr (.inr ⟨hsc, call', hs, hw⟩)

/-- Waiters may see the result before the entry does. -/
theorem Inv.setValue (inv : Inv σ) {status : Status} (hc : σ.calls c = some call)
    (hp : call.phase = .loaded status) : Inv (σ.setValue c call status) := by
  have running : ∀ outcome, call.phase ≠ .done outcome := by simp [hp]
  obtain ⟨owns, empty, built⟩ : Owns σ c call.key ∧ σ.futures c = .empty ∧
      (status.ok = true → BuiltFor σ c call.key) := by
    simpa only [hp, Sound] using inv.sound c call hc
  have value : (σ.setValue c call status).futures c =
      .value (if status.ok then some c else none) := Function.update_self ..
  have m : Moved σ (σ.setValue c call status) c call (.resolved status) :=
    ⟨hc, rfl, rfl, fun f hf => Function.update_of_ne hf _ _, .inr empty, fun _ _ h => h,
      fun _ _ => rfl, fun _ _ _ h => h, fun _ _ => rfl, rfl⟩
  have result {s : CallId} (h : (σ.setValue c call status).futures c = .value (some s)) :
      status.ok = true ∧ s = c := by
    have h' := SharedState.value.inj (value.symm.trans h)
    split at h'
    · exact ⟨‹_›, (Option.some.inj h').symm⟩
    · cases h'
  refine inv.moved m ⟨owns, value, built⟩ ?_ inv.listed
    (fun s hs => ⟨(result hs).2, built (result hs).1⟩) (fun x hx => inv.sessionKey hc hx)
    (fun s hi => absurd hi (inv.no_impl hc running s)) ?_
  · intro k e f he hf
    obtain ⟨hs, call', hf', hk, _⟩ := inv.pending k e f he hf
    refine ⟨hs, ?_⟩
    by_cases hfc : f = c
    · subst hfc
      obtain rfl : call = call' := Option.some.inj (hc.symm.trans hf')
      exact .inl ⟨rfl, hk.symm, .inl trivial⟩
    · exact .inr ⟨hfc, he⟩
  · intro s k hb hh
    have held {s : CallId} (ok : status.ok = true) (hs : s = c) : Holds σ s :=
      .inl ⟨c, call, hc, by simp [Call.session, hp, ok, hs]⟩
    have old : Holds σ s := by
      refine m.holds (fun h => ?_) (fun f hf => ?_) (fun k e f he hf => .inl (.inl ⟨k, e, he, hf⟩))
        (fun _ hv => held (result hv).1 (result hv).2) (fun h => .inr (.inr h)) hh
      · simp only [Call.session, Option.ite_none_right_eq_some, Option.some.injEq] at h
        exact held h.1 h.2.symm
      · obtain rfl : c = f := Option.some.inj hf
        exact .inl (.inr ⟨c, call, hc, by simp [Call.future, hp]⟩)
    rcases inv.placed s k hb old with h | ⟨call', hs, hw⟩
    · exact .inl h
    · by_cases hsc : s = c
      · subst hsc
        obtain rfl : call = call' := Option.some.inj (hc.symm.trans hs)
        rw [hp] at hw
        exact .inr (.inl ⟨rfl, hw⟩)
      · exact .inr (.inr ⟨hsc, call', hs, hw⟩)

/-- The entry a loader finds in its final locked section is the one it inserted. -/
theorem Inv.publish_eq (inv : Inv σ) {status : Status} (hc : σ.calls c = some call)
    (hp : call.phase = .resolved status) : σ.publish c call status =
      { σ.setPhase c call (.published status) with
        entries := if status.ok then σ.entries.insert call.key { session := some c }
          else σ.entries.erase call.key } := by
  have owns : Owns σ c call.key := by
    have h := inv.sound c call hc
    rw [hp] at h
    exact h.1
  unfold State.publish
  rw [owns]
  cases status.ok <;> rfl

theorem lookup_published (entries : AList fun _ : Key => Entry) (k : Key) (e : Entry) (ok : Bool) :
    (if ok then entries.insert k e else entries.erase k).lookup k =
      if ok then some e else none := by
  cases ok with
  | true => exact AList.lookup_insert entries
  | false => exact AList.lookup_erase k entries

theorem lookup_published_ne (entries : AList fun _ : Key => Entry) {k k' : Key} (e : Entry)
    (ok : Bool) (h : k' ≠ k) :
    (if ok then entries.insert k e else entries.erase k).lookup k' = entries.lookup k' := by
  cases ok with
  | true => exact AList.lookup_insert_ne h
  | false => exact AList.lookup_erase_ne h

theorem Inv.publish (inv : Inv σ) {status : Status} (hc : σ.calls c = some call)
    (hp : call.phase = .resolved status) : Inv (σ.publish c call status) := by
  have running : ∀ outcome, call.phase ≠ .done outcome := by simp [hp]
  obtain ⟨owns, value, built⟩ : Owns σ c call.key ∧
      σ.futures c = .value (if status.ok then some c else none) ∧
      (status.ok = true → BuiltFor σ c call.key) := by
    simpa only [hp, Sound] using inv.sound c call hc
  rw [inv.publish_eq hc hp]
  let σ' : State := { σ.setPhase c call (.published status) with
    entries := if status.ok then σ.entries.insert call.key { session := some c }
      else σ.entries.erase call.key }
  have self : σ'.entries.lookup call.key = if status.ok then some { session := some c } else none :=
    lookup_published σ.entries call.key _ _
  have other {k : Key} (h : k ≠ call.key) : σ'.entries.lookup k = σ.entries.lookup k :=
    lookup_published_ne σ.entries _ _ h
  have m : Moved σ σ' c call (.published status) := by
    refine ⟨hc, rfl, rfl, fun _ _ => rfl, .inl rfl, fun _ _ h => h, fun _ _ => rfl,
      fun d k hdc hd => ?_, fun _ _ => rfl, rfl⟩
    have hk : k ≠ call.key := by
      rintro rfl
      exact hdc (hd.unique owns)
    exact (other hk).trans hd
  have kept {k : Key} {e : Entry} {f : CallId} (he : σ'.entries.lookup k = some e)
      (hf : e.pending = some f) : k ≠ call.key ∧ σ.entries.lookup k = some e := by
    have hk : k ≠ call.key := by
      rintro rfl
      rw [self] at he
      split at he
      · cases Option.some.inj he
        cases hf
      · cases he
    exact ⟨hk, (other hk).symm.trans he⟩
  refine inv.moved m ⟨value, built⟩ ?_ ?_ ?_ (fun x hx => inv.sessionKey hc hx)
    (fun s hi => absurd hi (inv.no_impl hc running s)) ?_
  · intro k e f he hf
    obtain ⟨hk, old⟩ := kept he hf
    obtain ⟨hs, call', hf', hk', _⟩ := inv.pending k e f old hf
    refine ⟨hs, .inr ⟨?_, old⟩⟩
    rintro rfl
    obtain rfl : call = call' := Option.some.inj (hc.symm.trans hf')
    exact hk hk'.symm
  · intro k e s he hs
    by_cases hk : k = call.key
    · subst hk
      rw [self] at he
      split at he
      · rename_i ok
        obtain rfl := Option.some.inj he
        obtain rfl : c = s := Option.some.inj hs
        exact built ok
      · cases he
    · rw [other hk] at he
      exact inv.listed k e s he hs
  · intro s hs
    have h := SharedState.value.inj (value.symm.trans hs)
    split at h
    · rename_i ok
      exact ⟨(Option.some.inj h).symm, built ok⟩
    · cases h
  · intro s k hb hh
    have old : Holds σ s := by
      refine m.holds (fun h => ?_) (fun f hf => ?_) (fun k e f he hf => ?_)
        (fun hf hv => .inr (.inl ⟨c, hv, hf⟩)) (fun h => .inr (.inr h)) hh
      · exact .inl ⟨c, call, hc, by rw [← h]; simp [Call.session, hp]⟩
      · exact .inl (.inr ⟨c, call, hc, by rw [← hf]; simp [Call.future, hp]⟩)
      · exact .inl (.inl ⟨k, e, (kept he hf).2, hf⟩)
    rcases inv.placed s k hb old with ⟨e, he, hs⟩ | ⟨call', hs, hw⟩
    · have hk : k ≠ call.key := by
        rintro rfl
        obtain rfl := Option.some.inj (owns.symm.trans he)
        cases hs
      exact .inl ⟨e, (other hk).trans he, hs⟩
    · by_cases hsc : s = c
      · subst hsc
        obtain rfl : call = call' := Option.some.inj (hc.symm.trans hs)
        obtain rfl := inv.builtKey hc hb
        have ok : status.ok = true := by simpa only [hp, Phase.window] using hw
        exact .inl ⟨{ session := some s }, by rw [self, if_pos ok], rfl⟩
      · exact .inr (.inr ⟨hsc, call', hs, hw⟩)

theorem Inv.unwind (inv : Inv σ) (hc : σ.calls c = some call) (hp : call.phase = .unwinding) :
    Inv (σ.unwind c call) := by
  have running : ∀ outcome, call.phase ≠ .done outcome := by simp [hp]
  have closed : ¬ call.phase.window := by simp [hp, Phase.window]
  have owns : Owns σ c call.key ∧ σ.futures c = .empty := by
    simpa only [hp, Sound] using inv.sound c call hc
  have value : (σ.unwind c call).futures c = .broken := Function.update_self ..
  have m : Moved σ (σ.unwind c call) c call (.done (.threw c)) :=
    ⟨hc, rfl, rfl, fun f hf => Function.update_of_ne hf _ _, .inr owns.2, fun _ _ h => h,
      fun _ _ => rfl, fun _ _ _ h => h, fun _ _ => rfl, rfl⟩
  refine inv.moved m (fun _ => ⟨owns.1, value⟩) ?_ inv.listed
    (fun s hs => by cases value.symm.trans hs) (fun x hx => inv.sessionKey hc hx)
    (fun s hi => absurd hi (inv.no_impl hc running s)) ?_
  · intro k e f he hf
    obtain ⟨hs, call', hf', hk, _⟩ := inv.pending k e f he hf
    refine ⟨hs, ?_⟩
    by_cases hfc : f = c
    · subst hfc
      obtain rfl : call = call' := Option.some.inj (hc.symm.trans hf')
      exact .inl ⟨rfl, hk.symm, .inr rfl⟩
    · exact .inr ⟨hfc, he⟩
  · intro s k hb hh
    have old : Holds σ s :=
      m.holds (fun h => by cases h) (fun f hf => by cases hf)
        (fun k e f he hf => .inl (.inl ⟨k, e, he, hf⟩))
        (fun _ hv => by cases value.symm.trans hv) (fun h => .inr (.inr h)) hh
    rcases inv.placed s k hb old with h | ⟨call', hs, hw⟩
    · exact .inl h
    · exact .inr (.inr ⟨window_ne hc closed hs hw, call', hs, hw⟩)

theorem Inv.finish (inv : Inv σ) {s : CallId} (hc : σ.calls c = some call)
    (hp : call.phase = .acquired s) : Inv (σ.finish c call s) := by
  have running : ∀ outcome, call.phase ≠ .done outcome := by simp [hp]
  have landed : ¬ call.phase.inFlight := by simp [hp, Phase.inFlight]
  have closed : ¬ call.phase.window := by simp [hp, Phase.window]
  have built : BuiltFor σ s call.key := by
    simpa only [hp, Sound] using inv.sound c call hc
  have held : Holds σ s := .inl ⟨c, call, hc, by simp [Call.session, hp]⟩
  have m : Moved σ (σ.finish c call s) c call (.done (.ok s)) :=
    ⟨hc, rfl, rfl, fun _ _ => rfl, .inl rfl, fun _ _ h => h, fun _ _ => rfl, fun _ _ _ h => h,
      fun _ hi => Function.update_of_ne hi _ _, List.length_set⟩
  have made : (σ.finish c call s).impls c = some s := Function.update_self ..
  have impl {i t : CallId} (h : (σ.finish c call s).impls i = some t) :
      (i = c ∧ t = s) ∨ (i ≠ c ∧ σ.impls i = some t) := by
    by_cases hic : i = c
    · subst hic
      exact .inl ⟨rfl, (Option.some.inj ((Function.update_self i _ σ.impls).symm.trans h)).symm⟩
    · exact .inr ⟨hic, (Function.update_of_ne hic _ σ.impls).symm.trans h⟩
  refine inv.moved m ⟨built, made⟩ ?_ inv.listed ?_ (fun x hx => inv.sessionKey hc hx) ?_ ?_
  · intro k e f he hf
    exact ⟨(inv.pending k e f he hf).1, .inr ⟨inv.pending_ne hc landed running he hf, he⟩⟩
  · intro t ht
    obtain ⟨call', hc', hv⟩ := inv.future c (by simp [show σ.futures c = _ from ht])
    obtain rfl : call = call' := Option.some.inj (hc.symm.trans hc')
    exact hv t ht
  · intro t ht
    obtain rfl := Option.some.inj (made.symm.trans ht)
    rfl
  · intro t k hb hh
    have old : Holds σ t := by
      refine m.holds (fun h => by cases h) (fun f hf => by cases hf)
        (fun k e f he hf => .inl (.inl ⟨k, e, he, hf⟩))
        (fun hf hv => .inr (.inl ⟨c, hv, hf⟩)) (fun h => ?_) hh
      obtain ⟨i, hi, he⟩ := h
      rcases impl hi with ⟨rfl, rfl⟩ | ⟨hic, hi⟩
      · exact held
      · have he' : some i ∈ σ.embedders := (List.mem_or_eq_of_mem_set he).resolve_right
          fun h => hic (Option.some.inj h)
        exact .inr (.inr ⟨i, hi, he'⟩)
    rcases inv.placed t k hb old with h | ⟨call', ht, hw⟩
    · exact .inl h
    · exact .inr (.inr ⟨window_ne hc closed ht hw, call', ht, hw⟩)

theorem Inv.embedders (inv : Inv σ) {embedders : List (Option CallId)}
    (size : σ.embedders.length ≤ embedders.length)
    (sub : ∀ i, some i ∈ embedders → some i ∈ σ.embedders) : Inv { σ with embedders } where
  started := inv.started
  sound := inv.sound
  target := fun c call hc => Nat.lt_of_lt_of_le (inv.target c call hc) size
  pending := inv.pending
  listed := inv.listed
  future := inv.future
  session := inv.session
  impl := inv.impl
  placed := fun s k hb hh => inv.placed s k hb <| by
    rcases hh with h | h | ⟨i, hi, he⟩
    · exact .inl h
    · exact .inr (.inl h)
    · exact .inr (.inr ⟨i, hi, sub i he⟩)

end

theorem Inv.start {σ : State} (inv : Inv σ) (call : Call) (hp : call.phase = .entered)
    (valid : call.target < σ.embedders.length) :
    Inv { σ with calls := Function.update σ.calls σ.next (some call), next := σ.next + 1 } := by
  have old {d : CallId} {call' : Call} (h : σ.calls d = some call') : d ≠ σ.next :=
    Nat.ne_of_lt (inv.started d call' h)
  have keeps {d : CallId} {call' : Call} (h : σ.calls d = some call') :
      Function.update σ.calls σ.next (some call) d = some call' :=
    (Function.update_of_ne (old h) _ _).trans h
  have back {d : CallId} {call' : Call}
      (h : Function.update σ.calls σ.next (some call) d = some call') :
      (d = σ.next ∧ call' = call) ∨ σ.calls d = some call' := by
    by_cases hd : d = σ.next
    · subst hd
      exact .inl ⟨rfl, (Option.some.inj ((Function.update_self _ _ σ.calls).symm.trans h)).symm⟩
    · exact .inr ((Function.update_of_ne hd _ _).symm.trans h)
  constructor
  · intro d call' h
    rcases back h with ⟨rfl, _⟩ | h
    · exact Nat.lt_succ_self _
    · exact Nat.lt_succ_of_lt (inv.started d call' h)
  · intro d call' h
    rcases back h with ⟨rfl, rfl⟩ | h
    · rw [hp]
      by_contra used
      obtain ⟨call', hc', _⟩ := inv.future σ.next used
      exact old hc' rfl
    · exact (inv.sound d call' h).mono id rfl (fun _ _ => rfl) (fun _ _ hb => hb)
        (fun f j ⟨call'', hf, hj⟩ => ⟨call'', keeps hf, hj⟩) rfl
  · intro d call' h
    rcases back h with ⟨rfl, rfl⟩ | h
    · exact valid
    · exact inv.target d call' h
  · intro k e f he hf
    obtain ⟨hs, call', hf', h⟩ := inv.pending k e f he hf
    exact ⟨hs, call', keeps hf', h⟩
  · exact inv.listed
  · intro f hf
    obtain ⟨call', hf', h⟩ := inv.future f hf
    exact ⟨call', keeps hf', h⟩
  · intro s x hx
    obtain ⟨call', hs, h⟩ := inv.session s x hx
    exact ⟨call', keeps hs, h⟩
  · intro i s hi
    obtain ⟨call', hi', h⟩ := inv.impl i s hi
    exact ⟨call', keeps hi', h⟩
  · intro s k hb hh
    have held : Holds σ s := by
      rcases hh with ⟨d, call', hd, hs⟩ | ⟨f, hv, hf⟩ | h
      · rcases back hd with ⟨rfl, rfl⟩ | hd
        · simp [Call.session, hp] at hs
        · exact .inl ⟨d, call', hd, hs⟩
      · refine .inr (.inl ⟨f, hv, ?_⟩)
        rcases hf with hf | ⟨d, call', hd, hf⟩
        · exact .inl hf
        · rcases back hd with ⟨rfl, rfl⟩ | hd
          · simp [Call.future, hp] at hf
          · exact .inr ⟨d, call', hd, hf⟩
      · exact .inr (.inr h)
    rcases inv.placed s k hb held with h | ⟨call', hs, hw⟩
    · exact .inl h
    · exact .inr ⟨call', keeps hs, hw⟩

theorem Inv.get {σ : State} (inv : Inv σ) {c f : CallId} {call : Call} {p : Phase}
    (hc : σ.calls c = some call) (hp : call.phase = .waiting f)
    (ready : getPhase f (σ.futures f) = some p) : Inv (σ.setPhase c call p) := by
  have alive : FutureHeld σ f := .inr ⟨c, call, hc, by simp [Call.future, hp]⟩
  obtain ⟨other, joined, hf, hk⟩ : f ≠ c ∧ Started σ f call.key := by
    simpa only [hp, Sound] using inv.sound c call hc
  have running : ∀ outcome, call.phase ≠ .done outcome := by simp [hp]
  have landed : call.phase.inFlight → p.inFlight := by simp [hp, Phase.inFlight]
  have closed : ¬ call.phase.window := by simp [hp, Phase.window]
  cases hv : σ.futures f with
  | empty => simp [hv, getPhase] at ready
  | value s =>
    obtain rfl : Phase.got f s = p := by simpa [hv, getPhase] using ready
    have sound : Sound σ c call.key (.got f s) := by
      refine ⟨⟨joined, hf, hk⟩, hv, ?_⟩
      rintro t rfl
      obtain ⟨joined', hf', h⟩ := inv.future f (by simp [hv])
      obtain rfl : joined = joined' := Option.some.inj (hf.symm.trans hf')
      obtain ⟨rfl, built⟩ := h t hv
      exact ⟨rfl, hk ▸ built⟩
    refine inv.advance hc sound running landed closed (fun t ht => ?_) (fun g hg => ?_)
    · obtain rfl : s = some t := ht
      exact .inr (.inl ⟨f, hv, alive⟩)
    · obtain rfl : f = g := Option.some.inj hg
      exact alive
  | broken =>
    obtain rfl : Phase.done (.threw f) = p := by simpa [hv, getPhase] using ready
    have sound : Sound σ c call.key (.done (.threw f)) := fun h => absurd h other
    exact inv.advance hc sound running landed closed (fun _ h => by cases h) (fun _ h => by cases h)

theorem Inv.ret {σ : State} (inv : Inv σ) {c : CallId} {call : Call} {p : Phase}
    (hc : σ.calls c = some call) (ready : retPhase c call.phase = some p) :
    Inv (σ.setPhase c call p) := by
  have sound := inv.sound c call hc
  cases hp : call.phase with
  | sharing s =>
    rw [hp] at sound
    obtain rfl : Phase.acquired s = p := by simpa [hp, retPhase] using ready
    refine inv.advance hc sound (by simp [hp]) (by simp [hp, Phase.inFlight])
      (by simp [hp, Phase.window]) (fun t ht => ?_) (fun _ h => by cases h)
    exact .inl ⟨c, call, hc, by simpa [Call.session, hp] using ht⟩
  | published status =>
    rw [hp] at sound
    cases ok : status.ok with
    | true =>
      obtain rfl : Phase.acquired c = p := by simpa [hp, retPhase, ok] using ready
      refine inv.advance hc (sound.2 ok) (by simp [hp]) (by simp [hp, Phase.inFlight])
        (by simp [hp, Phase.window]) (fun t ht => ?_) (fun _ h => by cases h)
      exact .inl ⟨c, call, hc, by simpa [Call.session, hp, ok] using ht⟩
    | false =>
      obtain rfl : Phase.done (.failed c status) = p := by simpa [hp, retPhase, ok] using ready
      have failed : σ.futures c = .value none := by simpa [ok] using sound.1
      exact inv.advance hc ⟨⟨call, hc, rfl⟩, failed⟩ (by simp [hp]) (by simp [hp, Phase.inFlight])
        (by simp [hp, Phase.window]) (fun _ h => by cases h) (fun _ h => by cases h)
  | got f s =>
    rw [hp] at sound
    cases s with
    | some s =>
      obtain rfl : Phase.acquired s = p := by simpa [hp, retPhase] using ready
      refine inv.advance hc (sound.2.2 s rfl).2 (by simp [hp]) (by simp [hp, Phase.inFlight])
        (by simp [hp, Phase.window]) (fun t ht => ?_) (fun _ h => by cases h)
      exact .inl ⟨c, call, hc, by simpa [Call.session, hp] using ht⟩
    | none =>
      obtain rfl : Phase.done (.failed f State.concurrentLoadFailed) = p := by
        simpa [hp, retPhase] using ready
      exact inv.advance hc ⟨sound.1, sound.2.1⟩ (by simp [hp]) (by simp [hp, Phase.inFlight])
        (by simp [hp, Phase.window]) (fun _ h => by cases h) (fun _ h => by cases h)
  | entered | loading | loaded | unwinding | resolved | waiting | acquired | done =>
    simp [hp, retPhase] at ready

theorem inv_transition {σ σ' : State} {a : Action} (inv : Inv σ) (h : Transition σ a σ') :
    Inv σ' := by
  cases h with
  | start valid => exact inv.start _ rfl valid
  | @share c s call e hc hp he hs live =>
    have sound : Sound σ c call.key (.sharing s) := inv.listed _ _ _ he hs
    have held : Holds σ s := (useCount_pos_iff inv.numbered s).mp live
    have moved := inv.advance hc sound (by simp [hp]) (by simp [hp, Phase.inFlight])
      (by simp [hp, Phase.window]) (fun t ht => Option.some.inj ht ▸ held) (fun _ h => by cases h)
    exact moved.counters σ.config (σ.shared + 1) σ.loaded
  | @join c f call e hc hp he hs hf =>
    have landed : ¬ call.phase.inFlight := by simp [hp, Phase.inFlight]
    have running : ∀ outcome, call.phase ≠ .done outcome := by simp [hp]
    obtain ⟨_, joined, hf', hk, _⟩ := inv.pending _ _ _ he hf
    have sound : Sound σ c call.key (.waiting f) :=
      ⟨inv.pending_ne hc landed running he hf, joined, hf', hk⟩
    have moved := inv.advance hc sound running (fun h => absurd h landed)
      (by simp [hp, Phase.window]) (fun _ h => by cases h)
      (fun g hg => Option.some.inj hg ▸ .inl ⟨_, e, he, hf⟩)
    exact moved.counters σ.config (σ.shared + 1) σ.loaded
  | fresh hc hp gone => exact inv.beginLoad hc hp gone
  | loadOk hc hp ok => exact inv.loadOk hc hp ok
  | @loadFail c call config status hc hp bad =>
    have sound := inv.sound c call hc
    rw [hp] at sound
    refine inv.advance hc ⟨sound.1, sound.2, fun ok => ?_⟩ (by simp [hp]) (fun _ => trivial)
      (by simp [hp, Phase.window]) (fun t ht => ?_) (fun g hg => ?_)
    · cases bad.symm.trans ok
    · simp [Call.session, bad] at ht
    · exact .inr ⟨c, call, hc, by simpa [Call.future, hp] using hg⟩
  | @loadThrow c call config hc hp =>
    have sound := inv.sound c call hc
    rw [hp] at sound
    refine inv.advance hc sound (by simp [hp]) (fun _ => trivial)
      (by simp [hp, Phase.window]) (fun _ h => by cases h) (fun g hg => ?_)
    exact .inr ⟨c, call, hc, by simpa [Call.future, hp] using hg⟩
  | setValue hc hp => exact inv.setValue hc hp
  | publish hc hp => exact inv.publish hc hp
  | unwind hc hp => exact inv.unwind hc hp
  | get hc hp ready => exact inv.get hc hp ready
  | ret hc ready => exact inv.ret hc ready
  | finish hc hp => exact inv.finish hc hp
  | construct => exact inv.embedders (by simp) fun i hi => by simpa using hi
  | copy hi =>
    refine inv.embedders (by simp) fun j hj => ?_
    rcases List.mem_or_eq_of_mem_set hj with h | rfl
    · exact h
    · exact List.mem_of_getElem? hi
  | moveSelf => exact inv
  | move hi distinct =>
    refine inv.embedders (by simp) fun j hj => ?_
    rcases List.mem_or_eq_of_mem_set hj with h | rfl
    · exact (List.mem_or_eq_of_mem_set h).resolve_right (by simp)
    · exact List.mem_of_getElem? hi
  | destroy =>
    exact inv.embedders (by simp) fun j hj => (List.mem_or_eq_of_mem_set hj).resolve_right (by simp)
  | @configure config => exact inv.counters config σ.shared σ.loaded

theorem inv_step (σ : State) (a : Action) (σ' : State) (inv : Inv σ) (h : step σ a = some σ') :
    Inv σ' := inv_transition inv (step_transition h)

theorem Reachable.inv {σ : State} (h : Reachable σ) : Inv σ := by
  obtain ⟨as, run⟩ := h
  exact run.invariant inv_step inv_initial

end CyborgdbEmbed.SessionStore

import CyborgdbEmbed.ThreadPool
import Mathlib.Tactic.Common

set_option autoImplicit false

namespace CyborgdbEmbed.ThreadPool
open TransitionSystem

inductive Moves (c : CallId) (m : Runtime) : Call → Event → Runtime → Call → Prop where
  | refuse {config : RuntimeConfig} (few : config.threads < 1) :
      Moves c m (.configure config .called) .next m (.configure config (.returned tooFewThreads))
  | request {config : RuntimeConfig} (enough : ¬ config.threads < 1) :
      Moves c m (.configure config .called) .next m (.configure config .locking)
  | lockConfigure {config : RuntimeConfig} (free : m.mutex = none) :
      Moves c m (.configure config .locking) .next { m with mutex := some c }
        (.configure config .locked)
  | decide {config : RuntimeConfig} :
      Moves c m (.configure config .locked) .next (m.configure config).1
        (.configure config (.unlocking (m.configure config).2))
  | unlockConfigure {config : RuntimeConfig} {status : Status} :
      Moves c m (.configure config (.unlocking status)) .next m.unlock
        (.configure config (.returned status))
  | tokenizerOk {status : Status} (ok : status.ok = true) :
      Moves c m (.load .tokenizing) (.tokenizer status) m (.load .locking)
  | tokenizerFailed {status : Status} (bad : status.ok = false) :
      Moves c m (.load .tokenizing) (.tokenizer status) m (.load (.returned (.returned status)))
  | lockLoad (free : m.mutex = none) :
      Moves c m (.load .locking) .next { m with mutex := some c } (.load .locked)
  | construct (absent : m.env = none) :
      Moves c m (.load .locked) (.construct none) { m with env := some m.newEnv }
        (.load .constructed)
  | throw {thrown : Thrown} (absent : m.env = none) :
      Moves c m (.load .locked) (.construct (some thrown)) m (.load (.unwinding thrown))
  | reuse (present : m.env.isSome = true) :
      Moves c m (.load .locked) .next m (.load .constructed)
  | start : Moves c m (.load .constructed) .next { m with started := true } (.load .unlocking)
  | unlockLoad : Moves c m (.load .unlocking) .next m.unlock (.load .building)
  | unwind {thrown : Thrown} :
      Moves c m (.load (.unwinding thrown)) .next m.unlock (.load (.returned thrown.result))
  | build {result : LoadResult} :
      Moves c m (.load .building) (.build result) m (.load (.returned result))

theorem Runtime.lock_eq {m m' : Runtime} {c : CallId} (h : m.lock c = some m') :
    m.mutex = none ∧ m' = { m with mutex := some c } := by
  unfold Runtime.lock at h
  split at h
  · rename_i free
    exact ⟨free, (Option.some.inj h).symm⟩
  · cases h

theorem advance_moves {c : CallId} {m m' : Runtime} {call call' : Call} {e : Event}
    (h : advance c m call e = some (m', call')) : Moves c m call e m' call' := by
  unfold advance at h
  split at h
  · split at h
    · rename_i few
      cases h
      exact .refuse few
    · rename_i enough
      cases h
      exact .request enough
  · obtain ⟨m₁, hlock, hpair⟩ := Option.map_eq_some_iff.mp h
    obtain ⟨free, rfl⟩ := Runtime.lock_eq hlock
    cases hpair
    exact .lockConfigure free
  · cases h
    exact .decide
  · cases h
    exact .unlockConfigure
  · cases h
    split
    · rename_i ok
      exact .tokenizerOk ok
    · rename_i bad
      exact .tokenizerFailed (Bool.eq_false_iff.mpr bad)
  · obtain ⟨m₁, hlock, hpair⟩ := Option.map_eq_some_iff.mp h
    obtain ⟨free, rfl⟩ := Runtime.lock_eq hlock
    cases hpair
    exact .lockLoad free
  · split at h
    · rename_i absent
      cases h
      exact .construct absent
    · rename_i absent
      cases h
      exact .throw absent
    · cases h
  · split at h
    · rename_i present
      cases h
      exact .reuse present
    · cases h
  · cases h
    exact .start
  · cases h
    exact .unlockLoad
  · cases h
    exact .unwind
  · cases h
    exact .build
  · cases h

theorem step_cases {s u : State} {a : Action} (h : step s a = some u) :
    (∃ c call, (a = .makeOrtSession c ∧ call = .load .tokenizing ∨
        ∃ config, a = .configureRuntime c config ∧ call = .configure config .called) ∧
      s.calls c = none ∧ u = { s with calls := Function.update s.calls c (some call) }) ∨
    ∃ c e call m' call', a = .advance c e ∧ s.calls c = some call ∧
      Moves c s.runtime call e m' call' ∧ u = ⟨m', Function.update s.calls c (some call')⟩ := by
  have begins : ∀ (c : CallId) (call : Call), s.begin c call = some u → s.calls c = none ∧
      u = { s with calls := Function.update s.calls c (some call) } := by
    intro c call hb
    unfold State.begin at hb
    split at hb
    · rename_i free
      exact ⟨free, (Option.some.inj hb).symm⟩
    · cases hb
  cases a with
  | configureRuntime c config => exact .inl ⟨c, _, .inr ⟨config, rfl, rfl⟩, begins c _ h⟩
  | makeOrtSession c => exact .inl ⟨c, _, .inl ⟨rfl, rfl⟩, begins c _ h⟩
  | advance c e =>
    obtain ⟨call, hc, hmap⟩ := Option.bind_eq_some_iff.mp h
    obtain ⟨⟨m', call'⟩, hadv, hu⟩ := Option.map_eq_some_iff.mp hmap
    exact .inr ⟨c, e, call, m', call', rfl, hc, advance_moves hadv, hu.symm⟩

def Call.inside : Call → Bool
  | .configure _ .locked | .configure _ (.unlocking _) => true
  | .load .locked | .load .constructed | .load .unlocking | .load (.unwinding _) => true
  | _ => false

structure Invariant (s : State) : Prop where
  holder : ∀ c call, s.calls c = some call → call.inside = true → s.runtime.mutex = some c
  size : ∀ env, s.runtime.env = some env → env = s.runtime.newEnv
  env : s.runtime.started = true → s.runtime.env.isSome = true
  started : s.runtime.env.isSome = true →
    s.runtime.started = true ∨ ∃ c, s.calls c = some (.load .constructed)
  constructed : ∀ c, s.calls c = some (.load .constructed) → s.runtime.env.isSome = true
  unwinding : ∀ c thrown, s.calls c = some (.load (.unwinding thrown)) → s.runtime.env = none

theorem invariant_initial : Invariant initial where
  holder := fun _ _ h => nomatch h
  size := fun _ h => nomatch h
  env := fun h => nomatch h
  started := fun h => nomatch h
  constructed := fun _ h => nomatch h
  unwinding := fun _ _ h => nomatch h

/-- Whoever holds the mutex before a decision sees a flag that tells whether the
    environment exists. -/
theorem Invariant.started_iff {s : State} (inv : Invariant s) {c : CallId} {call : Call}
    (hc : s.calls c = some call) (inside : call.inside = true)
    (other : call ≠ .load .constructed) :
    s.runtime.started = true ↔ s.runtime.env.isSome = true := by
  constructor
  · exact inv.env
  · intro present
    cases inv.started present with
    | inl h => exact h
    | inr h =>
      obtain ⟨d, hd⟩ := h
      have hcd : some c = some d := (inv.holder c call hc inside).symm.trans (inv.holder d _ hd rfl)
      cases hcd
      exact absurd (Option.some.inj (hc.symm.trans hd)) other

theorem Moves.mutex {c : CallId} {m m' : Runtime} {call call' : Call} {e : Event}
    (h : Moves c m call e m' call') :
    (m'.mutex = m.mutex ∧ (call'.inside = true → call.inside = true)) ∨
    (m.mutex = none ∧ m'.mutex = some c) ∨ (call.inside = true ∧ call'.inside = false) := by
  cases h with
  | lockConfigure free => exact .inr (.inl ⟨free, rfl⟩)
  | lockLoad free => exact .inr (.inl ⟨free, rfl⟩)
  | unlockConfigure => exact .inr (.inr ⟨rfl, rfl⟩)
  | unlockLoad => exact .inr (.inr ⟨rfl, rfl⟩)
  | unwind => exact .inr (.inr ⟨rfl, rfl⟩)
  | decide =>
    refine .inl ⟨?_, fun _ => rfl⟩
    unfold Runtime.configure
    split <;> rfl
  | _ => exact .inl ⟨rfl, fun h => h⟩

/-- The environment a move may only add, and the size it has whenever the mutex
    tells the truth about it. -/
theorem Moves.env {c : CallId} {m m' : Runtime} {call call' : Call} {e : Event}
    (h : Moves c m call e m' call') :
    m'.env = m.env ∨ (m.env = none ∧ m'.env = some m.newEnv) := by
  cases h with
  | construct absent => exact .inr ⟨absent, rfl⟩
  | decide =>
    refine .inl ?_
    unfold Runtime.configure
    split <;> rfl
  | _ => exact .inl rfl

theorem configure_ok_iff (m : Runtime) (config : RuntimeConfig) :
    (m.configure config).2.ok = true ↔ (m.started = true → config.threads = m.threads) := by
  unfold Runtime.configure
  split
  · rename_i h
    simp only [Bool.and_eq_true, bne_iff_ne, ne_eq] at h
    constructor
    · intro hok
      cases hok
    · intro himp
      exact absurd (himp h.1) h.2
  · rename_i h
    simp only [Bool.and_eq_true, bne_iff_ne, ne_eq, not_and, not_not] at h
    exact ⟨fun _ => h, fun _ => rfl⟩

theorem configure_runtime (m : Runtime) (config : RuntimeConfig) :
    (m.configure config).1 =
      if (m.configure config).2.ok then { m with threads := config.threads } else m := by
  unfold Runtime.configure
  split <;> rfl

theorem updated_cases {calls : CallId → Option Call} {c d : CallId} {call other : Call}
    (h : Function.update calls c (some call) d = some other) :
    (d = c ∧ other = call) ∨ (d ≠ c ∧ calls d = some other) := by
  by_cases hdc : d = c
  · subst d
    rw [Function.update_self] at h
    exact .inl ⟨rfl, (Option.some.inj h).symm⟩
  · rw [Function.update_of_ne hdc] at h
    exact .inr ⟨hdc, h⟩

theorem invariant_begin {s : State} {c : CallId} {call : Call} (inv : Invariant s)
    (free : s.calls c = none) (outside : call.inside = false) :
    Invariant { s with calls := Function.update s.calls c (some call) } where
  holder := by
    intro d other hd inside
    rcases updated_cases hd with ⟨_, rfl⟩ | ⟨_, hd⟩
    · rw [outside] at inside
      cases inside
    · exact inv.holder d other hd inside
  size := inv.size
  env := inv.env
  started := by
    intro present
    refine (inv.started present).imp_right ?_
    intro ⟨d, hd⟩
    have hdc : d ≠ c := by
      intro h
      rw [h, free] at hd
      cases hd
    exact ⟨d, (Function.update_of_ne hdc _ _).trans hd⟩
  constructed := by
    intro d hd
    rcases updated_cases hd with ⟨_, rfl⟩ | ⟨_, hd⟩
    · cases outside
    · exact inv.constructed d hd
  unwinding := by
    intro d thrown hd
    rcases updated_cases hd with ⟨_, rfl⟩ | ⟨_, hd⟩
    · cases outside
    · exact inv.unwinding d thrown hd

theorem Invariant.size_move {s : State} (inv : Invariant s) {c : CallId} {m' : Runtime}
    {call call' : Call} {e : Event} (hc : s.calls c = some call)
    (h : Moves c s.runtime call e m' call') : ∀ env, m'.env = some env → env = m'.newEnv := by
  intro env henv
  cases h with
  | decide =>
    rename_i config
    rw [configure_runtime] at henv ⊢
    split at henv
    · rename_i ok
      rw [if_pos ok]
      have hsize := inv.size env henv
      have hstarted := (inv.started_iff hc rfl nofun).mpr
        (by rw [henv]; rfl)
      have hthreads := (configure_ok_iff _ _).mp ok hstarted
      rw [hsize]
      simp only [Runtime.newEnv, hthreads]
    · rename_i refused
      rw [if_neg refused]
      exact inv.size env henv
  | construct absent => exact (Option.some.inj henv).symm
  | _ => exact inv.size env henv

theorem Invariant.started_move {s : State} (inv : Invariant s) {c : CallId} {m' : Runtime}
    {call call' : Call} {e : Event} (hc : s.calls c = some call)
    (h : Moves c s.runtime call e m' call') :
    (m'.started = true → m'.env.isSome = true) ∧
    (call' = .load .constructed → m'.env.isSome = true) ∧
    (m'.env.isSome = true → m'.started = true ∨ call' = .load .constructed ∨
      (call ≠ .load .constructed ∧ s.runtime.env.isSome = true ∧
        m'.started = s.runtime.started)) := by
  cases h with
  | construct absent => exact ⟨fun _ => rfl, fun _ => rfl, fun _ => .inr (.inl rfl)⟩
  | reuse present => exact ⟨fun _ => present, fun _ => present, fun _ => .inr (.inl rfl)⟩
  | start =>
    have present := inv.constructed c hc
    exact ⟨fun _ => present, fun _ => present, fun _ => .inl rfl⟩
  | decide =>
    rw [configure_runtime]
    split
    · exact ⟨inv.env, nofun, fun h => .inr (.inr ⟨nofun, h, rfl⟩)⟩
    · exact ⟨inv.env, nofun, fun h => .inr (.inr ⟨nofun, h, rfl⟩)⟩
  | _ =>
    exact ⟨inv.env, nofun, fun h => .inr (.inr ⟨nofun, h, rfl⟩)⟩

theorem invariant_move {s : State} (inv : Invariant s) {c : CallId} {m' : Runtime}
    {call call' : Call} {e : Event} (hc : s.calls c = some call)
    (h : Moves c s.runtime call e m' call') :
    Invariant ⟨m', Function.update s.calls c (some call')⟩ := by
  obtain ⟨henv, hconstructed, hstarted⟩ := inv.started_move hc h
  refine ⟨?_, inv.size_move hc h, henv, ?_, ?_, ?_⟩
  · intro d other hd inside
    rcases updated_cases hd with ⟨hdc, rfl⟩ | ⟨hdc, hd⟩
    · rw [hdc]
      rcases h.mutex with ⟨hm, hin⟩ | ⟨free, hm⟩ | ⟨_, hout⟩
      · exact hm.trans (inv.holder c call hc (hin inside))
      · exact hm
      · rw [hout] at inside
        cases inside
    · have hheld := inv.holder d other hd inside
      rcases h.mutex with ⟨hm, _⟩ | ⟨free, _⟩ | ⟨hin, _⟩
      · exact hm.trans hheld
      · rw [free] at hheld
        cases hheld
      · have hcd := (inv.holder c call hc hin).symm.trans hheld
        exact absurd (Option.some.inj hcd).symm hdc
  · intro present
    rcases hstarted present with hs | rfl | ⟨hne, hsome, hsame⟩
    · exact .inl hs
    · exact .inr ⟨c, Function.update_self _ _ _⟩
    · refine (inv.started hsome).imp hsame.trans ?_
      intro ⟨d, hd⟩
      have hdc : d ≠ c := by
        intro h
        rw [h] at hd
        exact hne (Option.some.inj (hc.symm.trans hd))
      exact ⟨d, (Function.update_of_ne hdc _ _).trans hd⟩
  · intro d hd
    rcases updated_cases hd with ⟨_, hcall⟩ | ⟨_, hd⟩
    · exact hconstructed hcall.symm
    · have hsome := inv.constructed d hd
      rcases h.env with hm | ⟨_, hm⟩
      · change m'.env.isSome = true
        rw [hm]
        exact hsome
      · change m'.env.isSome = true
        rw [hm]
        rfl
  · intro d thrown hd
    rcases updated_cases hd with ⟨_, rfl⟩ | ⟨hdc, before⟩
    · cases h with
      | throw absent => exact absent
    · have absent := inv.unwinding d thrown before
      cases h with
      | construct _ =>
        have hcd := (inv.holder c _ hc rfl).symm.trans (inv.holder d _ before rfl)
        exact absurd (Option.some.inj hcd).symm hdc
      | decide =>
        change (s.runtime.configure _).1.env = none
        rw [configure_runtime]
        split <;> exact absent
      | _ => exact absent

theorem invariant_step (s : State) (a : Action) (u : State) (inv : Invariant s)
    (h : step s a = some u) : Invariant u := by
  rcases step_cases h with ⟨c, call, hkind, free, rfl⟩ | ⟨c, e, call, m', call', _, hc, hm, rfl⟩
  · refine invariant_begin inv free ?_
    rcases hkind with ⟨_, rfl⟩ | ⟨config, _, rfl⟩
    · rfl
    · rfl
  · exact invariant_move inv hc hm

def Action.constructs : Action → Bool
  | .advance _ (.construct none) => true
  | _ => false

/-- The argument of the call of `configure_runtime` that the step accepts. -/
def accepted (s : State) : Action → Option ℤ
  | .advance c .next =>
    match s.calls c with
    | some (.configure config .locked) =>
      if (s.runtime.configure config).2.ok then some config.threads else none
    | _ => none
  | _ => none

theorem env_step {s u : State} {a : Action} (h : step s a = some u) :
    (a.constructs = true ∧ s.runtime.env = none ∧ u.runtime.env = some s.runtime.newEnv) ∨
    (a.constructs = false ∧ u.runtime.env = s.runtime.env) := by
  rcases step_cases h with ⟨c, call, hkind, _, rfl⟩ | ⟨c, e, call, m', call', rfl, _, hm, rfl⟩
  · refine .inr ⟨?_, rfl⟩
    rcases hkind with ⟨rfl, _⟩ | ⟨config, rfl, _⟩
    · rfl
    · rfl
  · cases hm with
    | construct absent => exact .inl ⟨rfl, absent, rfl⟩
    | decide =>
      refine .inr ⟨rfl, ?_⟩
      change (s.runtime.configure _).1.env = s.runtime.env
      rw [configure_runtime]
      split <;> rfl
    | _ => exact .inr ⟨rfl, rfl⟩

theorem threads_step (s : State) (a : Action) (u : State) (h : step s a = some u) :
    u.runtime.threads = (accepted s a).getD s.runtime.threads := by
  rcases step_cases h with ⟨c, call, hkind, _, rfl⟩ | ⟨c, e, call, m', call', rfl, hc, hm, rfl⟩
  · rcases hkind with ⟨rfl, _⟩ | ⟨config, rfl, _⟩
    · rfl
    · rfl
  · cases hm with
    | decide =>
      rename_i config
      have haccepted : accepted s (.advance c .next) =
          if (s.runtime.configure config).2.ok then some config.threads else none := by
        simp only [accepted, hc]
      rw [haccepted]
      change (s.runtime.configure config).1.threads = _
      rw [configure_runtime]
      split <;> rfl
    | _ => simp only [accepted, hc, Option.getD_none, Runtime.unlock]

theorem env_kept {s v : State} {as : List Action} (h : Run step s as v) {env : Env}
    (hs : s.runtime.env = some env) : v.runtime.env = some env := by
  refine Run.invariant (I := fun s => s.runtime.env = some env) ?_ h hs
  intro s a u hs hu
  rcases env_step hu with ⟨_, absent, _⟩ | ⟨_, same⟩
  · rw [absent] at hs
    cases hs
  · exact same.trans hs

theorem constructions_le {s v : State} {as : List Action} (h : Run step s as v) :
    as.countP Action.constructs ≤ if s.runtime.env.isSome then 0 else 1 := by
  induction h with
  | refl s => exact Nat.zero_le _
  | next h _ ih =>
    rw [List.countP_cons]
    rcases env_step h with ⟨hc, absent, present⟩ | ⟨hc, same⟩
    · rw [present] at ih
      rw [absent, hc]
      exact Nat.succ_le_succ ih
    · rw [same] at ih
      rw [hc]
      exact ih

theorem env_built {v : State} {as : List Action} (h : Run step initial as v) {env : Env}
    (hv : v.runtime.env = some env) :
    ∃ before a after, as = before ++ a :: after ∧ a.constructs = true ∧
      env.globalIntraOpNumThreads = (trace step accepted initial before).getLastD 1 := by
  obtain ⟨before, a, after, m, u, rfl, hm, hu, _, hne, henv⟩ :=
    h.first_step (P := fun s => s.runtime.env = some env) nofun hv
  refine ⟨before, a, after, rfl, ?_⟩
  rcases env_step hu with ⟨hc, _, built⟩ | ⟨_, same⟩
  · refine ⟨hc, ?_⟩
    have hthreads : m.runtime.threads = (trace step accepted initial before).getLastD 1 :=
      hm.last_shown threads_step
    rw [built] at henv
    rw [← Option.some.inj henv]
    exact hthreads
  · exact absurd (same.symm.trans henv) hne

/-- The call `c` of `configure_runtime(config)` has its answer. -/
def State.decided (s : State) (c : CallId) (config : RuntimeConfig) (status : Status) : Prop :=
  s.calls c = some (.configure config (.unlocking status)) ∨
  s.calls c = some (.configure config (.returned status))

/-- The condition the documentation gives for accepting `config`. -/
def Runtime.Accepts (m : Runtime) (config : RuntimeConfig) : Prop :=
  1 ≤ config.threads ∧
    (m.env = none ∨ ∃ env, m.env = some env ∧ config.threads = env.globalIntraOpNumThreads)

theorem Invariant.configure_ok_iff {s : State} (inv : Invariant s) {c : CallId}
    {config : RuntimeConfig} (hc : s.calls c = some (.configure config .locked)) :
    (s.runtime.configure config).2.ok = true ↔
      s.runtime.env = none ∨
        ∃ env, s.runtime.env = some env ∧ config.threads = env.globalIntraOpNumThreads := by
  have hstarted := inv.started_iff hc rfl nofun
  rw [ThreadPool.configure_ok_iff, hstarted]
  cases henv : s.runtime.env with
  | none => exact ⟨fun _ => .inl rfl, nofun⟩
  | some env =>
    have hsize : env.globalIntraOpNumThreads = s.runtime.threads := by
      rw [inv.size env henv]
      rfl
    constructor
    · intro h
      exact .inr ⟨env, rfl, (h rfl).trans hsize.symm⟩
    · intro h _
      obtain h | ⟨e, he, hthreads⟩ := h
      · cases h
      · rw [hthreads, ← Option.some.inj he, hsize]

/-- A configure call that reached the mutex asked for at least one thread. -/
def Enough (s : State) : Prop :=
  ∀ c config, s.calls c = some (.configure config .locking) ∨
    s.calls c = some (.configure config .locked) → 1 ≤ config.threads

theorem enough_step (s : State) (a : Action) (u : State) (enough : Enough s)
    (h : step s a = some u) : Enough u := by
  intro d config hd
  rcases step_cases h with ⟨c, call, hkind, _, rfl⟩ | ⟨c, e, call, m', call', _, hc, hm, rfl⟩
  · rcases hd with hd | hd
    · rcases updated_cases hd with ⟨_, rfl⟩ | ⟨_, hd⟩
      · rcases hkind with ⟨_, hcall⟩ | ⟨_, _, hcall⟩
        · cases hcall
        · cases hcall
      · exact enough d config (.inl hd)
    · rcases updated_cases hd with ⟨_, rfl⟩ | ⟨_, hd⟩
      · rcases hkind with ⟨_, hcall⟩ | ⟨_, _, hcall⟩
        · cases hcall
        · cases hcall
      · exact enough d config (.inr hd)
  · rcases hd with hd | hd
    · rcases updated_cases hd with ⟨_, rfl⟩ | ⟨_, hd⟩
      · cases hm with
        | request many => omega
      · exact enough d config (.inl hd)
    · rcases updated_cases hd with ⟨_, rfl⟩ | ⟨_, hd⟩
      · cases hm with
        | lockConfigure free => exact enough c config (.inl hc)
      · exact enough d config (.inr hd)

theorem decided_step {s u : State} {a : Action} (inv : Invariant s) (enough : Enough s)
    (h : step s a = some u) {c : CallId} {config : RuntimeConfig} {status : Status}
    (hs : ¬ s.decided c config status) (hu : u.decided c config status) :
    (status.ok = true ↔ s.runtime.Accepts config) ∧
    u.runtime = if status.ok then { s.runtime with threads := config.threads } else s.runtime := by
  rcases step_cases h with ⟨d, call, hkind, _, rfl⟩ | ⟨d, e, call, m', call', _, hd, hm, rfl⟩
  · exfalso
    have hold : ∀ phase, phase ≠ .called →
        Function.update s.calls d (some call) c = some (.configure config phase) →
        s.calls c = some (.configure config phase) := by
      intro phase hne hc
      rcases updated_cases hc with ⟨_, rfl⟩ | ⟨_, hc⟩
      · rcases hkind with ⟨_, hcall⟩ | ⟨_, _, hcall⟩
        · cases hcall
        · cases hcall
          exact absurd rfl hne
      · exact hc
    exact hs (hu.imp (hold _ nofun) (hold _ nofun))
  · rcases hu with hu | hu
    · rcases updated_cases hu with ⟨rfl, rfl⟩ | ⟨_, hu⟩
      · cases hm with
        | decide =>
          refine ⟨?_, configure_runtime _ _⟩
          rw [inv.configure_ok_iff hd]
          exact (and_iff_right (enough _ config (.inr hd))).symm
      · exact absurd (.inl hu) hs
    · rcases updated_cases hu with ⟨rfl, rfl⟩ | ⟨_, hu⟩
      · cases hm with
        | refuse few =>
          refine ⟨⟨nofun, fun haccepts => ?_⟩, rfl⟩
          have := haccepts.1
          omega
        | unlockConfigure => exact absurd (.inl hd) hs
      · exact absurd (.inr hu) hs

/-- The steps of one call of `configure_runtime` that nothing interrupts. -/
def configureAlone (c : CallId) (config : RuntimeConfig) : List Action :=
  [.configureRuntime c config, .advance c .next, .advance c .next, .advance c .next,
    .advance c .next]

theorem advance_step {calls : CallId → Option Call} {c : CallId} {e : Event}
    {m m' : Runtime} {call call' : Call} (h : advance c m call e = some (m', call')) :
    step ⟨m, Function.update calls c (some call)⟩ (.advance c e) =
      some ⟨m', Function.update calls c (some call')⟩ := by
  simp only [step, Function.update_self, Option.bind_some, h, Option.map_some,
    Function.update_idem]

theorem configureAlone_run {s : State} {c : CallId} {config : RuntimeConfig}
    (free : s.calls c = none) (unlocked : s.runtime.mutex = none)
    (started : s.runtime.started = false) (enough : 1 ≤ config.threads) :
    ∃ v, Run step s (configureAlone c config) v ∧
      v.calls c = some (.configure config (.returned {})) ∧
      v.runtime = { s.runtime with threads := config.threads } := by
  have hbegin : step s (.configureRuntime c config) = some
      ⟨s.runtime, Function.update s.calls c (some (.configure config .called))⟩ := by
    simp only [step, State.begin, free]
  have henter : advance c s.runtime (.configure config .called) .next =
      some (s.runtime, .configure config .locking) := if_neg (by omega)
  have hlock : advance c s.runtime (.configure config .locking) .next =
      some ({ s.runtime with mutex := some c }, .configure config .locked) := by
    simp only [advance, Runtime.lock, unlocked, if_true, Option.map_some]
  have hdecide : advance c { s.runtime with mutex := some c } (.configure config .locked) .next =
      some (⟨some c, s.runtime.started, config.threads, s.runtime.env⟩,
        .configure config (.unlocking {})) := by
    simp only [advance, Runtime.configure, started, Bool.false_and, Bool.false_eq_true, if_false]
  refine ⟨_, .next hbegin (.next (advance_step henter) (.next (advance_step hlock)
    (.next (advance_step hdecide) (.next (advance_step rfl) (.refl _))))), ?_, ?_⟩
  · exact Function.update_self _ _ _
  · change (⟨none, s.runtime.started, config.threads, s.runtime.env⟩ : Runtime) = _
    rw [← unlocked]

/-- `Runtime::threads` is the size of the pool from its construction on, and tells
    `configure_runtime` truthfully what it may still accept. -/
theorem pool_size_fixed {as : List Action} {s : State} (run : Run step initial as s) :
    as.countP Action.constructs ≤ 1 ∧
    (∀ env, s.runtime.env = some env →
      env.globalIntraOpNumThreads = s.runtime.threads ∧
      (∀ bs v, Run step s bs v →
        v.runtime.env = some env ∧ v.runtime.threads = env.globalIntraOpNumThreads) ∧
      ∃ before a after, as = before ++ a :: after ∧ a.constructs = true ∧
        env.globalIntraOpNumThreads = (trace step accepted initial before).getLastD 1) ∧
    (∀ c config status, s.calls c = some (.configure config (.returned status)) →
      ∃ before a after m u, as = before ++ a :: after ∧ Run step initial before m ∧
        step m a = some u ∧ ¬ m.decided c config status ∧ u.decided c config status ∧
        (status.ok = true ↔ m.runtime.Accepts config) ∧
        u.runtime =
          if status.ok then { m.runtime with threads := config.threads } else m.runtime) ∧
    (∀ a u, step s a = some u → u.runtime.threads = (accepted s a).getD s.runtime.threads) ∧
    ∀ c thrown u, s.calls c = some (.load (.unwinding thrown)) →
      step s (.advance c .next) = some u →
      u.runtime = { s.runtime with mutex := none } ∧ u.runtime.env = none ∧
      ∀ d config, u.calls d = none → 1 ≤ config.threads →
        ∃ v, Run step u (configureAlone d config) v ∧
          v.calls d = some (.configure config (.returned {})) ∧
          v.runtime = { u.runtime with threads := config.threads } := by
  have inv : Invariant s := run.invariant invariant_step invariant_initial
  refine ⟨constructions_le run, ?_, ?_, threads_step s, ?_⟩
  · intro env henv
    refine ⟨?_, ?_, env_built run henv⟩
    · rw [inv.size env henv]
      rfl
    · intro bs v later
      have hv : v.runtime.env = some env := env_kept later henv
      have invv : Invariant v := later.invariant invariant_step inv
      refine ⟨hv, ?_⟩
      rw [invv.size env hv]
      rfl
  · intro c config status hc
    obtain ⟨before, a, after, m, u, has, hm, hu, _, hundecided, hdecided⟩ :=
      run.first_step (P := fun s => s.decided c config status) (fun h => by
        rcases h with h | h
        · cases h
        · cases h) (.inr hc)
    have invm : Invariant m := hm.invariant invariant_step invariant_initial
    have enough : Enough m := hm.invariant enough_step (by
      intro d cfg h
      rcases h with h | h
      · cases h
      · cases h)
    obtain ⟨hiff, hruntime⟩ := decided_step invm enough hu hundecided hdecided
    exact ⟨before, a, after, m, u, has, hm, hu, hundecided, hdecided, hiff, hruntime⟩
  · intro c thrown u hc hu
    have absent := inv.unwinding c thrown hc
    have hruntime : u.runtime = { s.runtime with mutex := none } := by
      rcases step_cases hu with ⟨_, _, hkind, _⟩ | ⟨d, e, call, m', call', ha, hd, hm, rfl⟩
      · rcases hkind with ⟨ha, _⟩ | ⟨_, ha, _⟩
        · cases ha
        · cases ha
      · cases ha
        obtain rfl := Option.some.inj (hc.symm.trans hd)
        cases hm with
        | unwind => rfl
    have stopped : s.runtime.started = false := by
      cases hstarted : s.runtime.started with
      | false => rfl
      | true =>
        have present := inv.env hstarted
        rw [absent] at present
        cases present
    refine ⟨hruntime, ?_, ?_⟩
    · rw [hruntime]
      exact absent
    · intro d config free enough
      refine configureAlone_run free ?_ ?_ enough
      · rw [hruntime]
      · rw [hruntime]
        exact stopped

/-- Four threads are asked for; a first load throws while the environment is built,
    a second one builds it; a request for two threads is then refused. -/
def retriedLoad : List Action :=
  configureAlone 0 ⟨4⟩ ++
    [.makeOrtSession 1, .advance 1 (.tokenizer {}), .advance 1 .next,
      .advance 1 (.construct (some .other)), .advance 1 .next,
      .makeOrtSession 2, .advance 2 (.tokenizer {}), .advance 2 .next,
      .advance 2 (.construct none), .advance 2 .next, .advance 2 .next] ++
    configureAlone 3 ⟨2⟩

theorem retriedLoad_pool_size :
    retriedLoad.countP Action.constructs ≤ 1 ∧
    ((exec step initial retriedLoad).getD initial).runtime.threads = 4 := by
  have run : (exec step initial retriedLoad).isSome = true := by decide
  have h := pool_size_fixed (run_exec run)
  exact ⟨h.1, ((h.2.1 ⟨4, 1, 0⟩ (by decide)).1).symm⟩

end CyborgdbEmbed.ThreadPool

import CyborgdbEmbed.EncodeEquivalence
import CyborgdbEmbed.EncodeStores
import CyborgdbEmbed.TransitionSystem

set_option autoImplicit false

/-!
# Calls that run at the same time

An embedder may be called concurrently, each call writing to its own `out`. Between two
steps of a call other calls may run a batch or store a float, and the process may write
wherever no call is writing. Each call still leaves what it would leave alone.
-/
namespace CyborgdbEmbed.ConcurrentEncodes
open Fallible Loops TransitionSystem Utf8

/-- A call on one of the sessions. `base` is where `out` points to. -/
structure Call (ι α : Type) where
  session : OrtSession ι α
  texts : ℕ → Bytes
  n : ℕ
  pre : Bytes
  base : ℕ
  outCapacity : ℕ

section
variable {ι α : Type}

def Call.Owns (c : Call ι α) (k : ℕ) : Prop := c.base ≤ k ∧ k < c.base + c.outCapacity

def Call.Apart (c c' : Call ι α) : Prop := ∀ k, c.Owns k → ¬ c'.Owns k

def Call.out (c : Call ι α) (memory : Buffer α) : Buffer α := fun k => memory (c.base + k)

end

/-- Of a call past its checks: the ids of its texts, the floats it still has to store of
    the batch that ran last, and the batches to come. `out` is what the caller finds. -/
inductive Phase (α : Type) where
  | running (tokens : ℕ → List UInt32) (stores : List (Store α)) (todo : List Batch)
  | returned (status : Status) (out : Buffer α)

def Phase.isRunning {α : Type} : Phase α → Bool
  | .running .. => true
  | .returned .. => false

/-- A call with what it found at `out`. -/
structure Job (ι α : Type) where
  call : Call ι α
  before : Buffer α
  phase : Phase α

/-- The floats of the process, and how often `session_.Run` was called on any session. -/
structure State (ι α : Type) where
  memory : Buffer α
  runs : ℕ
  jobs : ℕ → Option (Job ι α)

inductive Action (ι α : Type) where
  | start (i : ℕ) (call : Call ι α)
  | run (i : ℕ)
  | store (i : ℕ)
  | finish (i : ℕ)
  -- by the rest of the process
  | write (k : ℕ) (x : α)

def State.put {ι α : Type} (s : State ι α) (i : ℕ) (job : Job ι α) : State ι α :=
  { s with jobs := Function.update s.jobs i (some job) }

def order (tokens : ℕ → List UInt32) (n : ℕ) : ℕ → ℕ := fun p =>
  (OrtSession.lengthOrder tokens n).getD p 0

def formed (tokens : ℕ → List UInt32) (n : ℕ) : List Batch :=
  batches (fun p => (tokens (order tokens n p)).length) n 0

section
variable {ι α : Type} [Arith α]

def begin (c : Call ι α) (memory : Buffer α) : Phase α :=
  let need := c.n * c.session.entry.info.dimension % UInt64.size
  if c.outCapacity < need then
    .returned ⟨.outputTooSmall, "need " ++ toString need ++ " floats, got " ++
      toString c.outCapacity⟩ (c.out memory)
  else
    match (List.range c.n).mapM fun i => c.session.tokenizer.encode (c.texts i) c.pre with
    | .error status => .returned status (c.out memory)
    | .ok encoded => .running (fun i => encoded.getD i []) []
        (formed (fun i => encoded.getD i []) c.n)

def storesOf (session : OrtSession ι α) (tokens : ℕ → List UInt32) (n : ℕ) (b : Batch)
    (hidden : Buffer α) : List (Store α) :=
  session.scatterStores (order tokens n) b.start b.rows
    (session.reduce hidden (session.feedOf tokens (order tokens n) b))

/-- `session_.Run` of the next batch. -/
def runNext (s : State ι α) (call : Call ι α) (tokens : ℕ → List UInt32) (b : Batch)
    (todo : List Batch) : Phase α :=
  match call.session.run s.runs (call.session.feedOf tokens (order tokens call.n) b) with
  | .error message => .returned ⟨.inferenceFailed, message⟩ (call.out s.memory)
  | .ok hidden => .running tokens (storesOf call.session tokens call.n b hidden) todo

def step (s : State ι α) : Action ι α → Option (State ι α)
  | .start i call =>
    match s.jobs i with
    | some _ => none
    | none => some (s.put i ⟨call, call.out s.memory, begin call s.memory⟩)
  | .run i =>
    match s.jobs i with
    | some ⟨call, before, .running tokens [] (b :: todo)⟩ =>
      some ({ s with runs := s.runs + 1 }.put i
        ⟨call, before, runNext s call tokens b todo⟩)
    | _ => none
  | .store i =>
    match s.jobs i with
    | some ⟨call, before, .running tokens (x :: stores) todo⟩ =>
      some ({ s with memory := Function.update s.memory (call.base + x.index) x.value }.put i
        ⟨call, before, .running tokens stores todo⟩)
    | _ => none
  | .finish i =>
    match s.jobs i with
    | some ⟨call, before, .running _ [] []⟩ =>
      some (s.put i ⟨call, before, .returned {} (call.out s.memory)⟩)
    | _ => none
  | .write k x => some { s with memory := Function.update s.memory k x }

def State.Busy (s : State ι α) (call : Call ι α) : Prop :=
  ∃ i job, s.jobs i = some job ∧ job.phase.isRunning = true ∧ job.call = call

/-- No buffer is given to two calls at a time, or written to behind a call's back, and the
    size asked for is representable. -/
def Permitted (s : State ι α) : Action ι α → Prop
  | .start _ call => call.n * call.session.entry.info.dimension < UInt64.size ∧
      ∀ busy, s.Busy busy → call.Apart busy
  | .write k _ => ∀ busy, s.Busy busy → ¬ busy.Owns k
  | _ => True

/-- A batch that ran, the number of its run among all and what came of it. -/
structure Ran (α : Type) where
  number : ℕ
  batch : Batch
  hidden : Buffer α

def numbered (session : OrtSession ι α) (numbers : ℕ → ℕ) : OrtSession ι α :=
  { session with run := fun batch => session.run (numbers batch) }

variable {session : OrtSession ι α}

omit [Arith α] in
@[simp] theorem numbered_entry (numbers : ℕ → ℕ) :
    (numbered session numbers).entry = session.entry := rfl

omit [Arith α] in
@[simp] theorem numbered_tokenizer (numbers : ℕ → ℕ) :
    (numbered session numbers).tokenizer = session.tokenizer := rfl

theorem batchStores_ran {tokens : ℕ → List UInt32} {n : ℕ} {numbers : ℕ → ℕ}
    {ran : List (Ran α)} (rest : List Batch) (m : ℕ)
    (answered : ∀ x ∈ ran,
      session.run x.number (session.feedOf tokens (order tokens n) x.batch) = .ok x.hidden)
    (known : ∀ k x, ran[k]? = some x → numbers (m + k) = x.number) :
    (numbered session numbers).batchStores tokens (order tokens n) m (ran.map Ran.batch ++ rest) =
      (((numbered session numbers).batchStores tokens (order tokens n) (m + ran.length) rest).1,
        ran.flatMap (fun x => storesOf session tokens n x.batch x.hidden) ++
          ((numbered session numbers).batchStores tokens (order tokens n) (m + ran.length)
            rest).2) := by
  induction ran generalizing m with
  | nil => rfl
  | cons x ran ih =>
    have first : session.run (numbers m) (session.feedOf tokens (order tokens n) x.batch) =
        .ok x.hidden := by
      rw [show numbers m = x.number from known 0 x rfl]
      exact answered x List.mem_cons_self
    have later : ∀ k y, ran[k]? = some y → numbers (m + 1 + k) = y.number := by
      intro k y hy
      rw [Nat.add_assoc, Nat.add_comm 1]
      exact known (k + 1) y hy
    have tail := ih (m + 1) (fun y hy => answered y (List.mem_cons_of_mem _ hy)) later
    rw [List.map_cons, List.cons_append, OrtSession.batchStores]
    change (match session.run (numbers m)
      (session.feedOf tokens (order tokens n) x.batch) with | .error _ => _ | .ok _ => _) = _
    rw [first]
    dsimp only
    rw [tail, List.length_cons, Nat.add_assoc m 1, Nat.add_comm 1, List.flatMap_cons,
      List.append_assoc]
    rfl

theorem storesOf_inside {tokens : ℕ → List UInt32} {n : ℕ} {b : Batch} (hb : b ∈ formed tokens n)
    {hidden : Buffer α} {x : Store α} (hx : x ∈ storesOf session tokens n b hidden) :
    x.index < n * session.entry.info.dimension := by
  obtain ⟨start, shape⟩ := mem_batches hb
  have inside := (formBatch_formed (fun p => (tokens (order tokens n p)).length) start).inside
  have rows : b.rows = (formBatch (fun p => (tokens (order tokens n p)).length) n b.start).1 :=
    congrArg Batch.rows shape
  rw [← rows] at inside
  have index := List.mem_map_of_mem (f := Store.index) hx
  rw [storesOf, OrtSession.scatterStores_indices] at index
  obtain ⟨i, hi, d, hd, same⟩ := mem_rows.mp index
  obtain ⟨r, hr, rfl⟩ := List.mem_map.mp hi
  rw [List.mem_range] at hr
  have row : order tokens n (b.start + r) < n :=
    (OrtSession.writtenRows_spec tokens (Nat.le_refl n)).2 _
      (List.mem_map.mpr ⟨b.start + r, List.mem_range.mpr (by omega), rfl⟩)
  have bound : (order tokens n (b.start + r) + 1) * session.entry.info.dimension ≤
      n * session.entry.info.dimension := Nat.mul_le_mul_right _ row
  rw [Nat.add_mul] at bound
  omega

/-- Of the batches that ran everything is stored but `stores`, and `out` shows it. -/
structure Running (memory : Buffer α) (call : Call ι α) (before : Buffer α)
    (tokens : ℕ → List UInt32) (stores : List (Store α)) (todo : List Batch) : Prop where
  fits : call.n * call.session.entry.info.dimension ≤ call.outCapacity
  encoded : ∃ encoded, ((List.range call.n).mapM fun i =>
    call.session.tokenizer.encode (call.texts i) call.pre) = .ok encoded ∧
      tokens = fun i => encoded.getD i []
  progress : ∃ (ran : List (Ran α)) (done : List (Store α)),
    formed tokens call.n = ran.map Ran.batch ++ todo ∧
    (∀ x ∈ ran, call.session.run x.number
      (call.session.feedOf tokens (order tokens call.n) x.batch) = .ok x.hidden) ∧
    ran.flatMap (fun x => storesOf call.session tokens call.n x.batch x.hidden) = done ++ stores ∧
    ∀ k, k < call.outCapacity → memory (call.base + k) = replay done before k

/-- What a call by itself does, with some of the runs, to the buffer this one has found. -/
def Alone (call : Call ι α) (before : Buffer α) (status : Status) (out : Buffer α) : Prop :=
  ∃ numbers alone, (numbered call.session numbers).encode (some call.texts) call.n call.pre
      (some before) call.outCapacity = (status, some alone) ∧
    ∀ k, k < call.outCapacity → out k = alone k

def Sound (memory : Buffer α) (job : Job ι α) : Prop :=
  match job.phase with
  | .running tokens stores todo => Running memory job.call job.before tokens stores todo
  | .returned status out => Alone job.call job.before status out

structure Inv (s : State ι α) : Prop where
  sound : ∀ i job, s.jobs i = some job → Sound s.memory job
  apart : ∀ i j job job', i ≠ j → s.jobs i = some job → s.jobs j = some job' →
    job.phase.isRunning = true → job'.phase.isRunning = true → job.call.Apart job'.call

section
variable {s s' : State ι α} {memory memory' : Buffer α} {call : Call ι α} {before : Buffer α}
  {tokens : ℕ → List UInt32} {stores : List (Store α)} {todo : List Batch} {job job' : Job ι α}
  {i j : ℕ}

theorem Sound.elsewhere (sound : Sound memory job)
    (same : job.phase.isRunning = true → ∀ k, job.call.Owns k → memory' k = memory k) :
    Sound memory' job := by
  obtain ⟨call, before, phase⟩ := job
  cases phase with
  | running tokens stores todo =>
    obtain ⟨fits, encoded, ran, done, formed, answered, stored, shows⟩ := sound
    refine ⟨fits, encoded, ran, done, formed, answered, stored, fun k hk => ?_⟩
    have owns : call.Owns (call.base + k) := ⟨Nat.le_add_right _ _, Nat.add_lt_add_left hk _⟩
    rw [same rfl _ owns]
    exact shows k hk
  | returned status out => exact sound

section
variable (numbers : ℕ → ℕ) (fits : call.n * call.session.entry.info.dimension ≤ call.outCapacity)
include fits

omit [Arith α] in
theorem room : ¬ call.outCapacity < call.n * call.session.entry.info.dimension % UInt64.size :=
  Nat.not_lt.mpr (Nat.le_trans (Nat.mod_le _ _) fits)

variable {numbers} in
theorem encodeStores_tokenized {encoded : List (List UInt32)}
    (h : ((List.range call.n).mapM fun i => call.session.tokenizer.encode (call.texts i) call.pre) =
      .ok encoded) :
    (numbered call.session numbers).encodeStores (some call.texts) call.n call.pre
      call.outCapacity = (numbered call.session numbers).batchStores (fun i => encoded.getD i [])
        (order (fun i => encoded.getD i []) call.n) 0
        (formed (fun i => encoded.getD i []) call.n) := by
  unfold OrtSession.encodeStores
  rw [numbered_entry, numbered_tokenizer]
  dsimp only
  rw [if_neg fun null => Bool.false_ne_true null.2, if_neg (room fits), h]
  rfl

theorem encodeStores_refused {status : Status}
    (h : ((List.range call.n).mapM fun i => call.session.tokenizer.encode (call.texts i) call.pre) =
      .error status) :
    (numbered call.session numbers).encodeStores (some call.texts) call.n call.pre
      call.outCapacity = (status, []) := by
  unfold OrtSession.encodeStores
  rw [numbered_entry, numbered_tokenizer]
  dsimp only
  rw [if_neg fun null => Bool.false_ne_true null.2, if_neg (room fits), h]

end

theorem Running.ends (running : Running memory call before tokens [] todo)
    {status : Status} {runs : ℕ}
    (last : ∀ numbers : ℕ → ℕ, ∀ m, numbers m = runs →
      (numbered call.session numbers).batchStores tokens (order tokens call.n) m todo =
        (status, [])) : Alone call before status (call.out memory) := by
  obtain ⟨fits, ⟨encoded, tokenized, htokens⟩, ran, done, formed, answered, stored, shows⟩ :=
    running
  let numbers : ℕ → ℕ := fun k => (ran[k]?.map Ran.number).getD runs
  have known : ∀ k x, ran[k]? = some x → numbers (0 + k) = x.number := by
    intro k x hx
    change (ran[0 + k]?.map Ran.number).getD runs = x.number
    rw [Nat.zero_add, hx]
    rfl
  have beyond : numbers (0 + ran.length) = runs := by
    change (ran[0 + ran.length]?.map Ran.number).getD runs = runs
    rw [Nat.zero_add, List.getElem?_eq_none (Nat.le_refl _)]
    rfl
  have trace := batchStores_ran todo 0 answered known
  rw [last numbers _ beyond, stored, List.append_nil, List.append_nil, ← formed] at trace
  have stores : (numbered call.session numbers).encodeStores (some call.texts) call.n call.pre
      call.outCapacity = (status, done) := by
    rw [encodeStores_tokenized fits tokenized, ← htokens]
    exact trace
  refine ⟨numbers, replay done before, ?_, shows⟩
  rw [OrtSession.replay_encodeStores, stores]

theorem alone_unwritten {status : Status} (numbers : ℕ → ℕ) (memory : Buffer α)
    (h : (numbered call.session numbers).encodeStores (some call.texts) call.n call.pre
      call.outCapacity = (status, [])) :
    Alone call (call.out memory) status (call.out memory) := by
  refine ⟨numbers, call.out memory, ?_, fun _ _ => rfl⟩
  rw [OrtSession.replay_encodeStores, h]
  rfl

theorem begin_sound (small : call.n * call.session.entry.info.dimension < UInt64.size) :
    Sound memory ⟨call, call.out memory, begin call memory⟩ := by
  unfold begin
  dsimp only
  split
  · rename_i short
    refine alone_unwritten id memory ?_
    unfold OrtSession.encodeStores
    rw [numbered_entry]
    dsimp only
    rw [if_neg fun null => Bool.false_ne_true null.2, if_pos short]
  · rename_i enough
    rw [Nat.mod_eq_of_lt small, not_lt] at enough
    cases tokenized : (List.range call.n).mapM fun i =>
        call.session.tokenizer.encode (call.texts i) call.pre with
    | error status => exact alone_unwritten id memory (encodeStores_refused id enough tokenized)
    | ok encoded => exact ⟨enough, ⟨encoded, tokenized, rfl⟩, [], [], rfl,
        fun _ h => absurd h List.not_mem_nil, rfl, fun _ _ => rfl⟩

theorem Inv.put (inv : Inv s) (h : s.jobs i = some job)
    (progress : job.phase.isRunning = true)
    (jobs : s'.jobs = Function.update s.jobs i (some job')) (call : job'.call = job.call)
    (others : ∀ k, ¬ job.call.Owns k → s'.memory k = s.memory k)
    (sound : Sound s'.memory job') :
    Inv s' where
  sound := fun j other hother => by
    rw [jobs] at hother
    by_cases same : j = i
    · rw [same, Function.update_self] at hother
      exact Option.some.inj hother ▸ sound
    · rw [Function.update_of_ne same] at hother
      refine (inv.sound j other hother).elsewhere fun running k owned => others k fun mine => ?_
      exact inv.apart i j job other (Ne.symm same) h hother progress running k mine owned
  apart := fun j l left right hne hleft hright runningLeft runningRight => by
    rw [jobs] at hleft hright
    by_cases first : j = i
    · rw [first, Function.update_self] at hleft
      rw [Function.update_of_ne fun same => hne (first.trans same.symm)] at hright
      obtain rfl := Option.some.inj hleft
      rw [call]
      exact inv.apart i l job right (first ▸ hne) h hright progress runningRight
    · rw [Function.update_of_ne first] at hleft
      by_cases second : l = i
      · rw [second, Function.update_self] at hright
        obtain rfl := Option.some.inj hright
        rw [call]
        exact inv.apart j i left job first hleft h runningLeft progress
      · rw [Function.update_of_ne second] at hright
        exact inv.apart j l left right hne hleft hright runningLeft runningRight

theorem Running.ran {b : Batch} {runs : ℕ} {hidden : Buffer α}
    (running : Running memory call before tokens [] (b :: todo))
    (hrun : call.session.run runs (call.session.feedOf tokens (order tokens call.n) b) =
      .ok hidden) :
    Running memory call before tokens (storesOf call.session tokens call.n b hidden) todo := by
  obtain ⟨fits, encoded, ran, done, formed, answered, stored, shows⟩ := running
  refine ⟨fits, encoded, ran ++ [⟨runs, b, hidden⟩], done, ?_, ?_, ?_, shows⟩
  · rw [formed, List.map_append, List.append_assoc]
    rfl
  · intro x hx
    rcases List.mem_append.mp hx with old | new
    · exact answered x old
    · rw [List.mem_singleton.mp new]
      exact hrun
  · rw [List.flatMap_append, stored, List.append_nil, List.flatMap_singleton]

theorem Running.store {x : Store α}
    (running : Running memory call before tokens (x :: stores) todo) :
    call.Owns (call.base + x.index) ∧
      Running (Function.update memory (call.base + x.index) x.value) call before tokens
        stores todo := by
  obtain ⟨fits, encoded, ran, done, formed, answered, stored, shows⟩ := running
  have mem : x ∈ ran.flatMap fun y => storesOf call.session tokens call.n y.batch y.hidden := by
    rw [stored]
    exact List.mem_append_right _ List.mem_cons_self
  obtain ⟨y, hy, hx⟩ := List.mem_flatMap.mp mem
  have inside : x.index < call.n * call.session.entry.info.dimension := by
    refine storesOf_inside ?_ hx
    rw [formed]
    exact List.mem_append_left _ (List.mem_map_of_mem hy)
  refine ⟨⟨Nat.le_add_right _ _, by omega⟩, fits, encoded, ran, done ++ [x], formed, answered, ?_,
    fun k hk => ?_⟩
  · rw [stored, List.append_assoc]
    rfl
  · rw [replay_append]
    change _ = Function.update (replay done before) x.index x.value k
    by_cases here : k = x.index
    · rw [here, Function.update_self, Function.update_self]
    · rw [Function.update_of_ne here, Function.update_of_ne (by omega)]
      exact shows k hk

inductive Moves (s : State ι α) : Action ι α → State ι α → Prop where
  | start {i : ℕ} {call : Call ι α} (free : s.jobs i = none) :
    Moves s (.start i call) (s.put i ⟨call, call.out s.memory, begin call s.memory⟩)
  | run {i : ℕ} {call : Call ι α} {before : Buffer α} {tokens : ℕ → List UInt32} {b : Batch}
    {todo : List Batch} (h : s.jobs i = some ⟨call, before, .running tokens [] (b :: todo)⟩) :
    Moves s (.run i) ({ s with runs := s.runs + 1 }.put i
      ⟨call, before, runNext s call tokens b todo⟩)
  | store {i : ℕ} {call : Call ι α} {before : Buffer α} {tokens : ℕ → List UInt32} {x : Store α}
    {stores : List (Store α)} {todo : List Batch}
    (h : s.jobs i = some ⟨call, before, .running tokens (x :: stores) todo⟩) :
    Moves s (.store i) ({ s with memory := Function.update s.memory (call.base + x.index) x.value
      }.put i ⟨call, before, .running tokens stores todo⟩)
  | finish {i : ℕ} {call : Call ι α} {before : Buffer α} {tokens : ℕ → List UInt32}
    (h : s.jobs i = some ⟨call, before, .running tokens [] []⟩) :
    Moves s (.finish i) (s.put i ⟨call, before, .returned {} (call.out s.memory)⟩)
  | write {k : ℕ} {x : α} :
    Moves s (.write k x) { s with memory := Function.update s.memory k x }

theorem step_moves {a : Action ι α} (h : step s a = some s') : Moves s a s' := by
  cases a with
  | start i call =>
    unfold step at h
    dsimp only at h
    split at h
    · cases h
    · rename_i free
      obtain rfl := Option.some.inj h
      exact .start free
  | run i =>
    unfold step at h
    dsimp only at h
    split at h
    · rename_i job
      obtain rfl := Option.some.inj h
      exact .run job
    · cases h
  | store i =>
    unfold step at h
    dsimp only at h
    split at h
    · rename_i job
      obtain rfl := Option.some.inj h
      exact .store job
    · cases h
  | finish i =>
    unfold step at h
    dsimp only at h
    split at h
    · rename_i job
      obtain rfl := Option.some.inj h
      exact .finish job
    · cases h
  | write k x =>
    obtain rfl := Option.some.inj h
    exact .write

omit [Arith α] in
theorem State.put_self (s : State ι α) (i : ℕ) (job : Job ι α) : (s.put i job).jobs i = some job :=
  Function.update_self ..

omit [Arith α] in
theorem State.put_other (s : State ι α) (job : Job ι α) (h : j ≠ i) :
    (s.put i job).jobs j = s.jobs j := Function.update_of_ne h ..

theorem inv_start (inv : Inv s)
    (small : call.n * call.session.entry.info.dimension < UInt64.size)
    (apart : ∀ busy, s.Busy busy → call.Apart busy) :
    Inv (s.put i ⟨call, call.out s.memory, begin call s.memory⟩) where
  sound := fun j job h => by
    by_cases same : j = i
    · rw [same, State.put_self] at h
      exact Option.some.inj h ▸ begin_sound small
    · rw [State.put_other s _ same] at h
      exact inv.sound j job h
  apart := fun j l left right hne hleft hright runningLeft runningRight => by
    by_cases first : j = i
    · rw [first, State.put_self] at hleft
      rw [State.put_other s _ fun same => hne (first.trans same.symm)] at hright
      obtain rfl := Option.some.inj hleft
      exact apart _ ⟨l, right, hright, runningRight, rfl⟩
    · rw [State.put_other s _ first] at hleft
      by_cases second : l = i
      · rw [second, State.put_self] at hright
        obtain rfl := Option.some.inj hright
        exact fun k mine theirs => apart _ ⟨j, left, hleft, runningLeft, rfl⟩ k theirs mine
      · rw [State.put_other s _ second] at hright
        exact inv.apart j l left right hne hleft hright runningLeft runningRight

theorem inv_step {a : Action ι α} (inv : Inv s) (permitted : Permitted s a)
    (h : step s a = some s') : Inv s' := by
  cases step_moves h with
  | start => exact inv_start inv permitted.1 permitted.2
  | @run i call before tokens b todo job =>
    have running : Running s.memory call before tokens [] (b :: todo) := inv.sound i _ job
    refine inv.put job rfl rfl rfl (fun _ _ => rfl) ?_
    unfold runNext
    cases hrun : call.session.run s.runs (call.session.feedOf tokens (order tokens call.n) b) with
    | error message =>
      refine running.ends fun numbers m (hm : numbers m = s.runs) => ?_
      unfold OrtSession.batchStores
      change (match call.session.run (numbers m)
        (call.session.feedOf tokens (order tokens call.n) b) with | .error _ => _ | .ok _ => _) = _
      rw [hm, hrun]
    | ok hidden => exact running.ran hrun
  | @store i call before tokens x stores todo job =>
    have running : Running s.memory call before tokens (x :: stores) todo :=
      inv.sound i _ job
    obtain ⟨owns, stored⟩ := running.store
    refine inv.put job rfl rfl rfl (fun k other => Function.update_of_ne (fun here => ?_) ..) stored
    rw [here] at other
    exact other owns
  | @finish i call before tokens job =>
    have running : Running s.memory call before tokens [] [] := inv.sound i _ job
    exact inv.put job rfl rfl rfl (fun _ _ => rfl) (running.ends fun _ _ (_ : _ = 0) => rfl)
  | @write k x =>
    refine ⟨fun i job h => (inv.sound i job h).elsewhere fun running j owned => ?_, inv.apart⟩
    refine Function.update_of_ne (fun here => ?_) ..
    exact permitted job.call ⟨i, job, h, running, rfl⟩ (here ▸ owned)

end

structure Initial (s : State ι α) : Prop where
  idle : ∀ i, s.jobs i = none

theorem Initial.inv {s : State ι α} (initial : Initial s) : Inv s where
  sound := fun i job h => by rw [initial.idle i] at h; cases h
  apart := fun i _ _ _ _ h => by rw [initial.idle i] at h; cases h

def Action.Of (i : ℕ) (a : Action ι α) : Prop := a = .run i ∨ a = .store i ∨ a = .finish i

section
variable {s : State ι α} {i : ℕ} {call : Call ι α} {before : Buffer α}
  {tokens : ℕ → List UInt32}

theorem stores_done {stores : List (Store α)} {todo : List Batch}
    (h : s.jobs i = some ⟨call, before, .running tokens stores todo⟩) :
    ∃ own s', (∀ a ∈ own, Action.Of i a) ∧ Run step s own s' ∧
      s'.jobs i = some ⟨call, before, .running tokens [] todo⟩ ∧
      ∀ j, j ≠ i → s'.jobs j = s.jobs j := by
  induction stores generalizing s with
  | nil => exact ⟨[], s, fun _ ha => absurd ha List.not_mem_nil, .refl s, h, fun _ _ => rfl⟩
  | cons x stores ih =>
    have next : step s (.store i) = some
        ({ s with memory := Function.update s.memory (call.base + x.index) x.value }.put i
          ⟨call, before, .running tokens stores todo⟩) := by
      rw [step, h]
    obtain ⟨own, s', mine, tail, job, others⟩ := ih (State.put_self _ i _)
    refine ⟨.store i :: own, s', ?_, .next next tail, job, fun j hj => ?_⟩
    · rintro a (_ | ⟨_, ha⟩)
      · exact .inr (.inl rfl)
      · exact mine a ha
    · rw [others j hj, State.put_other _ _ hj]

/-- A call under way needs no other to come to its end. -/
theorem comes_to_end {stores : List (Store α)} {todo : List Batch}
    (h : s.jobs i = some ⟨call, before, .running tokens stores todo⟩) :
    ∃ own s' status out, (∀ a ∈ own, Action.Of i a) ∧ Run step s own s' ∧
      s'.jobs i = some ⟨call, before, .returned status out⟩ ∧
      ∀ j, j ≠ i → s'.jobs j = s.jobs j := by
  induction todo generalizing s stores with
  | nil =>
    obtain ⟨own, u, mine, stored, job, others⟩ := stores_done h
    have last : step u (.finish i) = some
        (u.put i ⟨call, before, .returned {} (call.out u.memory)⟩) := by
      rw [step, job]
    refine ⟨own ++ [.finish i], _, {}, call.out u.memory, ?_, stored.trans (.next last (.refl _)),
      State.put_self u i _, fun j hj => ?_⟩
    · intro a ha
      rcases List.mem_append.mp ha with ha | ha
      · exact mine a ha
      · exact .inr (.inr (List.mem_singleton.mp ha))
    · rw [State.put_other _ _ hj, others j hj]
  | cons b todo ih =>
    obtain ⟨own, u, mine, stored, job, others⟩ := stores_done h
    have ran : step u (.run i) = some ({ u with runs := u.runs + 1 }.put i
        ⟨call, before, runNext u call tokens b todo⟩) := by
      rw [step, job]
    have prefixed (more : List (Action ι α)) (theirs : ∀ a ∈ more, Action.Of i a) :
        ∀ a ∈ own ++ .run i :: more, Action.Of i a := by
      intro a ha
      rcases List.mem_append.mp ha with ha | ha
      · exact mine a ha
      · rcases List.mem_cons.mp ha with rfl | ha
        · exact .inl rfl
        · exact theirs a ha
    cases answer : runNext u call tokens b todo with
    | returned status out =>
      refine ⟨own ++ [.run i], _, status, out, prefixed [] fun _ ha => absurd ha List.not_mem_nil,
        stored.trans (.next ran (.refl _)), ?_, fun j hj => ?_⟩
      · rw [State.put_self, answer]
      · rw [State.put_other _ _ hj]
        exact others j hj
    | running tokens' stores' todo' =>
      have going : tokens' = tokens ∧ todo' = todo := by
        unfold runNext at answer
        split at answer
        · cases answer
        · cases answer
          exact ⟨rfl, rfl⟩
      obtain ⟨rfl, rfl⟩ := going
      rw [answer] at ran
      obtain ⟨more, s', status, out, theirs, tail, returned, rest⟩ := ih (State.put_self _ i _)
      refine ⟨own ++ .run i :: more, s', status, out, prefixed more theirs,
        stored.trans (.next ran tail), returned, fun j hj => ?_⟩
      rw [rest j hj, State.put_other _ _ hj]
      exact others j hj

end

/-- However the calls interleave, each returns with the status and the floats that it would
    have alone, given the answers its own runs got, and a step of a call changes no float
    outside of the call's buffer. A call under way can always be brought to its end. -/
theorem calls_as_alone {s₀ : State ι α} {as : List (Action ι α)} (initial : Initial s₀)
    (permitted : AllSteps step Permitted s₀ as) :
    AllStates step (fun s =>
      (∀ i call before status out, s.jobs i = some ⟨call, before, .returned status out⟩ →
        Alone call before status out) ∧
      (∀ i s', step s (.store i) = some s' → ∃ job, s.jobs i = some job ∧
        ∀ k, ¬ job.call.Owns k → s'.memory k = s.memory k) ∧
      ∀ i call before tokens stores todo,
        s.jobs i = some ⟨call, before, .running tokens stores todo⟩ →
        ∃ own s' status out, (∀ a ∈ own, Action.Of i a) ∧ Run step s own s' ∧
          s'.jobs i = some ⟨call, before, .returned status out⟩) s₀ as := by
  have invariant : AllStates step Inv s₀ as :=
    permitted.allStates (fun s a u inv allowed h => inv_step inv allowed h) initial.inv
  refine invariant.mono fun s inv => ⟨fun i call before status out h => inv.sound i _ h, ?_, ?_⟩
  · intro i s' h
    cases step_moves h with
    | @store _ call before tokens x stores todo job =>
      have running : Running s.memory call before tokens (x :: stores) todo := inv.sound i _ job
      refine ⟨_, job, fun k other => Function.update_of_ne (fun here => ?_) ..⟩
      rw [here] at other
      exact other running.store.1
  · intro i call before tokens stores todo h
    obtain ⟨own, s', status, out, mine, run, returned, -⟩ := comes_to_end h
    exact ⟨own, s', status, out, mine, run, returned⟩

theorem going_on {s : State ι α} {as : List (Action ι α)} (own : ∀ a ∈ as, ∃ i, Action.Of i a) :
    AllSteps step Permitted s as := by
  induction as generalizing s with
  | nil => trivial
  | cons a as ih =>
    intro u _
    refine ⟨?_, ih fun b hb => own b (List.mem_cons_of_mem _ hb)⟩
    obtain ⟨i, rfl | rfl | rfl⟩ := own a List.mem_cons_self <;> trivial

end

noncomputable def idSession : OrtSession ModelId EReal :=
  { greetingSession with
    entry := kRegistry.getD 5 bgeSmallEnV15
    run := fun _ feed => .ok fun k => ((feed.inputIds (k / 1024) : ℕ) : EReal) }

/-- One text on each of two sessions, into buffers that lie side by side. -/
noncomputable def greetingCall : ℕ → Call ModelId EReal
  | 0 => ⟨greetingSession, greetings, 1, [], 0, 384⟩
  | _ => ⟨idSession, fun _ => greetings 1, 1, [], 384, 1024⟩

theorem greetingCall_begins (i : ℕ) : ∃ tokens b todo,
    begin (greetingCall i) (fun _ => 0) = .running tokens [] (b :: todo) := by
  have shape (call : Call ModelId EReal) (one : call.n = 1)
      (running : (begin call fun _ => 0).isRunning = true) : ∃ tokens b todo,
      begin call (fun _ => 0) = .running tokens [] (b :: todo) := by
    unfold begin at running ⊢
    dsimp only at running ⊢
    split at running
    · cases running
    · rename_i enough
      rw [if_neg enough]
      split at running
      · cases running
      · rw [formed, one, batches, dif_pos Nat.one_pos]
        exact ⟨_, _, _, rfl⟩
  cases i with
  | zero => exact shape _ rfl (by decide +kernel)
  | succ i =>
    exact shape _ rfl (by decide +kernel : (begin (greetingCall 1) _).isRunning = true)

theorem ends {s : State ModelId EReal} {i : ℕ} {call : Call ModelId EReal} {before : Buffer EReal}
    {phase : Phase EReal} (h : s.jobs i = some ⟨call, before, phase⟩) :
    ∃ own s' status out, (∀ a ∈ own, Action.Of i a) ∧ Run step s own s' ∧
      s'.jobs i = some ⟨call, before, .returned status out⟩ ∧
      ∀ j, j ≠ i → s'.jobs j = s.jobs j := by
  cases phase with
  | running => exact comes_to_end h
  | returned status out =>
    exact ⟨[], s, status, out, fun _ ha => absurd ha List.not_mem_nil, .refl s, h, fun _ _ => rfl⟩

/-- The first call runs its batch, then the second comes to its end, then the first. -/
theorem calls_as_alone_crossing : ∃ (s : State ModelId EReal)
    (as : List (Action ModelId EReal)) (status status' : Status) (out out' : Buffer EReal),
    Run step ⟨fun _ => 0, 0, fun _ => none⟩ (.start 0 (greetingCall 0) ::
      .start 1 (greetingCall 1) :: .run 0 :: as) s ∧
    s.jobs 0 = some ⟨greetingCall 0, fun _ => 0, .returned status out⟩ ∧
    s.jobs 1 = some ⟨greetingCall 1, fun _ => 0, .returned status' out'⟩ ∧
    Alone (greetingCall 0) (fun _ => 0) status out ∧
    Alone (greetingCall 1) (fun _ => 0) status' out' := by
  let idle : State ModelId EReal := ⟨fun _ => 0, 0, fun _ => none⟩
  let one := idle.put 0 ⟨greetingCall 0, fun _ => 0, begin (greetingCall 0) fun _ => 0⟩
  let two := one.put 1 ⟨greetingCall 1, fun _ => 0, begin (greetingCall 1) fun _ => 0⟩
  have first : step idle (.start 0 (greetingCall 0)) = some one := rfl
  have second : step one (.start 1 (greetingCall 1)) = some two := rfl
  obtain ⟨tokens, b, todo, begun⟩ := greetingCall_begins 0
  have ran : step two (.run 0) = some ({ two with runs := two.runs + 1 }.put 0 ⟨greetingCall 0,
      fun _ => 0, runNext two (greetingCall 0) tokens b todo⟩) := by
    have job : two.jobs 0 = some ⟨greetingCall 0, fun _ => 0, .running tokens [] (b :: todo)⟩ :=
      begun ▸ rfl
    rw [step, job]
  obtain ⟨own', u, status', out', theirs, run', returned', others⟩ :=
    ends (show State.jobs ({ two with runs := two.runs + 1 }.put 0 ⟨greetingCall 0, fun _ => 0,
      runNext two (greetingCall 0) tokens b todo⟩) 1 = some ⟨greetingCall 1, fun _ => 0,
        begin (greetingCall 1) fun _ => 0⟩ from rfl)
  have waiting : u.jobs 0 = some ⟨greetingCall 0, fun _ => 0,
      runNext two (greetingCall 0) tokens b todo⟩ := others 0 (by decide)
  obtain ⟨own, s, status, out, mine, run, returned, kept⟩ := ends waiting
  have whole := Run.next first (.next second (.next ran (run'.trans run)))
  have finished : s.jobs 1 = some ⟨greetingCall 1, fun _ => 0, .returned status' out'⟩ :=
    (kept 1 (by decide)).trans returned'
  have permitted : AllSteps step Permitted idle (.start 0 (greetingCall 0) ::
      .start 1 (greetingCall 1) :: .run 0 :: (own' ++ own)) := by
    intro u hu
    refine ⟨⟨by decide, ?_⟩, fun v hv => ⟨⟨by decide, ?_⟩, going_on ?_⟩⟩
    · rintro busy ⟨i, job, h, -⟩
      cases h
    · obtain rfl := Option.some.inj hu
      rintro busy ⟨i, job, h, -, rfl⟩
      have only : job.call = greetingCall 0 := by
        by_cases same : i = 0
        · rw [same] at h
          obtain rfl := Option.some.inj h
          rfl
        · rw [State.put_other _ _ same] at h
          cases h
      rw [only]
      intro k mine theirs
      have low : 384 ≤ k := mine.1
      have high : k < 0 + 384 := theirs.2
      omega
    · intro a ha
      rcases List.mem_cons.mp ha with rfl | ha
      · exact ⟨0, .inl rfl⟩
      · rcases List.mem_append.mp ha with ha | ha
        · exact ⟨1, theirs a ha⟩
        · exact ⟨0, mine a ha⟩
  have sound := (calls_as_alone ⟨fun _ => rfl⟩ permitted).last whole
  exact ⟨s, _, status, status', out, out', whole, returned, finished,
    sound.1 _ _ _ _ _ returned, sound.1 _ _ _ _ _ finished⟩

end CyborgdbEmbed.ConcurrentEncodes

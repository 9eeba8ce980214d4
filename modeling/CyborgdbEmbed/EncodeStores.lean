import CyborgdbEmbed.EncodeBatches
import CyborgdbEmbed.Stores

set_option autoImplicit false

namespace CyborgdbEmbed
open Fallible Utf8 Loops

namespace OrtSession
variable {ι α : Type} (session : OrtSession ι α)

def scatterStores (order : ℕ → ℕ) (start rows : ℕ) (pooled : Buffer α) : List (Store α) :=
  let dim := session.entry.info.dimension
  (List.range rows).flatMap fun r =>
    copyStores (order (start + r) * dim) dim fun d => pooled (r * dim + d)

theorem replay_scatterStores (order : ℕ → ℕ) (start rows : ℕ) (pooled out : Buffer α) :
    replay (session.scatterStores order start rows pooled) out =
      session.scatter order start rows pooled out := by
  unfold scatterStores scatter
  rw [replay_forRange]
  apply forRange_congr
  intro r b _
  rw [replay_copyStores]

variable [Arith α]

def batchStores (tokens : ℕ → List UInt32) (order : ℕ → ℕ) :
    ℕ → List Batch → Status × List (Store α)
  | _, [] => ({}, [])
  | batch, b :: bs =>
    let feed := session.feedOf tokens order b
    match session.run batch feed with
    | .error message => (⟨.inferenceFailed, message⟩, [])
    | .ok hidden =>
      let rest := batchStores tokens order (batch + 1) bs
      (rest.1, session.scatterStores order b.start b.rows (session.reduce hidden feed) ++ rest.2)

/-- The status of a call with a buffer to write to, and its stores. -/
def encodeStores (texts : Option (ℕ → Bytes)) (n : ℕ) (pre : Bytes) (outCapacity : ℕ) :
    Status × List (Store α) :=
  let need := n * session.entry.info.dimension % UInt64.size
  if n ≠ 0 ∧ texts.isNone then (⟨.invalidArgument, "texts and out must be non-null"⟩, [])
  else if outCapacity < need then
    (⟨.outputTooSmall, "need " ++ toString need ++ " floats, got " ++ toString outCapacity⟩, [])
  else
    match texts with
    | none => ({}, [])
    | some texts =>
      match (List.range n).mapM fun i => session.tokenizer.encode (texts i) pre with
      | .error status => (status, [])
      | .ok encoded =>
        let tokens := fun i => encoded.getD i []
        let order := fun p => (lengthOrder tokens n).getD p 0
        session.batchStores tokens order 0 (batches (fun p => (tokens (order p)).length) n 0)

theorem replay_batchStores (tokens : ℕ → List UInt32) (order : ℕ → ℕ) (bs : List Batch)
    (batch : ℕ) (out : Buffer α) :
    session.runBatches tokens order batch bs out =
      ((session.batchStores tokens order batch bs).1,
        replay (session.batchStores tokens order batch bs).2 out) := by
  induction bs generalizing batch out with
  | nil => rfl
  | cons b bs ih =>
    unfold runBatches batchStores
    dsimp only
    cases session.run batch (session.feedOf tokens order b) with
    | error message => rfl
    | ok hidden =>
      dsimp only
      rw [ih, replay_append, replay_scatterStores]

theorem replay_encodeStores (texts : Option (ℕ → Bytes)) (n : ℕ) (pre : Bytes)
    (out : Buffer α) (outCapacity : ℕ) :
    session.encode texts n pre (some out) outCapacity =
      ((session.encodeStores texts n pre outCapacity).1,
        some (replay (session.encodeStores texts n pre outCapacity).2 out)) := by
  unfold encode encodeStores
  simp only [Option.isNone_some, Bool.false_eq_true, or_false]
  split
  · rfl
  · split
    · rfl
    · cases texts with
      | none => rfl
      | some texts =>
        dsimp only
        cases (List.range n).mapM fun i => session.tokenizer.encode (texts i) pre with
        | error status => rfl
        | ok encoded =>
          dsimp only
          rw [encodeBatches_eq_runBatches, replay_batchStores]

/-- Each of these batches, the first of them number `batch`, ran, and its rows of `out`
    are the reduced rows of that run. -/
def Embedded (tokens : ℕ → List UInt32) (order : ℕ → ℕ) (out : Buffer α) : ℕ → List Batch → Prop
  | _, [] => True
  | batch, b :: bs =>
    (∃ hidden, session.run batch (session.feedOf tokens order b) = .ok hidden ∧
      ∀ r d, r < b.rows → d < session.entry.info.dimension →
        out (order (b.start + r) * session.entry.info.dimension + d) =
          session.embedRow hidden (session.feedOf tokens order b) r d) ∧
    Embedded tokens order out (batch + 1) bs

omit [Arith α] in
theorem scatterStores_indices (order : ℕ → ℕ) (start rows : ℕ) (pooled : Buffer α) :
    (session.scatterStores order start rows pooled).map Store.index =
      ((List.range rows).map fun r => order (start + r)).flatMap
        (rowIndices session.entry.info.dimension) := by
  simp only [scatterStores, List.map_flatMap, copyStores_indices, List.flatMap_map]

omit [Arith α] in
theorem mem_scatterStores {order : ℕ → ℕ} {start rows r d : ℕ} {pooled : Buffer α}
    (hr : r < rows) (hd : d < session.entry.info.dimension) :
    ⟨order (start + r) * session.entry.info.dimension + d,
      pooled (r * session.entry.info.dimension + d)⟩ ∈
      session.scatterStores order start rows pooled := by
  simp only [scatterStores, List.mem_flatMap, List.mem_range, copyStores, List.mem_map]
  exact ⟨r, hr, d, hd, rfl⟩

theorem batchStores_spec (tokens : ℕ → List UInt32) (order : ℕ → ℕ) (bs : List Batch)
    (batch : ℕ) :
    ∃ done rest, bs = done ++ rest ∧
      (session.batchStores tokens order batch bs).2.map Store.index =
        (done.flatMap fun b => (List.range b.rows).map fun r => order (b.start + r)).flatMap
          (rowIndices session.entry.info.dimension) ∧
      (∀ out : Buffer α, (∀ s ∈ (session.batchStores tokens order batch bs).2,
        out s.index = s.value) → session.Embedded tokens order out batch done) ∧
      ((rest = [] ∧ (session.batchStores tokens order batch bs).1 = {}) ∨
        ∃ b bs' message, rest = b :: bs' ∧
          session.run (batch + done.length) (session.feedOf tokens order b) = .error message ∧
          (session.batchStores tokens order batch bs).1 = ⟨.inferenceFailed, message⟩) := by
  induction bs generalizing batch with
  | nil => exact ⟨[], [], rfl, rfl, fun _ _ => trivial, .inl ⟨rfl, rfl⟩⟩
  | cons b bs ih =>
    unfold batchStores
    dsimp only
    cases hrun : session.run batch (session.feedOf tokens order b) with
    | error message =>
      exact ⟨[], b :: bs, rfl, rfl, fun _ _ => trivial, .inr ⟨b, bs, message, rfl, hrun, rfl⟩⟩
    | ok hidden =>
      obtain ⟨done, rest, hbs, hindices, hembedded, hstop⟩ := ih (batch + 1)
      refine ⟨b :: done, rest, by rw [hbs, List.cons_append], ?_, ?_, ?_⟩
      · dsimp only
        rw [List.map_append, hindices, scatterStores_indices, List.flatMap_cons,
          List.flatMap_append]
      · intro out stored
        refine ⟨⟨hidden, hrun, fun r d hr hd => ?_⟩, hembedded out fun s hs =>
          stored s (List.mem_append_right _ hs)⟩
        have value := stored _ (List.mem_append_left _ (session.mem_scatterStores hr hd))
        exact value.trans (reduce_row session hidden (session.feedOf tokens order b) hr hd)
      · apply hstop.imp_right
        intro ⟨b', bs', message, hrest, herror, hstatus⟩
        refine ⟨b', bs', message, hrest, ?_, hstatus⟩
        rw [List.length_cons, Nat.add_comm done.length, ← Nat.add_assoc]
        exact herror

theorem writtenRows_spec (tokens : ℕ → List UInt32) {n mid : ℕ} (le : mid ≤ n) :
    let rows := (List.range mid).map fun p => (lengthOrder tokens n).getD p 0
    rows.Nodup ∧ ∀ i ∈ rows, i < n := by
  intro rows
  constructor
  · apply List.nodup_range.map_on
    intro p hp q hq same
    rw [List.mem_range] at hp hq
    exact lengthOrder_inj tokens n (by omega) (by omega) same
  · intro i hi
    obtain ⟨p, hp, rfl⟩ := List.mem_map.mp hi
    have length := lengthOrder_length tokens n
    rw [List.mem_range] at hp
    rw [List.getD_eq_getElem _ _ (by omega)]
    exact List.mem_range.mp ((lengthOrder_perm tokens n).mem_iff.mp (List.getElem_mem _))

/-- The batches of `n` texts that ran, up to position `mid` of the order, and what stopped
    the loop there. -/
structure Stopped (tokens : ℕ → List UInt32) (n : ℕ) (status : Status) (stores : List (Store α))
    (done rest : List Batch) (mid : ℕ) : Prop where
  cuts : batches (fun p => (tokens ((lengthOrder tokens n).getD p 0)).length) n 0 = done ++ rest
  le : mid ≤ n
  tiles : Tiles mid 0 done
  indices : stores.map Store.index =
    ((List.range mid).map fun p => (lengthOrder tokens n).getD p 0).flatMap
      (rowIndices session.entry.info.dimension)
  embedded : ∀ out, (∀ s ∈ stores, out s.index = s.value) →
    session.Embedded tokens (fun p => (lengthOrder tokens n).getD p 0) out 0 done
  stop : (mid = n ∧ status = {}) ∨ ∃ b bs message, rest = b :: bs ∧ b.start = mid ∧
    session.run done.length (session.feedOf tokens (fun p => (lengthOrder tokens n).getD p 0) b) =
      .error message ∧ status = ⟨.inferenceFailed, message⟩

theorem batchStores_stopped (tokens : ℕ → List UInt32) (n : ℕ) :
    let order := fun p => (lengthOrder tokens n).getD p 0
    let trace := session.batchStores tokens order 0
      (batches (fun p => (tokens (order p)).length) n 0)
    ∃ done rest mid, session.Stopped tokens n trace.1 trace.2 done rest mid := by
  intro order trace
  obtain ⟨done, rest, cuts, indices, embedded, stop⟩ :=
    session.batchStores_spec tokens order (batches (fun p => (tokens (order p)).length) n 0) 0
  have tiles := batches_tiles (fun p => (tokens (order p)).length) (Nat.zero_le n)
  rw [cuts] at tiles
  obtain ⟨mid, hdone, hrest⟩ := tiles.split
  refine ⟨done, rest, mid, cuts, hrest.le, hdone, ?_, embedded, ?_⟩
  · rw [indices, hdone.positions order, Nat.sub_zero, ← List.range_eq_range']
  · rcases stop with ⟨hnil, status⟩ | ⟨b, bs, message, hcons, failed, status⟩
    · rw [hnil] at hrest
      exact .inl ⟨hrest, status⟩
    · rw [hcons] at hrest
      rw [Nat.zero_add] at failed
      exact .inr ⟨b, bs, message, hcons, hrest.1, failed, status⟩

section
variable {session} {tokens : ℕ → List UInt32} {n mid : ℕ} {status : Status}
  {stores : List (Store α)} {done rest : List Batch}

theorem Stopped.nodup (h : session.Stopped tokens n status stores done rest mid) :
    (stores.map Store.index).Nodup := by
  rw [h.indices]
  exact rows_nodup (writtenRows_spec tokens h.le).1 _

theorem Stopped.mem_indices (h : session.Stopped tokens n status stores done rest mid) {k : ℕ} :
    k ∈ stores.map Store.index ↔ ∃ p, p < mid ∧ ∃ d, d < session.entry.info.dimension ∧
      k = (lengthOrder tokens n).getD p 0 * session.entry.info.dimension + d := by
  rw [h.indices, mem_rows]
  simp only [List.mem_map, List.mem_range]
  constructor
  · rintro ⟨i, ⟨p, hp, rfl⟩, hk⟩
    exact ⟨p, hp, hk⟩
  · rintro ⟨p, hp, hk⟩
    exact ⟨_, ⟨p, hp, rfl⟩, hk⟩

theorem Stopped.bound (h : session.Stopped tokens n status stores done rest mid) {k : ℕ}
    (hk : k ∈ stores.map Store.index) : k < n * session.entry.info.dimension := by
  obtain ⟨p, hp, d, hd, rfl⟩ := h.mem_indices.mp hk
  have row := (writtenRows_spec tokens h.le).2 _ (List.mem_map.mpr ⟨p, List.mem_range.mpr hp, rfl⟩)
  have step : ((lengthOrder tokens n).getD p 0 + 1) * session.entry.info.dimension ≤
      n * session.entry.info.dimension := Nat.mul_le_mul_right _ row
  rw [Nat.add_mul] at step
  omega

theorem Stopped.all (h : session.Stopped tokens n status stores done rest n) {k : ℕ}
    (hk : k < n * session.entry.info.dimension) : (stores.map Store.index).count k = 1 := by
  apply List.count_eq_one_of_mem h.nodup
  rw [h.indices]
  refine (mem_all_rows fun i => ?_).mpr hk
  constructor
  · exact (writtenRows_spec tokens h.le).2 i
  · intro hi
    obtain ⟨p, hp, rfl⟩ := lengthOrder_surj tokens n hi
    exact List.mem_map.mpr ⟨p, List.mem_range.mpr hp, rfl⟩

end

/-- What a call that makes these stores and ends with this status does to the floats of
    `out`. -/
structure Effect (texts : Option (ℕ → Bytes)) (n : ℕ) (pre : Bytes) (out : Buffer α)
    (status : Status) (stores : List (Store α)) : Prop where
  others : ∀ k, k ∉ stores.map Store.index → replay stores out k = out k
  inside : ∀ k ∈ stores.map Store.index, k < n * session.entry.info.dimension
  once : (stores.map Store.index).Nodup
  refused : status.code = .invalidArgument ∨ status.code = .outputTooSmall ∨
    status.code = .tokenizerFailed → stores = []
  complete : status.code = .ok → ∀ k, k < n * session.entry.info.dimension →
    (stores.map Store.index).count k = 1
  stopped : status.code = .inferenceFailed → ∃ given encoded, texts = some given ∧
    ((List.range n).mapM fun i => session.tokenizer.encode (given i) pre) = .ok encoded ∧
    let tokens := fun i => encoded.getD i []
    let order := fun p => (lengthOrder tokens n).getD p 0
    ∃ done b rest,
      batches (fun p => (tokens (order p)).length) n 0 = done ++ b :: rest ∧
      Tiles b.start 0 done ∧
      session.run done.length (session.feedOf tokens order b) = .error status.message ∧
      session.Embedded tokens order (replay stores out) 0 done ∧
      ∀ k, k ∈ stores.map Store.index ↔ ∃ p, p < b.start ∧
        ∃ d, d < session.entry.info.dimension ∧
          k = order p * session.entry.info.dimension + d

section
variable {session} {texts : Option (ℕ → Bytes)} {n : ℕ} {pre : Bytes} {out : Buffer α}

theorem Effect.early {status : Status} (running : status.code ≠ .inferenceFailed)
    (empty : status.code = .ok → n = 0) : session.Effect texts n pre out status [] where
  others := fun _ _ => rfl
  inside := fun _ h => nomatch h
  once := List.nodup_nil
  refused := fun _ => rfl
  complete := by
    intro ok k hk
    rw [empty ok, Nat.zero_mul] at hk
    cases hk
  stopped := fun failed => absurd failed running

theorem Stopped.effect {given : ℕ → Bytes} {encoded : List (List UInt32)} {status : Status}
    {stores : List (Store α)} {done rest : List Batch} {mid : ℕ}
    (tokenised : ((List.range n).mapM fun i => session.tokenizer.encode (given i) pre) =
      .ok encoded)
    (h : session.Stopped (fun i => encoded.getD i []) n status stores done rest mid) :
    session.Effect (some given) n pre out status stores where
  others := fun _ hk => replay_other hk out
  inside := fun _ => h.bound
  once := h.nodup
  refused := by
    intro refused
    rcases h.stop with ⟨_, rfl⟩ | ⟨b, bs, message, _, _, _, rfl⟩
    · exact absurd refused (by decide)
    · exact absurd refused (by simp)
  complete := by
    intro ok k hk
    rcases h.stop with ⟨rfl, _⟩ | ⟨b, bs, message, _, _, _, rfl⟩
    · exact h.all hk
    · cases ok
  stopped := by
    intro failed
    rcases h.stop with ⟨_, rfl⟩ | ⟨b, bs, message, rfl, rfl, hrun, rfl⟩
    · cases failed
    · exact ⟨given, encoded, rfl, tokenised, done, b, bs, h.cuts, h.tiles, hrun,
        h.embedded _ fun s hs => replay_stored h.nodup hs out, fun _ => h.mem_indices⟩

end

theorem encode_effect (texts : Option (ℕ → Bytes)) (n : ℕ) (pre : Bytes) (out : Buffer α)
    (outCapacity : ℕ) :
    ∃ status stores, session.encodeStores texts n pre outCapacity = (status, stores) ∧
      session.encode texts n pre (some out) outCapacity = (status, some (replay stores out)) ∧
      session.Effect texts n pre out status stores := by
  refine ⟨(session.encodeStores texts n pre outCapacity).1,
    (session.encodeStores texts n pre outCapacity).2, rfl,
    session.replay_encodeStores texts n pre out outCapacity, ?_⟩
  unfold encodeStores
  dsimp only
  split
  · exact .early nofun nofun
  · rename_i present
    split
    · exact .early nofun nofun
    · cases texts with
      | none => exact .early nofun fun _ => by simpa using present
      | some given =>
        dsimp only
        cases htokens : (List.range n).mapM fun i => session.tokenizer.encode (given i) pre with
        | error status =>
          obtain ⟨i, _, hi⟩ := mapM_error htokens
          rw [Tokenizer.encode_error hi]
          exact .early nofun nofun
        | ok encoded =>
          obtain ⟨done, rest, mid, h⟩ := session.batchStores_stopped (fun i => encoded.getD i []) n
          exact h.effect htokens

end OrtSession
end CyborgdbEmbed

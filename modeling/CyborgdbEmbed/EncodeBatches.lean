import CyborgdbEmbed.EncodeRows

set_option autoImplicit false

namespace CyborgdbEmbed
open Utf8 Loops

namespace OrtSession
variable {ι α : Type} (session : OrtSession ι α)

def feedOf (tokens : ℕ → List UInt32) (order : ℕ → ℕ) (b : Batch) : Feed :=
  session.feed (fun r => tokens (order (b.start + r))) b.rows b.width

variable [Arith α]

def runBatches (tokens : ℕ → List UInt32) (order : ℕ → ℕ) :
    ℕ → List Batch → Buffer α → Status × Buffer α
  | _, [], out => ({}, out)
  | batch, b :: bs, out =>
    let feed := session.feedOf tokens order b
    match session.run batch feed with
    | .error message => (⟨.inferenceFailed, message⟩, out)
    | .ok hidden => runBatches tokens order (batch + 1) bs
        (session.scatter order b.start b.rows (session.reduce hidden feed) out)

theorem encodeBatches_eq_runBatches (tokens : ℕ → List UInt32) (order : ℕ → ℕ)
    (n start batch : ℕ) (out : Buffer α) :
    session.encodeBatches tokens order n start batch out =
      session.runBatches tokens order batch
        (batches (fun p => (tokens (order p)).length) n start) out := by
  induction hm : n - start using Nat.strong_induction_on generalizing start batch out with
  | _ m ih =>
  by_cases h : start < n
  · have pos := formBatch_pos (fun p => (tokens (order p)).length) h
    rw [batches_of_lt _ h]
    change _ = match session.run batch (session.batchFeed tokens order n start) with
      | .error message => _
      | .ok hidden => _
    cases hrun : session.run batch (session.batchFeed tokens order n start) with
    | error message => exact encodeBatches_error h hrun
    | ok hidden =>
      rw [encodeBatches_next h hrun]
      exact ih (n - (start + (session.batchFeed tokens order n start).rows))
        (by change n - (start + (formBatch _ n start).1) < m; omega) _ _ _ rfl
  · rw [encodeBatches_stop h, batches_of_le _ (by omega)]
    rfl

omit [Arith α] in
theorem lengthOrder_length (tokens : ℕ → List UInt32) (n : ℕ) :
    (lengthOrder tokens n).length = n := by
  rw [(lengthOrder_perm tokens n).length_eq, List.length_range]

omit [Arith α] in
theorem lengthOrder_sorted (tokens : ℕ → List UInt32) (n : ℕ) :
    (lengthOrder tokens n).Pairwise fun a b => (tokens a).length ≤ (tokens b).length :=
  haveI : Std.Total fun a b => (tokens a).length ≤ (tokens b).length :=
    ⟨fun _ _ => Nat.le_total _ _⟩
  haveI : IsTrans ℕ fun a b => (tokens a).length ≤ (tokens b).length :=
    ⟨fun _ _ _ => Nat.le_trans⟩
  List.pairwise_insertionSort _ _

def lengthAt (tokens : ℕ → List UInt32) (n p : ℕ) : ℕ :=
  (tokens ((lengthOrder tokens n).getD p 0)).length

def cuts (tokens : ℕ → List UInt32) (n : ℕ) : List Batch := batches (lengthAt tokens n) n 0

structure Cut (tokens : ℕ → List UInt32) (n : ℕ) (b : Batch) : Prop where
  rows : b.rows ≤ kMaxBatchRows
  width : b.width = max 1 (longest (lengthAt tokens n) b.start b.rows)
  several : 1 < b.rows → b.rows * b.width ≤ kMaxBatchTokens
  short : (∀ i, i < n → (tokens i).length ≤ kMaxBatchTokens) →
    b.rows * b.width ≤ kMaxBatchTokens
  maximal : b.start + b.rows = n ∨ b.rows = kMaxBatchRows ∨
    kMaxBatchTokens < (b.rows + 1) * max b.width (lengthAt tokens n (b.start + b.rows))

/-- The loop of `encode` runs through `cuts`, which partition the texts. -/
structure Partition (session : OrtSession ι α) (tokens : ℕ → List UInt32) (n : ℕ) : Prop where
  runs : ∀ out, session.encodeBatches tokens (fun p => (lengthOrder tokens n).getD p 0) n 0 0 out =
    session.runBatches tokens (fun p => (lengthOrder tokens n).getD p 0) 0 (cuts tokens n) out
  permutes : (lengthOrder tokens n).Perm (List.range n)
  sorted : (lengthOrder tokens n).Pairwise fun a b => (tokens a).length ≤ (tokens b).length
  tiles : Tiles n 0 (cuts tokens n)
  covers : ((cuts tokens n).map (·.members (lengthOrder tokens n))).flatten = lengthOrder tokens n
  disjoint : ((cuts tokens n).map (·.members (lengthOrder tokens n))).Pairwise List.Disjoint
  each : ∀ b ∈ cuts tokens n, Cut tokens n b

omit [Arith α] in
theorem cuts_cut (tokens : ℕ → List UInt32) (n : ℕ) : ∀ b ∈ cuts tokens n, Cut tokens n b := by
  intro b hb
  obtain ⟨inside, shape⟩ := mem_batches hb
  have formed : Formed (lengthAt tokens n) n b.start b.rows b.width := by
    rw [shape]
    exact formBatch_formed _ inside
  have limit : b.rows ≤ kMaxBatchRows := by
    rw [shape]
    exact (growBatch_le _ n b.start kMaxBatchRows 0 1).trans_eq (Nat.zero_add _)
  have pos : 0 < b.rows := by
    rw [shape]
    exact formBatch_pos _ inside
  refine ⟨limit, formed.wide, formed.budget, ?short, ?maximal⟩
  case short =>
    intro short
    by_cases many : 1 < b.rows
    · exact formed.budget many
    · have one : b.rows = 1 := by omega
      have member : (lengthOrder tokens n).getD (b.start + 0) 0 < n := by
        rw [List.getD_eq_getElem _ _ (by rw [lengthOrder_length]; omega)]
        exact List.mem_range.mp ((lengthOrder_perm tokens n).mem_iff.mp (List.getElem_mem _))
      have bound : lengthAt tokens n (b.start + 0) ≤ kMaxBatchTokens := short _ member
      have single : longest (lengthAt tokens n) b.start 1 = lengthAt tokens n (b.start + 0) := by
        simp [longest]
      rw [one, Nat.one_mul, formed.wide, one, single]
      exact max_le (by decide) bound
  case maximal =>
    have stop := growBatch_maximal (lengthAt tokens n) n b.start kMaxBatchRows 0 1
    rw [shape]
    rcases stop with finished | full | beyond
    · have := (formBatch_formed (lengthAt tokens n) inside).inside
      exact .inl (Nat.le_antisymm this finished)
    · exact .inr (.inl (full.trans (Nat.zero_add _)))
    · exact .inr (.inr beyond)

omit [Arith α] in
theorem cuts_flatten (tokens : ℕ → List UInt32) (n : ℕ) :
    ((cuts tokens n).map (·.members (lengthOrder tokens n))).flatten = lengthOrder tokens n := by
  have tiles : Tiles (lengthOrder tokens n).length 0 (cuts tokens n) := by
    rw [lengthOrder_length]
    exact batches_tiles _ (Nat.zero_le n)
  exact tiles.flatten

theorem batches_partition (tokens : ℕ → List UInt32) (n : ℕ) :
    session.Partition tokens n where
  runs := fun out => session.encodeBatches_eq_runBatches tokens _ n 0 0 out
  permutes := lengthOrder_perm tokens n
  sorted := lengthOrder_sorted tokens n
  tiles := batches_tiles _ (Nat.zero_le n)
  covers := cuts_flatten tokens n
  disjoint := by
    have nodup : (lengthOrder tokens n).Nodup :=
      (lengthOrder_perm tokens n).nodup_iff.mpr List.nodup_range
    rw [← cuts_flatten, List.nodup_flatten] at nodup
    exact nodup.2
  each := cuts_cut tokens n

end OrtSession
end CyborgdbEmbed

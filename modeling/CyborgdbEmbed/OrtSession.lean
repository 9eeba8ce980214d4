import CyborgdbEmbed.Pooling
import CyborgdbEmbed.Tokenizer
import Mathlib.Data.List.Sort

set_option autoImplicit false

namespace CyborgdbEmbed
open Utf8 Loops

def kMaxBatchTokens : ℕ := 8192
def kMaxBatchRows : ℕ := 64

/-- The input tensors of one `Run`, `rows` by `width`. -/
structure Feed where
  rows : ℕ
  width : ℕ
  inputIds : Buffer ℕ
  attentionMask : Buffer ℕ
  tokenTypeIds : Option (Buffer ℕ)

/-- `run` is `session_.Run`: the hidden states, or the message of an `Ort::Exception`. It
    is told the number of the batch, since it need not answer twice in the same way. -/
structure OrtSession (ι α : Type) where
  entry : RegistryEntry ι
  tokenizer : Tokenizer
  needsTokenTypeIds : Bool
  run : ℕ → Feed → Except String (Buffer α)

/-- The inner loop: rows are added while they are left, the batch is not full and the
    token budget holds. `room` counts down from `kMaxBatchRows`. -/
def growBatch (len : ℕ → ℕ) (n start : ℕ) : (room rows width : ℕ) → ℕ × ℕ
  | 0, rows, width => (rows, width)
  | room + 1, rows, width =>
    if start + rows < n then
      let candidate := max width (len (start + rows))
      if 0 < rows ∧ kMaxBatchTokens < (rows + 1) * candidate then (rows, width)
      else growBatch len n start room (rows + 1) candidate
    else (rows, width)

def formBatch (len : ℕ → ℕ) (n start : ℕ) : ℕ × ℕ := growBatch len n start kMaxBatchRows 0 1

theorem growBatch_rows (len : ℕ → ℕ) (n start room rows width : ℕ) :
    rows ≤ (growBatch len n start room rows width).1 := by
  induction room generalizing rows width with
  | zero => exact Nat.le_refl _
  | succ room ih =>
    unfold growBatch
    split
    · dsimp only
      split
      · exact Nat.le_refl _
      · exact Nat.le_trans (Nat.le_succ _) (ih ..)
    · exact Nat.le_refl _

theorem formBatch_pos (len : ℕ → ℕ) {n start : ℕ} (h : start < n) :
    0 < (formBatch len n start).1 := by
  unfold formBatch kMaxBatchRows growBatch
  rw [if_pos (by omega), if_neg (by omega)]
  exact growBatch_rows ..

namespace OrtSession
variable {ι α : Type} [Arith α] (session : OrtSession ι α)

omit [Arith α] in
def feed (encoded : ℕ → List UInt32) (rows width : ℕ) : Feed where
  rows := rows
  width := width
  inputIds := forRange rows (fun r ids => copy ids (r * width) (encoded r).length fun t =>
    ((encoded r).getD t 0).toNat) fun _ => 0
  attentionMask := forRange rows (fun r mask => copy mask (r * width) (encoded r).length fun _ =>
    1) fun _ => 0
  tokenTypeIds := if session.needsTokenTypeIds then some fun _ => 0 else none

def reduce (hidden : Buffer α) (feed : Feed) : Buffer α :=
  let dim := session.entry.info.dimension
  let pooled := pool hidden feed.attentionMask feed.rows feed.width dim session.entry.pooling
    fun _ => Arith.zero
  if session.entry.info.normalize then l2Normalize pooled feed.rows dim else pooled

omit [Arith α] in
def batchFeed (tokens : ℕ → List UInt32) (order : ℕ → ℕ) (n start : ℕ) : Feed :=
  let shape := formBatch (fun p => (tokens (order p)).length) n start
  session.feed (fun r => tokens (order (start + r))) shape.1 shape.2

omit [Arith α] in
def scatter (order : ℕ → ℕ) (start rows : ℕ) (pooled out : Buffer α) : Buffer α :=
  let dim := session.entry.info.dimension
  forRange rows (fun r out => copy out (order (start + r) * dim) dim fun d => pooled (r * dim + d))
    out

/-- The loop over batches, from position `start` of the sorted order on. -/
def encodeBatches (tokens : ℕ → List UInt32) (order : ℕ → ℕ) (n start batch : ℕ)
    (out : Buffer α) : Status × Buffer α :=
  if _h : start < n then
    let feed := session.batchFeed tokens order n start
    match session.run batch feed with
    | .error message => (⟨.inferenceFailed, message⟩, out)
    | .ok hidden =>
      encodeBatches tokens order n (start + feed.rows) (batch + 1)
        (session.scatter order start feed.rows (session.reduce hidden feed) out)
  else ({}, out)
termination_by n - start
decreasing_by
  have advance : 0 < (session.batchFeed tokens order n start).rows :=
    formBatch_pos (fun p => (tokens (order p)).length) _h
  omega

omit [Arith α] in
/-- `std::stable_sort` of the positions by the number of tokens. -/
def lengthOrder (tokens : ℕ → List UInt32) (n : ℕ) : List ℕ :=
  (List.range n).insertionSort fun a b => (tokens a).length ≤ (tokens b).length

/-- The status, and what `out` points to after the call. A null pointer is `none`. -/
def encode (texts : Option (ℕ → Bytes)) (n : ℕ) (pre : Bytes) (out : Option (Buffer α))
    (outCapacity : ℕ) : Status × Option (Buffer α) :=
  -- the product wraps in `std::size_t`
  let need := n * session.entry.info.dimension % UInt64.size
  if n ≠ 0 ∧ (texts.isNone ∨ out.isNone) then
    (⟨.invalidArgument, "texts and out must be non-null"⟩, out)
  else if outCapacity < need then
    (⟨.outputTooSmall, "need " ++ toString need ++ " floats, got " ++ toString outCapacity⟩, out)
  else
    match texts, out with
    | some texts, some out =>
      match (List.range n).mapM fun i => session.tokenizer.encode (texts i) pre with
      | .error status => (status, some out)
      | .ok encoded =>
        let tokens := fun i => encoded.getD i []
        let order := lengthOrder tokens n
        let result := session.encodeBatches tokens (fun p => order.getD p 0) n 0 0 out
        (result.1, some result.2)
    -- without texts there is nothing to do
    | _, out => ({}, out)

end OrtSession
end CyborgdbEmbed

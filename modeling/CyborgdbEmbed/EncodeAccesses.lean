import CyborgdbEmbed.EncodeBatches
import CyborgdbEmbed.Stores
import Mathlib.Data.List.GetD

set_option autoImplicit false

/-!
# Where a call of `encode` reads and writes

The positions are computed in `std::size_t`, which wraps. Each is listed with the buffer it
is for and the number of elements that buffer has.
-/
namespace CyborgdbEmbed.EncodeAccesses
open OrtSession

/-- What is left of a number in `std::size_t`. -/
def wrap (x : ℕ) : ℕ := x % UInt64.size

inductive Memory where
  | order | tokens | encoded | inputIds | mask | hidden | pooled | out
  deriving DecidableEq, Repr

structure Access where
  memory : Memory
  index : ℕ
  /-- the number of elements -/
  size : ℕ
  deriving DecidableEq, Repr

def Access.Inside (a : Access) : Prop := a.index < a.size

/-- `count` elements from `start` on. -/
def block (memory : Memory) (start count size : ℕ) : List Access :=
  (List.range count).map fun d => ⟨memory, wrap (start + d), size⟩

/-- The inner loop of `encode`, as `growBatch` is. -/
def growWrapped (len : ℕ → ℕ) (n start : ℕ) : (room rows width : ℕ) → ℕ × ℕ
  | 0, rows, width => (rows, width)
  | room + 1, rows, width =>
    if wrap (start + rows) < n then
      let candidate := max width (len (wrap (start + rows)))
      if 0 < rows ∧ kMaxBatchTokens < wrap (wrap (rows + 1) * candidate) then (rows, width)
      else growWrapped len n start room (wrap (rows + 1)) candidate
    else (rows, width)

section
variable (n : ℕ) (order : ℕ → ℕ)

/-- `order[p]`, and the tokens of the text it gives. -/
def lookUp (p : ℕ) : List Access := [⟨.order, p, n⟩, ⟨.tokens, order p, n⟩]

def growAccesses (len : ℕ → ℕ) (start : ℕ) : (room rows width : ℕ) → List Access
  | 0, _, _ => []
  | room + 1, rows, width =>
    if wrap (start + rows) < n then
      let candidate := max width (len (wrap (start + rows)))
      lookUp n order (wrap (start + rows)) ++
        if 0 < rows ∧ kMaxBatchTokens < wrap (wrap (rows + 1) * candidate) then []
        else growAccesses len start room (wrap (rows + 1)) candidate
    else []

end

section
variable (rows width dim : ℕ)

def feedAccesses (len : ℕ → ℕ) : List Access :=
  (List.range rows).flatMap fun r =>
    ⟨.encoded, r, rows⟩ :: block .inputIds (wrap (r * width)) (len r) (wrap (rows * width)) ++
      block .mask (wrap (r * width)) (len r) (wrap (rows * width))

/-- `dest[d]`, or a row in `l2_normalize`. -/
def pooledRow (r : ℕ) : List Access := block .pooled (wrap (r * dim)) dim (wrap (rows * dim))

/-- `row[t * dim + d]`. The tensor is taken to have as many elements as its shape says. -/
def hiddenRow (r t : ℕ) : List Access :=
  block .hidden (wrap (wrap (r * width) * dim) + wrap (t * dim)) dim (rows * width * dim)

/-- The positions of a row, and the states of those that its mask marks: the first `len`. -/
def tokenAccesses (len r : ℕ) : List Access :=
  (List.range width).flatMap fun t =>
    ⟨.mask, wrap (wrap (r * width) + t), wrap (rows * width)⟩ ::
      if t < len then pooledRow rows dim r ++ hiddenRow rows width dim r t else []

def poolAccesses (mode : Pooling) (len : ℕ → ℕ) : List Access :=
  (List.range rows).flatMap fun r =>
    match mode with
    | .clsToken => hiddenRow rows width dim r 0 ++ pooledRow rows dim r
    | .maxTokens => pooledRow rows dim r ++ tokenAccesses rows width dim (len r) r
    | .meanTokens => pooledRow rows dim r ++ tokenAccesses rows width dim (len r) r ++
        pooledRow rows dim r

def normalizeAccesses : List Access := (List.range rows).flatMap (pooledRow rows dim)

def scatterAccesses (n outCapacity : ℕ) (order : ℕ → ℕ) (start : ℕ) : List Access :=
  (List.range rows).flatMap fun r =>
    ⟨.order, wrap (start + r), n⟩ :: pooledRow rows dim r ++
      block .out (wrap (order (wrap (start + r)) * dim)) dim outCapacity

end

/-- The arguments of a call, and what the tokenizer makes of the texts. -/
structure EncodeCall where
  entry : RegistryEntry ModelId
  known : entry ∈ kRegistry
  nullTexts : Bool := false
  nullOut : Bool := false
  n : ℕ
  outCapacity : ℕ
  sizes : n < UInt64.size ∧ outCapacity < UInt64.size
  encoded : List (List UInt32)
  encoded_length : encoded.length = n
  short : ∀ ids ∈ encoded, ids.length ≤ entry.info.maxSeqLength

namespace EncodeCall
variable (c : EncodeCall)

def dim : ℕ := c.entry.info.dimension

def tokens (i : ℕ) : List UInt32 := c.encoded.getD i []

def order (p : ℕ) : ℕ := (lengthOrder c.tokens c.n).getD p 0

def len (p : ℕ) : ℕ := (c.tokens (c.order p)).length

def passes : Bool :=
  !(c.n != 0 && (c.nullTexts || c.nullOut)) && !decide (c.outCapacity < wrap (c.n * c.dim))

/-- One round of the outer loop. A batch that fails is not pooled. -/
def batchAccesses (answered : Bool) (start rows width : ℕ) : List Access :=
  let len := fun r => c.len (wrap (start + r))
  growAccesses c.n c.order c.len start kMaxBatchRows 0 1 ++
  (List.range rows).flatMap (fun r => lookUp c.n c.order (wrap (start + r))) ++
  feedAccesses rows width len ++
    if answered then
      poolAccesses rows width c.dim c.entry.pooling len ++
      (if c.entry.info.normalize then normalizeAccesses rows c.dim else []) ++
      scatterAccesses rows c.dim c.n c.outCapacity c.order start
    else []

/-- The outer loop, where `answers` says which of the runs succeed. No more than `rounds`
    rounds are made; each takes a text at least. -/
def loopAccesses (answers : ℕ → Bool) : (rounds start batch : ℕ) → List Access
  | 0, _, _ => []
  | rounds + 1, start, batch =>
    if start < c.n then
      let shape := growWrapped c.len c.n start kMaxBatchRows 0 1
      c.batchAccesses (answers batch) start shape.1 shape.2 ++
        if answers batch then
          loopAccesses answers rounds (wrap (start + shape.1)) (batch + 1)
        else []
    else []

def accesses (answers : ℕ → Bool) : List Access :=
  if c.passes then
    (List.range c.n).flatMap (fun i => [⟨.tokens, i, c.n⟩, ⟨.order, i, c.n⟩]) ++
      c.loopAccesses answers c.n 0 0
  else []

def PositionsInside : Prop := ∀ answers, ∀ a ∈ c.accesses answers, a.Inside

def GuardExact : Prop := c.passes = true → c.n * c.dim ≤ c.outCapacity

/-- The requirement does not wrap, or what is left of it still does not fit, or there is
    nothing to read or to write to. -/
def Fits : Prop :=
  c.n * c.dim < UInt64.size ∨ c.outCapacity < wrap (c.n * c.dim) ∨
    c.n ≠ 0 ∧ (c.nullTexts = true ∨ c.nullOut = true)

end EncodeCall
end CyborgdbEmbed.EncodeAccesses

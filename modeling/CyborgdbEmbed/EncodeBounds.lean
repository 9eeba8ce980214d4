import CyborgdbEmbed.EncodeAccesses
import Mathlib.Algebra.Group.Nat.Defs

set_option autoImplicit false

namespace CyborgdbEmbed.EncodeAccesses
open OrtSession Loops

theorem wrap_of_lt {x : ℕ} (h : x < UInt64.size) : wrap x = x := Nat.mod_eq_of_lt h

theorem size_eq : UInt64.size = 18446744073709551616 := rfl

theorem block_inside {memory : Memory} {start count size : ℕ} (fits : start + count ≤ size)
    (small : size ≤ UInt64.size) : ∀ a ∈ block memory start count size, a.Inside := by
  intro a ha
  obtain ⟨d, hd, rfl⟩ := List.mem_map.mp ha
  rw [List.mem_range] at hd
  have inside : start + d < size := by omega
  unfold Access.Inside
  dsimp only
  rwa [wrap_of_lt (by omega)]

structure Shape (rows width dim : ℕ) : Prop where
  rows_le : rows ≤ kMaxBatchRows
  width_le : width ≤ 512
  width_pos : 0 < width
  dim_le : dim ≤ 1024

section
variable {rows width dim r t : ℕ}

theorem row_le (hr : r < rows) (width : ℕ) : r * width + width ≤ rows * width := by
  have h : (r + 1) * width ≤ rows * width := Nat.mul_le_mul_right width hr
  rwa [Nat.add_mul, Nat.one_mul] at h

theorem Shape.tokens_le (shape : Shape rows width dim) : rows * width ≤ 32768 :=
  Nat.mul_le_mul shape.rows_le shape.width_le

theorem Shape.pooled_le (shape : Shape rows width dim) : rows * dim ≤ 65536 :=
  Nat.mul_le_mul shape.rows_le shape.dim_le

theorem Shape.hidden_le (shape : Shape rows width dim) : rows * width * dim ≤ 33554432 :=
  Nat.mul_le_mul shape.tokens_le shape.dim_le

theorem pooledRow_inside (shape : Shape rows width dim) (hr : r < rows) :
    ∀ a ∈ pooledRow rows dim r, a.Inside := by
  have all := shape.pooled_le
  have row := row_le hr dim
  unfold pooledRow
  rw [wrap_of_lt (by rw [size_eq]; omega), wrap_of_lt (by rw [size_eq]; omega)]
  exact block_inside row (by rw [size_eq]; omega)

theorem hiddenRow_inside (shape : Shape rows width dim) (hr : r < rows) (ht : t < width) :
    ∀ a ∈ hiddenRow rows width dim r t, a.Inside := by
  have tokens := shape.tokens_le
  have all := shape.hidden_le
  have row := row_le hr width
  have states : (r * width + t) * dim + dim ≤ rows * width * dim := row_le (by omega) dim
  rw [Nat.add_mul] at states
  unfold hiddenRow
  rw [wrap_of_lt (x := r * width) (by rw [size_eq]; omega),
    wrap_of_lt (x := r * width * dim) (by rw [size_eq]; omega),
    wrap_of_lt (by rw [size_eq]; omega)]
  exact block_inside states (by rw [size_eq]; omega)

theorem tokenAccesses_inside (shape : Shape rows width dim) (hr : r < rows) (len : ℕ) :
    ∀ a ∈ tokenAccesses rows width dim len r, a.Inside := by
  have tokens := shape.tokens_le
  have row := row_le hr width
  intro a ha
  obtain ⟨t, ht, ha⟩ := List.mem_flatMap.mp ha
  rw [List.mem_range] at ht
  rw [List.mem_cons] at ha
  cases ha with
  | inl mask =>
    rw [mask]
    unfold Access.Inside
    dsimp only
    rw [wrap_of_lt (x := r * width) (by rw [size_eq]; omega),
      wrap_of_lt (by rw [size_eq]; omega), wrap_of_lt (by rw [size_eq]; omega)]
    omega
  | inr states =>
    split at states
    · cases List.mem_append.mp states with
      | inl h => exact pooledRow_inside shape hr a h
      | inr h => exact hiddenRow_inside shape hr ht a h
    · cases states

theorem poolAccesses_inside (shape : Shape rows width dim) (mode : Pooling) (len : ℕ → ℕ) :
    ∀ a ∈ poolAccesses rows width dim mode len, a.Inside := by
  intro a ha
  obtain ⟨r, hr, ha⟩ := List.mem_flatMap.mp ha
  rw [List.mem_range] at hr
  have pooled := pooledRow_inside shape hr a
  have tokens := tokenAccesses_inside shape hr (len r) a
  have first := hiddenRow_inside shape hr shape.width_pos a
  cases mode with
  | clsToken => exact (List.mem_append.mp ha).elim first pooled
  | maxTokens => exact (List.mem_append.mp ha).elim pooled tokens
  | meanTokens =>
    exact (List.mem_append.mp ha).elim (fun h => (List.mem_append.mp h).elim pooled tokens) pooled

theorem normalizeAccesses_inside (shape : Shape rows width dim) :
    ∀ a ∈ normalizeAccesses rows dim, a.Inside := by
  intro a ha
  obtain ⟨r, hr, ha⟩ := List.mem_flatMap.mp ha
  exact pooledRow_inside shape (List.mem_range.mp hr) a ha

theorem feedAccesses_inside (shape : Shape rows width dim) {len : ℕ → ℕ}
    (covers : ∀ r, r < rows → len r ≤ width) : ∀ a ∈ feedAccesses rows width len, a.Inside := by
  have tokens := shape.tokens_le
  intro a ha
  obtain ⟨r, hr, ha⟩ := List.mem_flatMap.mp ha
  rw [List.mem_range] at hr
  have row := row_le hr width
  have ids := covers r hr
  rw [wrap_of_lt (by rw [size_eq]; omega), wrap_of_lt (by rw [size_eq]; omega), List.cons_append,
    List.mem_cons, List.mem_append] at ha
  rcases ha with rfl | ids | mask
  · exact hr
  · exact block_inside (by omega) (by rw [size_eq]; omega) a ids
  · exact block_inside (by omega) (by rw [size_eq]; omega) a mask

theorem scatterAccesses_inside (shape : Shape rows width dim) {n outCapacity start : ℕ}
    {order : ℕ → ℕ} (inside : start + rows ≤ n) (n_lt : n < UInt64.size)
    (capacity : outCapacity < UInt64.size) (room : n * dim ≤ outCapacity)
    (permutes : ∀ p, p < n → order p < n) :
    ∀ a ∈ scatterAccesses rows dim n outCapacity order start, a.Inside := by
  intro a ha
  obtain ⟨r, hr, ha⟩ := List.mem_flatMap.mp ha
  rw [List.mem_range] at hr
  have text := permutes (start + r) (by omega)
  have row := row_le text dim
  rw [wrap_of_lt (x := start + r) (by omega), wrap_of_lt (x := order (start + r) * dim) (by omega),
    List.cons_append, List.mem_cons, List.mem_append] at ha
  rcases ha with rfl | pooled | out
  · exact (by omega : start + r < n)
  · exact pooledRow_inside shape hr a pooled
  · exact block_inside (by omega) (Nat.le_of_lt capacity) a out

end

section
variable {len order : ℕ → ℕ} {n start : ℕ}

theorem lookUp_inside (permutes : ∀ p, p < n → order p < n) {p : ℕ} (hp : p < n) :
    ∀ a ∈ lookUp n order p, a.Inside := by
  intro a ha
  unfold lookUp at ha
  rw [List.mem_cons, List.mem_singleton] at ha
  rcases ha with rfl | rfl
  · exact hp
  · exact permutes p hp

/-- What a round of the inner loop computes does not wrap. -/
theorem budget_eq {rows room candidate : ℕ} (full : rows + (room + 1) ≤ kMaxBatchRows)
    (short : candidate ≤ 512) : wrap (wrap (rows + 1) * candidate) = (rows + 1) * candidate ∧
      wrap (rows + 1) = rows + 1 := by
  have rows_le : rows + 1 ≤ 64 := Nat.le_trans (by omega) full
  have product : (rows + 1) * candidate ≤ 32768 := Nat.mul_le_mul rows_le short
  have same : wrap (rows + 1) = rows + 1 := wrap_of_lt (by rw [size_eq]; omega)
  rw [same]
  exact ⟨wrap_of_lt (by rw [size_eq]; omega), rfl⟩

theorem growWrapped_eq (n_lt : n < UInt64.size) (short : ∀ p, len p ≤ 512) (room : ℕ)
    {rows width : ℕ} (inside : start + rows ≤ n) (full : rows + room ≤ kMaxBatchRows)
    (width_le : width ≤ 512) :
    growWrapped len n start room rows width = growBatch len n start room rows width := by
  induction room generalizing rows width with
  | zero => rfl
  | succ room ih =>
    have candidate : max width (len (start + rows)) ≤ 512 := max_le width_le (short _)
    obtain ⟨product, next⟩ := budget_eq full candidate
    unfold growWrapped growBatch
    dsimp only
    rw [wrap_of_lt (x := start + rows) (by omega), product, next]
    split
    · split
      · rfl
      · exact ih (by omega) (by omega) candidate
    · rfl

theorem growAccesses_inside (n_lt : n < UInt64.size) (short : ∀ p, len p ≤ 512)
    (permutes : ∀ p, p < n → order p < n) (room : ℕ) {rows width : ℕ} (inside : start + rows ≤ n)
    (full : rows + room ≤ kMaxBatchRows) (width_le : width ≤ 512) :
    ∀ a ∈ growAccesses n order len start room rows width, a.Inside := by
  induction room generalizing rows width with
  | zero => exact fun a ha => absurd ha List.not_mem_nil
  | succ room ih =>
    have candidate : max width (len (start + rows)) ≤ 512 := max_le width_le (short _)
    obtain ⟨product, next⟩ := budget_eq full candidate
    unfold growAccesses
    dsimp only
    rw [wrap_of_lt (x := start + rows) (by omega), product, next]
    intro a ha
    split at ha
    · rename_i left
      cases List.mem_append.mp ha with
      | inl h => exact lookUp_inside permutes left a h
      | inr h =>
        split at h
        · cases h
        · exact ih (by omega) (by omega) candidate a h
    · cases ha

end

namespace EncodeCall
variable (c : EncodeCall)

theorem limits : ∀ entry ∈ kRegistry,
    entry.info.maxSeqLength ≤ 512 ∧ entry.info.dimension ≤ 1024 := by
  decide

theorem len_le (p : ℕ) : c.len p ≤ 512 := by
  have limit := (limits c.entry c.known).1
  unfold len tokens
  by_cases h : c.order p < c.encoded.length
  · rw [List.getD_eq_getElem _ _ h]
    exact Nat.le_trans (c.short _ (List.getElem_mem h)) limit
  · rw [List.getD_eq_default _ _ (by omega)]
    exact Nat.zero_le _

theorem order_lt (p : ℕ) (hp : p < c.n) : c.order p < c.n := by
  have perm := lengthOrder_perm c.tokens c.n
  unfold order
  rw [List.getD_eq_getElem _ _ (by rw [lengthOrder_length]; exact hp)]
  exact List.mem_range.mp (perm.mem_iff.mp (List.getElem_mem _))

theorem growWrapped_formBatch {start : ℕ} (h : start ≤ c.n) :
    growWrapped c.len c.n start kMaxBatchRows 0 1 = formBatch c.len c.n start :=
  growWrapped_eq c.sizes.1 c.len_le kMaxBatchRows h (by omega) (by decide)

theorem longest_le {len : ℕ → ℕ} {bound : ℕ} (short : ∀ p, len p ≤ bound) (start rows : ℕ) :
    longest len start rows ≤ bound := by
  induction rows with
  | zero => exact Nat.zero_le _
  | succ rows ih => exact max_le ih (short _)

theorem formBatch_shape {start : ℕ} (h : start < c.n) :
    Shape (formBatch c.len c.n start).1 (formBatch c.len c.n start).2 c.dim := by
  have formed := formBatch_formed c.len h
  have longest := longest_le c.len_le start (formBatch c.len c.n start).1
  have wide := formed.wide
  refine ⟨?_, by omega, by omega, (limits c.entry c.known).2⟩
  exact (growBatch_le c.len c.n start kMaxBatchRows 0 1).trans_eq (Nat.zero_add _)

theorem batchAccesses_inside (room : c.n * c.dim ≤ c.outCapacity) {start : ℕ} (h : start < c.n)
    (answered : Bool) : ∀ a ∈ c.batchAccesses answered start (formBatch c.len c.n start).1
      (formBatch c.len c.n start).2, a.Inside := by
  have shape := c.formBatch_shape h
  have formed := formBatch_formed c.len h
  have n_lt := c.sizes.1
  generalize (formBatch c.len c.n start).1 = rows at shape formed
  generalize (formBatch c.len c.n start).2 = width at shape formed
  have inside := formed.inside
  have position (r : ℕ) (hr : r < rows) : wrap (start + r) = start + r := wrap_of_lt (by omega)
  have covers (r : ℕ) (hr : r < rows) : c.len (wrap (start + r)) ≤ width := by
    rw [position r hr]
    exact formed.covers hr
  intro a ha
  unfold batchAccesses at ha
  simp only [List.mem_append] at ha
  rcases ha with ((grown | texts) | fed) | rest
  · exact growAccesses_inside n_lt c.len_le c.order_lt kMaxBatchRows (Nat.le_of_lt h)
      (by omega) (by decide) a grown
  · obtain ⟨r, hr, ha⟩ := List.mem_flatMap.mp texts
    rw [List.mem_range] at hr
    rw [position r hr] at ha
    exact lookUp_inside c.order_lt (by omega) a ha
  · exact feedAccesses_inside shape covers a fed
  · split at rest
    · simp only [List.mem_append] at rest
      rcases rest with (pooled | normalized) | scattered
      · exact poolAccesses_inside shape _ _ a pooled
      · split at normalized
        · exact normalizeAccesses_inside shape a normalized
        · cases normalized
      · exact scatterAccesses_inside shape inside n_lt c.sizes.2 room c.order_lt a scattered
    · cases rest

theorem loopAccesses_inside (room : c.n * c.dim ≤ c.outCapacity) (answers : ℕ → Bool)
    (rounds : ℕ) {start : ℕ} (batch : ℕ) (h : start ≤ c.n) :
    ∀ a ∈ c.loopAccesses answers rounds start batch, a.Inside := by
  induction rounds generalizing start batch with
  | zero => exact fun a ha => absurd ha List.not_mem_nil
  | succ rounds ih =>
    unfold loopAccesses
    split
    · rename_i left
      have inside := (formBatch_formed c.len left).inside
      dsimp only
      rw [c.growWrapped_formBatch h, wrap_of_lt (Nat.lt_of_le_of_lt inside c.sizes.1)]
      intro a ha
      cases List.mem_append.mp ha with
      | inl here => exact c.batchAccesses_inside room left _ a here
      | inr later =>
        split at later
        · exact ih (batch + 1) inside a later
        · cases later
    · exact fun a ha => absurd ha List.not_mem_nil

theorem out_mem {p d : ℕ} (hd : d < c.dim) (hp : p < c.n) (rounds : ℕ) {start : ℕ} (batch : ℕ)
    (enough : c.n ≤ start + rounds) (reached : start ≤ p) :
    ⟨.out, wrap (wrap (c.order p * c.dim) + d), c.outCapacity⟩ ∈
      c.loopAccesses (fun _ => true) rounds start batch := by
  induction rounds generalizing start batch with
  | zero => omega
  | succ rounds ih =>
    have left : start < c.n := by omega
    have inside := (formBatch_formed c.len left).inside
    have pos := formBatch_pos c.len left
    have n_lt := c.sizes.1
    unfold loopAccesses
    rw [if_pos left]
    dsimp only
    rw [c.growWrapped_formBatch (by omega), wrap_of_lt (Nat.lt_of_le_of_lt inside n_lt), if_pos rfl,
      List.mem_append]
    by_cases here : p < start + (formBatch c.len c.n start).1
    · left
      obtain ⟨r, rfl⟩ := Nat.exists_eq_add_of_le reached
      unfold batchAccesses
      dsimp only
      rw [if_pos rfl]
      refine List.mem_append_right _ (List.mem_append_right _ (List.mem_flatMap.mpr ⟨r, ?_, ?_⟩))
      · exact List.mem_range.mpr (by omega)
      · rw [wrap_of_lt (x := start + r) (by omega)]
        exact List.mem_append_right _ (List.mem_map.mpr ⟨d, List.mem_range.mpr hd, rfl⟩)
    · right
      exact ih (batch + 1) (by omega) (by omega)

variable {c}

theorem passes_iff : c.passes = true ↔
    ¬ (c.n ≠ 0 ∧ (c.nullTexts = true ∨ c.nullOut = true)) ∧
      ¬ c.outCapacity < wrap (c.n * c.dim) := by
  by_cases none : c.n = 0 <;> simp [passes, none]

theorem Fits.room (fits : c.Fits) (passes : c.passes = true) : c.n * c.dim ≤ c.outCapacity := by
  obtain ⟨given, enough⟩ := passes_iff.mp passes
  rcases fits with whole | rejected | null
  · rw [wrap_of_lt whole] at enough
    omega
  · exact absurd rejected enough
  · exact absurd null given

theorem passes_of_not_fits (h : ¬ c.Fits) : c.passes = true ∧ UInt64.size ≤ c.n * c.dim := by
  unfold Fits at h
  rw [not_or, not_or] at h
  exact ⟨passes_iff.mpr ⟨h.2.2, h.2.1⟩, Nat.le_of_not_lt h.1⟩

theorem guardExact_iff : c.GuardExact ↔ c.Fits := by
  constructor
  · intro guard
    by_contra h
    obtain ⟨passes, large⟩ := passes_of_not_fits h
    have room := guard passes
    have capacity := c.sizes.2
    omega
  · exact Fits.room

theorem Fits.positionsInside (fits : c.Fits) : c.PositionsInside := by
  intro answers a ha
  unfold accesses at ha
  split at ha
  · rename_i passes
    cases List.mem_append.mp ha with
    | inl first =>
      obtain ⟨i, hi, mem⟩ := List.mem_flatMap.mp first
      rw [List.mem_range] at hi
      rw [List.mem_cons, List.mem_singleton] at mem
      rcases mem with rfl | rfl
      · exact hi
      · exact hi
    | inr later =>
      exact c.loopAccesses_inside (fits.room passes) answers c.n 0 (Nat.zero_le _) a later
  · cases ha

/-- The rows reach the element just behind a buffer that the wrapped requirement lets by. -/
theorem PositionsInside.fits (inside : c.PositionsInside) : c.Fits := by
  by_contra h
  obtain ⟨passes, large⟩ := passes_of_not_fits h
  have capacity := c.sizes.2
  have beyond : c.outCapacity < c.dim * c.n := by
    rw [Nat.mul_comm]
    omega
  have pos : 0 < c.dim := Nat.pos_of_ne_zero fun zero => by
    rw [zero] at beyond
    omega
  obtain ⟨p, hp, text⟩ := lengthOrder_surj c.tokens c.n (Nat.div_lt_of_lt_mul beyond)
  have mem := c.out_mem (Nat.mod_lt c.outCapacity pos) hp c.n 0 (by omega) (Nat.zero_le p)
  have index : wrap (wrap (c.order p * c.dim) + c.outCapacity % c.dim) = c.outCapacity := by
    unfold order
    rw [text]
    unfold wrap
    rw [Nat.mod_add_mod, Nat.mul_comm, Nat.div_add_mod, Nat.mod_eq_of_lt capacity]
  rw [index] at mem
  have outside := inside (fun _ => true) _ (by
    unfold accesses
    rw [if_pos passes]
    exact List.mem_append_right _ mem)
  exact Nat.lt_irrefl _ outside

theorem encode_rejects {α : Type} [Arith α] {session : OrtSession ModelId α}
    (entry : session.entry = c.entry) {texts : Option (ℕ → Utf8.Bytes)}
    (nullTexts : c.nullTexts = texts.isNone) {out : Option (Buffer α)}
    (nullOut : c.nullOut = out.isNone) (pre : Utf8.Bytes) (rejected : c.passes ≠ true) :
    ∃ status, session.encode texts c.n pre out c.outCapacity = (status, out) ∧
      (status.code = .invalidArgument ∨ status.code = .outputTooSmall) := by
  rw [ne_eq, passes_iff, nullTexts, nullOut] at rejected
  unfold OrtSession.encode
  dsimp only
  rw [entry]
  by_cases null : c.n ≠ 0 ∧ (texts.isNone = true ∨ out.isNone = true)
  · rw [if_pos null]
    exact ⟨_, rfl, .inl rfl⟩
  · rw [if_neg null, if_pos]
    · exact ⟨_, rfl, .inr rfl⟩
    · by_contra enough
      exact rejected ⟨null, enough⟩

variable (c)

/-- `encode` stays in its buffers, and its guard is exact, as long as the requirement does
    not wrap. -/
theorem positionsInside_iff : (c.PositionsInside ↔ c.Fits) ∧ (c.GuardExact ↔ c.Fits) :=
  ⟨⟨PositionsInside.fits, Fits.positionsInside⟩, guardExact_iff⟩

end EncodeCall

/-- So many texts for a model of 1024 components that the requirement wraps to nothing. -/
def wrapping : EncodeCall where
  entry := kRegistry[5]
  known := List.getElem_mem _
  n := 2 ^ 54
  outCapacity := 0
  sizes := by decide
  encoded := List.replicate (2 ^ 54) [101, 102]
  encoded_length := List.length_replicate
  short := by
    intro ids h
    rw [List.eq_of_mem_replicate h]
    decide

theorem wrapping_outside : ¬ wrapping.PositionsInside ∧ ¬ wrapping.GuardExact := by
  have outside : ¬ wrapping.Fits := by
    rintro (whole | rejected | null)
    · exact absurd whole (by decide)
    · exact absurd rejected (by decide)
    · exact absurd null.2 (by decide)
  exact ⟨mt EncodeCall.PositionsInside.fits outside, mt EncodeCall.guardExact_iff.mp outside⟩

end CyborgdbEmbed.EncodeAccesses

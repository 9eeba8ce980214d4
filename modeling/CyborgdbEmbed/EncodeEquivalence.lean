import CyborgdbEmbed.EncodeRows
import Mathlib.Data.EReal.Inv
import Mathlib.Analysis.Real.Sqrt

set_option autoImplicit false

namespace CyborgdbEmbed
open Utf8 Loops

namespace OrtSession
variable {ι α : Type} [Arith α]

omit [Arith α] in
/-- The hidden states of a row at its real positions depend only on the ids of the row,
    not on the other rows, the padding or the width, nor on which of two runs it was in.
    Feeds whose token types are not those that `encode` gives are left out. -/
def DependsOnRowOnly (dim : ℕ) (typed : Bool) (run run' : ℕ → Feed → Except String (Buffer α)) :
    Prop :=
  ∀ batch batch' feed feed' hidden hidden' r r' ids, Carries typed feed r ids →
    Carries typed feed' r' ids → run batch feed = .ok hidden → run' batch' feed' = .ok hidden' →
      ∀ t, t < ids.length → ∀ d, d < dim →
        hidden ((r * feed.width + t) * dim + d) = hidden' ((r' * feed'.width + t) * dim + d)

section
variable {session : OrtSession ι α} {run' : ℕ → Feed → Except String (Buffer α)}

theorem embedRow_congr {batch batch' : ℕ} {feed feed' : Feed} {hidden hidden' : Buffer α}
    {r r' d : ℕ} {ids : List UInt32}
    (rowOnly : DependsOnRowOnly session.entry.info.dimension session.needsTokenTypeIds session.run
      run')
    (nonempty : 0 < ids.length) (carries : Carries session.needsTokenTypeIds feed r ids)
    (carries' : Carries session.needsTokenTypeIds feed' r' ids)
    (hrun : session.run batch feed = .ok hidden) (hrun' : run' batch' feed' = .ok hidden')
    (hd : d < session.entry.info.dimension) :
    session.embedRow hidden feed r d = session.embedRow hidden' feed' r' d := by
  have states := rowOnly batch batch' feed feed' hidden hidden' r r' ids carries carries' hrun hrun'
  have pooled (e : ℕ) (he : e < session.entry.info.dimension) :
      poolRow (fun k => hidden (r * feed.width * session.entry.info.dimension + k))
        (fun t => feed.attentionMask (r * feed.width + t)) feed.width
        session.entry.info.dimension session.entry.pooling e =
      poolRow (fun k => hidden' (r' * feed'.width * session.entry.info.dimension + k))
        (fun t => feed'.attentionMask (r' * feed'.width + t)) feed'.width
        session.entry.info.dimension session.entry.pooling e := by
    refine poolRow_congr nonempty carries.marks carries'.marks (fun t ht => ?_) _
    have h := states t ht e he
    rw [Nat.add_mul, Nat.add_mul, Nat.add_assoc, Nat.add_assoc] at h
    exact h
  unfold embedRow
  split
  · exact normalizeRow_congr hd pooled
  · exact pooled d hd

end

/-- Of a successful call, row `i` is what a successful call with the text alone writes. -/
theorem encode_eq_single {session : OrtSession ι α}
    {run' : ℕ → Feed → Except String (Buffer α)}
    (rowOnly : DependsOnRowOnly session.entry.info.dimension session.needsTokenTypeIds session.run
      run')
    (yieldsIds : ∀ text ids, session.tokenizer.handle.tokenize text = some ids → 0 < ids.length)
    {texts : ℕ → Bytes} {n : ℕ} {pre : Bytes} {out out' : Buffer α} {outCapacity : ℕ}
    {status : Status}
    (h : session.encode (some texts) n pre (some out) outCapacity = (status, some out'))
    (ok : status.ok = true) {i : ℕ} (hi : i < n) {single single' : Buffer α}
    {singleCapacity : ℕ} {singleStatus : Status}
    (hsingle : { session with run := run' }.encode (some fun _ => texts i) 1 pre (some single)
      singleCapacity = (singleStatus, some single'))
    (singleOk : singleStatus.ok = true) :
    ∀ d, d < session.entry.info.dimension →
      out' (i * session.entry.info.dimension + d) = single' d := by
  intro d hd
  obtain ⟨ids, hids, batch, feed, hidden, r, hrun, carries, row⟩ := encode_written h ok hi
  obtain ⟨ids', hids', batch', feed', hidden', r', hrun', carries', row'⟩ :=
    encode_written hsingle singleOk Nat.one_pos
  obtain rfl : ids = ids' := Except.ok.inj (hids.symm.trans hids')
  obtain ⟨text, htext⟩ := Tokenizer.tokenize_of_encode_ok hids
  rw [row d hd, embedRow_congr rowOnly (yieldsIds text ids htext) carries carries' hrun hrun' hd]
  have alone := row' d hd
  rw [Nat.zero_mul, Nat.zero_add] at alone
  exact alone.symm

end OrtSession

noncomputable instance : Arith EReal where
  zero := 0
  one := 1
  negInfinity := ⊥
  tiny := ((1 / 10 ^ 12 : ℝ) : EReal)
  add := (· + ·)
  mul := (· * ·)
  div := (· / ·)
  sqrt := fun x => (Real.sqrt x.toReal : EReal)
  lt := fun x y => open Classical in decide (x < y)
  le := fun x y => open Classical in decide (x ≤ y)

def greetingIds (text : String) : List UInt32 :=
  if text = "hello world" then [101, 7592, 2088, 102]
  else if text = "hello" then [101, 7592, 102]
  else [101, 100, 102]

theorem greetingIds_length (text : String) :
    0 < (greetingIds text).length ∧ (greetingIds text).length ≤ 512 := by
  unfold greetingIds
  split
  · decide
  · split <;> decide

/-- A model of one layer: each state is looked up by the id and the type at its position. -/
def greetingStates (feed : Feed) (types : Buffer ℕ) (k : ℕ) : ℕ :=
  feed.inputIds (k / 384) + types (k / 384) + k % 384

noncomputable def greetingSession : OrtSession ModelId EReal where
  entry := bgeSmallEnV15
  tokenizer :=
    { handle :=
        { maxLength := 512
          tokenize := fun text => some (greetingIds text)
          truncated := fun text _ h => Option.some.inj h ▸ (greetingIds_length text).2 }
      maxTokens := 512
      limit := rfl }
  needsTokenTypeIds := true
  run := fun _ feed => match feed.tokenTypeIds with
    | none => .error "Missing Input: token_type_ids"
    | some types => .ok fun k => (greetingStates feed types k : EReal)

def greetings (i : ℕ) : Bytes := if i = 0 then view "hello world" else view "hello"

theorem greetingStates_carries {feed : Feed} {r t d : ℕ} {ids : List UInt32}
    (carries : Carries true feed r ids) (ht : t < ids.length) (hd : d < 384) :
    greetingStates feed (fun _ => 0) ((r * feed.width + t) * 384 + d) =
      (ids.getD t 0).toNat + d := by
  have position : ((r * feed.width + t) * 384 + d) / 384 = r * feed.width + t ∧
      ((r * feed.width + t) * 384 + d) % 384 = d := by omega
  rw [greetingStates, position.1, position.2, carries.ids t ht, Nat.add_zero]

theorem greetingSession_rowOnly : OrtSession.DependsOnRowOnly 384
    greetingSession.needsTokenTypeIds greetingSession.run greetingSession.run := by
  have states {batch : ℕ} {feed : Feed} {hidden : Buffer EReal} {r : ℕ} {ids : List UInt32}
      (carries : Carries true feed r ids) (hrun : greetingSession.run batch feed = .ok hidden) :
      hidden = fun k => (greetingStates feed (fun _ => 0) k : EReal) := by
    have types : feed.tokenTypeIds = some fun _ => 0 := carries.types
    unfold greetingSession at hrun
    simp only [types] at hrun
    exact (Except.ok.inj hrun).symm
  intro batch batch' feed feed' hidden hidden' r r' ids carries carries' hrun hrun' t ht d hd
  rw [states carries hrun, states carries' hrun']
  dsimp only
  rw [greetingStates_carries carries ht hd, greetingStates_carries carries' ht hd]

theorem greetings_ok :
    (greetingSession.encode (some greetings) 2 [] (some fun _ => 0) 768).1.ok = true ∧
      (greetingSession.encode (some fun _ => greetings 1) 1 [] (some fun _ => 0) 384).1.ok =
        true := by
  decide +kernel

theorem greetings_encode_eq_single : ∃ status out' singleStatus single',
    greetingSession.encode (some greetings) 2 [] (some fun _ => 0) 768 = (status, some out') ∧
      greetingSession.encode (some fun _ => greetings 1) 1 [] (some fun _ => 0) 384 =
        (singleStatus, some single') ∧
      ∀ d, d < 384 → out' (1 * 384 + d) = single' d := by
  obtain ⟨ok, singleOk⟩ := greetings_ok
  obtain ⟨status, out', h⟩ := greetingSession.encode_out
    greetings 2 [] (fun _ => 0) 768
  obtain ⟨singleStatus, single', hsingle⟩ := greetingSession.encode_out
    (fun _ => greetings 1) 1 [] (fun _ => 0) 384
  rw [h] at ok
  rw [hsingle] at singleOk
  exact ⟨status, out', singleStatus, single', h, hsingle,
    OrtSession.encode_eq_single greetingSession_rowOnly
      (fun text _ htext => Option.some.inj htext ▸ (greetingIds_length text).1) h ok (by decide)
      hsingle singleOk⟩

end CyborgdbEmbed

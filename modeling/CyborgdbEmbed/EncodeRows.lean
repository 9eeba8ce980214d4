import CyborgdbEmbed.Batches
import CyborgdbEmbed.Fallible
import Mathlib.Data.List.GetD
import Mathlib.Data.List.Nodup

set_option autoImplicit false

namespace CyborgdbEmbed
open Fallible Loops Utf8

/-- Row `r` of the feed is these token ids, padded on the right. Every token type is zero,
    and there are none for a graph that does not take them. -/
structure Carries (typed : Bool) (feed : Feed) (r : ℕ) (ids : List UInt32) : Prop where
  row : r < feed.rows
  marks : MarksFirst (fun t => feed.attentionMask (r * feed.width + t)) feed.width ids.length
  ids : ∀ t, t < ids.length → feed.inputIds (r * feed.width + t) = (ids.getD t 0).toNat
  types : feed.tokenTypeIds = if typed then some fun _ => 0 else none

theorem forRange_copy_front {α : Type} (v : ℕ → ℕ → α) (len : ℕ → ℕ) (zero : α) {rows width : ℕ}
    (fits : ∀ r, r < rows → len r ≤ width) {r t : ℕ} (hr : r < rows) (ht : t < width) :
    forRange rows (fun r b => copy b (r * width) (len r) (v r)) (fun _ => zero) (r * width + t) =
      if t < len r then v r t else zero := by
  refine forRange_row (f := fun r row t => if t < len r then v r t else row t) ?_ ?_ ?_
    (fun _ _ _ _ h => h) (fun _ => zero) hr ht
  · intro r b j d hr hd hj
    exact copy_row_other b _ (fits r hr) hj hd
  · intro r b d _ _
    exact copy_within b _ _ d _
  · intro r v w d _ hd h
    rw [h d hd]

namespace OrtSession
variable {ι α : Type} (session : OrtSession ι α)

theorem feed_carries {encoded : ℕ → List UInt32} {rows width : ℕ}
    (fits : ∀ r, r < rows → (encoded r).length ≤ width) {r : ℕ} (hr : r < rows) :
    Carries session.needsTokenTypeIds (session.feed encoded rows width) r (encoded r) where
  row := hr
  marks := ⟨fits r hr, fun t ht =>
    forRange_copy_front (fun _ _ => 1) (fun r => (encoded r).length) 0 fits hr ht⟩
  ids := fun t ht => by
    have bound := fits r hr
    have value := forRange_copy_front (fun r t => ((encoded r).getD t 0).toNat)
      (fun r => (encoded r).length) 0 fits hr (show t < width by omega)
    rw [if_pos ht] at value
    exact value
  types := rfl

variable [Arith α]

def embedRow (hidden : Buffer α) (feed : Feed) (r : ℕ) : Buffer α :=
  let dim := session.entry.info.dimension
  let pooled := poolRow (fun k => hidden (r * feed.width * dim + k))
    (fun t => feed.attentionMask (r * feed.width + t)) feed.width dim session.entry.pooling
  if session.entry.info.normalize then normalizeRow pooled dim else pooled

theorem reduce_row (hidden : Buffer α) (feed : Feed) {r d : ℕ} (hr : r < feed.rows)
    (hd : d < session.entry.info.dimension) :
    session.reduce hidden feed (r * session.entry.info.dimension + d) =
      session.embedRow hidden feed r d := by
  unfold reduce embedRow
  split
  · rw [l2Normalize_row _ hr hd]
    exact normalizeRow_congr hd fun e he => pool_row hidden _ _ _ _ hr he
  · exact pool_row hidden _ _ _ _ hr hd

/-- Row `i` of `out` comes from a run whose feed carried these ids in some row. -/
def Written (out : Buffer α) (i : ℕ) (ids : List UInt32) : Prop :=
  ∃ batch feed hidden r, session.run batch feed = .ok hidden ∧
    Carries session.needsTokenTypeIds feed r ids ∧
    ∀ d, d < session.entry.info.dimension →
      out (i * session.entry.info.dimension + d) = session.embedRow hidden feed r d

variable {session}

theorem Written.congr {out out' : Buffer α} {i : ℕ} {ids : List UInt32}
    (h : session.Written out i ids) (same : ∀ d, d < session.entry.info.dimension →
      out' (i * session.entry.info.dimension + d) = out (i * session.entry.info.dimension + d)) :
    session.Written out' i ids := by
  obtain ⟨batch, feed, hidden, r, hrun, carries, rows⟩ := h
  exact ⟨batch, feed, hidden, r, hrun, carries, fun d hd => (same d hd).trans (rows d hd)⟩

section
variable {tokens : ℕ → List UInt32} {order : ℕ → ℕ} {n start batch : ℕ} {out : Buffer α}

theorem encodeBatches_stop (h : ¬ start < n) :
    session.encodeBatches tokens order n start batch out = ({}, out) := by
  rw [encodeBatches, dif_neg h]

theorem encodeBatches_error (h : start < n) {message : String}
    (hrun : session.run batch (session.batchFeed tokens order n start) = .error message) :
    session.encodeBatches tokens order n start batch out = (⟨.inferenceFailed, message⟩, out) := by
  rw [encodeBatches, dif_pos h]
  dsimp only
  rw [hrun]

theorem encodeBatches_next (h : start < n) {hidden : Buffer α}
    (hrun : session.run batch (session.batchFeed tokens order n start) = .ok hidden) :
    session.encodeBatches tokens order n start batch out =
      session.encodeBatches tokens order n
        (start + (session.batchFeed tokens order n start).rows) (batch + 1)
        (session.scatter order start (session.batchFeed tokens order n start).rows
          (session.reduce hidden (session.batchFeed tokens order n start)) out) := by
  rw [encodeBatches, dif_pos h]
  dsimp only
  rw [hrun]

omit [Arith α] in
theorem batchFeed_spec (tokens : ℕ → List UInt32) (order : ℕ → ℕ) (h : start < n) :
    0 < (session.batchFeed tokens order n start).rows ∧
      start + (session.batchFeed tokens order n start).rows ≤ n ∧
        ∀ r, r < (session.batchFeed tokens order n start).rows →
          Carries session.needsTokenTypeIds (session.batchFeed tokens order n start) r
            (tokens (order (start + r))) := by
  have formed := formBatch_formed (fun p => (tokens (order p)).length) h
  exact ⟨formBatch_pos _ h, formed.inside, fun r hr =>
    session.feed_carries (fun _ => formed.covers) hr⟩

end

/-- After the batches up to `start`, the rows `order[0..start)` are written. The batch
    from there adds its own and leaves those, since the order repeats no text. -/
theorem encodeBatches_written {tokens : ℕ → List UInt32} {order : ℕ → ℕ} {n : ℕ}
    (inj : ∀ p q, p < n → q < n → order p = order q → p = q) (start batch : ℕ) (out : Buffer α)
    (before : ∀ p, p < start → p < n → session.Written out (order p) (tokens (order p)))
    (ok : (session.encodeBatches tokens order n start batch out).1.ok = true) :
    ∀ p, p < n → session.Written (session.encodeBatches tokens order n start batch out).2
      (order p) (tokens (order p)) := by
  induction hm : n - start using Nat.strong_induction_on generalizing start batch out with
  | _ m ih =>
  by_cases h : start < n
  · obtain ⟨advance, inside, carries⟩ := session.batchFeed_spec tokens order h
    generalize hfeed : session.batchFeed tokens order n start = feed at advance inside carries
    cases hrun : session.run batch feed with
    | error message =>
      rw [encodeBatches_error h (hfeed.symm ▸ hrun)] at ok
      cases ok
    | ok hidden =>
      rw [encodeBatches_next h (hfeed.symm ▸ hrun), hfeed] at ok ⊢
      refine ih (n - (start + feed.rows)) (by omega) _ _ _ ?_ ok rfl
      intro p hp hpn
      by_cases old : p < start
      · refine (before p old hpn).congr fun d hd => ?_
        refine forRange_copy_other _ (fun r hr same => ?_) out hd
        have := inj p (start + r) hpn (by omega) same
        omega
      · obtain ⟨r, rfl⟩ := Nat.exists_eq_add_of_le (Nat.le_of_not_lt old)
        have hr : r < feed.rows := by omega
        refine ⟨batch, feed, hidden, r, hrun, carries r hr, fun d hd => ?_⟩
        rw [← reduce_row session hidden feed hr hd]
        refine forRange_copy_row (g := fun r => order (start + r)) _ ?_ out hr hd
        intro r s hr hs same
        have := inj (start + r) (start + s) (by omega) (by omega) same
        omega
  · rw [encodeBatches_stop h]
    intro p hp
    exact before p (by omega) hp

section
variable (tokens : ℕ → List UInt32) (n : ℕ)

theorem lengthOrder_perm : (lengthOrder tokens n).Perm (List.range n) := List.perm_insertionSort _ _

theorem lengthOrder_inj {p q : ℕ} (hp : p < n) (hq : q < n)
    (same : (lengthOrder tokens n).getD p 0 = (lengthOrder tokens n).getD q 0) : p = q := by
  have perm := lengthOrder_perm tokens n
  have len : (lengthOrder tokens n).length = n := by rw [perm.length_eq, List.length_range]
  have nodup : (lengthOrder tokens n).Nodup := perm.nodup_iff.mpr List.nodup_range
  rw [List.getD_eq_getElem _ _ (by omega), List.getD_eq_getElem _ _ (by omega)] at same
  exact (nodup.getElem_inj_iff).mp same

theorem lengthOrder_surj {i : ℕ} (hi : i < n) :
    ∃ p, p < n ∧ (lengthOrder tokens n).getD p 0 = i := by
  have perm := lengthOrder_perm tokens n
  obtain ⟨p, hp, hget⟩ := List.mem_iff_getElem.mp (perm.mem_iff.mpr (List.mem_range.mpr hi))
  refine ⟨p, ?_, by rw [List.getD_eq_getElem _ _ hp, hget]⟩
  rwa [perm.length_eq, List.length_range] at hp

end

theorem encode_out (session : OrtSession ι α) (texts : ℕ → Bytes) (n : ℕ) (pre : Bytes)
    (out : Buffer α) (outCapacity : ℕ) :
    ∃ status out', session.encode (some texts) n pre (some out) outCapacity =
      (status, some out') := by
  unfold encode
  dsimp only
  split
  · exact ⟨_, _, rfl⟩
  · split
    · exact ⟨_, _, rfl⟩
    · split <;> exact ⟨_, _, rfl⟩

theorem encode_ok {texts : ℕ → Bytes} {n : ℕ} {pre : Bytes} {out out' : Buffer α}
    {outCapacity : ℕ} {status : Status}
    (h : session.encode (some texts) n pre (some out) outCapacity = (status, some out'))
    (ok : status.ok = true) : ∃ encoded,
      (List.range n).mapM (fun i => session.tokenizer.encode (texts i) pre) = .ok encoded ∧
        session.encodeBatches (fun i => encoded.getD i [])
          (fun p => (lengthOrder (fun i => encoded.getD i []) n).getD p 0) n 0 0 out =
            (status, out') := by
  unfold encode at h
  dsimp only at h
  split at h
  · obtain rfl := (Prod.mk.inj h).1
    cases ok
  · split at h
    · obtain rfl := (Prod.mk.inj h).1
      cases ok
    · split at h
      · rename_i error hfail
        obtain rfl := (Prod.mk.inj h).1
        obtain ⟨i, _, hi⟩ := mapM_error hfail
        rw [Tokenizer.encode_error hi] at ok
        cases ok
      · rename_i encoded htokens
        obtain ⟨hstatus, hout⟩ := Prod.mk.inj h
        exact ⟨encoded, htokens, Prod.ext hstatus (Option.some.inj hout)⟩

theorem encode_written {texts : ℕ → Bytes} {n : ℕ} {pre : Bytes} {out out' : Buffer α}
    {outCapacity : ℕ} {status : Status}
    (h : session.encode (some texts) n pre (some out) outCapacity = (status, some out'))
    (ok : status.ok = true) {i : ℕ} (hi : i < n) : ∃ ids,
      session.tokenizer.encode (texts i) pre = .ok ids ∧ session.Written out' i ids := by
  obtain ⟨encoded, htokens, hbatches⟩ := encode_ok h ok
  obtain ⟨ids, hids, htext⟩ := mapM_ok_getElem htokens
    (show (List.range n)[i]? = some i by rw [List.getElem?_range hi])
  have hget : encoded.getD i [] = ids := by rw [List.getD_eq_getElem?_getD, hids, Option.getD_some]
  obtain ⟨p, hp, rfl⟩ := lengthOrder_surj (fun i => encoded.getD i []) n hi
  have finished := (congrArg (fun result : Status × Buffer α => result.1.ok) hbatches).trans ok
  have written := encodeBatches_written (fun p q hp hq => lengthOrder_inj _ n hp hq) 0 0 out
    (fun q hq => absurd hq (Nat.not_lt_zero q)) finished p hp
  rw [hbatches] at written
  exact ⟨ids, htext, hget ▸ written⟩

end OrtSession
end CyborgdbEmbed

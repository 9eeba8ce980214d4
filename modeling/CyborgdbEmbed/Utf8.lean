import Mathlib.Data.List.TakeWhile
import Mathlib.Tactic.Common

set_option autoImplicit false

namespace CyborgdbEmbed.Utf8

abbrev Bytes := List UInt8

def encode (cs : List Char) : Bytes := cs.flatMap String.utf8EncodeChar

def decode (bytes : Bytes) : Option String := String.fromUTF8? bytes.toByteArray

/-- The bytes of a text, as a `string_view` has them. -/
def view (text : String) : Bytes := encode text.toList

theorem encode_cons (c : Char) (cs : List Char) :
    encode (c :: cs) = String.utf8EncodeChar c ++ encode cs := rfl

theorem encode_append (cs ds : List Char) : encode (cs ++ ds) = encode cs ++ encode ds :=
  List.flatMap_append

theorem decode_encode (cs : List Char) : decode (encode cs) = some (String.ofList cs) := by
  have valid : (encode cs).toByteArray.IsValidUTF8 := ⟨cs, rfl⟩
  unfold decode String.fromUTF8?
  rw [dif_pos valid, Option.some.injEq, ← String.toByteArray_inj, String.toByteArray_ofList]
  rfl

theorem decode_some {bytes : Bytes} {text : String} (h : decode bytes = some text) :
    bytes = view text := by
  unfold decode String.fromUTF8? at h
  split at h
  · have same := congrArg String.toByteArray (Option.some.inj h)
    rw [← String.ofList_toList (s := text), String.toByteArray_ofList] at same
    exact List.toByteArray_inj.mp same
  · cases h

theorem encodeChar_nul : String.utf8EncodeChar '\x00' = [0] := by decide

theorem byte_ne_zero {v : ℕ} (pos : 0 < v) (lt : v < 256) : UInt8.ofNat v ≠ 0 := by
  intro h
  have hv := congrArg UInt8.toNat h
  rw [UInt8.toNat_ofNat_of_lt' lt] at hv
  change v = 0 at hv
  omega

theorem encodeChar_ne_zero {c : Char} (h : c ≠ '\x00') : ∀ b ∈ String.utf8EncodeChar c, b ≠ 0 := by
  have pos : 0 < c.val.toNat := by
    refine Nat.pos_of_ne_zero fun hv => h (Char.ext ?_)
    exact UInt32.toNat_inj.mp hv
  intro b hb
  unfold String.utf8EncodeChar at hb
  dsimp only at hb
  generalize c.val.toNat = v at pos hb
  split at hb
  · obtain rfl := List.mem_singleton.mp hb
    exact byte_ne_zero pos (by omega)
  · -- every other byte is at least 128
    split at hb
    · simp only [List.mem_cons, List.not_mem_nil, or_false] at hb
      obtain rfl | rfl := hb
      all_goals exact byte_ne_zero (by omega) (by omega)
    · split at hb
      · simp only [List.mem_cons, List.not_mem_nil, or_false] at hb
        obtain rfl | rfl | rfl := hb
        all_goals exact byte_ne_zero (by omega) (by omega)
      · simp only [List.mem_cons, List.not_mem_nil, or_false] at hb
        obtain rfl | rfl | rfl | rfl := hb
        all_goals exact byte_ne_zero (by omega) (by omega)

/-- The bytes before the first zero are those of the characters before the first NUL. -/
theorem takeWhile_encode (cs : List Char) :
    (encode cs).takeWhile (· ≠ 0) = encode (cs.takeWhile (· ≠ '\x00')) := by
  induction cs with
  | nil => rfl
  | cons c cs ih =>
    by_cases hc : c = '\x00'
    · subst hc
      rw [encode_cons, encodeChar_nul, List.takeWhile_cons_of_neg (by decide)]
      rfl
    · have whole : ∀ b ∈ String.utf8EncodeChar c, decide (b ≠ 0) = true :=
        fun b hb => decide_eq_true (encodeChar_ne_zero hc b hb)
      rw [encode_cons, List.takeWhile_append_of_pos whole, ih,
        List.takeWhile_cons_of_pos (by simpa using hc), encode_cons]

theorem takeWhile_eq_self_iff (cs : List Char) :
    cs.takeWhile (· ≠ '\x00') = cs ↔ '\x00' ∉ cs := by
  rw [List.takeWhile_eq_self_iff]
  constructor
  · intro h hmem
    simpa using h _ hmem
  · intro h c hc
    refine decide_eq_true ?_
    rintro rfl
    exact h hc

end CyborgdbEmbed.Utf8

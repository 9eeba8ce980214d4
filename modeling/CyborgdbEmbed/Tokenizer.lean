import CyborgdbEmbed.Registry
import CyborgdbEmbed.Utf8

set_option autoImplicit false

/-!
# The tokenizer and its Rust shim

A text crosses from a `string_view` into a `std::string`, and from there as a C
string into the shim, which reads it up to the first zero byte. The HuggingFace
tokenizer behind the shim is any function on texts that keeps its truncation.
-/
namespace CyborgdbEmbed
open Utf8

/-- The shim's `Handle`. `tokenize` is `Tokenizer::encode` of the HuggingFace
    library, with the truncation that `cyborgdb_tokenizer_new` sets. -/
structure Handle where
  maxLength : ℕ
  tokenize : String → Option (List UInt32)
  truncated : ∀ text ids, tokenize text = some ids → ids.length ≤ maxLength

/-- `std::string::c_str`: the bytes and a terminating zero. -/
def cStr (input : Bytes) : Bytes := input ++ [0]

/-- `CStr::from_ptr`: the memory up to the first zero. -/
def fromPtr (memory : Bytes) : Bytes := memory.takeWhile (· ≠ 0)

/-- What `cyborgdb_tokenizer_encode` returns and leaves behind its two out pointers. -/
structure ShimResult where
  rc : Int
  ids : List UInt32
  written : ℕ

/-- The shim. `text` and `ids` are the memory its pointers lead to. -/
def cyborgdbTokenizerEncode (handle : Handle) (text : Bytes) (ids : List UInt32)
    (capacity written : ℕ) : ShimResult :=
  match decode (fromPtr text) with
  | none => ⟨-1, ids, written⟩
  | some text =>
    match handle.tokenize text with
    | none => ⟨-1, ids, written⟩
    | some source =>
      if capacity < source.length then ⟨1, ids, source.length⟩
      else ⟨0, source ++ ids.drop source.length, source.length⟩

structure Tokenizer where
  handle : Handle
  maxTokens : ℕ
  limit : handle.maxLength = maxTokens

def encodingFailed : Status := ⟨.tokenizerFailed, "encoding failed"⟩

namespace Tokenizer

def encode (tokenizer : Tokenizer) (text pre : Bytes) : Except Status (List UInt32) :=
  let input := pre ++ text
  let ids := List.replicate tokenizer.maxTokens 0
  let result := cyborgdbTokenizerEncode tokenizer.handle (cStr input) ids ids.length 0
  if result.rc ≠ 0 then .error encodingFailed else .ok (result.ids.take result.written)

/-- The text the shim hands to the HuggingFace tokenizer during `encode`, if it gets that far. -/
def handedText (text pre : Bytes) : Option String := decode (fromPtr (cStr (pre ++ text)))

def answer (tokenizer : Tokenizer) (text : String) : Except Status (List UInt32) :=
  match tokenizer.handle.tokenize text with
  | some ids => .ok ids
  | none => .error encodingFailed

structure SeesWholeText (pre text : String) : Prop where
  handed : handedText (view text) (view pre) = some (pre ++ text)
  ids : ∀ tokenizer : Tokenizer,
    tokenizer.encode (view text) (view pre) = tokenizer.answer (pre ++ text)

section
variable {handle : Handle} {memory : Bytes} {seen : String} (ids : List UInt32)
  (capacity written : ℕ)

theorem shim_unreadable (hseen : decode (fromPtr memory) = none) :
    cyborgdbTokenizerEncode handle memory ids capacity written = ⟨-1, ids, written⟩ := by
  unfold cyborgdbTokenizerEncode
  rw [hseen]

theorem shim_refused (hseen : decode (fromPtr memory) = some seen)
    (htok : handle.tokenize seen = none) :
    cyborgdbTokenizerEncode handle memory ids capacity written = ⟨-1, ids, written⟩ := by
  unfold cyborgdbTokenizerEncode
  rw [hseen]
  dsimp only
  rw [htok]

theorem shim_encoded {source : List UInt32} (hseen : decode (fromPtr memory) = some seen)
    (htok : handle.tokenize seen = some source) (fits : source.length ≤ capacity) :
    cyborgdbTokenizerEncode handle memory ids capacity written =
      ⟨0, source ++ ids.drop source.length, source.length⟩ := by
  unfold cyborgdbTokenizerEncode
  rw [hseen]
  dsimp only
  rw [htok]
  dsimp only
  rw [if_neg (by omega)]

end

theorem encode_eq (tokenizer : Tokenizer) (text pre : Bytes) : tokenizer.encode text pre =
    match handedText text pre with
    | some seen => tokenizer.answer seen
    | none => .error encodingFailed := by
  unfold encode handedText
  cases hseen : decode (fromPtr (cStr (pre ++ text))) with
  | none =>
    dsimp only
    rw [shim_unreadable _ _ _ hseen]
    rfl
  | some seen =>
    dsimp only
    cases htok : tokenizer.handle.tokenize seen with
    | none =>
      rw [shim_refused _ _ _ hseen htok, answer, htok]
      rfl
    | some source =>
      have fits : source.length ≤ tokenizer.maxTokens := by
        rw [← tokenizer.limit]
        exact tokenizer.handle.truncated seen source htok
      rw [shim_encoded _ _ _ hseen htok (by rwa [List.length_replicate]), answer, htok]
      exact congrArg Except.ok (List.take_left ..)

theorem tokenize_of_encode_ok {tokenizer : Tokenizer} {text pre : Bytes} {ids : List UInt32}
    (h : tokenizer.encode text pre = .ok ids) :
    ∃ seen, tokenizer.handle.tokenize seen = some ids := by
  rw [encode_eq] at h
  split at h
  · rename_i seen _
    unfold answer at h
    split at h
    · rename_i hids
      exact ⟨seen, hids.trans (congrArg some (Except.ok.inj h))⟩
    · cases h
  · cases h

theorem encode_error {tokenizer : Tokenizer} {text pre : Bytes} {status : Status}
    (h : tokenizer.encode text pre = .error status) : status = encodingFailed := by
  unfold encode at h
  dsimp only at h
  split at h
  · exact (Except.error.inj h).symm
  · cases h

theorem handedText_view (pre text : String) : handedText (view text) (view pre) =
    some (String.ofList ((pre ++ text).toList.takeWhile (· ≠ '\x00'))) := by
  have buffer : cStr (view pre ++ view text) =
      Utf8.encode ((pre ++ text).toList ++ ['\x00']) := by
    rw [Utf8.encode_append, String.toList_append, Utf8.encode_append]
    rfl
  have stop : ((pre ++ text).toList ++ ['\x00']).takeWhile (· ≠ '\x00') =
      (pre ++ text).toList.takeWhile (· ≠ '\x00') := by
    generalize (pre ++ text).toList = cs
    induction cs with
    | nil => rfl
    | cons c cs ih =>
      by_cases hc : c = '\x00'
      · subst hc
        rfl
      · simp only [List.cons_append, ne_eq, hc, not_false_eq_true, decide_true,
          List.takeWhile_cons_of_pos, ← ih]
  rw [handedText, buffer, fromPtr, takeWhile_encode, decode_encode, stop]

/-- The tokenizer sees the whole text exactly if neither prefix nor text has a NUL. -/
theorem seesWholeText_iff (pre text : String) :
    SeesWholeText pre text ↔ '\x00' ∉ (pre ++ text).toList := by
  rw [← takeWhile_eq_self_iff]
  constructor
  · rintro ⟨handed, _⟩
    rw [handedText_view, Option.some.injEq] at handed
    rw [← String.toList_ofList (l := List.takeWhile _ _), handed]
  · intro h
    have handed : handedText (view text) (view pre) = some (pre ++ text) := by
      rw [handedText_view, h, String.ofList_toList]
    exact ⟨handed, fun tokenizer => by rw [encode_eq, handed]⟩

/-- Texts that agree up to their first NUL get the same ids from every tokenizer. -/
theorem encode_congr {pre text other : String}
    (same : (pre ++ text).toList.takeWhile (· ≠ '\x00') =
      (pre ++ other).toList.takeWhile (· ≠ '\x00')) (tokenizer : Tokenizer) :
    tokenizer.encode (view text) (view pre) = tokenizer.encode (view other) (view pre) := by
  rw [encode_eq, encode_eq, handedText_view, handedText_view, same]

/-- Of two different texts with a NUL after the first letter only that letter is seen. -/
theorem nul_cuts_text : ¬ (∀ pre text, SeesWholeText pre text) ∧
    (∀ tokenizer : Tokenizer, tokenizer.encode (view "a\x00b") (view "") =
      tokenizer.encode (view "a\x00c") (view "")) ∧ "a\x00b" ≠ "a\x00c" := by
  refine ⟨fun h => ?_, encode_congr (by decide), by decide⟩
  have handed := (h "" "a\x00b").handed
  rw [handedText_view, Option.some.injEq] at handed
  revert handed
  decide

end Tokenizer
end CyborgdbEmbed

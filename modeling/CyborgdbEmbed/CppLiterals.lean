import CyborgdbEmbed.Utf8

set_option autoImplicit false

/-!
# Narrow string literals of C++17

From the characters of a source file to the bytes of its string literals: lines, splices,
escape sequences and the joining of neighbours. Trigraphs left the language with this
standard. A carriage return ends a line, alone or before a line feed.
-/
namespace CyborgdbEmbed.CppLiterals
open Utf8

def lineEnds : List Char → List Char
  | [] => []
  | '\r' :: '\n' :: cs => '\n' :: lineEnds cs
  | '\r' :: cs => '\n' :: lineEnds cs
  | c :: cs => c :: lineEnds cs

/-- Phase 2: a backslash at the end of a line joins the next line to it. -/
def splice : List Char → List Char
  | [] => []
  | '\\' :: '\n' :: cs => splice cs
  | c :: cs => c :: splice cs

def logical (text : List Char) : List Char := splice (lineEnds text)

def isBlank (c : Char) : Bool := c = ' ' || c = '\n' || c = '\t' || c = '\x0b' || c = '\x0c'

def skipBlanks (cs : List Char) : List Char := cs.dropWhile isBlank

def isOctal (c : Char) : Bool := '0' ≤ c && c ≤ '7'

def isHex (c : Char) : Bool :=
  ('0' ≤ c && c ≤ '9') || ('a' ≤ c && c ≤ 'f') || ('A' ≤ c && c ≤ 'F')

def digitValue (c : Char) : ℕ :=
  if c ≤ '9' then c.toNat - 48 else if c ≤ 'F' then c.toNat - 55 else c.toNat - 87

def number (base : ℕ) (digits : List Char) : ℕ :=
  digits.foldl (fun n c => base * n + digitValue c) 0

/-- The sequences of one letter. What has no meaning as a sequence stands for itself. -/
def simple (c : Char) : Bytes :=
  if c = 'a' then [7] else if c = 'b' then [8] else if c = 't' then [9]
  else if c = 'n' then [10] else if c = 'v' then [11] else if c = 'f' then [12]
  else if c = 'r' then [13] else String.utf8EncodeChar c

def universal (n : ℕ) (cs : List Char) : Option (Bytes × List Char) :=
  let digits := cs.take n
  let code := number 16 digits
  if digits.length = n ∧ digits.all isHex = true ∧ code.isValidChar then
    some (String.utf8EncodeChar (Char.ofNat code), cs.drop n)
  else none

/-- An escape sequence without its backslash: its bytes and what follows. -/
def escapeSequence : List Char → Option (Bytes × List Char)
  | [] => none
  | c :: cs =>
    if c = '\n' then none
    else if c = 'u' then universal 4 cs
    else if c = 'U' then universal 8 cs
    else if c = 'x' then
      if (cs.takeWhile isHex).isEmpty then none
      else some ([UInt8.ofNat (number 16 (cs.takeWhile isHex))], cs.dropWhile isHex)
    else if isOctal c then
      let more := (cs.take 2).takeWhile isOctal
      some ([UInt8.ofNat (number 8 (c :: more))], cs.drop more.length)
    else some (simple c, cs)

theorem encode_length_cons (c : Char) (cs : List Char) :
    (encode (c :: cs)).length = c.utf8Size + (encode cs).length := by
  rw [encode_cons, List.length_append, String.length_utf8EncodeChar]

theorem length_le_encode (cs : List Char) : cs.length ≤ (encode cs).length := by
  induction cs with
  | nil => exact le_rfl
  | cons c cs ih =>
    have pos := c.utf8Size_pos
    rw [encode_length_cons, List.length_cons]
    omega

theorem length_simple (c : Char) : (simple c).length ≤ c.utf8Size := by
  have pos := c.utf8Size_pos
  unfold simple
  split_ifs
  all_goals first | exact pos | exact (String.length_utf8EncodeChar c).le

/-- How far an escape sequence reaches, and that it has no more bytes than that. -/
structure Escapes (c : Char) (cs : List Char) (bytes : Bytes) (rest : List Char) : Prop where
  ne : c ≠ '\n'
  digits : ∃ ds, cs = ds ++ rest ∧ (∀ d ∈ ds, isHex d = true) ∧
    bytes.length ≤ (encode (c :: ds)).length

theorem isHex_of_isOctal {c : Char} (h : isOctal c = true) : isHex c = true := by
  unfold isOctal at h
  unfold isHex
  simp only [Bool.and_eq_true, decide_eq_true_eq, Bool.or_eq_true] at h ⊢
  exact Or.inl (Or.inl ⟨h.1, Char.le_trans h.2 (by decide)⟩)

theorem universal_length {n : ℕ} (hn : 3 ≤ n) {c : Char} {cs rest : List Char} {bytes : Bytes}
    (h : universal n cs = some (bytes, rest)) :
    ∃ ds, cs = ds ++ rest ∧ (∀ d ∈ ds, isHex d = true) ∧
      bytes.length ≤ (encode (c :: ds)).length := by
  unfold universal at h
  dsimp only at h
  split at h
  · rename_i valid
    obtain ⟨rfl, rfl⟩ := Prod.mk.inj (Option.some.inj h)
    refine ⟨cs.take n, (List.take_append_drop n cs).symm, List.all_eq_true.mp valid.2.1, ?_⟩
    have four := (Char.ofNat (number 16 (cs.take n))).utf8Size_le_four
    have long := length_le_encode (cs.take n)
    have pos := c.utf8Size_pos
    rw [String.length_utf8EncodeChar, encode_length_cons]
    omega
  · cases h

theorem escapes {c : Char} {cs rest : List Char} {bytes : Bytes}
    (h : escapeSequence (c :: cs) = some (bytes, rest)) : Escapes c cs bytes rest := by
  have pos := c.utf8Size_pos
  unfold escapeSequence at h
  dsimp only at h
  split_ifs at h with newline four eight hex none octal
  · exact ⟨newline, universal_length (by omega) h⟩
  · exact ⟨newline, universal_length (by omega) h⟩
  · obtain ⟨rfl, rfl⟩ := Prod.mk.inj (Option.some.inj h)
    refine ⟨newline, cs.takeWhile isHex, List.takeWhile_append_dropWhile.symm,
      fun d hd => List.mem_takeWhile_imp hd, ?_⟩
    rw [encode_length_cons, List.length_singleton]
    omega
  · obtain ⟨rfl, rfl⟩ := Prod.mk.inj (Option.some.inj h)
    have front : (cs.take 2).takeWhile isOctal <+: cs :=
      (List.takeWhile_prefix _).trans (List.take_prefix 2 cs)
    refine ⟨newline, (cs.take 2).takeWhile isOctal, (List.prefix_iff_eq_append.mp front).symm,
      fun d hd => isHex_of_isOctal (List.mem_takeWhile_imp hd), ?_⟩
    rw [encode_length_cons, List.length_singleton]
    omega
  · obtain ⟨rfl, rfl⟩ := Prod.mk.inj (Option.some.inj h)
    refine ⟨newline, [], rfl, fun _ hd => absurd hd List.not_mem_nil, ?_⟩
    rw [encode_length_cons]
    exact (length_simple c).trans (Nat.le_add_right _ _)

theorem escapeSequence_shorter {cs rest : List Char} {bytes : Bytes}
    (h : escapeSequence cs = some (bytes, rest)) : rest.length < cs.length := by
  cases cs with
  | nil => cases h
  | cons c cs =>
    obtain ⟨-, ds, rfl, -, -⟩ := escapes h
    simp only [List.length_cons, List.length_append]
    omega

/-- The rest of a literal after its opening quote: its bytes and what follows the closing
    quote. A literal does not go past the end of its line. -/
def body (text : List Char) : Option (Bytes × List Char) :=
  match text with
  | [] => none
  | c :: cs =>
    if c = '"' then some ([], cs)
    else if c = '\n' then none
    else if c = '\\' then
      match _read : escapeSequence cs with
      | none => none
      | some (bytes, rest) => (body rest).map fun (more, after) => (bytes ++ more, after)
    else (body cs).map fun (more, after) => (String.utf8EncodeChar c ++ more, after)
termination_by text.length
decreasing_by
  · exact (escapeSequence_shorter _read).trans (Nat.lt_succ_self _)
  · exact Nat.lt_succ_self _

theorem map_append_some {x : Option (Bytes × List Char)} {front bytes : Bytes} {rest : List Char}
    (h : x.map (fun (more, after) => (front ++ more, after)) = some (bytes, rest)) :
    ∃ more, x = some (more, rest) ∧ bytes = front ++ more := by
  obtain ⟨⟨more, after⟩, hx, h⟩ := Option.map_eq_some_iff.mp h
  obtain ⟨rfl, rfl⟩ := Prod.mk.inj h
  exact ⟨more, hx, rfl⟩

theorem body_shorter {text rest : List Char} {bytes : Bytes} (h : body text = some (bytes, rest)) :
    rest.length < text.length := by
  fun_induction body text generalizing bytes rest with
  | case1 => cases h
  | case2 cs =>
    obtain ⟨-, rfl⟩ := Prod.mk.inj (Option.some.inj h)
    exact Nat.lt_succ_self _
  | case3 cs => cases h
  | case4 cs => cases h
  | case5 cs front rest' read _ _ ih =>
    obtain ⟨more, tail, -⟩ := map_append_some h
    exact (ih tail).trans ((escapeSequence_shorter read).trans (Nat.lt_succ_self _))
  | case6 c cs _ _ _ ih =>
    obtain ⟨more, tail, -⟩ := map_append_some h
    exact (ih tail).trans (Nat.lt_succ_self _)

def openQuote (text : List Char) : Option (List Char) :=
  match skipBlanks text with
  | '"' :: cs => some cs
  | _ => none

theorem openQuote_shorter {text cs : List Char} (h : openQuote text = some cs) :
    cs.length < text.length := by
  have skipped : (skipBlanks text).length ≤ text.length :=
    (List.dropWhile_suffix isBlank).length_le
  unfold openQuote at h
  split at h
  · rename_i quoted
    obtain rfl := Option.some.inj h
    rw [quoted] at skipped
    exact skipped
  · cases h

def stringLiteral (text : List Char) : Option (Bytes × List Char) :=
  match _quoted : openQuote text with
  | none => none
  | some cs =>
    match _read : body cs with
    | none => none
    | some (bytes, rest) =>
      if (openQuote rest).isSome then
        (stringLiteral rest).map fun (more, after) => (bytes ++ more, after)
      else some (bytes, rest)
termination_by text.length
decreasing_by exact (body_shorter _read).trans (openQuote_shorter _quoted)

/-- What `std::string_view` makes of a literal: the text before its first NUL. -/
def stringView (text : List Char) : Option (String × List Char) :=
  match stringLiteral text with
  | none => none
  | some (bytes, rest) => (decode (bytes.takeWhile (· ≠ 0))).map fun view => (view, rest)

def escaped (cs : List Char) : List Char :=
  cs.flatMap fun c => if c = '\\' ∨ c = '"' then ['\\', c] else [c]

/-- What phase 2 leaves of an escaped text: where a backslash ended a line, one backslash
    of the two. -/
def spliced : List Char → List Char
  | [] => []
  | '\\' :: '\n' :: cs => '\\' :: spliced cs
  | c :: cs => if c = '\\' ∨ c = '"' then '\\' :: c :: spliced cs else c :: spliced cs

theorem escaped_cons (c : Char) (cs : List Char) : escaped (c :: cs) =
    (if c = '\\' ∨ c = '"' then ['\\', c] else [c]) ++ escaped cs := rfl

theorem lineEnds_cons {c : Char} (h : c ≠ '\r') (cs : List Char) :
    lineEnds (c :: cs) = c :: lineEnds cs :=
  lineEnds.eq_4 c cs (fun _ hc _ => h hc) h

theorem splice_cons {c : Char} (h : c ≠ '\\') (cs : List Char) :
    splice (c :: cs) = c :: splice cs :=
  splice.eq_3 c cs fun _ hc _ => h hc

theorem escaped_head {cs rest tail : List Char} (h : escaped cs ++ '"' :: rest = '\n' :: tail) :
    ∃ cs', cs = '\n' :: cs' := by
  cases cs with
  | nil => exact absurd (List.cons.inj h).1 (by decide)
  | cons c cs =>
    rw [escaped_cons] at h
    split at h
    · exact absurd (List.cons.inj h).1 (by decide)
    · exact ⟨cs, by rw [(List.cons.inj h).1]⟩

theorem lineEnds_escaped (cs rest : List Char) :
    lineEnds (escaped cs ++ '"' :: rest) = escaped (lineEnds cs) ++ '"' :: lineEnds rest := by
  fun_induction lineEnds cs with
  | case1 => rfl
  | case2 cs ih =>
    change '\n' :: lineEnds (escaped cs ++ '"' :: rest) = _
    rw [ih]
    rfl
  | case3 cs h ih =>
    have apart : ∀ tail, escaped cs ++ '"' :: rest = '\n' :: tail → False := by
      intro tail head
      obtain ⟨cs', rfl⟩ := escaped_head head
      exact h cs' rfl
    change lineEnds ('\r' :: (escaped cs ++ '"' :: rest)) = _
    rw [lineEnds.eq_3 _ apart, ih]
    rfl
  | case4 c cs _ h ih =>
    rw [escaped_cons, escaped_cons, List.append_assoc, List.append_assoc, ← ih]
    split
    · exact (lineEnds_cons (by decide) _).trans (congrArg _ (lineEnds_cons h _))
    · exact lineEnds_cons h _

theorem splice_escaped (cs rest : List Char) :
    splice (escaped cs ++ '"' :: rest) = spliced cs ++ '"' :: splice rest := by
  fun_induction spliced cs with
  | case1 => exact splice_cons (by decide) rest
  | case2 cs ih =>
    change splice ('\\' :: '\\' :: '\n' :: (escaped cs ++ '"' :: rest)) = _
    rw [splice.eq_3 _ _ (by simp), splice, ih]
    rfl
  | case3 c cs apart h ih =>
    rw [escaped_cons, if_pos h]
    change splice ('\\' :: c :: (escaped cs ++ '"' :: rest)) = '\\' :: c :: (spliced cs ++ _)
    rw [← ih, splice.eq_3 _ _ fun tail _ head => ?_]
    · refine congrArg _ (splice.eq_3 _ _ fun tail hc head => ?_)
      obtain ⟨cs', rfl⟩ := escaped_head head
      exact apart cs' hc rfl
    · obtain rfl := (List.cons.inj head).1
      exact absurd h (by decide)
  | case4 c cs _ h ih =>
    rw [escaped_cons, if_neg h]
    change splice (c :: (escaped cs ++ '"' :: rest)) = c :: (spliced cs ++ _)
    rw [← ih]
    exact splice_cons (fun hc => h (Or.inl hc)) _

theorem body_quote (cs : List Char) : body ('"' :: cs) = some ([], cs) := by
  rw [body]
  rfl

theorem body_newline (cs : List Char) : body ('\n' :: cs) = none := by
  rw [body]
  rfl

theorem body_cons {c : Char} (quote : c ≠ '"') (newline : c ≠ '\n') (backslash : c ≠ '\\')
    (cs : List Char) : body (c :: cs) =
      (body cs).map fun (more, after) => (String.utf8EncodeChar c ++ more, after) := by
  rw [body, if_neg quote, if_neg newline, if_neg backslash]

theorem body_escape {cs rest : List Char} {bytes : Bytes}
    (h : escapeSequence cs = some (bytes, rest)) : body ('\\' :: cs) =
      (body rest).map fun (more, after) => (bytes ++ more, after) := by
  rw [body, if_neg (by decide), if_neg (by decide), if_pos rfl]
  split
  · rename_i none
    cases none.symm.trans h
  · rename_i read
    obtain ⟨rfl, rfl⟩ := Prod.mk.inj (Option.some.inj (read.symm.trans h))
    rfl

theorem body_escape_none {cs : List Char} (h : escapeSequence cs = none) :
    body ('\\' :: cs) = none := by
  rw [body, if_neg (by decide), if_neg (by decide), if_pos rfl]
  split
  · rfl
  · rename_i read
    cases read.symm.trans h

theorem body_escaped_char {c : Char} (h : c = '\\' ∨ c = '"') (cs : List Char) :
    body ('\\' :: c :: cs) =
      (body cs).map fun (more, after) => (String.utf8EncodeChar c ++ more, after) := by
  obtain rfl | rfl := h
  · exact body_escape rfl
  · exact body_escape rfl

theorem body_spliced {cs : List Char} (h : '\n' ∉ cs) (rest : List Char) :
    body (spliced cs ++ '"' :: rest) = some (encode cs, rest) := by
  induction cs with
  | nil => exact body_quote rest
  | cons c cs ih =>
    rw [List.mem_cons, not_or] at h
    have next := ih h.2
    rw [spliced.eq_3 _ _ fun cs' _ head => ?_]
    · split
      · rename_i special
        rw [List.cons_append, List.cons_append, body_escaped_char special, next]
        rfl
      · rename_i plain
        rw [not_or] at plain
        rw [List.cons_append, body_cons plain.2 (Ne.symm h.1) plain.1, next]
        rfl
    · exact h.2 (head ▸ List.mem_cons_self)

theorem spliced_digits {ds cs rest after : List Char} (hex : ∀ d ∈ ds, isHex d = true)
    (h : spliced cs ++ '"' :: after = ds ++ rest) :
    ∃ cs', cs = ds ++ cs' ∧ rest = spliced cs' ++ '"' :: after := by
  induction ds generalizing cs with
  | nil => exact ⟨cs, rfl, h.symm⟩
  | cons d ds ih =>
    rw [List.forall_mem_cons] at hex
    have plain : d ≠ '\\' ∧ d ≠ '"' := by
      constructor
      · rintro rfl
        exact absurd hex.1 (by decide)
      · rintro rfl
        exact absurd hex.1 (by decide)
    unfold spliced at h
    split at h
    · exact absurd (List.cons.inj h).1.symm plain.2
    · exact absurd (List.cons.inj h).1.symm plain.1
    · rename_i c cs _
      split at h
      · exact absurd (List.cons.inj h).1.symm plain.1
      · obtain ⟨rfl, tails⟩ := List.cons.inj h
        obtain ⟨cs', rfl, hrest⟩ := ih hex.2 tails
        exact ⟨cs', rfl, hrest⟩

/-- A literal printed around a text is left before its last quote or there. -/
def Leaves (after rest : List Char) : Prop :=
  rest = after ∨ ∃ cs, rest = spliced cs ++ '"' :: after

/-- The bytes of a literal printed around a text: no more than the text has, and fewer if
    a line ends in it. -/
def Fits (after cs : List Char) : Prop :=
  ∀ bytes rest, body (spliced cs ++ '"' :: after) = some (bytes, rest) →
    bytes.length ≤ (encode cs).length ∧ ('\n' ∈ cs → bytes.length < (encode cs).length) ∧
    Leaves after rest

def FitsEscaped (after cs : List Char) : Prop :=
  ∀ bytes rest, body ('\\' :: (spliced cs ++ '"' :: after)) = some (bytes, rest) →
    bytes.length ≤ (encode cs).length ∧ Leaves after rest

theorem Fits.char {after cs rest : List Char} {c : Char} {more : Bytes} (next : Fits after cs)
    (ne : c ≠ '\n') (tail : body (spliced cs ++ '"' :: after) = some (more, rest)) :
    (String.utf8EncodeChar c ++ more).length ≤ (encode (c :: cs)).length ∧
      ('\n' ∈ c :: cs →
        (String.utf8EncodeChar c ++ more).length < (encode (c :: cs)).length) ∧
      Leaves after rest := by
  obtain ⟨le, lt, leaves⟩ := next more rest tail
  rw [List.length_append, String.length_utf8EncodeChar, encode_length_cons]
  refine ⟨Nat.add_le_add_left le _, fun newline => ?_, leaves⟩
  exact Nat.add_lt_add_left (lt ((List.mem_cons.mp newline).resolve_left (Ne.symm ne))) _

theorem fits_step {after cs : List Char}
    (ih : ∀ cs', cs'.length < cs.length → Fits after cs' ∧ FitsEscaped after cs') :
    Fits after cs := by
  intro bytes rest h
  unfold spliced at h
  split at h
  · rw [List.nil_append, body_quote] at h
    obtain ⟨rfl, rfl⟩ := Prod.mk.inj (Option.some.inj h)
    exact ⟨le_rfl, fun hc => absurd hc List.not_mem_nil, Or.inl rfl⟩
  · rename_i cs
    -- the break is lost with the splice
    obtain ⟨len, leaves⟩ := (ih cs (Nat.lt_add_of_pos_right Nat.two_pos)).2 bytes rest h
    simp only [encode_length_cons]
    exact ⟨by omega, fun _ => by have := ('\\').utf8Size_pos; omega, leaves⟩
  · rename_i c cs _
    have next := (ih cs (Nat.lt_succ_self _)).1
    split at h
    · rename_i special
      rw [List.cons_append, List.cons_append, body_escaped_char special] at h
      obtain ⟨more, tail, rfl⟩ := map_append_some h
      refine next.char ?_ tail
      rintro rfl
      exact absurd special (by decide)
    · rename_i plain
      rw [not_or] at plain
      by_cases newline : c = '\n'
      · subst newline
        rw [List.cons_append, body_newline] at h
        cases h
      · rw [List.cons_append, body_cons plain.2 newline plain.1] at h
        obtain ⟨more, tail, rfl⟩ := map_append_some h
        exact next.char newline tail

theorem fitsEscaped_step {after cs : List Char} (unclosed : body after = none)
    (ih : ∀ cs', cs'.length < cs.length → Fits after cs' ∧ FitsEscaped after cs') :
    FitsEscaped after cs := by
  intro bytes rest h
  unfold spliced at h
  split at h
  · rw [List.nil_append, body_escaped_char (Or.inr rfl), unclosed] at h
    cases h
  · -- the two single backslashes make one character
    rename_i cs
    rw [List.cons_append, body_escaped_char (Or.inl rfl)] at h
    obtain ⟨more, tail, rfl⟩ := map_append_some h
    obtain ⟨le, -, leaves⟩ := (ih cs (Nat.lt_add_of_pos_right Nat.two_pos)).1 more rest tail
    simp only [List.length_append, String.length_utf8EncodeChar, encode_length_cons]
    exact ⟨by omega, leaves⟩
  · rename_i c cs _
    have next := ih cs (Nat.lt_succ_self _)
    split at h
    · rename_i special
      rw [List.cons_append, List.cons_append, body_escaped_char (Or.inl rfl)] at h
      obtain ⟨more, tail, rfl⟩ := map_append_some h
      obtain rfl | rfl := special
      · -- the second backslash is single in its turn
        obtain ⟨le, leaves⟩ := next.2 more rest tail
        rw [List.length_append, String.length_utf8EncodeChar, encode_length_cons]
        exact ⟨by omega, leaves⟩
      · -- the quote has lost its backslash and closes the literal
        rw [body_quote] at tail
        obtain ⟨rfl, rfl⟩ := Prod.mk.inj (Option.some.inj tail)
        rw [List.append_nil, encode_length_cons]
        exact ⟨Nat.le_add_right _ _, Or.inr ⟨cs, rfl⟩⟩
    · -- an escape sequence that the text never meant
      cases read : escapeSequence (c :: (spliced cs ++ '"' :: after)) with
      | none =>
        rw [List.cons_append, body_escape_none read] at h
        cases h
      | some result =>
        obtain ⟨front, after'⟩ := result
        rw [List.cons_append, body_escape read] at h
        obtain ⟨more, tail, rfl⟩ := map_append_some h
        obtain ⟨-, ds, hds, hex, short⟩ := escapes read
        obtain ⟨cs', rfl, rfl⟩ := spliced_digits hex hds
        have shorter : cs'.length < (c :: (ds ++ cs')).length := by
          simp only [List.length_cons, List.length_append]
          omega
        obtain ⟨le, -, leaves⟩ := (ih cs' shorter).1 more rest tail
        refine ⟨?_, leaves⟩
        rw [← List.cons_append, encode_append, List.length_append, List.length_append]
        exact Nat.add_le_add short le

theorem fits {after : List Char} (unclosed : body after = none) (cs : List Char) :
    Fits after cs ∧ FitsEscaped after cs := by
  induction h : cs.length using Nat.strong_induction_on generalizing cs with
  | _ n ih =>
    have shorter : ∀ cs', cs'.length < cs.length → Fits after cs' ∧ FitsEscaped after cs' :=
      fun cs' hcs' => ih cs'.length (h ▸ hcs') cs' rfl
    exact ⟨fits_step shorter, fitsEscaped_step unclosed shorter⟩

theorem openQuote_blank {c : Char} (h : isBlank c = true) (cs : List Char) :
    openQuote (c :: cs) = openQuote cs := by
  unfold openQuote skipBlanks
  rw [List.dropWhile_cons_of_pos h]

theorem openQuote_other {c : Char} (blank : isBlank c = false) (h : c ≠ '"') (cs : List Char) :
    openQuote (c :: cs) = none := by
  unfold openQuote skipBlanks
  rw [List.dropWhile_cons_of_neg (by rw [blank]; exact Bool.false_ne_true)]
  split
  · rename_i head
    exact absurd (List.cons.inj head).1 h
  · rfl

theorem openQuote_spliced {cs after more : List Char}
    (h : openQuote (spliced cs ++ '"' :: after) = some more) : more = after := by
  fun_induction spliced cs with
  | case1 => exact (Option.some.inj h).symm
  | case2 cs _ => cases h
  | case3 c cs _ _ _ => cases h
  | case4 c cs _ plain ih =>
    rw [not_or] at plain
    cases blank : isBlank c with
    | true => exact ih ((openQuote_blank blank _).symm.trans h)
    | false => cases (openQuote_other blank plain.2 _).symm.trans h

section
variable {text cs rest : List Char} {bytes : Bytes} (quoted : openQuote text = some cs)
include quoted

theorem stringLiteral_none (read : body cs = none) : stringLiteral text = none := by
  unfold stringLiteral
  rw [quoted]
  dsimp only
  rw [read]

theorem stringLiteral_some (read : body cs = some (bytes, rest)) : stringLiteral text =
    if (openQuote rest).isSome then
      (stringLiteral rest).map fun (more, after) => (bytes ++ more, after)
    else some (bytes, rest) := by
  rw [stringLiteral, quoted]
  dsimp only
  rw [read]

end

theorem lineEnds_of_not_mem {cs : List Char} (h : '\r' ∉ cs) : lineEnds cs = cs := by
  induction cs with
  | nil => rfl
  | cons c cs ih =>
    rw [List.mem_cons, not_or] at h
    rw [lineEnds_cons (Ne.symm h.1), ih h.2]

theorem newline_mem_lineEnds {cs : List Char} (h : '\n' ∈ cs ∨ '\r' ∈ cs) :
    '\n' ∈ lineEnds cs := by
  fun_induction lineEnds cs with
  | case1 => exact absurd h (by decide)
  | case2 cs _ => exact List.mem_cons_self
  | case3 cs _ _ => exact List.mem_cons_self
  | case4 c cs _ ne ih =>
    rw [List.mem_cons, List.mem_cons, or_or_or_comm] at h
    obtain (rfl | hc) | h := h
    · exact List.mem_cons_self
    · exact absurd hc.symm ne
    · exact List.mem_cons_of_mem c (ih h)

theorem lineEnds_length_le (cs : List Char) :
    (encode (lineEnds cs)).length ≤ (encode cs).length := by
  have one : ('\n').utf8Size = ('\r').utf8Size := rfl
  fun_induction lineEnds cs with
  | case1 => exact le_rfl
  | case2 cs ih =>
    simp only [encode_length_cons]
    omega
  | case3 cs _ ih =>
    simp only [encode_length_cons]
    omega
  | case4 c cs _ _ ih =>
    simp only [encode_length_cons]
    omega

structure Clean (cs : List Char) : Prop where
  nul : '\x00' ∉ cs
  newline : '\n' ∉ cs
  return' : '\r' ∉ cs

/-- What stands after a literal on its line: nothing that opens or closes another. -/
structure Ends (after : List Char) : Prop where
  unclosed : body after = none
  last : openQuote after = none

theorem stringLiteral_exact {text cs after : List Char} (newline : '\n' ∉ cs)
    (quoted : openQuote text = some (spliced cs ++ '"' :: after)) (last : openQuote after = none) :
    stringLiteral text = some (encode cs, after) := by
  rw [stringLiteral_some quoted (body_spliced newline after), last]
  rfl

theorem stringLiteral_length {text cs after rest : List Char} {bytes : Bytes} (ends : Ends after)
    (quoted : openQuote text = some (spliced cs ++ '"' :: after)) (newline : '\n' ∈ cs)
    (h : stringLiteral text = some (bytes, rest)) : bytes.length < (encode cs).length := by
  cases read : body (spliced cs ++ '"' :: after) with
  | none =>
    rw [stringLiteral_none quoted read] at h
    cases h
  | some result =>
    obtain ⟨front, behind⟩ := result
    obtain ⟨-, lt, leaves⟩ := (fits ends.unclosed cs).1 front behind read
    rw [stringLiteral_some quoted read] at h
    cases more : openQuote behind with
    | none =>
      rw [more, if_neg (by decide)] at h
      obtain ⟨rfl, -⟩ := Prod.mk.inj (Option.some.inj h)
      exact lt newline
    | some next =>
      -- a quote that follows is the last one of the printed literal
      rw [more, if_pos Option.isSome_some] at h
      have closing : body next = none := by
        obtain rfl | ⟨cs', rfl⟩ := leaves
        · cases ends.last.symm.trans more
        · rw [openQuote_spliced more]
          exact ends.unclosed
      rw [stringLiteral_none more closing] at h
      cases h

theorem stringView_some {text rest : List Char} {bytes : Bytes}
    (h : stringLiteral text = some (bytes, rest)) : stringView text =
      (decode (bytes.takeWhile (· ≠ 0))).map fun view => (view, rest) := by
  unfold stringView
  rw [h]

theorem openQuote_escaped {blanks : List Char} (hblanks : blanks.all isBlank = true)
    (cs after : List Char) :
    openQuote (blanks ++ logical ('"' :: (escaped cs ++ '"' :: after))) =
      some (spliced (lineEnds cs) ++ '"' :: logical after) := by
  have printed : logical ('"' :: (escaped cs ++ '"' :: after)) =
      '"' :: (spliced (lineEnds cs) ++ '"' :: logical after) := by
    unfold logical
    rw [lineEnds_cons (by decide), lineEnds_escaped, splice_cons (by decide), splice_escaped]
  rw [printed]
  induction blanks with
  | nil => rfl
  | cons c blanks ih =>
    rw [List.all_cons, Bool.and_eq_true] at hblanks
    exact (openQuote_blank hblanks.1 _).trans (ih hblanks.2)

theorem stringView_of_clean {blanks cs after : List Char} (hblanks : blanks.all isBlank = true)
    (clean : Clean cs) (last : openQuote (logical after) = none) :
    stringView (blanks ++ logical ('"' :: (escaped cs ++ '"' :: after))) =
      some (String.ofList cs, logical after) := by
  have quoted := openQuote_escaped hblanks cs after
  rw [lineEnds_of_not_mem clean.return'] at quoted
  rw [stringView_some (stringLiteral_exact clean.newline quoted last), takeWhile_encode,
    (takeWhile_eq_self_iff cs).mpr clean.nul, decode_encode]
  rfl

theorem clean_of_stringView {blanks cs after rest : List Char}
    (hblanks : blanks.all isBlank = true) (ends : Ends (logical after))
    (h : stringView (blanks ++ logical ('"' :: (escaped cs ++ '"' :: after))) =
      some (String.ofList cs, rest)) : Clean cs := by
  have quoted := openQuote_escaped hblanks cs after
  have lines : ¬('\n' ∈ cs ∨ '\r' ∈ cs) := by
    intro broken
    cases read : stringLiteral (blanks ++ logical ('"' :: (escaped cs ++ '"' :: after))) with
    | none =>
      unfold stringView at h
      rw [read] at h
      cases h
    | some result =>
      obtain ⟨bytes, behind⟩ := result
      have short := stringLiteral_length ends quoted (newline_mem_lineEnds broken) read
      rw [stringView_some read] at h
      obtain ⟨text, hdecode, h⟩ := Option.map_eq_some_iff.mp h
      obtain ⟨rfl, rfl⟩ := Prod.mk.inj h
      have whole : (bytes.takeWhile (· ≠ 0)).length = (encode cs).length := by
        rw [decode_some hdecode, view, String.toList_ofList]
      have cut := (List.takeWhile_prefix (l := bytes) (· ≠ 0)).length_le
      have unfolded := lineEnds_length_le cs
      omega
  rw [not_or] at lines
  rw [lineEnds_of_not_mem lines.2] at quoted
  rw [stringView_some (stringLiteral_exact lines.1 quoted ends.last), takeWhile_encode,
    decode_encode] at h
  obtain ⟨text, htext, h⟩ := Option.map_eq_some_iff.mp h
  have cut := (Option.some.inj htext).trans (congrArg Prod.fst h)
  exact ⟨(takeWhile_eq_self_iff cs).mp (String.ofList_injective cut), lines.1, lines.2⟩

/-- A literal printed around a text reads as the text exactly if the text is clean. -/
theorem stringView_iff {blanks cs after rest : List Char} (hblanks : blanks.all isBlank = true)
    (ends : Ends (logical after)) :
    stringView (blanks ++ logical ('"' :: (escaped cs ++ '"' :: after))) =
      some (String.ofList cs, rest) ↔ Clean cs ∧ rest = logical after := by
  constructor
  · intro h
    have clean := clean_of_stringView hblanks ends h
    rw [stringView_of_clean hblanks clean ends.last] at h
    exact ⟨clean, (congrArg Prod.snd (Option.some.inj h)).symm⟩
  · rintro ⟨clean, rfl⟩
    exact stringView_of_clean hblanks clean ends.last

end CyborgdbEmbed.CppLiterals

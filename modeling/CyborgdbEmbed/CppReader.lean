import CyborgdbEmbed.CppLiterals
import Mathlib.Data.List.Basic
import Mathlib.Data.List.Count

set_option autoImplicit false

namespace CyborgdbEmbed.CppReader
open CppLiterals

abbrev Reader := StateT (List Char) Option

variable {α β : Type}

def isWordChar (c : Char) : Bool := c.isAlphanum || c = '_'

def token : Reader (List Char) := fun text =>
  match skipBlanks text with
  | [] => none
  | c :: cs =>
    if isWordChar c then some (c :: cs.takeWhile isWordChar, cs.dropWhile isWordChar)
    else if c = ':' && cs.head? = some ':' then some ([':', ':'], cs.tail)
    else some ([c], cs)

def expect (spelling : String) : Reader Unit := do
  let spelled ← token
  if spelled = spelling.toList then pure () else failure

def expectAll (spellings : List String) : Reader Unit := spellings.forM expect

def isIdentifier : List Char → Bool
  | [] => false
  | c :: cs => isWordChar c && !c.isDigit && cs.all isWordChar

def identifier : Reader String := do
  let word ← token
  if isIdentifier word then pure (String.ofList word) else failure

/-- A decimal literal, of any size. A zero in front would make it an octal one. -/
def isDecimal (word : List Char) : Bool :=
  word.all Char.isDigit && (word.head? != some '0' || word.length == 1)

def decimal : Reader ℕ := do
  let word ← token
  if isDecimal word then pure (Nat.ofDigitChars 10 word 0) else failure

def boolean : Reader Bool := do
  let word ← token
  if word = "true".toList then pure true
  else if word = "false".toList then pure false
  else failure

def string : Reader String := stringView

def clause (p : Reader α) : Reader α := do
  let a ← p
  expect ","
  pure a

/-- The initializers of a list up to its closing brace, at most `n` of them less one. -/
def elements (p : Reader α) : ℕ → Reader (List α)
  | 0 => failure
  | n + 1 => (do expect "\x7d"; pure []) <|> do
    let a ← clause p
    let rest ← elements p n
    pure (a :: rest)

def braced (p : Reader α) : Reader (List α) := do
  expect "\x7b"
  let text ← get
  elements p text.length

/-- `text` is read as `a`, with `after` left over, exactly if `P`. -/
def Reads (p : Reader α) (text : List Char) (a : α) (P : Prop) (after : List Char) : Prop :=
  ∀ rest, p.run text = some (a, rest) ↔ P ∧ rest = after

def Returns (p : Reader α) (Q : α → Prop) : Prop :=
  ∀ text a rest, p.run text = some (a, rest) → Q a

theorem run_bind_some {p : Reader α} {f : α → Reader β} {text rest : List Char} {b : β} :
    (p >>= f).run text = some (b, rest) ↔
      ∃ a between, p.run text = some (a, between) ∧ (f a).run between = some (b, rest) := by
  rw [StateT.run_bind]
  constructor
  · intro h
    obtain ⟨⟨a, between⟩, hp, hf⟩ := Option.bind_eq_some_iff.mp h
    exact ⟨a, between, hp, hf⟩
  · rintro ⟨a, between, hp, hf⟩
    exact Option.bind_eq_some_iff.mpr ⟨(a, between), hp, hf⟩

theorem run_step {p : Reader α} {f : α → Reader β} {text between : List Char} {a : α}
    (h : p.run text = some (a, between)) : (p >>= f).run text = (f a).run between := by
  rw [StateT.run_bind, h]
  rfl

theorem Returns.pure {a : α} {Q : α → Prop} (h : Q a) : Returns (pure a : Reader α) Q := by
  intro text b rest hread
  obtain ⟨rfl, -⟩ := Prod.mk.inj (Option.some.inj hread)
  exact h

theorem Returns.bind {p : Reader α} {f : α → Reader β} {Q : β → Prop}
    (h : ∀ a, Returns (f a) Q) : Returns (p >>= f) Q := by
  intro text b rest hread
  obtain ⟨a, between, -, hf⟩ := run_bind_some.mp hread
  exact h a between b rest hf

theorem Reads.of_run {p : Reader α} {text after : List Char} {a : α}
    (h : p.run text = some (a, after)) : Reads p text a True after := by
  intro rest
  rw [h, Option.some.injEq, Prod.mk.injEq, eq_self, true_and, true_and, eq_comm]

theorem Reads.pure (a : α) (text : List Char) : Reads (pure a) text a True text :=
  Reads.of_run rfl

theorem Reads.bind {p : Reader α} {f : α → Reader β} {text between after : List Char} {a : α}
    {b : β} {P Q : Prop} (hp : Reads p text a P between)
    (hf : P → Reads (f a) between b Q after)
    (determined : ∀ x, Returns (f x) fun y => y = b → x = a) :
    Reads (p >>= f) text b (P ∧ Q) after := by
  intro rest
  rw [run_bind_some]
  constructor
  · rintro ⟨x, middle, hread, hrest⟩
    obtain rfl := determined x middle b rest hrest rfl
    obtain ⟨hP, rfl⟩ := (hp middle).mp hread
    obtain ⟨hQ, rfl⟩ := (hf hP rest).mp hrest
    exact ⟨⟨hP, hQ⟩, rfl⟩
  · rintro ⟨⟨hP, hQ⟩, rfl⟩
    exact ⟨a, between, (hp between).mpr ⟨hP, rfl⟩, (hf hP rest).mpr ⟨hQ, rfl⟩⟩

theorem Reads.step {p : Reader α} {f : α → Reader β} {text between after : List Char} {a : α}
    {b : β} {Q : Prop} (hp : p.run text = some (a, between))
    (hf : Reads (f a) between b Q after) : Reads (p >>= f) text b Q after := by
  intro rest
  rw [run_step hp]
  exact hf rest

theorem Reads.congr {p : Reader α} {text after : List Char} {a : α} {P Q : Prop}
    (h : Reads p text a P after) (hPQ : P ↔ Q) : Reads p text a Q after :=
  fun rest => (h rest).trans (and_congr_left' hPQ)

theorem Reads.last {p : Reader α} {f : α → Reader β} {text between after : List Char} {a : α}
    {b : β} {P : Prop} (hp : Reads p text a P between)
    (hf : P → Reads (f a) between b True after)
    (determined : ∀ x, Returns (f x) fun y => y = b → x = a) : Reads (p >>= f) text b P after :=
  (Reads.bind hp hf determined).congr (by rw [and_true])

theorem clause_reads {p : Reader α} {text between after : List Char} {a : α} {P : Prop}
    (hp : Reads p text a P between) (comma : (expect ",").run between = some ((), after)) :
    Reads (clause p) text a P after := by
  refine Reads.last hp (fun _ => Reads.step comma (Reads.pure a after)) fun x => ?_
  exact Returns.bind fun _ => Returns.pure id

theorem elements_close {p : Reader α} {n : ℕ} {text after : List Char}
    (close : (expect "\x7d").run text = some ((), after)) :
    (elements p (n + 1)).run text = some ([], after) := by
  change (((expect "\x7d").run text).bind fun _ => _).orElse _ = _
  rw [close]
  rfl

theorem elements_open {p : Reader α} {n : ℕ} {text : List Char}
    (more : (expect "\x7d").run text = none) : (elements p (n + 1)).run text =
      (clause p >>= fun a => elements p n >>= fun rest => pure (a :: rest)).run text := by
  change (((expect "\x7d").run text).bind fun _ => _).orElse _ = _
  rw [more]
  rfl

section
variable {γ : Type} {p : Reader α} {printed : γ → List Char} {value : γ → α} {P : γ → Prop}
  {after behind : List Char}

theorem elements_reads {rows : List γ}
    (each : ∀ row ∈ rows, ∀ more,
      Reads (clause p) (logical (printed row ++ more)) (value row) (P row)
        (logical more))
    (starts : ∀ row more, (expect "\x7d").run (logical (printed row ++ more)) = none)
    (close : (expect "\x7d").run (logical after) = some ((), behind)) {n : ℕ}
    (fuel : rows.length < n) :
    Reads (elements p n) (logical (rows.flatMap printed ++ after)) (rows.map value)
      (∀ row ∈ rows, P row) behind := by
  induction rows generalizing n with
  | nil =>
    obtain ⟨n, rfl⟩ := Nat.exists_eq_add_of_lt fuel
    refine (Reads.of_run (elements_close close)).congr ?_
    simp
  | cons row rows ih =>
    obtain ⟨n, rfl⟩ : ∃ m, n = m + 1 := ⟨n - 1, by omega⟩
    rw [List.forall_mem_cons] at each
    intro rest
    rw [List.flatMap_cons, List.append_assoc, elements_open (starts row _)]
    have tail : Reads (do let rest ← elements p n; pure (value row :: rest)) _
        ((row :: rows).map value) _ behind :=
      Reads.last (ih each.2 (Nat.lt_of_succ_lt_succ fuel)) (fun _ => Reads.pure _ _)
        fun x => Returns.pure fun h => (List.cons.inj h).2
    refine (Reads.bind (each.1 _) (fun _ => tail) fun x => ?_).congr ?_ rest
    · exact Returns.bind fun _ => Returns.pure fun h => (List.cons.inj h).1
    · rw [List.forall_mem_cons]

end

theorem count_lineEnds {c : Char} (newline : c ≠ '\n') (carriage : c ≠ '\r') (text : List Char) :
    (lineEnds text).count c = text.count c := by
  fun_induction lineEnds text with
  | case1 => rfl
  | case2 text ih => simp [ih, newline.symm, carriage.symm]
  | case3 text _ ih => simp [ih, newline.symm, carriage.symm]
  | case4 d text _ _ ih => simp [List.count_cons, ih]

theorem count_splice {c : Char} (newline : c ≠ '\n') (backslash : c ≠ '\\') (text : List Char) :
    (splice text).count c = text.count c := by
  fun_induction splice text with
  | case1 => rfl
  | case2 text ih => simp [ih, newline.symm, backslash.symm]
  | case3 d text _ ih => simp [List.count_cons, ih]

theorem count_logical {c : Char} (newline : c ≠ '\n') (carriage : c ≠ '\r') (backslash : c ≠ '\\')
    (text : List Char) : (logical text).count c = text.count c :=
  (count_splice newline backslash _).trans (count_lineEnds newline carriage text)

theorem length_le_count {γ : Type} {printed : γ → List Char} {c : Char}
    (h : ∀ row, c ∈ printed row) (rows : List γ) :
    rows.length ≤ (rows.flatMap printed).count c := by
  induction rows with
  | nil => exact le_rfl
  | cons row rows ih =>
    have one := List.count_pos_iff.mpr (h row)
    rw [List.flatMap_cons, List.count_append, List.length_cons]
    omega

theorem braced_reads {γ : Type} {p : Reader α} {printed : γ → List Char} {value : γ → α}
    {P : γ → Prop} {text after behind : List Char} {rows : List γ}
    (opens : (expect "\x7b").run text = some ((), logical (rows.flatMap printed ++ after)))
    (each : ∀ row ∈ rows, ∀ more,
      Reads (clause p) (logical (printed row ++ more)) (value row) (P row) (logical more))
    (starts : ∀ row more, (expect "\x7d").run (logical (printed row ++ more)) = none)
    (close : (expect "\x7d").run (logical after) = some ((), behind))
    (mark : ∀ row, '}' ∈ printed row) (last : '}' ∈ after) :
    Reads (braced p) text (rows.map value) (∀ row ∈ rows, P row) behind := by
  have fuel : rows.length < (logical (rows.flatMap printed ++ after)).length := by
    have rowMarks := length_le_count mark rows
    have lastMark := List.count_pos_iff.mpr last
    refine lt_of_lt_of_le ?_ (List.count_le_length (a := '}'))
    rw [count_logical (by decide) (by decide) (by decide), List.count_append]
    omega
  exact Reads.step opens (Reads.step rfl (elements_reads each starts close fuel))

def isPlain (c : Char) : Bool := c ≠ '\\' && c ≠ '\r'

def isOpen (c : Char) : Bool := isPlain c && c ≠ '"' && c ≠ '\n'

theorem isPlain_iff {c : Char} : isPlain c = true ↔ c ≠ '\\' ∧ c ≠ '\r' := by
  unfold isPlain
  rw [Bool.and_eq_true, decide_eq_true_eq, decide_eq_true_eq]

theorem isOpen_iff {c : Char} : isOpen c = true ↔ isPlain c = true ∧ c ≠ '"' ∧ c ≠ '\n' := by
  unfold isOpen
  rw [Bool.and_eq_true, Bool.and_eq_true, decide_eq_true_eq, decide_eq_true_eq, and_assoc]

theorem logical_cons {c : Char} (h : isPlain c = true) (rest : List Char) :
    logical (c :: rest) = c :: logical rest := by
  obtain ⟨backslash, carriage⟩ := isPlain_iff.mp h
  unfold logical
  rw [lineEnds_cons carriage, splice_cons backslash]

theorem logical_plain {plain : List Char} (h : plain.all isPlain = true) (rest : List Char) :
    logical (plain ++ rest) = plain ++ logical rest := by
  induction plain with
  | nil => rfl
  | cons c plain ih =>
    rw [List.all_cons, Bool.and_eq_true] at h
    rw [List.cons_append, logical_cons h.1, ih h.2, List.cons_append]

theorem body_line {line : List Char} (h : line.all isOpen = true) (rest : List Char) :
    body (logical (line ++ '\n' :: rest)) = none := by
  induction line with
  | nil => rw [List.nil_append, logical_cons rfl, body_newline]
  | cons c line ih =>
    rw [List.all_cons, Bool.and_eq_true] at h
    obtain ⟨plain, quote, newline⟩ := isOpen_iff.mp h.1
    rw [List.cons_append, logical_cons plain,
      body_cons quote newline (isPlain_iff.mp plain).1, ih h.2]
    rfl

theorem skipBlanks_append {blanks : List Char} (h : blanks.all isBlank = true) (rest : List Char) :
    skipBlanks (blanks ++ rest) = skipBlanks rest :=
  List.dropWhile_append_of_pos (List.all_eq_true.mp h)

theorem not_isBlank {c : Char} (h : isWordChar c = true) : isBlank c ≠ true := by
  intro blank
  simp only [isBlank, Bool.or_eq_true, decide_eq_true_eq] at blank
  obtain (((rfl | rfl) | rfl) | rfl) | rfl := blank
  all_goals exact absurd h (by decide)

theorem token_word {blanks word : List Char} {c : Char} (hblanks : blanks.all isBlank = true)
    (hword : word.all isWordChar = true) (ne : word ≠ []) (stop : isWordChar c = false)
    (rest : List Char) : token.run (blanks ++ (word ++ c :: rest)) = some (word, c :: rest) := by
  obtain ⟨d, word, rfl⟩ := List.exists_cons_of_ne_nil ne
  rw [List.all_cons, Bool.and_eq_true] at hword
  have inside := List.all_eq_true.mp hword.2
  have skipped : skipBlanks (blanks ++ (d :: word ++ c :: rest)) = d :: (word ++ c :: rest) := by
    rw [skipBlanks_append hblanks]
    exact List.dropWhile_cons_of_neg (not_isBlank hword.1)
  have neg : ¬isWordChar c = true := by rw [stop]; exact Bool.false_ne_true
  change (match skipBlanks (blanks ++ (d :: word ++ c :: rest)) with | [] => _ | c :: cs => _) = _
  rw [skipped]
  dsimp only
  rw [if_pos hword.1, List.takeWhile_append_of_pos inside, List.dropWhile_append_of_pos inside,
    List.takeWhile_cons_of_neg neg, List.dropWhile_cons_of_neg neg, List.append_nil]

theorem blank_plain {blanks : List Char} (h : blanks.all isBlank = true) :
    blanks.all isPlain = true := by
  refine List.all_eq_true.mpr fun c hc => ?_
  have blank := List.all_eq_true.mp h c hc
  simp only [isBlank, Bool.or_eq_true, decide_eq_true_eq] at blank
  obtain (((rfl | rfl) | rfl) | rfl) | rfl := blank
  all_goals rfl

theorem word_open {word : List Char} (h : word.all isWordChar = true) :
    word.all isOpen = true := by
  refine List.all_eq_true.mpr fun c hc => ?_
  have inside := List.all_eq_true.mp h c hc
  refine isOpen_iff.mpr ⟨isPlain_iff.mpr ⟨?_, ?_⟩, ?_, ?_⟩
  all_goals
    rintro rfl
    exact absurd inside (by decide)

theorem word_plain {word : List Char} (h : word.all isWordChar = true) :
    word.all isPlain = true :=
  List.all_eq_true.mpr fun c hc => (isOpen_iff.mp (List.all_eq_true.mp (word_open h) c hc)).1

theorem expect_skip {blanks : List Char} (h : blanks.all isBlank = true) (spelling : String)
    (rest : List Char) : (expect spelling).run (blanks ++ rest) = (expect spelling).run rest := by
  have skipped : token.run (blanks ++ rest) = token.run rest := by
    change (match skipBlanks (blanks ++ rest) with | [] => _ | c :: cs => _) = _
    rw [skipBlanks_append h]
    rfl
  rw [expect, StateT.run_bind, skipped]
  rfl

theorem logical_blanks {blanks : List Char} (h : blanks.all isBlank = true) (rest : List Char) :
    logical (blanks ++ rest) = blanks ++ logical rest :=
  logical_plain (blank_plain h) rest

theorem token_append {text tail word : List Char} (h : token.run text = some (word, tail))
    (ne : tail ≠ []) (rest : List Char) : token.run (text ++ rest) = some (word, tail ++ rest) := by
  change (match skipBlanks text with | [] => _ | c :: cs => _) = _ at h
  change (match skipBlanks (text ++ rest) with | [] => _ | c :: cs => _) = _
  cases skipped : skipBlanks text with
  | nil =>
    rw [skipped] at h
    cases h
  | cons c cs =>
    have longer : skipBlanks (text ++ rest) = c :: (cs ++ rest) := by
      unfold skipBlanks at skipped ⊢
      rw [List.dropWhile_append, skipped]
      rfl
    rw [skipped] at h
    rw [longer]
    dsimp only at h ⊢
    split at h
    · rename_i isWord
      obtain ⟨rfl, rfl⟩ := Prod.mk.inj (Option.some.inj h)
      have stops : ¬(cs.takeWhile isWordChar).length = cs.length := by
        intro whole
        have split : cs.takeWhile isWordChar ++ cs.dropWhile isWordChar = cs :=
          List.takeWhile_append_dropWhile
        have lengths := congrArg List.length split
        have pos := List.length_pos_iff.mpr ne
        rw [List.length_append, whole] at lengths
        omega
      rw [if_pos isWord, List.takeWhile_append, if_neg stops, List.dropWhile_append,
        if_neg (by rwa [List.isEmpty_iff])]
    · rename_i other
      rw [if_neg other]
      cases cs with
      | nil =>
        split at h
        · rename_i colons
          rw [Bool.and_eq_true] at colons
          cases colons.2
        · exact absurd (Prod.mk.inj (Option.some.inj h)).2.symm ne
      | cons d cs =>
        rw [List.cons_append, List.head?_cons, List.tail_cons]
        rw [List.head?_cons, List.tail_cons] at h
        split at h
        · rename_i colons
          obtain ⟨rfl, rfl⟩ := Prod.mk.inj (Option.some.inj h)
          rw [if_pos colons]
        · rename_i single
          obtain ⟨rfl, rfl⟩ := Prod.mk.inj (Option.some.inj h)
          rw [if_neg single]
          rfl

theorem expect_iff {spelling : String} {text tail : List Char} :
    (expect spelling).run text = some ((), tail) ↔
      token.run text = some (spelling.toList, tail) := by
  unfold expect
  rw [run_bind_some]
  constructor
  · rintro ⟨word, between, read, h⟩
    split at h
    · rename_i spelled
      obtain ⟨-, rfl⟩ := Prod.mk.inj (Option.some.inj h)
      rw [← spelled]
      exact read
    · cases h
  · intro read
    exact ⟨spelling.toList, tail, read, by rw [if_pos rfl]; rfl⟩

theorem expectAll_cons {spelling : String} {spellings : List String} {text tail : List Char} :
    (expectAll (spelling :: spellings)).run text = some ((), tail) ↔ ∃ between,
      token.run text = some (spelling.toList, between) ∧
        (expectAll spellings).run between = some ((), tail) := by
  change (expect spelling >>= fun _ => expectAll spellings).run _ = _ ↔ _
  rw [run_bind_some]
  constructor
  · rintro ⟨_, between, first, others⟩
    exact ⟨between, expect_iff.mp first, others⟩
  · rintro ⟨between, first, others⟩
    exact ⟨(), between, expect_iff.mpr first, others⟩

theorem expectAll_append {spellings : List String} {text tail : List Char}
    (h : (expectAll spellings).run text = some ((), tail)) (ne : tail ≠ []) (rest : List Char) :
    (expectAll spellings).run (text ++ rest) = some ((), tail ++ rest) := by
  induction spellings generalizing text with
  | nil =>
    obtain ⟨-, rfl⟩ := Prod.mk.inj (Option.some.inj h)
    rfl
  | cons spelling spellings ih =>
    obtain ⟨between, first, others⟩ := expectAll_cons.mp h
    have more : between ≠ [] := by
      rintro rfl
      cases spellings with
      | nil => exact ne (Prod.mk.inj (Option.some.inj others)).2.symm
      | cons _ _ =>
        obtain ⟨_, second, -⟩ := expectAll_cons.mp others
        cases second
    exact expectAll_cons.mpr ⟨_, token_append first more rest, ih others⟩

theorem expectAll_skip {blanks : List Char} (h : blanks.all isBlank = true) (spelling : String)
    (spellings : List String) (rest : List Char) :
    (expectAll (spelling :: spellings)).run (logical (blanks ++ rest)) =
      (expectAll (spelling :: spellings)).run (logical rest) := by
  change (expect spelling >>= fun _ => expectAll spellings).run _ =
    (expect spelling >>= fun _ => expectAll spellings).run _
  rw [logical_blanks h, StateT.run_bind, StateT.run_bind, expect_skip h]

theorem expectAll_logical {spellings : List String} {text tail : List Char}
    (h : (expectAll spellings).run text = some ((), tail)) (ne : tail ≠ [])
    (htext : text.all isPlain = true)
    (htail : tail.all isPlain = true) (rest : List Char) :
    (expectAll spellings).run (logical (text ++ rest)) = some ((), logical (tail ++ rest)) := by
  rw [logical_plain htext, logical_plain htail]
  exact expectAll_append h ne _

theorem expect_symbol {blanks : List Char} {spelling : String} {c : Char}
    (hblanks : blanks.all isBlank = true) (plain : isPlain c = true)
    (h : ∀ rest, (expect spelling).run (c :: rest) = some ((), rest)) (rest : List Char) :
    (expect spelling).run (logical (blanks ++ c :: rest)) = some ((), logical rest) := by
  rw [logical_blanks hblanks, expect_skip hblanks, logical_cons plain]
  exact h _

theorem expect_comma (rest : List Char) :
    (expect ",").run (logical (',' :: rest)) = some ((), logical rest) :=
  expect_symbol (show List.all [] isBlank = true from rfl) rfl (fun _ => rfl) rest

theorem clause_run {p : Reader α} {text rest : List Char} {a : α}
    (h : p.run text = some (a, logical (',' :: rest))) :
    (clause p).run text = some (a, logical rest) := by
  exact ((clause_reads (Reads.of_run h) (expect_comma rest)) _).mpr ⟨trivial, rfl⟩

theorem word_run {blanks word : List Char} {c : Char} (hblanks : blanks.all isBlank = true)
    (hword : word.all isWordChar = true) (ne : word ≠ []) (stop : isWordChar c = false)
    (plain : isPlain c = true) (rest : List Char) :
    token.run (logical (blanks ++ (word ++ c :: rest))) = some (word, logical (c :: rest)) := by
  rw [logical_blanks hblanks, logical_plain (word_plain hword), logical_cons plain]
  exact token_word hblanks hword ne stop _

theorem identifier_word {word : List Char} (h : isIdentifier word = true) :
    word ≠ [] ∧ word.all isWordChar = true := by
  cases word with
  | nil => cases h
  | cons c cs =>
    simp only [isIdentifier, Bool.and_eq_true] at h
    refine ⟨List.cons_ne_nil c cs, ?_⟩
    rw [List.all_cons, h.1.1, h.2]
    rfl

theorem identifier_run {name : String} (h : isIdentifier name.toList = true) (rest : List Char) :
    identifier.run (logical (name.toList ++ ',' :: rest)) = some (name, logical (',' :: rest)) := by
  obtain ⟨ne, chars⟩ := identifier_word h
  have read := word_run (c := ',') (show List.all [] isBlank = true from rfl) chars ne rfl rfl rest
  rw [List.nil_append] at read
  rw [identifier, run_step read, if_pos h, String.ofList_toList]
  rfl

theorem toDigits_head {n : ℕ} (pos : 0 < n) : (Nat.toDigits 10 n).head? ≠ some '0' := by
  induction n using Nat.strong_induction_on with
  | _ n ih =>
    rw [Nat.toDigits_eq_if (by decide)]
    split
    · rename_i small
      exact (by decide : ∀ d < 10, 0 < d → [Nat.digitChar d].head? ≠ some '0') n small pos
    · rw [List.head?_append_of_ne_nil _ Nat.toDigits_ne_nil]
      exact ih (n / 10) (by omega) (by omega)

theorem isDecimal_toDigits (n : ℕ) : isDecimal (Nat.toDigits 10 n) = true := by
  refine Bool.and_eq_true_iff.mpr ⟨List.all_eq_true.mpr fun c hc => ?_, ?_⟩
  · exact Nat.isDigit_of_mem_toDigits (by decide) (by decide) hc
  · obtain rfl | pos := Nat.eq_zero_or_pos n
    · rfl
    · simp [toDigits_head pos]

theorem toDigits_word (n : ℕ) : (Nat.toDigits 10 n).all isWordChar = true := by
  refine List.all_eq_true.mpr fun c hc => ?_
  have digit : c.isDigit = true := Nat.isDigit_of_mem_toDigits (by decide) (by decide) hc
  simp [isWordChar, Char.isAlphanum, digit]

theorem decimal_run {blanks : List Char} (hblanks : blanks.all isBlank = true) (n : ℕ) {c : Char}
    (stop : isWordChar c = false) (plain : isPlain c = true)
    (rest : List Char) : decimal.run (logical (blanks ++ (Nat.toDigits 10 n ++ c :: rest))) =
      some (n, logical (c :: rest)) := by
  rw [decimal, run_step (word_run hblanks (toDigits_word n) Nat.toDigits_ne_nil stop plain rest),
    if_pos (isDecimal_toDigits n), Nat.ofDigitChars_ten_toDigits]
  rfl

theorem boolean_run (b : Bool) (rest : List Char) :
    boolean.run (logical (' ' :: ((toString b).toList ++ '}' :: rest))) =
      some (b, logical ('}' :: rest)) := by
  have plain : (toString b).toList.all isPlain = true := by
    cases b with
    | false => rfl
    | true => rfl
  rw [logical_cons rfl, logical_plain plain, logical_cons rfl]
  cases b with
  | false => rfl
  | true => rfl

theorem string_clause {blanks rest : List Char} {text : String}
    (hblanks : blanks.all isBlank = true)
    (h : Clean text.toList ∨ body (logical (',' :: rest)) = none) :
    Reads (clause string) (logical (blanks ++ '"' :: (escaped text.toList ++ '"' :: ',' :: rest)))
      text (Clean text.toList) (logical rest) := by
  have last : openQuote (logical (',' :: rest)) = none := by
    rw [logical_cons rfl]
    rfl
  have reads : Reads string (logical (blanks ++ '"' :: (escaped text.toList ++ '"' :: ',' :: rest)))
      text (Clean text.toList) (logical (',' :: rest)) := by
    rw [logical_blanks hblanks]
    obtain clean | unclosed := h
    · have whole : string.run _ = some _ := stringView_of_clean hblanks clean last
      rw [String.ofList_toList] at whole
      exact (Reads.of_run whole).congr (iff_of_true trivial clean)
    · intro after
      rw [← stringView_iff hblanks ⟨unclosed, last⟩, String.ofList_toList]
      rfl
  exact clause_reads reads (expect_comma rest)

end CyborgdbEmbed.CppReader

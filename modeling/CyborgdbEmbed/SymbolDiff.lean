import CyborgdbEmbed.CppLiterals
import CyborgdbEmbed.LinePatterns
import CyborgdbEmbed.RegistryText
import CyborgdbEmbed.TextLines
import Mathlib.Data.Char
import Mathlib.Data.List.AList
import Mathlib.Data.List.Lex
import Mathlib.Data.List.Sort
import Mathlib.Data.Set.Card

set_option autoImplicit false

namespace CyborgdbEmbed.SymbolDiff
open CppLiterals (lineEnds)
open LinePatterns
open RegistryText (isSpace)
open TextLines

abbrev Name := List Char

inductive Binding
  | strong | weak | common | hidden
  deriving DecidableEq, Repr

def Binding.text : Binding → List Char
  | strong => "strong".toList
  | weak => "weak".toList
  | common => "common".toList
  | hidden => "hidden".toList

inductive Family
  | abseil | flatbuffers | re2 | protobuf | other
  deriving DecidableEq, Repr

def Family.text : Family → List Char
  | abseil => "abseil".toList
  | flatbuffers => "flatbuffers".toList
  | re2 => "re2".toList
  | protobuf => "protobuf".toList
  | other => "other".toList

def FAMILIES : List (Family × List String) :=
  [(.abseil, ["absl"]), (.flatbuffers, ["flatbuffers"]), (.re2, ["re2", "RE2"]),
    (.protobuf, ["protobuf"])]

/-- GNU nm type letters for symbols this object defines and exports. -/
def ELF_BINDING : List (String × Binding) :=
  [("T", .strong), ("D", .strong), ("B", .strong), ("R", .strong), ("W", .weak), ("V", .weak),
    ("C", .common)]

def ARTIFACT_PREFIXES : List String := ["GCC_except_table", "l_.str", "_OBJC_"]

def isArtifact (name : Name) : Bool :=
  ARTIFACT_PREFIXES.any fun start => start.toList.isPrefixOf name

def within (needle : String) (text : List Char) : Bool := decide (needle.toList <:+: text)

/-- The symbol and the binding on a line of `nm -m`. -/
def machoLine (line : List Char) : Option (Name × Binding) :=
  -- "non-external" contains "external": test it first.
  if within "(undefined)" line || within "non-external" line then none
  else
    let binding : Option Binding :=
      if within "private external" line then some .hidden
      else if within "weak external" line then some .weak
      else if within "external" line then some .strong
      else none
    match binding, (words isSpace line).getLast? with
    | some binding, some name => if isArtifact name then none else some (name, binding)
    | _, _ => none

/-- The symbol and the binding on a line of `nm -g --defined-only`. -/
def elfLine (line : List Char) : Option (Name × Binding) :=
  match (words isSpace line).reverse with
  | name :: letter :: _ =>
    match ELF_BINDING.lookup (String.ofList letter) with
    | some binding => if isArtifact name then none else some (name, binding)
    | none => none
  | _ => none

/-- A binding per symbol. A later one takes the place of the one before. -/
abbrev Symbols := AList fun _ : Name => Binding

section
variable (system : String) (printed : List String → List Char)

def run (argv : List String) : List Char := lineEnds (printed argv)

/-- The symbols and the bindings in the order in which they are listed. -/
def listed (paths : List String) : List (Name × Binding) :=
  if system == "Darwin" then
    paths.flatMap fun path => (splitlines (run printed ["nm", "-m", path])).filterMap machoLine
  else
    paths.flatMap fun path =>
      (splitlines (run printed ["nm", "-g", "--defined-only", path])).filterMap elfLine

def definedSymbols (paths : List String) : Symbols :=
  (listed system printed paths).foldl (fun symbols s => symbols.insert s.1 s.2) ∅

end

def classify (name : Name) : Family :=
  ((FAMILIES.find? fun f => f.2.any fun needle => within needle name).map Prod.fst).getD .other

structure Args where
  a : List String
  b : List String
  labelA : String
  labelB : String
  /-- print N example symbols per family -/
  shown : ℤ

def shared (a b : Symbols) : List Name :=
  (a.keys.filter fun name => decide (name ∈ b.keys)).insertionSort (· ≤ ·)

def breakdown (a b : Symbols) (family : Family) (binding : Binding) : ℕ :=
  (shared a b).countP fun name =>
    decide (classify name = family) && decide (a.lookup name = some binding)

/-- The families of the shared symbols, in the order in which they first occur. -/
def families (a b : Symbols) : List Family := ((shared a b).map classify).eraseDups

def total (a b : Symbols) (family : Family) : ℕ :=
  breakdown a b family .strong + breakdown a b family .weak + breakdown a b family .common +
    breakdown a b family .hidden

def header : List Char :=
  "family".toList.rightpad 14 ' ' ++ "total".toList.leftpad 8 ' ' ++
    "strong".toList.leftpad 9 ' ' ++ "weak".toList.leftpad 7 ' ' ++ "hidden".toList.leftpad 8 ' '

def row (a b : Symbols) (family : Family) : List Char :=
  family.text.rightpad 14 ' ' ++ column 8 (total a b family) ++
    column 9 (breakdown a b family .strong) ++ column 7 (breakdown a b family .weak) ++
    column 8 (breakdown a b family .hidden)

def upTo {α : Type} (n : ℤ) (xs : List α) : List α :=
  if 0 ≤ n then xs.take n.toNat else xs.take (xs.length - (-n).toNat)

def exampleLine (printed : List String → List Char) (a : Symbols) (name : Name) : List Char :=
  let filtered := strip isSpace (run printed ["c++filt", String.ofList name])
  let readable := if filtered.isEmpty then name else filtered
  let binding := ((a.lookup name).map Binding.text).getD []
  "  [".toList ++ binding.rightpad 6 ' ' ++ "] ".toList ++ readable

def examples (printed : List String → List Char) (n : ℤ) (a b : Symbols) (family : Family) :
    List (List Char) :=
  [] :: (family.text ++ [':']) ::
    (upTo n ((shared a b).filter fun name => decide (classify name = family))).map
      (exampleLine printed a)

def summary (args : Args) (a b : Symbols) : List (List Char) :=
  [args.labelA.toList ++ ": ".toList ++ Nat.toDigits 10 a.keys.length ++ " defined   ".toList ++
      args.labelB.toList ++ ": ".toList ++ Nat.toDigits 10 b.keys.length ++ " defined".toList,
    "overlap: ".toList ++ Nat.toDigits 10 (shared a b).length, []]

def report (printed : List String → List Char) (args : Args) (a b : Symbols) : List (List Char) :=
  if (shared a b).isEmpty then summary args a b
  else
    let sorted := (families a b).insertionSort fun f g => total a b g ≤ total a b f
    let more := if args.shown = 0 then []
      else (families a b).flatMap (examples printed args.shown a b)
    summary args a b ++ header :: sorted.map (row a b) ++ more

def main (system : String) (printed : List String → List Char) (args : Args) : List Char × ℕ :=
  let a := definedSymbols system printed args.a
  let b := definedSymbols system printed args.b
  ((report printed args a b).flatMap fun line => line ++ ['\n'],
    if (shared a b).isEmpty then 0 else 1)

def lower : List Char := "abcdefghijklmnopqrstuvwxyz".toList

def collisionPattern : RegularExpression Char :=
  oneOrMore (oneOf lower) * (oneOrMore (oneOf [' ']) * positiveAfter)

def Greps (text : List Char) : Prop := ∃ line ∈ text.splitOn '\n', Starts collisionPattern line

instance : DecidablePred Greps := fun text =>
  inferInstanceAs (Decidable (∃ line ∈ text.splitOn '\n', Starts collisionPattern line))

def ciArgs (a b : List String) : Args where
  a := a
  b := b
  labelA := "onnxruntime"
  labelB := "core-deps"
  shown := 0

theorem heads_blanks : Heads (oneOrMore (oneOf [' ']) * positiveAfter) [' '] := heads_oneOrMore _

theorem starts_word {word rest : List Char} {c : Char} (ne : word ≠ [])
    (all : ∀ x ∈ word, x ∈ lower)
    (stop : c ∉ lower) : Starts collisionPattern (word ++ c :: rest) ↔
      Starts (oneOrMore (oneOf [' ']) * positiveAfter) (c :: rest) :=
  starts_run heads_blanks (List.forall_mem_singleton.mpr (by decide)) ne all stop

theorem not_starts_word (word : List Char) {rest : List Char} {c : Char} (ne : word ≠ [])
    (all : ∀ x ∈ word, x ∈ lower) (stop : c ∉ lower) (blank : c ∉ [' ']) :
    ¬ Starts collisionPattern (word ++ c :: rest) :=
  mt (starts_word ne all stop).mp (heads_blanks.not_starts blank)

theorem not_starts_header : ¬ Starts collisionPattern header := by
  have columns : header = "family".toList ++ ' ' :: (List.replicate 10 ' ' ++ 't' ::
      ("otal".toList ++ "strong".toList.leftpad 9 ' ' ++ "weak".toList.leftpad 7 ' ' ++
        "hidden".toList.leftpad 8 ' ')) := rfl
  have heads : Heads positiveAfter digits := heads_oneOrMore _
  have word : ∀ x ∈ "family".toList, x ∈ lower := List.all_iff_forall_prop.mp (by decide)
  rw [columns, starts_word (by decide) word (by decide),
    starts_padding heads digits_apart 10 (by decide)]
  exact heads.not_starts (by decide)

section
variable {a b : Symbols} {family : Family}

def tail (a b : Symbols) (family : Family) : List (ℕ × ℕ) :=
  [(9, breakdown a b family .strong), (7, breakdown a b family .weak),
    (8, breakdown a b family .hidden)]

theorem row_eq (a b : Symbols) (family : Family) : ∃ k, row a b family =
    family.text ++ ' ' :: (List.replicate k ' ' ++ (Nat.toDigits 10 (total a b family) ++
      (tail a b family).flatMap fun c => column c.1 c.2)) := by
  have short : family.text.length < 14 := by cases family <;> decide
  obtain ⟨j, hj⟩ := Nat.exists_eq_add_of_lt short
  have padded : family.text.rightpad 14 ' ' = family.text ++ List.replicate (j + 1) ' ' := by
    unfold List.rightpad
    congr 2
    omega
  have blanks (m : ℕ) : List.replicate (j + 1) ' ' ++ List.replicate m ' ' =
      ' ' :: List.replicate (j + m) ' ' := by
    rw [List.replicate_append_replicate, Nat.add_right_comm, List.replicate_succ]
  refine ⟨j + (8 - (Nat.toDigits 10 (total a b family)).length), ?_⟩
  unfold row tail
  simp only [padded, column, List.leftpad, List.flatMap_cons, List.flatMap_nil, List.append_nil,
    List.append_assoc]
  rw [← List.append_assoc (List.replicate (j + 1) ' '), blanks, List.cons_append]

theorem starts_row : Starts collisionPattern (row a b family) ↔
    family ≠ .re2 ∧ Separated (tail a b family) := by
  obtain ⟨k, columns⟩ := row_eq a b family
  rw [columns]
  have seen (ne : family.text ≠ []) (word : ∀ x ∈ family.text, x ∈ lower) :
      Starts collisionPattern (family.text ++ ' ' :: (List.replicate k ' ' ++
        (Nat.toDigits 10 (total a b family) ++
          (tail a b family).flatMap fun c => column c.1 c.2))) ↔ Separated (tail a b family) := by
    obtain ⟨c, more, first, -⟩ := toDigits_first (total a b family)
    have digit := toDigits_digits (total a b family)
    have stop := digits_apart c (digit c (by rw [first]; exact List.mem_cons_self))
    have heads : Heads positiveAfter digits := heads_oneOrMore _
    have columns : Starts positiveAfter (Nat.toDigits 10 (total a b family) ++
        (tail a b family).flatMap fun c => column c.1 c.2) ↔ Separated (tail a b family) :=
      starts_columns (by simp [tail]) Nat.toDigits_ne_nil digit
    rw [first] at columns ⊢
    rw [starts_word ne word (by decide), List.cons_append, starts_padding heads digits_apart k stop]
    exact columns
  cases family with
  | re2 =>
    refine iff_of_false ?_ fun h => h.1 rfl
    have word : ∀ x ∈ "re".toList, x ∈ lower := List.all_iff_forall_prop.mp (by decide)
    exact not_starts_word "re".toList (by decide) word (by decide) (by decide)
  | abseil | flatbuffers | protobuf | other =>
    rw [seen (by decide) (List.all_iff_forall_prop.mp (by decide))]
    exact (and_iff_right (by decide)).symm

theorem not_newline_digits (n : ℕ) : '\n' ∉ Nat.toDigits 10 n := fun h =>
  absurd (toDigits_digits n _ h) (by decide)

theorem not_newline_column (width n : ℕ) : '\n' ∉ column width n := by
  unfold column List.leftpad
  rw [List.mem_append, not_or]
  exact ⟨fun h => absurd (List.eq_of_mem_replicate h) (by decide), not_newline_digits n⟩

theorem not_newline_row : '\n' ∉ row a b family := by
  unfold row
  simp only [List.mem_append, not_or, not_newline_column, not_false_eq_true, and_true]
  cases family <;> decide

theorem not_newline_summary (archivesA archivesB : List String) :
    ∀ line ∈ summary (ciArgs archivesA archivesB) a b, '\n' ∉ line := by
  simp only [summary, ciArgs, List.forall_mem_cons, List.mem_append, not_or, not_newline_digits]
  decide

theorem not_starts_summary (archivesA archivesB : List String) :
    ∀ line ∈ summary (ciArgs archivesA archivesB) a b, ¬ Starts collisionPattern line := by
  have heads : Heads collisionPattern lower := heads_oneOrMore _
  simp only [summary, ciArgs, List.append_assoc, List.forall_mem_cons]
  have onnxruntime : ∀ x ∈ "onnxruntime".toList, x ∈ lower :=
    List.all_iff_forall_prop.mp (by decide)
  have overlap : ∀ x ∈ "overlap".toList, x ∈ lower := List.all_iff_forall_prop.mp (by decide)
  refine ⟨?_, ?_, heads.not_starts_nil, by simp⟩
  · exact not_starts_word "onnxruntime".toList (by decide) onnxruntime (by decide) (by decide)
  · exact not_starts_word "overlap".toList (by decide) overlap (by decide) (by decide)

theorem mem_shared {name : Name} : name ∈ shared a b ↔ name ∈ a ∧ name ∈ b := by
  unfold shared
  rw [List.mem_insertionSort, List.mem_filter, decide_eq_true_eq, AList.mem_keys, AList.mem_keys]

theorem nodup_shared : (shared a b).Nodup :=
  (List.perm_insertionSort _ _).nodup_iff.mpr (a.keys_nodup.filter _)

theorem mem_families : family ∈ families a b ↔ ∃ name ∈ shared a b, classify name = family := by
  unfold families
  rw [List.mem_eraseDups, List.mem_map]

theorem mem_families_of_separated (h : Separated (tail a b family)) : family ∈ families a b := by
  by_contra outside
  have none (binding : Binding) : breakdown a b family binding = 0 := by
    unfold breakdown
    rw [List.countP_eq_zero]
    intro name hname same
    rw [Bool.and_eq_true, decide_eq_true_eq] at same
    exact outside (mem_families.mpr ⟨name, hname, same.1⟩)
  unfold tail at h
  simp only [none] at h
  exact absurd h (by decide)

section
variable {printed : List String → List Char} {archivesA archivesB : List String} {line : List Char}

theorem mem_report : line ∈ report printed (ciArgs archivesA archivesB) a b ↔
    line ∈ summary (ciArgs archivesA archivesB) a b ∨
      shared a b ≠ [] ∧ (line = header ∨ ∃ family ∈ families a b, row a b family = line) := by
  unfold report
  by_cases none : shared a b = []
  · simp [none]
  · simp [none, ciArgs]

theorem not_newline_report (h : line ∈ report printed (ciArgs archivesA archivesB) a b) :
    '\n' ∉ line := by
  obtain h | ⟨-, rfl | ⟨family, -, rfl⟩⟩ := mem_report.mp h
  · exact not_newline_summary archivesA archivesB line h
  · decide
  · exact not_newline_row

variable (printed archivesA archivesB) in
theorem starts_report : (∃ line ∈ report printed (ciArgs archivesA archivesB) a b,
    Starts collisionPattern line) ↔ ∃ family, family ≠ .re2 ∧ Separated (tail a b family) := by
  constructor
  · rintro ⟨line, hline, starts⟩
    obtain h | ⟨-, rfl | ⟨family, -, rfl⟩⟩ := mem_report.mp hline
    · exact absurd starts (not_starts_summary archivesA archivesB line h)
    · exact absurd starts not_starts_header
    · exact ⟨family, starts_row.mp starts⟩
  · rintro ⟨family, other, counts⟩
    have mem := mem_families_of_separated counts
    obtain ⟨name, hname, -⟩ := mem_families.mp mem
    have some : shared a b ≠ [] := List.ne_nil_of_mem hname
    exact ⟨row a b family, mem_report.mpr (.inr ⟨some, .inr ⟨family, mem, rfl⟩⟩),
      starts_row.mpr ⟨other, counts⟩⟩

end
end

theorem greps_main (system : String) (printed : List String → List Char) (a b : List String) :
    Greps (main system printed (ciArgs a b)).1 ↔ ∃ family, family ≠ .re2 ∧
      Separated (tail (definedSymbols system printed a) (definedSymbols system printed b)
        family) := by
  have heads : Heads collisionPattern lower := heads_oneOrMore _
  rw [← starts_report printed a b]
  unfold Greps main
  rw [splitOn_lines fun line hline => not_newline_report hline]
  simp [heads.not_starts_nil, or_and_right, exists_or, ciArgs]

end CyborgdbEmbed.SymbolDiff

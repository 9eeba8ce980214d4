import CyborgdbEmbed.ListSplits
import Mathlib.Computability.RegularExpressions
import Mathlib.Data.Bool.AllAny

set_option autoImplicit false

namespace CyborgdbEmbed.LinePatterns
open RegularExpression

variable {α : Type*} {cs w line run rest : List α} {c x : α}

def oneOf (cs : List α) : RegularExpression α := cs.foldr (fun c P => char c + P) 0

def oneOrMore (P : RegularExpression α) : RegularExpression α := P * P.star

def Starts (P : RegularExpression α) (line : List α) : Prop := ∃ w ∈ P.matches', w <+: line

instance [DecidableEq α] (P : RegularExpression α) : DecidablePred (Starts P) := fun line =>
  decidable_of_iff (∃ w ∈ line.inits, P.rmatch w) <| by
    constructor
    · rintro ⟨w, hw, h⟩
      exact ⟨w, (P.rmatch_iff_matches' w).mp h, (List.mem_inits w line).mp hw⟩
    · rintro ⟨w, h, hw⟩
      exact ⟨w, (List.mem_inits w line).mpr hw, (P.rmatch_iff_matches' w).mpr h⟩

theorem mem_oneOf : w ∈ (oneOf cs).matches' ↔ ∃ c ∈ cs, w = [c] := by
  induction cs with
  | nil => exact ⟨fun h => h.elim, fun h => absurd h.choose_spec.1 List.not_mem_nil⟩
  | cons c cs ih =>
    unfold oneOf at ih ⊢
    rw [List.foldr_cons, matches'_add, Language.mem_add, List.exists_mem_cons_iff]
    exact or_congr Iff.rfl ih

theorem mem_oneOrMore_oneOf : w ∈ (oneOrMore (oneOf cs)).matches' ↔ w ≠ [] ∧ ∀ c ∈ w, c ∈ cs := by
  unfold oneOrMore
  rw [matches'_mul, matches'_star, Language.mem_mul]
  constructor
  · rintro ⟨a, ha, b, hb, rfl⟩
    obtain ⟨c, hc, rfl⟩ := mem_oneOf.mp ha
    obtain ⟨pieces, rfl, hp⟩ := Language.mem_kstar.mp hb
    refine ⟨List.cons_ne_nil _ _, List.forall_mem_cons.mpr ⟨hc, ?_⟩⟩
    intro d hd
    obtain ⟨piece, hpiece, hd⟩ := List.mem_flatten.mp hd
    obtain ⟨e, he, rfl⟩ := mem_oneOf.mp (hp piece hpiece)
    rwa [List.mem_singleton.mp hd]
  · rintro ⟨ne, all⟩
    cases w with
    | nil => exact absurd rfl ne
    | cons c w =>
      rw [List.forall_mem_cons] at all
      refine ⟨[c], mem_oneOf.mpr ⟨c, all.1, rfl⟩, w, ?_, rfl⟩
      refine Language.mem_kstar.mpr ⟨w.map fun d => [d], ?_, ?_⟩
      · exact (List.flatMap_singleton' w).symm
      · intro piece hpiece
        obtain ⟨d, hd, rfl⟩ := List.mem_map.mp hpiece
        exact mem_oneOf.mpr ⟨d, all.2 d hd, rfl⟩

/-- All that `P` stands for begins with one of `cs`. -/
def Heads (P : RegularExpression α) (cs : List α) : Prop :=
  ∀ w ∈ P.matches', ∃ c ∈ cs, ∃ v, w = c :: v

theorem heads_oneOf : Heads (oneOf cs) cs := by
  intro w hw
  obtain ⟨c, hc, rfl⟩ := mem_oneOf.mp hw
  exact ⟨c, hc, [], rfl⟩

theorem heads_oneOrMore (P : RegularExpression α) : Heads (oneOrMore (oneOf cs) * P) cs := by
  intro w hw
  rw [matches'_mul, Language.mem_mul] at hw
  obtain ⟨a, ha, b, hb, rfl⟩ := hw
  obtain ⟨ne, all⟩ := mem_oneOrMore_oneOf.mp ha
  cases a with
  | nil => exact absurd rfl ne
  | cons c a => exact ⟨c, all c List.mem_cons_self, a ++ b, rfl⟩

theorem Heads.not_starts {P : RegularExpression α} (h : Heads P cs) (hc : c ∉ cs) :
    ¬ Starts P (c :: rest) := by
  rintro ⟨w, hw, before⟩
  obtain ⟨d, hd, v, rfl⟩ := h w hw
  exact hc ((List.cons_prefix_cons.mp before).1 ▸ hd)

theorem Heads.not_starts_nil {P : RegularExpression α} (h : Heads P cs) : ¬ Starts P [] := by
  rintro ⟨w, hw, before⟩
  obtain ⟨d, hd, v, rfl⟩ := h w hw
  exact absurd (List.prefix_nil.mp before) (List.cons_ne_nil d v)

theorem starts_oneOf : Starts (oneOf cs) (c :: rest) ↔ c ∈ cs := by
  constructor
  · intro h
    by_contra hc
    exact heads_oneOf.not_starts hc h
  · intro hc
    exact ⟨[c], mem_oneOf.mpr ⟨c, hc, rfl⟩, rest, rfl⟩

section
variable {P : RegularExpression α} {ds : List α}

theorem starts_run (heads : Heads P ds) (apart : ∀ d ∈ ds, d ∉ cs) (ne : run ≠ [])
    (all : ∀ x ∈ run, x ∈ cs) (stop : c ∉ cs) :
    Starts (oneOrMore (oneOf cs) * P) (run ++ c :: rest) ↔ Starts P (c :: rest) := by
  classical
  have first {l : List α} {d : α} (tail : List α) (hl : ∀ x ∈ l, x ∈ cs) (hd : d ∉ cs) :
      (l ++ d :: tail).takeWhile (fun x => decide (x ∈ cs)) = l :=
    ListSplits.takeWhile_run (fun x hx => decide_eq_true (hl x hx)) (decide_eq_false hd)
  constructor
  · rintro ⟨w, hw, tail, whole⟩
    rw [matches'_mul, Language.mem_mul] at hw
    obtain ⟨a, ha, b, hb, rfl⟩ := hw
    obtain ⟨d, hd, v, rfl⟩ := heads b hb
    rw [List.append_assoc, List.cons_append] at whole
    have same : a = run := by
      rw [← first (v ++ tail) (mem_oneOrMore_oneOf.mp ha).2 (apart d hd), whole,
        first rest all stop]
    rw [same] at whole
    exact ⟨d :: v, hb, tail, List.append_cancel_left whole⟩
  · rintro ⟨b, hb, tail, whole⟩
    refine ⟨run ++ b, ?_, tail, ?_⟩
    · rw [matches'_mul]
      exact Language.append_mem_mul (mem_oneOrMore_oneOf.mpr ⟨ne, all⟩) hb
    · rw [List.append_assoc, whole]

theorem not_starts_run (heads : Heads P ds) (apart : ∀ d ∈ ds, d ∉ cs)
    (all : ∀ x ∈ run, x ∈ cs) : ¬ Starts (oneOrMore (oneOf cs) * P) run := by
  rintro ⟨w, hw, tail, rfl⟩
  rw [matches'_mul, Language.mem_mul] at hw
  obtain ⟨a, ha, b, hb, rfl⟩ := hw
  obtain ⟨d, hd, v, rfl⟩ := heads b hb
  refine apart d hd (all d ?_)
  simp

end

theorem splitOn_lines [DecidableEq α] {lines : List (List α)} (h : ∀ l ∈ lines, x ∉ l) :
    (lines.flatMap fun l => l ++ [x]).splitOn x = lines ++ [[]] := by
  induction lines with
  | nil => rfl
  | cons l lines ih =>
    rw [List.forall_mem_cons] at h
    rw [List.flatMap_cons, List.append_assoc, List.singleton_append,
      List.splitOn_append_cons_self, List.splitOn_eq_singleton h.1, ih h.2]
    rfl

def digits : List Char := "0123456789".toList

def nonzero : List Char := "123456789".toList

/-- `n` in a column of `width`, and in more room where it does not fit. -/
def column (width n : ℕ) : List Char := (Nat.toDigits 10 n).leftpad width ' '

def positiveAfter : RegularExpression Char :=
  oneOrMore (oneOf digits) * (oneOrMore (oneOf [' ']) * oneOf nonzero)

/-- What `positiveAfter` finds: the first column that leaves a blank is not zero. -/
def Separated : List (ℕ × ℕ) → Prop
  | [] => False
  | (width, n) :: columns => if n < 10 ^ (width - 1) then n ≠ 0 else Separated columns

instance decidableSeparated : DecidablePred Separated
  | [] => inferInstanceAs (Decidable False)
  | (width, n) :: columns =>
    have := decidableSeparated columns
    inferInstanceAs (Decidable (if n < 10 ^ (width - 1) then n ≠ 0 else Separated columns))

theorem toDigits_digits (n : ℕ) : ∀ c ∈ Nat.toDigits 10 n, c ∈ digits := by
  have last : ∀ d < 10, Nat.digitChar d ∈ digits := by decide
  induction n using Nat.strong_induction_on with
  | _ n ih =>
    rw [Nat.toDigits_eq_if (by decide)]
    split
    · rename_i small
      exact List.forall_mem_singleton.mpr (last n small)
    · rw [List.forall_mem_append]
      exact ⟨ih (n / 10) (by omega), List.forall_mem_singleton.mpr (last (n % 10) (by omega))⟩

theorem toDigits_first (n : ℕ) :
    ∃ c tail, Nat.toDigits 10 n = c :: tail ∧ (c ∈ nonzero ↔ n ≠ 0) := by
  have single : ∀ d < 10, (Nat.digitChar d ∈ nonzero ↔ d ≠ 0) := by decide
  induction n using Nat.strong_induction_on with
  | _ n ih =>
    rw [Nat.toDigits_eq_if (by decide)]
    split
    · rename_i small
      exact ⟨Nat.digitChar n, [], rfl, single n small⟩
    · obtain ⟨c, tail, first, hc⟩ := ih (n / 10) (by omega)
      rw [first]
      refine ⟨c, _, rfl, hc.trans ?_⟩
      omega

theorem column_fits {width n : ℕ} (hw : 1 < width) (h : n < 10 ^ (width - 1)) :
    ∃ k, column width n = ' ' :: (List.replicate k ' ' ++ Nat.toDigits 10 n) := by
  have short := (Nat.length_toDigits_le_iff (b := 10) (by decide) (by omega)).mpr h
  refine ⟨width - (Nat.toDigits 10 n).length - 1, ?_⟩
  unfold column List.leftpad
  rw [← List.cons_append, ← List.replicate_succ]
  congr 2
  omega

theorem column_full {width n : ℕ} (hw : 1 < width) (h : ¬ n < 10 ^ (width - 1)) :
    column width n = Nat.toDigits 10 n := by
  have long := mt (Nat.length_toDigits_le_iff (b := 10) (by decide) (by omega)).mp h
  unfold column List.leftpad
  rw [Nat.sub_eq_zero_of_le (by omega)]
  rfl

theorem starts_padding {P : RegularExpression Char} {ds : List Char} (heads : Heads P ds)
    (apart : ∀ d ∈ ds, d ∉ [' ']) (k : ℕ) {c : Char} (stop : c ∉ [' ']) (rest : List Char) :
    Starts (oneOrMore (oneOf [' ']) * P) (' ' :: (List.replicate k ' ' ++ c :: rest)) ↔
      Starts P (c :: rest) := by
  have blanks : ∀ x ∈ ' ' :: List.replicate k ' ', x ∈ [' '] := by
    rw [← List.replicate_succ]
    intro x hx
    exact List.mem_singleton.mpr (List.eq_of_mem_replicate hx)
  rw [← List.cons_append]
  exact starts_run heads apart (List.cons_ne_nil _ _) blanks stop

theorem digits_apart : ∀ d ∈ digits, d ∉ [' '] := List.all_iff_forall_prop.mp (by decide)

theorem nonzero_apart : ∀ d ∈ nonzero, d ∉ [' '] := List.all_iff_forall_prop.mp (by decide)

theorem blank_apart : ∀ d ∈ [' '], d ∉ digits := List.forall_mem_singleton.mpr (by decide)

theorem starts_nonzero (k n : ℕ) (rest : List Char) :
    Starts (oneOrMore (oneOf [' ']) * oneOf nonzero)
      (' ' :: (List.replicate k ' ' ++ (Nat.toDigits 10 n ++ rest))) ↔ n ≠ 0 := by
  obtain ⟨c, tail, first, hc⟩ := toDigits_first n
  have digit := toDigits_digits n c (by rw [first]; exact List.mem_cons_self)
  have stop := digits_apart c digit
  rw [first, List.cons_append, starts_padding heads_oneOf nonzero_apart k stop, starts_oneOf, hc]

theorem starts_columns {columns : List (ℕ × ℕ)} (wide : ∀ c ∈ columns, 1 < c.1)
    {run : List Char} (ne : run ≠ []) (all : ∀ x ∈ run, x ∈ digits) :
    Starts positiveAfter (run ++ columns.flatMap fun c => column c.1 c.2) ↔ Separated columns := by
  have heads : Heads (oneOrMore (oneOf [' ']) * oneOf nonzero) [' '] := heads_oneOrMore _
  induction columns generalizing run with
  | nil =>
    rw [List.flatMap_nil, List.append_nil]
    exact iff_of_false (not_starts_run heads blank_apart all) id
  | cons c columns ih =>
    obtain ⟨width, n⟩ := c
    rw [List.forall_mem_cons] at wide
    rw [List.flatMap_cons]
    unfold Separated
    split
    · rename_i fits
      obtain ⟨k, padded⟩ := column_fits wide.1 fits
      unfold positiveAfter
      rw [padded, List.cons_append, starts_run heads blank_apart ne all (by decide),
        List.append_assoc]
      exact starts_nonzero k n _
    · rename_i full
      rw [column_full wide.1 full, ← List.append_assoc]
      refine ih wide.2 (List.append_ne_nil_of_left_ne_nil ne _) ?_
      exact List.forall_mem_append.mpr ⟨all, toDigits_digits n⟩

end CyborgdbEmbed.LinePatterns

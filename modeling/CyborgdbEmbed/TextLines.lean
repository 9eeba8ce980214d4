import CyborgdbEmbed.CppLiterals
import CyborgdbEmbed.ListSplits

set_option autoImplicit false

namespace CyborgdbEmbed.TextLines
open CppLiterals (lineEnds lineEnds_of_not_mem)

/-- The characters that end a line of `str.splitlines`. -/
def isBreak (c : Char) : Bool := c.toNat ∈ [10, 11, 12, 13, 28, 29, 30, 0x85, 0x2028, 0x2029]

/-- `text.splitlines(keepends=True)`. -/
def splitKeep : List Char → List (List Char)
  | [] => []
  | '\r' :: '\n' :: cs => ['\r', '\n'] :: splitKeep cs
  | c :: cs =>
    if isBreak c then [c] :: splitKeep cs
    else
      match splitKeep cs with
      | [] => [[c]]
      | line :: lines => (c :: line) :: lines

def chomp (line : List Char) : List Char := line.takeWhile fun c => !isBreak c

def splitlines (text : List Char) : List (List Char) := (splitKeep text).map chomp

/-- `text.split()`, for this notion of a blank. -/
def words (blank : Char → Bool) : List Char → List (List Char)
  | [] => []
  | c :: cs =>
    if blank c then words blank cs
    else
      match cs with
      | [] => [[c]]
      | d :: _ =>
        if blank d then [c] :: words blank cs
        else
          match words blank cs with
          | [] => [[c]]
          | word :: more => (c :: word) :: more

def strip (blank : Char → Bool) (text : List Char) : List Char :=
  ((text.dropWhile blank).reverse.dropWhile blank).reverse

theorem splitKeep_nil : splitKeep [] = [] := by
  rw [splitKeep]

theorem splitKeep_cons {c : Char} (h : c ≠ '\r') (cs : List Char) : splitKeep (c :: cs) =
    if isBreak c then [c] :: splitKeep cs
    else match splitKeep cs with
      | [] => [[c]]
      | line :: lines => (c :: line) :: lines :=
  splitKeep.eq_3 c cs fun _ hc _ => h hc

theorem flatten_splitKeep (text : List Char) : (splitKeep text).flatten = text := by
  fun_induction splitKeep text with
  | case1 => rfl
  | case2 cs ih =>
    rw [List.flatten_cons, ih]
    rfl
  | case3 c cs _ _ ih =>
    rw [List.flatten_cons, ih]
    rfl
  | case4 c cs _ _ none ih =>
    rw [none] at ih
    rw [← ih]
    rfl
  | case5 c cs _ _ line lines some ih =>
    rw [some] at ih
    rw [← ih]
    rfl

def Ended (line : List Char) : Prop :=
  ∃ body c, line = body ++ [c] ∧ isBreak c = true ∧ c ≠ '\r' ∧ ∀ d ∈ body, isBreak d = false

def Unended (line : List Char) : Prop := line ≠ [] ∧ ∀ d ∈ line, isBreak d = false

def Lines : List (List Char) → Prop
  | [] => True
  | [line] => Ended line ∨ Unended line
  | line :: lines => Ended line ∧ Lines lines

theorem Lines.cons {line : List Char} {lines : List (List Char)} (h : Ended line)
    (hl : Lines lines) : Lines (line :: lines) := by
  cases lines with
  | nil => exact .inl h
  | cons next lines => exact ⟨h, hl⟩

theorem ne_return {c : Char} (h : isBreak c = false) : c ≠ '\r' := by
  rintro rfl
  cases h

theorem splitKeep_ended {body rest : List Char} {c : Char} (hbody : ∀ d ∈ body, isBreak d = false)
    (hc : isBreak c = true) (hr : c ≠ '\r') :
    splitKeep (body ++ c :: rest) = (body ++ [c]) :: splitKeep rest := by
  induction body with
  | nil =>
    rw [List.nil_append, splitKeep_cons hr, if_pos hc]
    rfl
  | cons d body ih =>
    have hd := hbody d List.mem_cons_self
    rw [List.cons_append, splitKeep_cons (ne_return hd), hd,
      ih fun x hx => hbody x (List.mem_cons_of_mem d hx)]
    rfl

theorem splitKeep_unended {line : List Char} (h : Unended line) : splitKeep line = [line] := by
  obtain ⟨some, all⟩ := h
  induction line with
  | nil => exact absurd rfl some
  | cons c cs ih =>
    have hc := all c List.mem_cons_self
    rw [splitKeep_cons (ne_return hc), hc]
    cases cs with
    | nil =>
      rw [splitKeep_nil]
      rfl
    | cons d cs =>
      rw [ih (List.cons_ne_nil d cs) fun x hx => all x (List.mem_cons_of_mem c hx)]
      rfl

theorem splitKeep_flatten {lines : List (List Char)} (h : Lines lines) :
    splitKeep lines.flatten = lines := by
  induction lines with
  | nil => exact splitKeep_nil
  | cons line lines ih =>
    have ended (he : Ended line) (hl : Lines lines) :
        splitKeep (line :: lines).flatten = line :: lines := by
      obtain ⟨body, c, rfl, hc, hr, hbody⟩ := he
      rw [List.flatten_cons, List.append_assoc, List.singleton_append, splitKeep_ended hbody hc hr,
        ih hl]
    cases lines with
    | nil =>
      cases h with
      | inl he => exact ended he trivial
      | inr hu =>
        rw [List.flatten_cons, List.flatten_nil, List.append_nil]
        exact splitKeep_unended hu
    | cons next lines => exact ended h.1 h.2

theorem lines_splitKeep {text : List Char} (h : '\r' ∉ text) : Lines (splitKeep text) := by
  induction text with
  | nil =>
    rw [splitKeep_nil]
    trivial
  | cons c cs ih =>
    rw [List.mem_cons, not_or] at h
    have hr : c ≠ '\r' := Ne.symm h.1
    have rest := ih h.2
    rw [splitKeep_cons hr]
    by_cases hc : isBreak c = true
    · rw [if_pos hc]
      exact Lines.cons ⟨[], c, rfl, hc, hr, fun d hd => absurd hd List.not_mem_nil⟩ rest
    · rw [if_neg hc]
      rw [Bool.not_eq_true] at hc
      cases hs : splitKeep cs with
      | nil => exact .inr ⟨List.cons_ne_nil c [], List.forall_mem_singleton.mpr hc⟩
      | cons line lines =>
        rw [hs] at rest
        have longer (he : Ended line) : Ended (c :: line) := by
          obtain ⟨body, d, rfl, hd, hdr, hbody⟩ := he
          exact ⟨c :: body, d, rfl, hd, hdr, List.forall_mem_cons.mpr ⟨hc, hbody⟩⟩
        cases lines with
        | nil =>
          cases rest with
          | inl he => exact .inl (longer he)
          | inr hu => exact .inr ⟨List.cons_ne_nil c line, List.forall_mem_cons.mpr ⟨hc, hu.2⟩⟩
        | cons next lines => exact ⟨longer rest.1, rest.2⟩

theorem not_mem_lineEnds (text : List Char) : '\r' ∉ lineEnds text := by
  fun_induction lineEnds text with
  | case1 => exact List.not_mem_nil
  | case2 cs ih | case3 cs _ ih =>
    rw [List.mem_cons, not_or]
    exact ⟨by decide, ih⟩
  | case4 c cs _ hc ih =>
    rw [List.mem_cons, not_or]
    exact ⟨fun h => hc h.symm, ih⟩

theorem Lines.no_return {lines : List (List Char)} (h : Lines lines) : '\r' ∉ lines.flatten := by
  have ended {line : List Char} (he : Ended line) : '\r' ∉ line := by
    obtain ⟨body, c, rfl, -, hr, hbody⟩ := he
    rw [List.mem_append, List.mem_singleton, not_or]
    exact ⟨fun hc => ne_return (hbody _ hc) rfl, Ne.symm hr⟩
  induction lines with
  | nil => exact List.not_mem_nil
  | cons line lines ih =>
    rw [List.flatten_cons, List.mem_append, not_or]
    cases lines with
    | nil =>
      refine ⟨?_, List.not_mem_nil⟩
      cases h with
      | inl he => exact ended he
      | inr hu => exact fun hc => ne_return (hu.2 _ hc) rfl
    | cons next lines => exact ⟨ended h.1, ih h.2⟩

theorem Lines.reread {lines : List (List Char)} (h : Lines lines) :
    splitKeep (lineEnds lines.flatten) = lines := by
  rw [lineEnds_of_not_mem h.no_return, splitKeep_flatten h]

def Alike (line line' : List Char) : Prop :=
  (Ended line → Ended line') ∧ (Unended line → Unended line')

theorem Alike.refl (line : List Char) : Alike line line := ⟨fun h => h, fun h => h⟩

theorem Lines.alike {lines lines' : List (List Char)} (h : Lines lines)
    (all : List.Forall₂ Alike lines lines') : Lines lines' := by
  induction all with
  | nil => trivial
  | @cons line line' rest rest' same tail ih =>
    cases tail with
    | nil =>
      cases h with
      | inl he => exact .inl (same.1 he)
      | inr hu => exact .inr (same.2 hu)
    | cons next more => exact ⟨same.1 h.1, ih h.2⟩

section
variable {front after : List Char} {q : Char}

theorem ended_append (hq : isBreak q = false) : Ended (front ++ q :: after) ↔
    (∀ d ∈ front, isBreak d = false) ∧ Ended after := by
  constructor
  · rintro ⟨body, c, whole, hc, hr, hbody⟩
    cases List.eq_nil_or_concat after with
    | inl none =>
      rw [none] at whole
      have last := (List.append_inj' whole rfl).2
      rw [List.singleton_inj] at last
      rw [last, hc] at hq
      cases hq
    | inr some =>
      obtain ⟨init, d, rfl⟩ := some
      rw [List.concat_eq_append, ← List.cons_append, ← List.append_assoc] at whole
      obtain ⟨rfl, last⟩ := List.append_inj' whole rfl
      rw [List.singleton_inj] at last
      rw [List.forall_mem_append, List.forall_mem_cons] at hbody
      refine ⟨hbody.1, init, d, List.concat_eq_append, ?_, ?_, hbody.2.2⟩
      · rw [last, hc]
      · rwa [last]
  · rintro ⟨hfront, body, c, rfl, hc, hr, hbody⟩
    refine ⟨front ++ q :: body, c, ?_, hc, hr, ?_⟩
    · rw [List.append_assoc, List.cons_append]
    · exact List.forall_mem_append.mpr ⟨hfront, List.forall_mem_cons.mpr ⟨hq, hbody⟩⟩

theorem unended_append (hq : isBreak q = false) : Unended (front ++ q :: after) ↔
    (∀ d ∈ front, isBreak d = false) ∧ ∀ d ∈ after, isBreak d = false := by
  unfold Unended
  rw [List.forall_mem_append, List.forall_mem_cons]
  constructor
  · exact fun h => ⟨h.2.1, h.2.2.2⟩
  · exact fun h => ⟨List.append_ne_nil_of_right_ne_nil _ (List.cons_ne_nil _ _), h.1, hq, h.2⟩

theorem alike_append {front' : List Char} (hq : isBreak q = false)
    (clean : (∀ d ∈ front, isBreak d = false) → ∀ d ∈ front', isBreak d = false) :
    Alike (front ++ q :: after) (front' ++ q :: after) := by
  unfold Alike
  rw [ended_append hq, ended_append hq, unended_append hq, unended_append hq]
  exact ⟨And.imp_left clean, And.imp_left clean⟩

end

end CyborgdbEmbed.TextLines

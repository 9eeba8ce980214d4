import CyborgdbEmbed.RegistryText
import CyborgdbEmbed.TextLines

set_option autoImplicit false

namespace CyborgdbEmbed.RegistryRewrites
open CppLiterals (lineEnds)
open RegistryText TextLines

def readLines (text : List Char) : List Line := splitKeep (lineEnds text)

theorem lines_readLines (text : List Char) : Lines (readLines text) :=
  lines_splitKeep (not_mem_lineEnds text)

def quoted (line : Line) : List Char :=
  ((line.dropWhile (· ≠ '"')).drop 1).takeWhile (· ≠ '"')

def DoubleQuoted (line : Line) : Prop :=
  ∃ before old after, '"' ∉ before ∧ '"' ∉ old ∧ line = before ++ '"' :: (old ++ '"' :: after)

def Requoted (value : List Char) (line line' : Line) : Prop :=
  ∃ before old after, '"' ∉ before ∧ '"' ∉ old ∧
    line = before ++ '"' :: (old ++ '"' :: after) ∧
    line' = before ++ '"' :: (value ++ '"' :: after)

/-- The lines are the same, or they have one of these keys and differ in that text only. -/
def OnlyAt (keys : List String) (line line' : Line) : Prop :=
  line' = line ∨ (∃ key ∈ keys, hasKey key.toList line = true) ∧ ∃ value, Requoted value line line'

structure HasQuoted (key : List Char) (block : Block) : Prop where
  there : ∃ line ∈ block.body, hasKey key line = true
  quoted : ∀ line ∈ block.body, hasKey key line = true → DoubleQuoted line

def values (key : List Char) (block : Block) : List (List Char) :=
  (block.body.filter (hasKey key)).map quoted

section
variable {value key : List Char} {line line' : Line}

theorem plain_no_quote (plain : Plain value) : '"' ∉ value := by
  intro quote
  cases plain '"' quote with
  | inl h => exact absurd h (by decide)
  | inr h => exact absurd h (by decide)

theorem plain_no_break (plain : Plain value) : ∀ c ∈ value, isBreak c = false := by
  have letters : ∀ n ∈ [10, 11, 12, 13, 28, 29, 30, 0x85, 0x2028, 0x2029],
      ¬ ((Char.ofNat n).isAlphanum = true ∨ Char.ofNat n = '-') := by decide
  intro c hc
  by_contra breaks
  unfold isBreak at breaks
  rw [decide_eq_false_iff_not, not_not] at breaks
  have other := letters c.toNat breaks
  rw [Char.ofNat_toNat] at other
  exact other (plain c hc)

theorem quoted_parts {before old after : List Char} (hbefore : '"' ∉ before) (hold : '"' ∉ old) :
    quoted (before ++ '"' :: (old ++ '"' :: after)) = old := by
  unfold quoted
  rw [dropWhile_quote hbefore]
  exact takeWhile_quote hold after

theorem Requoted.quoted (h : Requoted value line line') (plain : Plain value) :
    quoted line' = value := by
  obtain ⟨before, old, after, hbefore, -, -, rfl⟩ := h
  exact quoted_parts hbefore (plain_no_quote plain)

theorem DoubleQuoted.requoted (h : DoubleQuoted line) (value : List Char) :
    Requoted value line (replaceQuoted value line) := by
  obtain ⟨before, old, after, hbefore, hold, rfl⟩ := h
  exact ⟨before, old, after, hbefore, hold, rfl, replaceQuoted_quoted value hbefore hold⟩

theorem alike_replaceQuoted (plain : Plain value) (line : Line) :
    Alike line (replaceQuoted value line) := by
  cases replaceQuoted_cases value line with
  | inl same =>
    rw [same]
    exact Alike.refl line
  | inr parts =>
    obtain ⟨before, old, after, hline, hnew⟩ := parts
    have split (text : List Char) : before ++ '"' :: (text ++ '"' :: after) =
        (before ++ '"' :: text) ++ '"' :: after := by
      rw [List.append_assoc, List.cons_append]
    rw [hnew, hline, split, split]
    apply alike_append rfl
    intro front
    rw [List.forall_mem_append, List.forall_mem_cons] at front ⊢
    exact ⟨front.1, rfl, plain_no_break plain⟩

end

def Reads (key value : List Char) (block : Block) : Prop :=
  values key block ≠ [] ∧ ∀ v ∈ values key block, v = value

section
variable {f : String → Line → Line} {key value : List Char} {block : Block}

theorem reads_edit (has : HasQuoted key block) (plain : Plain value)
    (keeps : ∀ line, hasKey key (f block.id line) = hasKey key line)
    (writes : ∀ line, hasKey key line = true → f block.id line = replaceQuoted value line) :
    Reads key value (block.edit f) := by
  have same : values key (block.edit f) =
      (block.body.filter (hasKey key)).map fun line => quoted (f block.id line) := by
    have kept : hasKey key ∘ f block.id = hasKey key := funext keeps
    unfold values Block.edit
    rw [List.filter_map, kept, List.map_map]
    rfl
  unfold Reads
  rw [same]
  constructor
  · obtain ⟨line, hline, hkey⟩ := has.there
    exact List.ne_nil_of_mem (List.mem_map_of_mem (List.mem_filter.mpr ⟨hline, hkey⟩))
  · intro v hv
    obtain ⟨line, hline, rfl⟩ := List.mem_map.mp hv
    obtain ⟨mem, found⟩ := List.mem_filter.mp hline
    rw [writes line found]
    exact ((has.quoted line mem found).requoted value).quoted plain

theorem Reads.unique {other : List Char} (h : Reads key value block)
    (h' : Reads key other block) : value = other := by
  obtain ⟨v, hv⟩ := List.exists_mem_of_ne_nil _ h.1
  rw [← h.2 v hv, h'.2 v hv]

theorem lines_blocks (lines : List Line) :
    lines = bodyOf lines ++ (blocks lines).flatMap fun block => block.first :: block.body := by
  induction lines with
  | nil => rfl
  | cons line rest ih =>
    cases h : idOf line with
    | some id =>
      rw [bodyOf_cons_some h, blocks_cons_some h, List.flatMap_cons, List.nil_append,
        List.cons_append, ← ih]
    | none =>
      rw [bodyOf_cons_none h, blocks_cons_none h, List.cons_append, ← ih]

theorem bodyOf_edit_none (lines : List Line) : bodyOf (edit f none lines) = bodyOf lines := by
  induction lines with
  | nil => rfl
  | cons line rest ih =>
    unfold edit
    cases h : idOf line with
    | some id =>
      dsimp only
      rw [bodyOf_cons_some h, bodyOf_cons_some h]
    | none =>
      dsimp only
      rw [bodyOf_cons_none h, bodyOf_cons_none h, ih]

theorem alike_edit (all : ∀ id line, Alike line (f id line)) (current : Option String)
    (lines : List Line) : List.Forall₂ Alike lines (edit f current lines) := by
  induction lines generalizing current with
  | nil => exact .nil
  | cons line rest ih =>
    unfold edit
    split
    · exact .cons (Alike.refl line) (ih _)
    · exact .cons (all _ line) (ih _)
    · exact .cons (Alike.refl line) (ih _)

end
end CyborgdbEmbed.RegistryRewrites

import CyborgdbEmbed.ListSplits
import CyborgdbEmbed.ModelLookup

set_option autoImplicit false

namespace CyborgdbEmbed.ModelNames
open Utf8 ModelLookup

def fold (name : Bytes) : Bytes := name.map tolower

def canonical (name : Bytes) : Bytes := if slash ∈ name then name else owner ++ name

structure Hosted (name last : Bytes) : Prop where
  ends : name = last ∨ ∃ before, name = before ++ slash :: last
  bare : slash ∉ last
  openAi : fold last = view "text-embedding-ada-002" ∨
    ∃ more, more ≠ [] ∧ fold last = view "text-embedding-3-" ++ more

def ReportsHosted (name message : Bytes) : Prop := name ++ hostedReason <+: message

variable {ι : Type}

def FirstNamed (kRegistry : List (NamedEntry ι)) (name : Bytes) (entry : NamedEntry ι) : Prop :=
  fold entry.name = fold name ∧ ∃ before rest, kRegistry = before ++ entry :: rest ∧
    ∀ row ∈ before, fold row.name ≠ fold name

def result (kRegistry : List (NamedEntry ι)) (name : Bytes) (out : ι) : StatusCode × ι :=
  ((findModel kRegistry name out).1.code, (findModel kRegistry name out).2)

structure LooksUp (kRegistry : List (NamedEntry ι)) (name : Bytes) (out : ι) : Prop where
  accepts : (∃ entry, FirstNamed kRegistry (canonical name) entry ∧
      findModel kRegistry name out = (⟨.ok, []⟩, entry.id)) ∨
    (∀ row ∈ kRegistry, fold row.name ≠ fold (canonical name)) ∧
      result kRegistry name out = (.invalidArgument, out)
  anyCase : ∀ other, fold other = fold name → result kRegistry other out = result kRegistry name out
  qualifies : slash ∉ name → result kRegistry (owner ++ name) out = result kRegistry name out
  reports : (findModel kRegistry name out).1.code ≠ .ok →
    (ReportsHosted name (findModel kRegistry name out).1.message ↔ ∃ last, Hosted name last)

theorem wanted_eq (name : Bytes) : wanted name = canonical name := by
  unfold wanted qualified canonical
  by_cases h : slash ∈ name
  · rw [if_pos h, if_pos rfl, if_pos h]
  · have nonempty : owner ++ name ≠ [] :=
      List.append_ne_nil_of_left_ne_nil (by decide) name
    rw [if_neg h, if_neg nonempty, if_neg h]

theorem equals_iff (a b : Bytes) : equalsIgnoringCase a b = true ↔ fold a = fold b :=
  equalsIgnoringCase_iff a b

theorem slash_mem_of_fold {a b : Bytes} (h : fold a = fold b) : slash ∈ a ↔ slash ∈ b := by
  rw [← slash_mem_fold a, ← slash_mem_fold b]
  change slash ∈ fold a ↔ slash ∈ fold b
  rw [h]

theorem fold_append (a b : Bytes) : fold (a ++ b) = fold a ++ fold b := List.map_append

theorem fold_canonical {a b : Bytes} (h : fold a = fold b) :
    fold (canonical a) = fold (canonical b) := by
  unfold canonical
  by_cases ha : slash ∈ a
  · rw [if_pos ha, if_pos ((slash_mem_of_fold h).mp ha), h]
  · rw [if_neg ha, if_neg fun hb => ha ((slash_mem_of_fold h).mpr hb), fold_append, fold_append, h]

theorem canonical_qualified {name : Bytes} (h : slash ∉ name) :
    canonical (owner ++ name) = canonical name := by
  unfold canonical
  rw [if_pos (List.mem_append_left name (by decide)), if_neg h]

variable {kRegistry : List (NamedEntry ι)} {name : Bytes} {entry : NamedEntry ι} {out : ι}

theorem find?_some_iff :
    (kRegistry.find? fun entry => equalsIgnoringCase entry.name (wanted name)) = some entry ↔
      FirstNamed kRegistry (canonical name) entry := by
  rw [List.find?_eq_some_iff_append]
  simp only [FirstNamed, Bool.not_eq_true', ← Bool.not_eq_true, equals_iff, wanted_eq, ne_eq]

theorem find?_none_iff :
    (kRegistry.find? fun entry => equalsIgnoringCase entry.name (wanted name)) = none ↔
      ∀ row ∈ kRegistry, fold row.name ≠ fold (canonical name) := by
  simp only [List.find?_eq_none, equals_iff, wanted_eq, ne_eq]

theorem findModel_found (h : FirstNamed kRegistry (canonical name) entry) :
    findModel kRegistry name out = (⟨.ok, []⟩, entry.id) := by
  unfold findModel
  rw [find?_some_iff.mpr h]

theorem findModel_missing (h : ∀ row ∈ kRegistry, fold row.name ≠ fold (canonical name)) :
    findModel kRegistry name out = (⟨.invalidArgument,
      name ++ reason name ++ view "; supported: " ++ supported kRegistry⟩, out) := by
  unfold findModel
  rw [find?_none_iff.mpr h]

theorem findModel_cases (kRegistry : List (NamedEntry ι)) (name : Bytes) :
    (∃ entry, FirstNamed kRegistry (canonical name) entry) ∨
      ∀ row ∈ kRegistry, fold row.name ≠ fold (canonical name) := by
  cases hf : kRegistry.find? fun entry => equalsIgnoringCase entry.name (wanted name) with
  | some entry => exact .inl ⟨entry, find?_some_iff.mp hf⟩
  | none => exact .inr (find?_none_iff.mp hf)

theorem result_congr {a b : Bytes} (h : fold (canonical a) = fold (canonical b)) :
    result kRegistry a out = result kRegistry b out := by
  unfold result
  cases findModel_cases kRegistry a with
  | inl found =>
    obtain ⟨entry, ha⟩ := found
    have hb : FirstNamed kRegistry (canonical b) entry := by
      unfold FirstNamed at ha ⊢
      rwa [← h]
    rw [findModel_found ha, findModel_found hb]
  | inr missing =>
    rw [findModel_missing missing, findModel_missing (by rwa [← h])]

theorem fold_take (k : ℕ) (name : Bytes) : fold (name.take k) = (fold name).take k := List.map_take

/-- What `isHostedModel` looks at. -/
def lastPart (name : Bytes) : Bytes := (name.reverse.takeWhile (· ≠ slash)).reverse

theorem lastPart_eq_iff {name last : Bytes} : lastPart name = last ↔
    slash ∉ last ∧ (name = last ∨ ∃ before, name = before ++ slash :: last) := by
  have test : (fun c : UInt8 => decide (c ≠ slash)) = (· != slash) := by
    funext c
    rw [Bool.eq_iff_iff, decide_eq_true_iff, bne_iff_ne]
  unfold lastPart
  rw [test]
  exact ListSplits.afterLast_eq_iff

def npos : ℕ := UInt64.size - 1

def rfind (name : Bytes) (c : UInt8) : ℕ :=
  if c ∈ name then name.length - 1 - name.reverse.idxOf c else npos

/-- `name.substr(name.rfind('/') + 1)`: without a slash the sum wraps around to zero. -/
theorem substr_rfind {name : Bytes} (h : name.length < UInt64.size) :
    name.drop ((rfind name slash + 1) % UInt64.size) = lastPart name := by
  obtain ⟨bare, whole | ⟨before, split⟩⟩ := lastPart_eq_iff.mp (rfl : lastPart name = lastPart name)
  · rw [← whole] at bare ⊢
    unfold rfind
    rw [if_neg bare, npos, Nat.sub_add_cancel (by decide), Nat.mod_self, List.drop_zero]
  · have mem : slash ∈ name := by
      rw [split]
      exact List.mem_append_right _ List.mem_cons_self
    have first : name.reverse.idxOf slash = (lastPart name).length := by
      have skip : slash ∉ (lastPart name).reverse := fun hs => bare (List.mem_reverse.mp hs)
      rw [split, List.reverse_append, List.reverse_cons, List.append_assoc,
        List.idxOf_append_of_notMem skip, ← split, List.length_reverse]
      exact congrArg _ List.idxOf_cons_self
    have length : name.length = before.length + 1 + (lastPart name).length := by
      conv_lhs => rw [split]
      rw [List.length_append, List.length_cons]
      omega
    have index : rfind name slash = before.length := by
      unfold rfind
      rw [if_pos mem, first]
      omega
    rw [index, Nat.mod_eq_of_lt (by omega)]
    conv_lhs => rw [split, List.append_cons]
    exact List.drop_left' (List.length_append)

theorem isHostedModel_iff (name : Bytes) :
    isHostedModel name = true ↔ ∃ last, Hosted name last := by
  have lower : fold (view "text-embedding-ada-002") = view "text-embedding-ada-002" ∧
      fold kThirdGeneration = kThirdGeneration := by decide
  have model : isHostedModel name = true ↔
      fold (lastPart name) = view "text-embedding-ada-002" ∨
        kThirdGeneration.length < (lastPart name).length ∧
          (fold (lastPart name)).take kThirdGeneration.length = kThirdGeneration := by
    unfold isHostedModel
    change (equalsIgnoringCase (lastPart name) _ || (decide (_ < (lastPart name).length) &&
      equalsIgnoringCase ((lastPart name).take _) _)) = true ↔ _
    rw [Bool.or_eq_true, Bool.and_eq_true, decide_eq_true_iff, equals_iff, equals_iff, fold_take,
      lower.1, lower.2]
  have longer : (kThirdGeneration.length < (lastPart name).length ∧
      (fold (lastPart name)).take kThirdGeneration.length = kThirdGeneration) ↔
        ∃ more, more ≠ [] ∧ fold (lastPart name) = kThirdGeneration ++ more := by
    have same : (fold (lastPart name)).length = (lastPart name).length := List.length_map _
    constructor
    · rintro ⟨lt, start⟩
      refine ⟨(fold (lastPart name)).drop kThirdGeneration.length, ?_, ?_⟩
      · rw [ne_eq, List.drop_eq_nil_iff]
        omega
      · conv_lhs => rw [← List.take_append_drop kThirdGeneration.length (fold (lastPart name))]
        rw [start]
    · rintro ⟨more, some, split⟩
      have positive := List.length_pos_iff.mpr some
      rw [split, List.length_append] at same
      refine ⟨by omega, ?_⟩
      rw [split, List.take_left]
  rw [model, longer]
  constructor
  · intro h
    obtain ⟨bare, ends⟩ := lastPart_eq_iff.mp (rfl : lastPart name = lastPart name)
    exact ⟨lastPart name, ends, bare, h⟩
  · rintro ⟨last, ends, bare, h⟩
    rw [lastPart_eq_iff.mpr ⟨bare, ends⟩]
    exact h

theorem reports_iff (name tail : Bytes) :
    ReportsHosted name (name ++ reason name ++ tail) ↔ ∃ last, Hosted name last := by
  unfold ReportsHosted reason
  rw [← isHostedModel_iff, List.append_assoc, List.prefix_append_right_inj]
  split
  · rename_i hosted
    exact iff_of_true (List.prefix_append _ _) hosted
  · rename_i other
    refine iff_of_false (fun h => ?_) other
    have four := (List.take_prefix 5 hostedReason).trans h
    have start : hostedReason.take 5 <+: unknownReason.take 5 := by
      refine List.prefix_of_prefix_length_le four ?_ (by decide)
      exact (List.take_prefix 5 unknownReason).trans (List.prefix_append _ tail)
    revert start
    decide

/-- `find_model` accepts exactly the names sentence-transformers would. -/
theorem findModel_looksUp (kRegistry : List (NamedEntry ι)) (name : Bytes) (out : ι) :
    LooksUp kRegistry name out where
  accepts := by
    cases findModel_cases kRegistry name with
    | inl found =>
      obtain ⟨entry, h⟩ := found
      exact .inl ⟨entry, h, findModel_found h⟩
    | inr missing =>
      refine .inr ⟨missing, ?_⟩
      unfold result
      rw [findModel_missing missing]
  anyCase other h := result_congr (fold_canonical h)
  qualifies h := result_congr (congrArg fold (canonical_qualified h))
  reports rejected := by
    cases findModel_cases kRegistry name with
    | inl found =>
      obtain ⟨entry, h⟩ := found
      rw [findModel_found h] at rejected
      exact absurd rfl rejected
    | inr missing =>
      rw [findModel_missing missing]
      change ReportsHosted name (name ++ reason name ++ view "; supported: " ++ _) ↔ _
      rw [List.append_assoc (name ++ reason name)]
      exact reports_iff name _

end CyborgdbEmbed.ModelNames

import CyborgdbEmbed.SymbolDiff

set_option autoImplicit false

namespace CyborgdbEmbed.SymbolDiff
open LinePatterns

def lastListed (listing : List (Name × Binding)) (name : Name) : Option Binding :=
  (listing.reverse.find? fun s => s.1 == name).map Prod.snd

section
variable (system : String) (printed : List String → List Char)

theorem lookup_definedSymbols (paths : List String) (name : Name) :
    (definedSymbols system printed paths).lookup name =
      lastListed (listed system printed paths) name := by
  unfold definedSymbols lastListed
  generalize listed system printed paths = listing
  induction listing using List.reverseRecOn with
  | nil => rfl
  | append_singleton listing s ih =>
    rw [List.foldl_concat, List.reverse_concat, List.find?_cons]
    by_cases h : s.1 = name
    · rw [← h, AList.lookup_insert, beq_self_eq_true]
      rfl
    · rw [AList.lookup_insert_ne (Ne.symm h), beq_false_of_ne h]
      exact ih

theorem lastListed_mem {listing : List (Name × Binding)} {name : Name} {binding : Binding}
    (h : lastListed listing name = some binding) : (name, binding) ∈ listing := by
  obtain ⟨s, found, rfl⟩ := Option.map_eq_some_iff.mp h
  have same : s.1 = name := by simpa using List.find?_some found
  rw [← same]
  exact List.mem_reverse.mp (List.mem_of_find?_eq_some found)

theorem mem_definedSymbols {paths : List String} {name : Name} :
    name ∈ definedSymbols system printed paths ↔
      ∃ binding, (name, binding) ∈ listed system printed paths := by
  rw [← AList.lookup_isSome, lookup_definedSymbols, Option.isSome_iff_exists]
  constructor
  · rintro ⟨binding, h⟩
    exact ⟨binding, lastListed_mem h⟩
  · rintro ⟨binding, h⟩
    rw [← Option.isSome_iff_exists]
    unfold lastListed
    rw [Option.isSome_map, List.find?_isSome]
    exact ⟨(name, binding), List.mem_reverse.mpr h, beq_self_eq_true name⟩

/-- Some symbol that both sides define is strong in an object of the first. -/
def StrongCollision (a b : List String) : Prop :=
  ∃ name, (name, .strong) ∈ listed system printed a ∧
    ∃ binding, (name, binding) ∈ listed system printed b

def GateExact (a b : List String) : Prop :=
  Greps (main system printed (ciArgs a b)).1 ↔ StrongCollision system printed a b

/-- The symbols of a family that both sides define and that the first lists last with
    `binding`. -/
def collisions (a b : List String) (family : Family) (binding : Binding) : Set Name :=
  {name | classify name = family ∧ lastListed (listed system printed a) name = some binding ∧
    ∃ other, (name, other) ∈ listed system printed b}

/-- A family that is spelled in letters has strong collisions, and less than what fills
    their column. Where the columns run together, the next one is read instead. -/
def InColumns (a b : List String) : Prop :=
  ∃ family, family ≠ .re2 ∧
    Separated [(9, (collisions system printed a b family .strong).ncard),
      (7, (collisions system printed a b family .weak).ncard),
      (8, (collisions system printed a b family .hidden).ncard)]

variable {system : String} {printed : List String → List Char} {a b : List String}

theorem breakdown_eq (family : Family) (binding : Binding) :
    breakdown (definedSymbols system printed a) (definedSymbols system printed b) family binding =
      (collisions system printed a b family binding).ncard := by
  unfold breakdown
  rw [List.countP_eq_length_filter, ← List.toFinset_card_of_nodup (nodup_shared.filter _),
    ← Set.ncard_coe_finset]
  congr 1
  ext name
  rw [Finset.mem_coe, List.mem_toFinset, List.mem_filter, Bool.and_eq_true, decide_eq_true_eq,
    decide_eq_true_eq, mem_shared, lookup_definedSymbols, mem_definedSymbols, mem_definedSymbols]
  constructor
  · rintro ⟨⟨-, both⟩, same, last⟩
    exact ⟨same, last, both⟩
  · rintro ⟨same, last, both⟩
    exact ⟨⟨⟨binding, lastListed_mem last⟩, both⟩, same, last⟩

theorem greps_iff : Greps (main system printed (ciArgs a b)).1 ↔ InColumns system printed a b := by
  rw [greps_main]
  unfold InColumns tail
  simp only [breakdown_eq]

theorem separated_ne_zero {width n : ℕ} {columns : List (ℕ × ℕ)}
    (h : Separated ((width, n) :: columns)) : n ≠ 0 := by
  unfold Separated at h
  split at h
  · exact h
  · rename_i full
    rintro rfl
    exact full (Nat.pow_pos (by decide))

theorem InColumns.strongCollision (h : InColumns system printed a b) :
    StrongCollision system printed a b := by
  obtain ⟨family, -, counts⟩ := h
  obtain ⟨name, -, last, both⟩ := Set.nonempty_of_ncard_ne_zero (separated_ne_zero counts)
  exact ⟨name, lastListed_mem last, both⟩

/-- The search is exact unless all strong collisions are missed. -/
theorem gateExact_iff : GateExact system printed a b ↔
    (StrongCollision system printed a b → InColumns system printed a b) := by
  unfold GateExact
  rw [greps_iff]
  exact ⟨Iff.mpr, fun h => ⟨InColumns.strongCollision, h⟩⟩

end

def re2Object (_ : List String) : List Char :=
  "\nre2.o:\n0000000000000000 T _ZN3re23RE2C1EPKc\n".toList

/-- The digit in the name of the family is not in the pattern. -/
theorem re2_missed : ¬ GateExact "Linux" re2Object ["libonnxruntime.a"] ["libre2.a"] := by
  have listing : listed "Linux" re2Object ["libre2.a"] =
      [("_ZN3re23RE2C1EPKc".toList, .strong)] := by decide
  intro gate
  have strong : StrongCollision "Linux" re2Object ["libonnxruntime.a"] ["libre2.a"] := by
    refine ⟨"_ZN3re23RE2C1EPKc".toList, ?_, .strong, ?_⟩
    · change _ ∈ listed "Linux" re2Object ["libre2.a"]
      rw [listing]
      exact List.mem_singleton_self _
    · rw [listing]
      exact List.mem_singleton_self _
  obtain ⟨family, other, counts⟩ := (greps_main _ _ _ _).mp (gate.mpr strong)
  cases family with
  | re2 => exact other rfl
  | abseil | flatbuffers | protobuf | other => exact absurd counts (by decide)

end CyborgdbEmbed.SymbolDiff

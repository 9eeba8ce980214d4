import CyborgdbEmbed.ListSplits
import CyborgdbEmbed.Records
import CyborgdbEmbed.Utf8

set_option autoImplicit false

namespace CyborgdbEmbed.GoldenFiles
open ListSplits Records Utf8

structure Row where
  text : String
  group : String

/-- `corpus.bin` of `freeze_corpus.py`, and `corpus_blob` of the sweep. -/
def corpusBin (rows : List Row) : Bytes := rows.flatMap fun row => view row.text ++ [0]

def corpusGroups (rows : List Row) : Bytes := rows.flatMap fun row => view (row.group ++ "\n")

def find (blob : Bytes) (c : UInt8) (start : ℕ) : Option ℕ :=
  if c ∈ blob.drop start then some (start + (blob.drop start).idxOf c) else none

theorem find_spec {blob : Bytes} {c : UInt8} {start stop : ℕ} (h : find blob c start = some stop) :
    start ≤ stop ∧ stop < blob.length := by
  unfold find at h
  split at h
  · rename_i mem
    have inside := List.idxOf_lt_length_of_mem mem
    rw [List.length_drop] at inside
    obtain rfl := Option.some.inj h
    omega
  · cases h

/-- `read_texts`, whose loop goes on while `more` holds of `start`. -/
def readTexts (more : ℕ → ℕ → Bool) (blob : Bytes) (start : ℕ) : List Bytes :=
  if more start blob.length then
    match _h : find blob 0 start with
    | none => []
    | some stop => (blob.drop start).take (stop - start) :: readTexts more blob (stop + 1)
  else []
termination_by blob.length - start
decreasing_by
  obtain ⟨before, inside⟩ := find_spec _h
  omega

namespace EmbedCorpus

def readTexts (blob : Bytes) : List Bytes :=
  GoldenFiles.readTexts (fun start size => start ≤ size) blob 0

end EmbedCorpus

namespace GoldenTest

def readTexts (blob : Bytes) : List Bytes :=
  GoldenFiles.readTexts (fun start size => start < size) blob 0

/-- `std::getline` until it reads nothing. -/
def readLines (bytes : Bytes) : List Bytes :=
  if _h : bytes = [] then []
  else
    let line := bytes.takeWhile (· ≠ 10)
    line :: readLines (bytes.drop (line.length + 1))
termination_by bytes.length
decreasing_by
  have pos := List.length_pos_of_ne_nil _h
  rw [List.length_drop]
  omega

/-- The texts and the groups `main` goes on with. -/
def fixtures (bin groups : Bytes) : Option (List Bytes × List Bytes) :=
  let texts := readTexts bin
  let groups := readLines groups
  if texts.isEmpty || texts.length != groups.length then none else some (texts, groups)

end GoldenTest

theorem find_some {blob record rest : Bytes} {c : UInt8} {start : ℕ}
    (at_start : blob.drop start = record ++ c :: rest) (clean : c ∉ record) :
    find blob c start = some (start + record.length) := by
  have mem : c ∈ record ++ c :: rest := List.mem_append_right _ List.mem_cons_self
  unfold find
  rw [at_start, if_pos mem, List.idxOf_append_of_notMem clean, List.idxOf_cons_self, Nat.add_zero]

theorem readTexts_eq {more : ℕ → ℕ → Bool} {blob : Bytes}
    (goes : ∀ start, start < blob.length → more start blob.length = true) (start : ℕ) :
    readTexts more blob start = split 0 (blob.drop start) := by
  induction hm : blob.length - start using Nat.strong_induction_on generalizing start with
  | _ m ih =>
  rcases @split_cases UInt8 _ 0 (blob.drop start) with
    ⟨unended, nothing⟩ | ⟨record, rest, clean, shape, first⟩
  · rw [nothing, readTexts]
    have missing : find blob 0 start = none := if_neg unended
    split
    · split
      · rfl
      · rename_i stop found
        rw [missing] at found
        cases found
    · rfl
  · have found := find_some shape clean
    obtain ⟨-, inside⟩ := find_spec found
    have behind : blob.drop (start + record.length + 1) = rest := by
      rw [Nat.add_assoc, ← List.drop_drop, shape, ← List.drop_drop, List.drop_left]
      rfl
    rw [first, readTexts, if_pos (goes start (by omega))]
    split
    · rename_i missing
      rw [found] at missing
      cases missing
    · rename_i stop found'
      obtain rfl := Option.some.inj (found.symm.trans found')
      rw [ih (blob.length - (start + record.length + 1)) (by omega) _ rfl, behind, shape,
        Nat.add_sub_cancel_left, List.take_left]

theorem embedCorpus_texts (blob : Bytes) : EmbedCorpus.readTexts blob = split 0 blob :=
  readTexts_eq (fun _ inside => decide_eq_true (Nat.le_of_lt inside)) 0

theorem goldenTest_texts (blob : Bytes) : GoldenTest.readTexts blob = split 0 blob :=
  readTexts_eq (fun _ inside => decide_eq_true inside) 0

/-- A file in which every line is ended. -/
theorem readLines_join (lines : List Bytes) (clean : ∀ line ∈ lines, 10 ∉ line) :
    GoldenTest.readLines (join 10 lines) = lines := by
  induction lines with
  | nil =>
    rw [GoldenTest.readLines]
    exact dif_pos rfl
  | cons line lines ih =>
    rw [List.forall_mem_cons] at clean
    have first : (line ++ 10 :: join 10 lines).takeWhile (· ≠ 10) = line :=
      takeWhile_run (fun c hc => decide_eq_true fun same => clean.1 (same ▸ hc)) (by decide)
    rw [join_cons, GoldenTest.readLines, dif_neg (by simp), first]
    dsimp only
    rw [← List.drop_drop, List.drop_left]
    exact congrArg (line :: ·) (ih clean.2)

theorem corpusBin_eq (rows : List Row) :
    corpusBin rows = join 0 (rows.map fun row => view row.text) := by
  unfold corpusBin join
  rw [List.flatMap_map]

theorem corpusGroups_eq (rows : List Row) :
    corpusGroups rows = join 10 (rows.map fun row => view row.group) := by
  have line (group : String) : view (group ++ "\n") = view group ++ [10] := by
    unfold view
    rw [String.toList_append, encode_append]
    rfl
  unfold corpusGroups join
  rw [List.flatMap_map]
  simp only [line]

theorem zero_mem_view (text : String) : 0 ∈ view text ↔ '\x00' ∈ text.toList := by
  unfold view encode
  rw [List.mem_flatMap]
  constructor
  · rintro ⟨c, hc, zero⟩
    by_contra none
    have other : c ≠ '\x00' := fun same => none (same ▸ hc)
    exact encodeChar_ne_zero other 0 zero rfl
  · intro h
    exact ⟨_, h, by rw [encodeChar_nul]; exact List.mem_singleton_self 0⟩

def Clean (rows : List Row) : Prop := ∀ row ∈ rows, '\x00' ∉ row.text.toList

theorem clean_iff (rows : List Row) :
    (∀ text ∈ rows.map fun row => view row.text, 0 ∉ text) ↔ Clean rows := by
  simp only [List.forall_mem_map, zero_mem_view]
  rfl

/-- Of a corpus whose groups are lines, the golden test accepts the frozen files just when
    there is a text and none has a NUL, and then it has every text beside its group. The
    sweep's own program has no such check, and reads the texts in place just as well. -/
theorem fixtures_exact (rows : List Row) (lines : ∀ row ∈ rows, 10 ∉ view row.group) :
    (∀ texts groups, GoldenTest.fixtures (corpusBin rows) (corpusGroups rows) =
        some (texts, groups) ↔
      rows ≠ [] ∧ Clean rows ∧ texts = rows.map (fun row => view row.text) ∧
        groups = rows.map fun row => view row.group) ∧
    ((∀ (i : ℕ) row, rows[i]? = some row →
        (EmbedCorpus.readTexts (corpusBin rows))[i]? = some (view row.text)) ↔ Clean rows) := by
  have groupsRead : GoldenTest.readLines (corpusGroups rows) =
      rows.map fun row => view row.group := by
    rw [corpusGroups_eq]
    exact readLines_join _ (List.forall_mem_map.mpr lines)
  constructor
  · intro texts groups
    have count : (split 0 (corpusBin rows)).length = rows.length ↔ Clean rows := by
      rw [← clean_iff, ← length_split_join_iff, ← corpusBin_eq, List.length_map]
    unfold GoldenTest.fixtures
    rw [groupsRead, goldenTest_texts]
    dsimp only
    rw [List.length_map]
    by_cases clean : Clean rows
    · have texts_read : split 0 (corpusBin rows) = rows.map fun row => view row.text := by
        rw [corpusBin_eq]
        exact split_join ((clean_iff rows).mpr clean)
      rw [texts_read, List.length_map, bne_self_eq_false, Bool.or_false]
      cases rows with
      | nil => simp
      | cons row rows =>
        rw [List.map_cons, List.isEmpty_cons, if_neg Bool.false_ne_true, Option.some.injEq,
          Prod.mk.injEq]
        constructor
        · rintro ⟨rfl, rfl⟩
          exact ⟨List.cons_ne_nil _ _, clean, rfl, rfl⟩
        · rintro ⟨-, -, rfl, rfl⟩
          exact ⟨rfl, rfl⟩
    · have differ : ((split 0 (corpusBin rows)).length != rows.length) = true :=
        bne_iff_ne.mpr fun same => clean (count.mp same)
      rw [differ, Bool.or_true, if_pos rfl]
      exact iff_of_false (by simp) fun h => clean h.2.1
  · rw [embedCorpus_texts, corpusBin_eq, ← clean_iff, ← split_join_getElem_iff]
    constructor
    · intro h i text there
      rw [List.getElem?_map] at there
      obtain ⟨row, hrow, rfl⟩ := Option.map_eq_some_iff.mp there
      exact h i row hrow
    · intro h i row hrow
      exact h i _ (by rw [List.getElem?_map, hrow]; rfl)

/-- An empty text and one with a line end are texts like any other. -/
theorem fixtures_exact_pair :
    let rows : List Row := [⟨"two\nlines", "real"⟩, ⟨"", "edge"⟩]
    (∀ texts groups, GoldenTest.fixtures (corpusBin rows) (corpusGroups rows) =
        some (texts, groups) ↔
      rows ≠ [] ∧ Clean rows ∧ texts = rows.map (fun row => view row.text) ∧
        groups = rows.map fun row => view row.group) ∧
    ((∀ (i : ℕ) row, rows[i]? = some row →
        (EmbedCorpus.readTexts (corpusBin rows))[i]? = some (view row.text)) ↔ Clean rows) := by
  intro rows
  exact fixtures_exact rows (by decide)

/-- A `float` by its bits, little-endian. -/
def bytesOf (float : UInt32) : Bytes :=
  (List.range 4).map fun i => UInt8.ofNat (float.toNat >>> (8 * i))

def floatOf (bytes : Bytes) : UInt32 :=
  UInt32.ofNat (bytes.foldr (fun byte rest => byte.toNat + 256 * rest) 0)

/-- What `write_vectors` of `common.py` and `write` of `embed_corpus.cpp` put into a file, and
    into the one beside it. -/
structure VectorFile where
  bytes : Bytes
  rows : ℕ
  dim : ℕ

def writeVectors (matrix : List (List UInt32)) (dim : ℕ) : VectorFile :=
  ⟨matrix.flatten.flatMap bytesOf, matrix.length, dim⟩

/-- `read_vectors` of `common.py`. `reshape` wants as many floats as there are places. -/
def readVectors (file : VectorFile) : Option (List (List UInt32)) :=
  let flat := (words 4 file.bytes).map floatOf
  if flat.length = file.rows * file.dim then some (words file.dim flat) else none

/-- `read_vectors` of `golden_test.cpp`: the floats, how many bytes the vector has room for
    and how many are read into it. -/
structure VectorRead where
  data : List UInt32
  room : ℕ
  read : ℕ

def GoldenTest.readVectors (file : Option Bytes) : VectorRead :=
  match file with
  | none => ⟨[], 0, 0⟩
  | some bytes => ⟨(words 4 bytes).map floatOf, bytes.length / 4 * 4, bytes.length⟩

theorem floatOf_bytesOf (float : UInt32) : floatOf (bytesOf float) = float := by
  have small : float.toNat < 4294967296 := float.toNat_lt
  have byte (n : ℕ) : (UInt8.ofNat n).toNat = n % 256 := UInt8.toNat_ofNat'
  unfold floatOf bytesOf
  simp only [List.range_succ, List.range_zero, List.nil_append, List.cons_append, List.map_cons,
    List.map_nil, List.foldr_cons, List.foldr_nil, byte]
  have whole : float.toNat >>> (8 * 0) % 256 + 256 * (float.toNat >>> (8 * 1) % 256 +
      256 * (float.toNat >>> (8 * 2) % 256 + 256 * (float.toNat >>> (8 * 3) % 256 + 256 * 0))) =
      float.toNat := by
    simp only [Nat.shiftRight_eq_div_pow, Nat.reduceMul, Nat.reducePow, Nat.div_one]
    omega
  rw [whole, UInt32.ofNat_toNat]

theorem bytesOf_length (float : UInt32) : (bytesOf float).length = 4 := rfl

theorem floats_back (floats : List UInt32) :
    (words 4 (floats.flatMap bytesOf)).map floatOf = floats :=
  words_written (fun float _ => bytesOf_length float) (by decide) floatOf_bytesOf

/-- Every arm's vectors come back from their files: as a matrix to the comparison, and float
    by float to the golden test, which stays inside of its vector. It does so for a file
    just when the file is not cut off in the middle of a float. -/
theorem vectors_exact : (∀ (matrix : List (List UInt32)) (dim : ℕ), 0 < dim →
      (∀ row ∈ matrix, row.length = dim) →
        readVectors (writeVectors matrix dim) = some matrix ∧
        (GoldenTest.readVectors (some (writeVectors matrix dim).bytes)).data = matrix.flatten) ∧
    ∀ bytes, (GoldenTest.readVectors (some bytes)).read ≤
      (GoldenTest.readVectors (some bytes)).room ↔ 4 ∣ bytes.length := by
  refine ⟨fun matrix dim pos sized => ⟨?_, floats_back matrix.flatten⟩, fun bytes => ?_⟩
  · have flat : matrix.flatten = matrix.flatMap id := List.flatMap_id.symm
    have length : matrix.flatten.length = matrix.length * dim := by
      rw [flat]
      exact length_written sized
    have rows : (words dim (matrix.flatMap id)).map id = matrix :=
      words_written sized pos fun _ => rfl
    unfold readVectors writeVectors
    dsimp only
    rw [floats_back, if_pos length, flat, ← List.map_id (words dim _), rows]
  · change bytes.length ≤ bytes.length / 4 * 4 ↔ _
    omega

theorem vectors_exact_square :
    readVectors (writeVectors [[1, 2], [0x3f800000, 4]] 2) = some [[1, 2], [0x3f800000, 4]] ∧
    (GoldenTest.readVectors (some (writeVectors [[1, 2], [0x3f800000, 4]] 2).bytes)).data =
      [1, 2, 0x3f800000, 4] :=
  vectors_exact.1 [[1, 2], [0x3f800000, 4]] 2 (by decide) (by decide)

end CyborgdbEmbed.GoldenFiles

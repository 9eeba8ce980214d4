import CyborgdbEmbed.ParityGate
import CyborgdbEmbed.RegistryRewrites
import Mathlib.Data.List.Forall2

set_option autoImplicit false

namespace CyborgdbEmbed.VerdictWrites
open ListSplits (lookup_reverse)
open ParityGate RegistryText RegistryRewrites TextLines

/-- What `sweep.py` reads of a model. -/
structure Entry where
  id : String
  enum : String
  deriving DecidableEq, Repr

/-- A registry in which a block begins at every id, and has its verdict in double quotes. -/
structure Registry where
  text : List Char
  models : List Entry
  ids : models.map Entry.id = (blocks (readLines text)).map Block.id
  parity : ∀ block ∈ blocks (readLines text), HasQuoted "parity".toList block

inductive Kind where
  | document
  | query
  deriving DecidableEq, Repr

inductive Arm where
  | ort
  | embed
  deriving DecidableEq, Repr

/-- What happens to one model: the exit codes of the arms, which files of vectors there are
    then, and the numbers behind each `verdict_real`. -/
structure Trial (R : Type) where
  reference : ℤ
  ort : ℤ
  embed : ℤ
  referenceExists : Kind → Bool
  candidateExists : Arm → Kind → Bool
  real : Arm → Kind → Metrics R

structure Run (R : Type) where
  models : List String
  skipReference : Bool
  trial : ℕ → Trial R

section
variable {R : Type}

def Trial.comparable (t : Trial R) (arm : Arm) (kind : Kind) : Bool :=
  t.referenceExists kind && t.candidateExists arm kind

def Trial.scored (t : Trial R) (arm : Arm) (kind : Kind) : Option (Metrics R) :=
  if t.comparable arm kind then some (t.real arm kind) else none

def Trial.measured (t : Trial R) (skipReference : Bool) : Measured R :=
  if !skipReference && t.reference != 0 then .error "reference"
  else if t.ort != 0 then .error "ort"
  else if t.embed != 0 then .error "embed"
  else .compared (t.scored .ort .document) (t.scored .ort .query) (t.scored .embed .document)
    (t.scored .embed .query)

def wanted (models : List String) (entry : Entry) : Bool :=
  models.isEmpty || models.contains entry.id || models.contains entry.enum

def Run.rounds (run : Run R) (entries : List Entry) : List (Entry × Trial R) :=
  (entries.filter (wanted run.models)).zipIdx.map fun p => (p.1, run.trial p.2)

/-- The summary, latest entry first: a model that comes again is overwritten. -/
def Run.summary (run : Run R) (entries : List Entry) : List (String × Measured R) :=
  ((run.rounds entries).map fun r => (r.1.id, r.2.measured run.skipReference)).reverse

/-- All arms ran, and vectors to compare are there for one of the directions only. -/
structure Trial.OneDirection (t : Trial R) (skipReference : Bool) : Prop where
  reference : skipReference = true ∨ t.reference = 0
  ort : t.ort = 0
  embed : t.embed = 0
  one : t.comparable .embed .document ≠ t.comparable .embed .query

/-- Each model is compared in both directions or in neither, where it is last in the run. -/
def BothOrNeither (run : Run R) (entries : List Entry) : Prop :=
  ∀ before entry trial after, run.rounds entries = before ++ (entry, trial) :: after →
    (∀ r ∈ after, r.1.id ≠ entry.id) → ¬ trial.OneDirection run.skipReference

variable [LE R] [LT R] [DecidableLE R] [DecidableLT R] [Sub R] [OfNat R 0] [OfNat R 1]
  [OfScientific R]

def main (file : Registry) (run : Run R) : List Char :=
  (writeVerdicts (run.summary file.models) (readLines file.text)).flatten

def BothAgreeOn (results : Measured R) (v : Verdict) : Prop :=
  ∃ ortDocument ortQuery document query,
    results = .compared ortDocument ortQuery (some document) (some query) ∧
      verdict document = v ∧ verdict query = v

structure RightVerdict (results : Measured R) (value : List Char) : Prop where
  needsBoth : value ≠ [] ↔ ∃ v, BothAgreeOn results v
  isThat : ∀ v, BothAgreeOn results v → value = v.text.toList

structure BlockRight (summary : List (String × Measured R)) (block block' : Block) : Prop where
  id : block'.id = block.id
  first : block'.first = block.first
  outside : summary.lookup block.id = none → block'.body = block.body
  others : List.Forall₂ (OnlyAt ["parity"]) block.body block'.body
  inside : ∀ results, summary.lookup block.id = some results →
    ∃ value, Reads "parity".toList value block' ∧ RightVerdict results value

structure VerdictsRight (summary : List (String × Measured R)) (old new : List Line) : Prop where
  before : bodyOf new = bodyOf old
  models : List.Forall₂ (BlockRight summary) (blocks old) (blocks new)

/-- The verdicts are right line by line, as text mode reads lines. It writes each end of a
    line as LF, so a file that had CR LF or CR has neither any more. -/
structure RunRight (file : Registry) (run : Run R) : Prop where
  verdicts : VerdictsRight (run.summary file.models) (readLines file.text)
    (readLines (main file run))
  lineEnds : '\r' ∉ main file run

def OneSided : Measured R → Prop
  | .error _ => False
  | .compared _ _ document query => document.isSome ≠ query.isSome

omit [LE R] [LT R] [DecidableLE R] [DecidableLT R] [Sub R] [OfNat R 0] [OfNat R 1]
  [OfScientific R] in
theorem oneSided_measured (t : Trial R) (skipReference : Bool) :
    OneSided (t.measured skipReference) ↔ t.OneDirection skipReference := by
  have isSome (kind : Kind) : (t.scored .embed kind).isSome = t.comparable .embed kind := by
    unfold Trial.scored
    split
    · rename_i h
      exact h.symm
    · rename_i h
      exact (eq_false_of_ne_true h).symm
  unfold Trial.measured
  split
  · rename_i failed
    refine iff_of_false id fun h => ?_
    rw [Bool.and_eq_true, Bool.not_eq_true', bne_iff_ne] at failed
    cases h.reference with
    | inl skipped => rw [skipped] at failed; cases failed.1
    | inr ran => exact failed.2 ran
  · rename_i reference
    split
    · rename_i failed
      exact iff_of_false id fun h => (bne_iff_ne.mp failed) h.ort
    · rename_i ort
      split
      · rename_i failed
        exact iff_of_false id fun h => (bne_iff_ne.mp failed) h.embed
      · rename_i embed
        rw [Bool.not_eq_true, bne_eq_false_iff_eq] at ort embed
        unfold OneSided
        dsimp only
        rw [isSome, isSome]
        refine ⟨fun one => ⟨?_, ort, embed, one⟩, fun h => h.one⟩
        cases skipReference with
        | true => exact .inl rfl
        | false =>
          right
          rwa [Bool.not_false, Bool.true_and, Bool.not_eq_true, bne_eq_false_iff_eq] at reference

theorem toList_ne {s : String} : s.toList ≠ [] ↔ s ≠ "" := not_congr String.toList_eq_nil_iff

theorem bothAgreeOn_compared {ortDocument ortQuery document query : Option (Metrics R)}
    {v : Verdict} : BothAgreeOn (.compared ortDocument ortQuery document query) v ↔
      document.map verdict = some v ∧ query.map verdict = some v := by
  rw [Option.map_eq_some_iff, Option.map_eq_some_iff]
  constructor
  · rintro ⟨_, _, d, q, heq, hd, hq⟩
    cases heq
    exact ⟨⟨d, rfl, hd⟩, q, rfl, hq⟩
  · rintro ⟨⟨d, rfl, hd⟩, q, rfl, hq⟩
    exact ⟨ortDocument, ortQuery, d, q, rfl, hd, hq⟩

theorem rightVerdict_none {results : Measured R} {value : List Char}
    (none : ∀ v, ¬ BothAgreeOn results v) : RightVerdict results value ↔ value = [] := by
  constructor
  · intro right
    by_contra written
    obtain ⟨v, both⟩ := right.needsBoth.mp written
    exact none v both
  · intro empty
    refine ⟨iff_of_false (not_not.mpr empty) ?_, fun v both => absurd both (none v)⟩
    rintro ⟨v, both⟩
    exact none v both

theorem rightVerdict_agree {results : Measured R} {v : Verdict} (both : BothAgreeOn results v)
    (one : ∀ w, BothAgreeOn results w → w = v) (written : results.value = v.text) :
    RightVerdict results results.value.toList where
  needsBoth := iff_of_true (toList_ne.mpr (by rw [written]; exact v.text_ne)) ⟨v, both⟩
  isThat w hw := by rw [written, one w hw]

theorem rightVerdict_iff (results : Measured R) :
    RightVerdict results results.value.toList ↔ ¬ OneSided results := by
  cases results with
  | error arm =>
    refine (rightVerdict_none ?_).trans (iff_of_true rfl id)
    rintro v ⟨_, _, _, _, heq, -⟩
    cases heq
  | compared ortDocument ortQuery document query =>
    have lone (m : Metrics R) : (verdict m).text.toList ≠ [] := toList_ne.mpr (verdict m).text_ne
    cases document with
    | none =>
      have none (v : Verdict) : ¬ BothAgreeOn (.compared ortDocument ortQuery none query) v := by
        intro both
        cases (bothAgreeOn_compared.mp both).1
      refine (rightVerdict_none none).trans ?_
      cases query with
      | none => exact iff_of_true rfl (not_not.mpr rfl)
      | some q => exact iff_of_false (lone q) (not_not.mpr nofun)
    | some d =>
      cases query with
      | none =>
        have none (v : Verdict) :
            ¬ BothAgreeOn (.compared ortDocument ortQuery (some d) none) v := by
          intro both
          cases (bothAgreeOn_compared.mp both).2
        exact (rightVerdict_none none).trans (iff_of_false (lone d) (not_not.mpr nofun))
      | some q =>
        refine iff_of_true ?_ (not_not.mpr rfl)
        have written : (Measured.compared ortDocument ortQuery (some d) (some q)).value =
            if (verdict d).text = (verdict q).text then (verdict d).text else "" := rfl
        by_cases same : verdict d = verdict q
        · apply rightVerdict_agree (v := verdict d)
          · exact bothAgreeOn_compared.mpr ⟨rfl, congrArg some same.symm⟩
          · exact fun w both => (Option.some.inj (bothAgreeOn_compared.mp both).1).symm
          · rw [written, if_pos (congrArg Verdict.text same)]
        · have none (v : Verdict) :
              ¬ BothAgreeOn (.compared ortDocument ortQuery (some d) (some q)) v := by
            intro both
            obtain ⟨hd, hq⟩ := bothAgreeOn_compared.mp both
            exact same (Option.some.inj (hd.trans hq.symm))
          rw [rightVerdict_none none, written, if_neg fun text => same (Verdict.text_inj text)]
          rfl

variable {summary : List (String × Measured R)} {file : Registry}

theorem alike_recordVerdict (id : String) (line : Line) :
    Alike line (recordVerdict summary id line) := by
  unfold recordVerdict
  split
  · split
    · exact alike_replaceQuoted (Measured.value_plain _) line
    · exact Alike.refl line
  · exact Alike.refl line

theorem readLines_main (file : Registry) (run : Run R) :
    readLines (main file run) = writeVerdicts (run.summary file.models) (readLines file.text) :=
  ((lines_readLines file.text).alike (alike_edit alike_recordVerdict none _)).reread

theorem main_lineEnds (file : Registry) (run : Run R) : '\r' ∉ main file run := by
  have same : (readLines (main file run)).flatten = main file run :=
    congrArg List.flatten (readLines_main file run)
  rw [← same, readLines, flatten_splitKeep]
  exact not_mem_lineEnds _

theorem hasKey_recordVerdict (id : String) (line : Line) :
    hasKey "parity".toList (recordVerdict summary id line) = hasKey "parity".toList line := by
  unfold recordVerdict
  split
  · split
    · exact hasKey_replaceQuoted (by decide) _ line
    · rfl
  · rfl

theorem recordVerdict_parity {results : Measured R} {id : String} {line : Line}
    (hr : summary.lookup id = some results) (parity : hasKey "parity".toList line = true) :
    recordVerdict summary id line = replaceQuoted results.value.toList line := by
  unfold recordVerdict
  rw [hr]
  exact if_pos parity

theorem onlyAt_recordVerdict {id : String} {line : Line}
    (parity : hasKey "parity".toList line = true → DoubleQuoted line) :
    OnlyAt ["parity"] line (recordVerdict summary id line) := by
  cases h : hasKey "parity".toList line with
  | false => exact .inl (recordVerdict_eq h)
  | true =>
    cases hr : summary.lookup id with
    | none =>
      left
      unfold recordVerdict
      rw [hr]
    | some results =>
      rw [recordVerdict_parity hr h]
      exact .inr ⟨⟨"parity", List.mem_singleton_self _, h⟩, _, (parity h).requoted _⟩

theorem reads_recordVerdict {block : Block} {results : Measured R}
    (hr : summary.lookup block.id = some results) (has : HasQuoted "parity".toList block) :
    Reads "parity".toList results.value.toList (block.edit (recordVerdict summary)) :=
  reads_edit has results.value_plain (hasKey_recordVerdict block.id) fun _ =>
    recordVerdict_parity hr

theorem blockRight_iff {block : Block} (hb : block ∈ blocks (readLines file.text)) :
    BlockRight summary block (block.edit (recordVerdict summary)) ↔
      ∀ results, summary.lookup block.id = some results → ¬ OneSided results := by
  have parity := file.parity block hb
  constructor
  · intro right results hr
    obtain ⟨value, reads, verdict⟩ := right.inside results hr
    rw [reads.unique (reads_recordVerdict hr parity)] at verdict
    exact (rightVerdict_iff results).mp verdict
  · intro both
    refine ⟨rfl, rfl, fun hr => ?_, ?_, fun results hr => ?_⟩
    · rw [written_unmeasured hr]
    · refine List.forall₂_map_right_iff.mpr (List.forall₂_same.mpr fun line hline => ?_)
      exact onlyAt_recordVerdict (parity.quoted line hline)
    · exact ⟨_, reads_recordVerdict hr parity, (rightVerdict_iff results).mpr (both results hr)⟩

theorem verdictsRight_iff (file : Registry) (summary : List (String × Measured R)) :
    VerdictsRight summary (readLines file.text) (writeVerdicts summary (readLines file.text)) ↔
      ∀ block ∈ blocks (readLines file.text), ∀ results,
        summary.lookup block.id = some results → ¬ OneSided results := by
  have written : blocks (writeVerdicts summary (readLines file.text)) =
      (blocks (readLines file.text)).map (Block.edit (recordVerdict summary)) :=
    blocks_edit idOf_recordVerdict _ none
  constructor
  · intro right block hb
    have models := right.models
    rw [written, List.forall₂_map_right_iff, List.forall₂_same] at models
    exact (blockRight_iff hb).mp (models block hb)
  · intro both
    refine ⟨bodyOf_edit_none _, ?_⟩
    rw [written, List.forall₂_map_right_iff, List.forall₂_same]
    exact fun block hb => (blockRight_iff hb).mpr (both block hb)

omit [LE R] [LT R] [DecidableLE R] [DecidableLT R] [Sub R] [OfNat R 0] [OfNat R 1]
  [OfScientific R] in
theorem lookup_summary {run : Run R} {entries : List Entry} {id : String} {results : Measured R} :
    (run.summary entries).lookup id = some results ↔ ∃ before entry trial after,
      run.rounds entries = before ++ (entry, trial) :: after ∧ entry.id = id ∧
        (∀ r ∈ after, r.1.id ≠ id) ∧ trial.measured run.skipReference = results := by
  unfold Run.summary
  rw [lookup_reverse]
  constructor
  · rintro ⟨before, after, split, last⟩
    obtain ⟨first, rest, rounds, rfl, second⟩ := List.map_eq_append_iff.mp split
    obtain ⟨⟨entry, trial⟩, more, rfl, heq, rfl⟩ := List.map_eq_cons_iff.mp second
    obtain ⟨rfl, rfl⟩ := Prod.mk.inj heq
    refine ⟨first, entry, trial, more, rounds, rfl, fun r hr => ?_, rfl⟩
    exact last _ (List.mem_map_of_mem hr)
  · rintro ⟨before, entry, trial, after, rounds, rfl, last, rfl⟩
    rw [rounds, List.map_append, List.map_cons]
    refine ⟨_, _, rfl, ?_⟩
    rw [List.forall_mem_map]
    exact last

theorem runRight_iff_verdicts (file : Registry) (run : Run R) : RunRight file run ↔
    VerdictsRight (run.summary file.models) (readLines file.text)
      (writeVerdicts (run.summary file.models) (readLines file.text)) := by
  rw [← readLines_main]
  exact ⟨RunRight.verdicts, fun verdicts => ⟨verdicts, main_lineEnds file run⟩⟩

/-- A run writes the verdicts it should exactly if it compares each model in both directions
    or in neither. -/
theorem runRight_iff (file : Registry) (run : Run R) :
    RunRight file run ↔ BothOrNeither run file.models := by
  rw [runRight_iff_verdicts, verdictsRight_iff]
  have known (entry : Entry) (hentry : entry ∈ file.models) :
      ∃ block ∈ blocks (readLines file.text), block.id = entry.id := by
    have mem := List.mem_map_of_mem (f := Entry.id) hentry
    rw [file.ids] at mem
    exact List.mem_map.mp mem
  constructor
  · intro both before entry trial after rounds last one
    have selected : entry ∈ file.models := by
      have mem : (entry, trial) ∈ run.rounds file.models := by
        rw [rounds]
        exact List.mem_append_right _ List.mem_cons_self
      obtain ⟨p, hp, heq⟩ := List.mem_map.mp mem
      obtain ⟨rfl, -⟩ := Prod.mk.inj heq
      exact (List.mem_filter.mp (List.fst_mem_of_mem_zipIdx hp)).1
    obtain ⟨block, hb, hid⟩ := known entry selected
    have hr := lookup_summary.mpr ⟨before, entry, trial, after, rounds, hid.symm, hid ▸ last, rfl⟩
    exact both block hb _ hr ((oneSided_measured trial run.skipReference).mpr one)
  · intro both block hb results hr one
    obtain ⟨before, entry, trial, after, rounds, hid, last, rfl⟩ := lookup_summary.mp hr
    refine both before entry trial after rounds (hid ▸ last) ?_
    exact (oneSided_measured trial run.skipReference).mp one

end

def newModel : Block where
  id := "BAAI/bge-small-en-v1.5"
  first := "  - id: BAAI/bge-small-en-v1.5\n".toList
  body := ["    enum: BgeSmallEnV15\n".toList, "    parity: \"\"\n".toList]

def newModelText : List Char := "models:\n".toList ++ newModel.first ++ newModel.body.flatten

theorem newModel_blocks : blocks (readLines newModelText) = [newModel] := by decide +kernel

def newModelRegistry : Registry where
  text := newModelText
  models := [⟨"BAAI/bge-small-en-v1.5", "BgeSmallEnV15"⟩]
  ids := by
    rw [newModel_blocks]
    rfl
  parity := by
    rw [newModel_blocks]
    refine List.forall_mem_singleton.mpr ⟨⟨_, List.mem_cons_of_mem _ List.mem_cons_self, ?_⟩, ?_⟩
    · decide +kernel
    · refine List.forall_mem_cons.mpr ⟨fun key => ?_, List.forall_mem_singleton.mpr fun _ => ?_⟩
      · exact absurd key (by decide +kernel)
      · exact ⟨"    parity: ".toList, [], ['\n'], by decide, by decide, rfl⟩

/-- Of the vectors of the reference only those of the documents are there. -/
def documentsOnly : Run Rat where
  models := []
  skipReference := true
  trial := fun _ =>
    { reference := 0
      ort := 0
      embed := 0
      referenceExists := fun kind => kind == .document
      candidateExists := fun _ _ => true
      real := fun _ _ => ⟨80, 80, 0, 1, none⟩ }

/-- The queries were not scored, and the model has a verdict. -/
theorem documentsOnly_written : ¬ RunRight newModelRegistry documentsOnly := by
  rw [runRight_iff_verdicts, verdictsRight_iff]
  intro both
  have hb : newModel ∈ blocks (readLines newModelRegistry.text) := by
    change newModel ∈ blocks (readLines newModelText)
    rw [newModel_blocks]
    exact List.mem_singleton_self _
  exact both newModel hb _ rfl nofun

end CyborgdbEmbed.VerdictWrites

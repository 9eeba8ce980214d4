import CyborgdbEmbed.OneName
import CyborgdbEmbed.VerifiedLoads

set_option autoImplicit false

/-!
# The cache of prebuilt archives

`cyborgdb_embed_fetch_artifact` and `cyborgdb_embed_strip_artifact`, for one archive that any
number of configure runs want. They share the cache, and each may be interrupted between two
steps. `file(DOWNLOAD)` hashes what it finds under the name before it downloads, and what it
has downloaded afterwards.
-/
namespace CyborgdbEmbed.ArtifactCache
open FileSystem Resolve TransitionSystem
open LoadSession (Hash)
open VerifiedLoads (chunk opened opened_file)

/-- What the two functions are told, and the options they look at. -/
structure Setup where
  name : String
  platform : String
  tag : String
  digests : List String
  repo : String
  stripArtifacts : Bool
  /-- `CMAKE_STRIP` names a program. -/
  hasStrip : Bool

namespace Setup
variable (setup : Setup)

def directory : Path := [".artifacts", setup.tag]

def stem : String := "lib" ++ setup.name ++ "-" ++ setup.platform

def file : Path := setup.directory ++ [setup.stem ++ ".a"]

def partialFile : Path := setup.directory ++ [setup.stem ++ ".a.partial"]

def strippedFile : Path := setup.directory ++ [setup.stem ++ "-local-stripped.a"]

def url : String := setup.repo ++ "/releases/download/" ++ setup.tag ++ "/" ++ setup.stem ++ ".a"

def strips : Bool := setup.stripArtifacts && setup.hasStrip && setup.name == "onnxruntime"

end Setup

def isHex (c : Char) : Bool :=
  c.isDigit || ('a' ≤ c && c ≤ 'f') || ('A' ≤ c && c ≤ 'F')

/-- `^${name}-${platform} +([0-9a-fA-F]+|PENDING)$` -/
def entryDigest (key entry : List Char) : Option String :=
  let rest := entry.drop key.length
  let value := rest.dropWhile (· == ' ')
  if key.isPrefixOf entry && rest.head? == some ' ' &&
      (value == "PENDING".toList || !value.isEmpty && value.all isHex)
    then some (String.ofList value) else none

def Setup.digest (setup : Setup) : String :=
  setup.digests.foldl (fun digest entry =>
    (entryDigest (setup.name ++ "-" ++ setup.platform).toList entry.toList).getD digest) ""

def Setup.expected (setup : Setup) : String := setup.digest.map Char.toLower

def Setup.noDigest (setup : Setup) : String :=
  "No digest recorded for " ++ setup.name ++ "-" ++ setup.platform ++ " at " ++ setup.tag ++
    ".\nPush the " ++ setup.tag ++ " tag to publish it, or configure with " ++
    "-DCYBORGDB_EMBED_BUILD_VENDORED=ON to build from source."

def Setup.notFetched (setup : Setup) (reason : String) : String :=
  "Could not fetch " ++ setup.url ++ ": " ++ reason

inductive Phase where
  | called
  | downloading
  -- `code` is that of the transfer, if there has been one
  | hashing (code : Option ℕ) (file : ℕ) (got : Bytes)
  | fetching
  | writing (file : ℕ)
  | closed (code : ℕ)
  | removing
  | verified
  | present
  | uncopied
  | copying (source file : ℕ)
  | stripping
  | unstripping
  | returned (path : Path)
  | failed (message : String)
  deriving DecidableEq

def Phase.downloads : Phase → Bool
  | .downloading | .hashing _ _ _ | .fetching | .writing _ | .closed _ | .removing | .verified =>
    true
  | _ => false

/-- From the decision to make a stripped copy until it is made or removed. -/
def Phase.copies : Phase → Bool
  | .uncopied | .copying _ _ | .stripping | .unstripping => true
  | _ => false

structure State where
  disk : Disk
  configures : ℕ → Option Phase := fun _ => none

inductive Event where
  | look
  | create
  | write (bytes : Bytes)
  | transferred (code : ℕ)
  | reopen
  -- at the end of the file nothing is read
  | read (size : ℕ)
  | remove (reason : String)
  | rename
  | openCopy
  | copy (size : ℕ)
  | copyFails
  | strip
  -- what a strip that fails leaves behind
  | stripFails (left : Bytes)
  | unstrip

inductive Action where
  | start (p : ℕ)
  | act (p : ℕ) (e : Event)
  | kill (p : ℕ)

/-- `file(DOWNLOAD)` makes the directories on the way. -/
def mkdirs (d : Disk) (setup : Setup) : Option Disk :=
  (d.mkdir [".artifacts"]).bind fun d => d.mkdir setup.directory

def afterHash (setup : Setup) (digest : String) : Option ℕ → Phase
  | none => if digest = setup.expected then .verified else .fetching
  | some code =>
    if digest = setup.expected then if code = 0 then .verified else .removing
    else .failed "DOWNLOAD HASH mismatch"

section
variable (sha256 : Hash) (strip : Bytes → Bytes) (setup : Setup)

def advance (d : Disk) : Phase → Event → Option (Disk × Phase)
  | .called, .look => some (d,
    if d.present setup.file then .present
    else if setup.digest = "" ∨ setup.digest = "PENDING" then .failed setup.noDigest
    else .downloading)
  | .downloading, .look => some (d, match opened d setup.partialFile with
    | some file => .hashing none file []
    | none => .fetching)
  | .hashing code file got, .read size =>
    if size = 0 then none
    else if chunk d file got.length size = [] then
      some (d, afterHash setup (hexDigest (sha256.bytes got)) code)
    else some (d, .hashing code file (got ++ chunk d file got.length size))
  | .fetching, .create => some (match (mkdirs d setup).bind (·.openTruncate setup.partialFile) with
    | some (d', file) => (d', .writing file)
    | none => (d, .failed "DOWNLOAD cannot open file for write."))
  | .writing file, .write bytes => some (d.append file bytes, .writing file)
  | .writing _, .transferred code => some (d, .closed code)
  | .closed code, .reopen => some (d, match opened d setup.partialFile with
    | some file => .hashing (some code) file []
    | none => .failed "DOWNLOAD cannot compute hash on downloaded file")
  | .removing, .remove reason =>
    some (d.unlink setup.partialFile, .failed (setup.notFetched reason))
  | .verified, .rename => some (match d.rename setup.partialFile setup.file with
    | some d' => (d', .present)
    | none => (d, .failed "RENAME failed"))
  | .present, .look => some (d,
    if !setup.strips then .returned setup.file
    else if d.present setup.strippedFile then .returned setup.strippedFile
    else .uncopied)
  | .uncopied, .openCopy =>
    (opened d setup.file).bind fun source =>
      (d.openTruncate setup.strippedFile).map fun (d', file) => (d', .copying source file)
  | .copying source file, .copy size =>
    if size = 0 then none
    else if chunk d source (d.content file).length size = [] then some (d, .stripping)
    else some (d.append file (chunk d source (d.content file).length size), .copying source file)
  | .uncopied, .copyFails | .copying _ _, .copyFails => some (d, .failed "configure_file failed")
  | .stripping, .strip => (opened d setup.strippedFile).map fun file =>
    (d.write file (strip (d.content file)), .returned setup.strippedFile)
  | .stripping, .stripFails left => (opened d setup.strippedFile).map fun file =>
    (d.write file left, .unstripping)
  | .unstripping, .unstrip => some (d.unlink setup.strippedFile, .returned setup.file)
  | _, _ => none

def step (s : State) : Action → Option State
  | .start p =>
    match s.configures p with
    | none => some { s with configures := Function.update s.configures p (some .called) }
    | some _ => none
  | .act p e => (s.configures p).bind fun phase =>
    (advance sha256 strip setup s.disk phase e).map fun (disk, phase) =>
      { disk, configures := Function.update s.configures p (some phase) }
  | .kill p => some { s with configures := Function.update s.configures p none }

end

theorem names_ne (setup : Setup) {x y : String} (h : x.toList ≠ y.toList) :
    setup.directory ++ [setup.stem ++ x] ≠ setup.directory ++ [setup.stem ++ y] := by
  intro same
  have last := List.append_cancel_left same
  rw [List.singleton_inj] at last
  have lists := congrArg String.toList last
  rw [String.toList_append, String.toList_append] at lists
  exact h (List.append_cancel_left lists)

section
variable (setup : Setup)

theorem partialFile_ne_file : setup.partialFile ≠ setup.file := names_ne setup (by decide)

theorem stripped_ne_file : setup.strippedFile ≠ setup.file := names_ne setup (by decide)

theorem stripped_ne_partialFile : setup.strippedFile ≠ setup.partialFile :=
  names_ne setup (by decide)

theorem directory_ne (last : String) :
    setup.directory ++ [last] ≠ [".artifacts"] ∧ setup.directory ++ [last] ≠ setup.directory := by
  refine ⟨fun same => ?_, fun same => ?_⟩
  · have := congrArg List.length same
    simp [Setup.directory] at this
  · have := congrArg List.length same
    simp at this

end

section
variable (sha256 : Hash) (strip : Bytes → Bytes) (setup : Setup)

def Pinned (bytes : Bytes) : Prop := hexDigest (sha256.bytes bytes) = setup.expected

def Stripped (bytes : Bytes) : Prop := ∃ whole, Pinned sha256 setup whole ∧ bytes = strip whole

def Holds (d : Disk) (path : Path) (Good : Bytes → Prop) : Prop :=
  ∃ bytes, d.read path = some bytes ∧ Good bytes

def IsFile (d : Disk) (path : Path) : Prop := ∃ i, d.node path = some (.file i)

def Sound (d : Disk) : Phase → Prop
  | .writing file => d.node setup.partialFile = some (.file file)
  | .hashing _ file got => d.node setup.partialFile = some (.file file) ∧ got <+: d.content file
  | .verified => Holds d setup.partialFile (Pinned sha256 setup)
  | .present | .uncopied | .unstripping => IsFile d setup.file
  | .copying source file => IsFile d setup.file ∧ d.node setup.strippedFile = some (.file file) ∧
      Frozen d setup.file source ∧ Pinned sha256 setup (d.content source) ∧
        d.content file <+: d.content source
  | .stripping => IsFile d setup.file ∧ Holds d setup.strippedFile (Pinned sha256 setup)
  | .returned path => IsFile d setup.file ∧ (path = setup.file ∨
      path = setup.strippedFile ∧ IsFile d setup.strippedFile)
  | .called | .downloading | .fetching | .closed _ | .removing | .failed _ => True

def Alone (part : Phase → Bool) (s : State) (p : ℕ) : Prop :=
  ∀ q phase, s.configures q = some phase → q ≠ p → part phase = false

structure NoDirectory (d : Disk) : Prop where
  file : d.node setup.file ≠ some .directory
  stripped : d.node setup.strippedFile ≠ some .directory

structure Inv (s : State) : Prop where
  noDirectory : NoDirectory setup s.disk
  whole : ∀ bytes, s.disk.read setup.file = some bytes → Pinned sha256 setup bytes
  sound : ∀ p phase, s.configures p = some phase → Sound sha256 setup s.disk phase
  download : ∀ p phase, s.configures p = some phase → phase.downloads = true →
    Alone Phase.downloads s p
  copy : ∀ p phase, s.configures p = some phase → phase.copies = true → Alone Phase.copies s p ∧
    ∀ q, s.configures q ≠ some (.returned setup.strippedFile)
  ready : (∀ p phase, s.configures p = some phase → phase.copies = false) →
    ∀ bytes, s.disk.read setup.strippedFile = some bytes → Stripped sha256 strip setup bytes

/-- Downloads do not overlap, and a stripped copy is made without being used or given up. -/
def Orderly (s : State) : Action → Prop
  | .start _ => True
  | .act p e => ∀ phase, s.configures p = some phase →
      (phase = .called → s.disk.present setup.file = false → Alone Phase.downloads s p) ∧
      (phase = .present → setup.strips = true → Alone Phase.copies s p) ∧ e ≠ .copyFails
  | .kill p => ∀ phase, s.configures p = some phase → phase.copies = false

end

section
variable {sha256 : Hash} {strip : Bytes → Bytes} {setup : Setup} {d d' : Disk} {phase : Phase}
  {path : Path}

theorem IsFile.sameAt (h : IsFile d path) (same : Disk.SameAt d d' path) : IsFile d' path := by
  obtain ⟨i, hi⟩ := h
  exact ⟨i, same.node.trans hi⟩

theorem Holds.sameAt {Good : Bytes → Prop} (h : Holds d path Good)
    (same : Disk.SameAt d d' path) : Holds d' path Good := by
  obtain ⟨bytes, read, good⟩ := h
  exact ⟨bytes, same.read.trans read, good⟩

theorem Sound.on_partialFile (h : Sound sha256 setup d phase) (only : Only setup.partialFile d d')
    (elsewhere : phase.downloads = false) : Sound sha256 setup d' phase := by
  have file := only.same _ (partialFile_ne_file setup).symm
  have stripped := only.same _ (stripped_ne_partialFile setup)
  cases phase with
  | present | uncopied | unstripping => exact IsFile.sameAt h file
  | copying source i =>
    obtain ⟨there, node, frozen, pinned, front⟩ := h
    obtain ⟨frozen', content⟩ := frozen.only only (partialFile_ne_file setup)
    obtain ⟨node', content'⟩ := stripped.file node
    refine ⟨there.sameAt file, node', frozen', ?_, ?_⟩
    · rwa [content]
    · rwa [content, content']
  | stripping => exact ⟨h.1.sameAt file, h.2.sameAt stripped⟩
  | returned path =>
    obtain ⟨there, isFile | ⟨isStripped, made⟩⟩ := h
    · exact ⟨there.sameAt file, .inl isFile⟩
    · exact ⟨there.sameAt file, .inr ⟨isStripped, made.sameAt stripped⟩⟩
  | called | failed => trivial
  | downloading | hashing | fetching | writing | closed | removing | verified => cases elsewhere

theorem Sound.on_stripped (h : Sound sha256 setup d phase) (only : Only setup.strippedFile d d')
    (elsewhere : phase.copies = false) (notGiven : phase ≠ .returned setup.strippedFile) :
    Sound sha256 setup d' phase := by
  have file := only.same _ (stripped_ne_file setup).symm
  have partialFile := only.same _ (stripped_ne_partialFile setup).symm
  cases phase with
  | writing i => exact (partialFile.file h).1
  | hashing code i got =>
    obtain ⟨node, content⟩ := partialFile.file h.1
    exact ⟨node, content ▸ h.2⟩
  | verified => exact Holds.sameAt h partialFile
  | present => exact IsFile.sameAt h file
  | returned path =>
    obtain ⟨there, isFile | ⟨rfl, -⟩⟩ := h
    · exact ⟨there.sameAt file, .inl isFile⟩
    · exact absurd rfl notGiven
  | called | downloading | fetching | closed | removing | failed => trivial
  | uncopied | copying | stripping | unstripping => cases elsewhere

structure SameFiles (setup : Setup) (d d' : Disk) : Prop where
  next : d'.nextInode = d.nextInode
  content : d'.content = d.content
  node : ∀ q i, d'.node q = some (.file i) ↔ d.node q = some (.file i)
  noDirectory : NoDirectory setup d → NoDirectory setup d'

theorem SameFiles.trans {d'' : Disk} (h : SameFiles setup d d') (h' : SameFiles setup d' d'') :
    SameFiles setup d d'' where
  next := h'.next.trans h.next
  content := h'.content.trans h.content
  node := fun q i => (h'.node q i).trans (h.node q i)
  noDirectory := fun none => h'.noDirectory (h.noDirectory none)

theorem sameFiles_mkdir {dir : Path} (above : dir ≠ setup.file ∧ dir ≠ setup.strippedFile)
    (h : d.mkdir dir = some d') : SameFiles setup d d' := by
  unfold Disk.mkdir at h
  split at h
  · rename_i free
    obtain rfl := Option.some.inj h
    refine ⟨rfl, rfl, fun q i => ?_, fun none => ⟨?_, ?_⟩⟩
    · change Function.update d.node dir (some .directory) q = _ ↔ _
      by_cases same : q = dir
      · rw [same, Function.update_self, free]
        exact iff_of_false nofun nofun
      · rw [Function.update_of_ne same]
    · change Function.update d.node dir _ _ ≠ _
      rw [Function.update_of_ne above.1.symm]
      exact none.file
    · change Function.update d.node dir _ _ ≠ _
      rw [Function.update_of_ne above.2.symm]
      exact none.stripped
  · obtain rfl := Option.some.inj h
    exact ⟨rfl, rfl, fun _ _ => Iff.rfl, id⟩
  · cases h

theorem sameFiles_mkdirs (h : mkdirs d setup = some d') : SameFiles setup d d' := by
  obtain ⟨u, first, second⟩ := Option.bind_eq_some_iff.mp h
  have file := directory_ne setup (setup.stem ++ ".a")
  have stripped := directory_ne setup (setup.stem ++ "-local-stripped.a")
  exact (sameFiles_mkdir ⟨file.1.symm, stripped.1.symm⟩ first).trans
    (sameFiles_mkdir ⟨file.2.symm, stripped.2.symm⟩ second)

theorem SameFiles.read_iff (same : SameFiles setup d d') {bytes : Bytes} :
    d'.read path = some bytes ↔ d.read path = some bytes := by
  simp only [read_eq_some_iff, same.node, same.content]

theorem Sound.sameFiles (h : Sound sha256 setup d phase) (same : SameFiles setup d d') :
    Sound sha256 setup d' phase := by
  cases phase with
  | writing i => exact (same.node _ _).mpr h
  | hashing code i got => exact ⟨(same.node _ _).mpr h.1, same.content ▸ h.2⟩
  | verified =>
    obtain ⟨bytes, read, pinned⟩ := h
    exact ⟨bytes, same.read_iff.mpr read, pinned⟩
  | present | uncopied | unstripping =>
    obtain ⟨i, hi⟩ := h
    exact ⟨i, (same.node _ _).mpr hi⟩
  | copying source i =>
    obtain ⟨⟨j, hj⟩, node, frozen, pinned, front⟩ := h
    refine ⟨⟨j, (same.node _ _).mpr hj⟩, (same.node _ _).mpr node,
      ⟨same.next ▸ frozen.allocated, fun q hq => frozen.named q ((same.node q _).mp hq)⟩, ?_, ?_⟩
    · rwa [same.content]
    · rwa [same.content]
  | stripping =>
    obtain ⟨⟨j, hj⟩, bytes, read, pinned⟩ := h
    exact ⟨⟨j, (same.node _ _).mpr hj⟩, bytes, same.read_iff.mpr read, pinned⟩
  | returned path =>
    obtain ⟨⟨j, hj⟩, given⟩ := h
    exact ⟨⟨j, (same.node _ _).mpr hj⟩, given.imp_right fun ⟨isStripped, i, hi⟩ =>
      ⟨isStripped, i, (same.node _ _).mpr hi⟩⟩
  | called | downloading | fetching | closed | removing | failed => trivial

variable {s : State} {p : ℕ} {next : Phase}

theorem Inv.sameFiles (inv : Inv sha256 strip setup s) (same : SameFiles setup s.disk d') :
    Inv sha256 strip setup { s with disk := d' } where
  noDirectory := same.noDirectory inv.noDirectory
  whole := fun bytes read => inv.whole bytes (same.read_iff.mp read)
  sound := fun p phase hp => (inv.sound p phase hp).sameFiles same
  download := inv.download
  copy := inv.copy
  ready := fun idle bytes read => inv.ready idle bytes (same.read_iff.mp read)

end

end CyborgdbEmbed.ArtifactCache

import CyborgdbEmbed.Resolve

set_option autoImplicit false

/-!
# One call of `ensure_file`, step by step

A phase is what the call is about to do; an event is the next file-system step
with its outcome, or a wake-up. `sha256` is OpenSSL's.
-/
namespace CyborgdbEmbed.EnsureFile
open FileSystem FilePaths Resolve

inductive Phase where
  | called
  | creating (todo : List Path)
  | starting (suffix : Suffix) (attempt : ℕ)
  | receiving (suffix : Suffix) (attempt : ℕ) (out : ℕ)
  | failed (suffix : Suffix) (attempt : ℕ) (result : Attempt)
  | waiting (suffix : Suffix) (attempt : ℕ) (seconds : ℤ)
  | fetched (suffix : Suffix)
  | hashing (suffix : Suffix) (file : ℕ) (hashed : Bytes)
  | comparing (suffix : Suffix) (digest : String)
  | finalising (suffix : Suffix)
  | leaving (suffix : Suffix) (status : Status)
  | returned (status : Status)
  | threw

inductive Event where
  | stat
  | statThrows
  | mkdir
  | mkdirFails (message : String)
  | draw (high low : UInt32)
  | curlInitFails
  | openOut
  | openOutFails
  | write (data : Bytes)
  | perform (result : CurlResult)
  | remove (done : Bool)
  | wake
  | openIn
  | openInFails
  | readIn
  | compare
  | rename
  | renameFails (message : String)

def bufferSize : ℕ := 65536

def target (req : FileRequest) : Path := below req.config.cacheDir req.path

def parent (req : FileRequest) : Path := below req.config.cacheDir (parentPath req.path)

def part (req : FileRequest) (suffix : Suffix) : Path :=
  below req.config.cacheDir (req.partPath suffix)

/-- What `download` does with an attempt, and `ensure_file` with its result. -/
def afterAttempt (suffix : Suffix) (attempt : ℕ) (result : Attempt) : Phase :=
  if result.status.ok || !result.transient || attempt == kAttempts then
    if result.status.ok then .fetched suffix else .leaving suffix result.status
  else .waiting suffix attempt (wait attempt result.retryAfter)

def afterStat (req : FileRequest) (d : Disk) : Phase :=
  if d.present (target req) then .returned {}
  else if req.config.offline then
    .returned ⟨.notCached, req.model ++ " is not cached and offline is set"⟩
  else .creating (parent req).inits

/-- `in.read` and `EVP_DigestUpdate`: a read that does not fill the buffer is the last. -/
def afterRead (sha256 : Bytes → Bytes) (suffix : Suffix) (file : ℕ) (hashed chunk : Bytes) :
    Phase :=
  if chunk.length = bufferSize then .hashing suffix file (hashed ++ chunk)
  else .comparing suffix (hexDigest (sha256 (hashed ++ chunk)))

def afterCompare (req : FileRequest) (suffix : Suffix) (digest : String) : Phase :=
  if digest ≠ req.expected then
    .leaving suffix ⟨.digestMismatch,
      req.model ++ "/" ++ req.repoPath ++ ": expected " ++ req.expected ++ ", got " ++ digest⟩
  else .finalising suffix

def tryRemove (d : Disk) (p : Path) (done : Bool) : Disk := if done then d.unlink p else d

def chunkAt (d : Disk) (file offset : ℕ) : Bytes := ((d.content file).drop offset).take bufferSize

def advance (sha256 : Bytes → Bytes) (req : FileRequest) (d : Disk) :
    Phase → Event → Option (Disk × Phase)
  | .called, .stat => some (d, afterStat req d)
  | .called, .statThrows => some (d, .threw)
  | .creating (dir :: todo), .mkdir => (d.mkdir dir).map fun d' => (d', .creating todo)
  | .creating (_ :: _), .mkdirFails message =>
    some (d, .returned ⟨.downloadFailed, "cannot create cache directory: " ++ message⟩)
  | .creating [], .draw high low => some (d, .starting (uniqueSuffix high low) 1)
  | .starting suffix attempt, .curlInitFails =>
    some (d, afterAttempt suffix attempt
      { status := ⟨.downloadFailed, "could not initialise curl"⟩ })
  | .starting suffix attempt, .openOut =>
    (d.openTruncate (part req suffix)).map fun (d', out) => (d', .receiving suffix attempt out)
  | .starting suffix attempt, .openOutFails =>
    some (d, afterAttempt suffix attempt
      { status := ⟨.downloadFailed, "cannot write to " ++ req.partPath suffix⟩ })
  -- the stream buffers, so any bytes at all reach the file while it is open
  | .receiving suffix attempt out, .write data =>
    some (d.append out data, .receiving suffix attempt out)
  | .receiving suffix attempt _, .perform result =>
    some (d, if result.code = .ok then afterAttempt suffix attempt {}
      else .failed suffix attempt (failedAttempt req.url result))
  | .failed suffix attempt result, .remove done =>
    some (tryRemove d (part req suffix) done, afterAttempt suffix attempt result)
  | .waiting suffix attempt _, .wake => some (d, .starting suffix (attempt + 1))
  | .fetched suffix, .openIn =>
    match d.node (part req suffix) with
    | some (.file file) => some (d, .hashing suffix file [])
    | _ => none
  | .fetched suffix, .openInFails =>
    some (d, .leaving suffix ⟨.downloadFailed, "cannot read " ++ req.partPath suffix⟩)
  -- reads do not fail midway, which the loop would take for the end of the file
  | .hashing suffix file hashed, .readIn =>
    some (d, afterRead sha256 suffix file hashed (chunkAt d file hashed.length))
  | .comparing suffix digest, .compare => some (d, afterCompare req suffix digest)
  | .finalising suffix, .rename =>
    (d.rename (part req suffix) (target req)).map fun d' => (d', .leaving suffix {})
  | .finalising suffix, .renameFails message =>
    some (d, .leaving suffix
      ⟨.downloadFailed, "cannot finalise " ++ req.path ++ ": " ++ message⟩)
  | .leaving suffix status, .remove done =>
    some (tryRemove d (part req suffix) done, .returned status)
  | _, _ => none

/-- The suffix the call has drawn, from the draw to the removal of its file. -/
def Phase.suffix? : Phase → Option Suffix
  | .starting suffix _ | .receiving suffix _ _ | .failed suffix _ _ | .waiting suffix _ _
  | .fetched suffix | .hashing suffix _ _ | .comparing suffix _ | .finalising suffix
  | .leaving suffix _ => some suffix
  | .called | .creating _ | .returned _ | .threw => none

def Phase.finished : Phase → Bool
  | .returned _ | .threw => true
  | _ => false

def Event.drawn : Event → List Suffix
  | .draw high low => [uniqueSuffix high low]
  | _ => []

inductive Moves (sha256 : Bytes → Bytes) (req : FileRequest) (d : Disk) :
    Phase → Event → Disk → Phase → Prop where
  | stat : Moves sha256 req d .called .stat d (afterStat req d)
  | statThrows : Moves sha256 req d .called .statThrows d .threw
  | mkdir {dir : Path} {todo : List Path} {d' : Disk} (h : d.mkdir dir = some d') :
      Moves sha256 req d (.creating (dir :: todo)) .mkdir d' (.creating todo)
  | mkdirFails {dir : Path} {todo : List Path} {message text : String} :
      Moves sha256 req d (.creating (dir :: todo)) (.mkdirFails message) d
        (.returned ⟨.downloadFailed, text⟩)
  | draw {high low : UInt32} : Moves sha256 req d (.creating []) (.draw high low) d
      (.starting (uniqueSuffix high low) 1)
  | notStarted {suffix : Suffix} {attempt : ℕ} {e : Event} {text : String}
      (he : e = .curlInitFails ∨ e = .openOutFails) :
      Moves sha256 req d (.starting suffix attempt) e d
        (afterAttempt suffix attempt { status := ⟨.downloadFailed, text⟩ })
  | openOut {suffix : Suffix} {attempt out : ℕ} {d' : Disk}
      (h : d.openTruncate (part req suffix) = some (d', out)) :
      Moves sha256 req d (.starting suffix attempt) .openOut d' (.receiving suffix attempt out)
  | write {suffix : Suffix} {attempt out : ℕ} {data : Bytes} :
      Moves sha256 req d (.receiving suffix attempt out) (.write data) (d.append out data)
        (.receiving suffix attempt out)
  | performed {suffix : Suffix} {attempt out : ℕ} {result : CurlResult} (h : result.code = .ok) :
      Moves sha256 req d (.receiving suffix attempt out) (.perform result) d
        (afterAttempt suffix attempt {})
  | performFailed {suffix : Suffix} {attempt out : ℕ} {result : CurlResult}
      (h : result.code ≠ .ok) :
      Moves sha256 req d (.receiving suffix attempt out) (.perform result) d
        (.failed suffix attempt (failedAttempt req.url result))
  | removeFailed {suffix : Suffix} {attempt : ℕ} {result : Attempt} {done : Bool} :
      Moves sha256 req d (.failed suffix attempt result) (.remove done)
        (tryRemove d (part req suffix) done) (afterAttempt suffix attempt result)
  | wake {suffix : Suffix} {attempt : ℕ} {seconds : ℤ} :
      Moves sha256 req d (.waiting suffix attempt seconds) .wake d (.starting suffix (attempt + 1))
  | openIn {suffix : Suffix} {file : ℕ} (h : d.node (part req suffix) = some (.file file)) :
      Moves sha256 req d (.fetched suffix) .openIn d (.hashing suffix file [])
  | openInFails {suffix : Suffix} {text : String} :
      Moves sha256 req d (.fetched suffix) .openInFails d
        (.leaving suffix ⟨.downloadFailed, text⟩)
  | readIn {suffix : Suffix} {file : ℕ} {hashed : Bytes} :
      Moves sha256 req d (.hashing suffix file hashed) .readIn d
        (afterRead sha256 suffix file hashed (chunkAt d file hashed.length))
  | compare {suffix : Suffix} {digest : String} :
      Moves sha256 req d (.comparing suffix digest) .compare d (afterCompare req suffix digest)
  | rename {suffix : Suffix} {d' : Disk} (h : d.rename (part req suffix) (target req) = some d') :
      Moves sha256 req d (.finalising suffix) .rename d' (.leaving suffix {})
  | renameFails {suffix : Suffix} {message text : String} :
      Moves sha256 req d (.finalising suffix) (.renameFails message) d
        (.leaving suffix ⟨.downloadFailed, text⟩)
  | leave {suffix : Suffix} {status : Status} {done : Bool} :
      Moves sha256 req d (.leaving suffix status) (.remove done)
        (tryRemove d (part req suffix) done) (.returned status)

variable {sha256 : Bytes → Bytes} {req : FileRequest} {d d' : Disk} {ph ph' : Phase} {e : Event}

theorem advance_moves (h : advance sha256 req d ph e = some (d', ph')) :
    Moves sha256 req d ph e d' ph' := by
  unfold advance at h
  split at h
  case h_1 | h_2 | h_4 | h_5 | h_9 | h_11 | h_12 | h_14 | h_15 | h_16 | h_18 | h_19 =>
    obtain ⟨rfl, rfl⟩ := Prod.mk.inj (Option.some.inj h)
    constructor
  case h_6 =>
    obtain ⟨rfl, rfl⟩ := Prod.mk.inj (Option.some.inj h)
    exact .notStarted (.inl rfl)
  case h_8 =>
    obtain ⟨rfl, rfl⟩ := Prod.mk.inj (Option.some.inj h)
    exact .notStarted (.inr rfl)
  case h_3 =>
    obtain ⟨d'', hd, heq⟩ := Option.map_eq_some_iff.mp h
    obtain ⟨rfl, rfl⟩ := Prod.mk.inj heq
    exact .mkdir hd
  case h_7 =>
    obtain ⟨⟨d'', out⟩, hd, heq⟩ := Option.map_eq_some_iff.mp h
    obtain ⟨rfl, rfl⟩ := Prod.mk.inj heq
    exact .openOut hd
  case h_10 =>
    obtain ⟨rfl, rfl⟩ := Prod.mk.inj (Option.some.inj h)
    split
    · rename_i ok
      exact .performed ok
    · rename_i bad
      exact .performFailed bad
  case h_13 =>
    split at h
    · rename_i file hf
      obtain ⟨rfl, rfl⟩ := Prod.mk.inj (Option.some.inj h)
      exact .openIn hf
    · cases h
  case h_17 =>
    obtain ⟨d'', hd, heq⟩ := Option.map_eq_some_iff.mp h
    obtain ⟨rfl, rfl⟩ := Prod.mk.inj heq
    exact .rename hd
  case h_20 => cases h

theorem afterAttempt_suffix (suffix : Suffix) (attempt : ℕ) (result : Attempt) :
    (afterAttempt suffix attempt result).suffix? = some suffix := by
  unfold afterAttempt
  split
  · split <;> rfl
  · rfl

theorem afterRead_suffix (suffix : Suffix) (file : ℕ) (hashed chunk : Bytes) :
    (afterRead sha256 suffix file hashed chunk).suffix? = some suffix := by
  unfold afterRead
  split <;> rfl

theorem afterCompare_suffix (req : FileRequest) (suffix : Suffix) (digest : String) :
    (afterCompare req suffix digest).suffix? = some suffix := by
  unfold afterCompare
  split <;> rfl

theorem afterStat_suffix (req : FileRequest) (d : Disk) : (afterStat req d).suffix? = none := by
  unfold afterStat
  split
  · rfl
  · split <;> rfl

end CyborgdbEmbed.EnsureFile

import CyborgdbEmbed.EnsureFileEndings
import Mathlib.Algebra.Group.Int.Defs

set_option autoImplicit false

namespace CyborgdbEmbed.Download
open FileSystem Resolve

/-- How an attempt comes out: libcurl has no handle for it, or these pieces arrive one
    after the other and libcurl says how the transfer ended. -/
inductive Outcome where
  | noHandle
  | transfer (pieces : List Bytes) (result : CurlResult)

def Outcome.body : Outcome → Bytes
  | .noHandle => []
  | .transfer pieces _ => pieces.flatten

inductive Doing where
  | attempt (number : ℕ)
  | sleep (seconds : ℤ)
  deriving DecidableEq

structure Result where
  status : Status
  disk : Disk
  log : List Doing

section
variable (url destination : String) (place : Path)

/-- `write_to_file` on each piece. -/
def writePieces (d : Disk) (out : ℕ) (pieces : List Bytes) : Disk :=
  pieces.foldl (fun d piece => d.append out piece) d

/-- `destination` names the file at `place`. -/
def downloadOnce (d : Disk) : Outcome → Attempt × Disk
  | .noHandle => ({ status := ⟨.downloadFailed, "could not initialise curl"⟩ }, d)
  | .transfer pieces result =>
    match d.openTruncate place with
    | none => ({ status := ⟨.downloadFailed, "cannot write to " ++ destination⟩ }, d)
    | some (opened, out) =>
      let written := writePieces opened out pieces
      if result.code = .ok then ({}, written)
      else (failedAttempt url result, written.unlink place)

/-- The loop of `download`, with `left` attempts to come after this one. -/
def downloadFrom (outcomes : ℕ → Outcome) : (left : ℕ) → Disk → Result
  | 0, d =>
    let (result, after) := downloadOnce url destination place d (outcomes kAttempts)
    ⟨result.status, after, [.attempt kAttempts]⟩
  | left + 1, d =>
    let attempt := kAttempts - (left + 1)
    let (result, after) := downloadOnce url destination place d (outcomes attempt)
    if result.status.ok || !result.transient then ⟨result.status, after, [.attempt attempt]⟩
    else
      let rest := downloadFrom outcomes left after
      { rest with log := .attempt attempt :: .sleep (wait attempt result.retryAfter) :: rest.log }

def download (outcomes : ℕ → Outcome) (d : Disk) : Result :=
  downloadFrom url destination place outcomes (kAttempts - 1) d

end

def answer (url : String) : Outcome → Attempt
  | .noHandle => { status := ⟨.downloadFailed, "could not initialise curl"⟩ }
  | .transfer _ result => if result.code = .ok then {} else failedAttempt url result

def Retried (a : Attempt) : Prop := a.status.ok = false ∧ a.transient = true

/-- The attempts from `first` to `last` with a wait after each but the last. -/
def schedule (waits : ℕ → ℤ) (first : ℕ) : (more : ℕ) → List Doing
  | 0 => [.attempt first]
  | more + 1 => .attempt first :: .sleep (waits first) :: schedule waits (first + 1) more

/-- A download from attempt `first` on, whose last attempt is number `last`. -/
structure Ends (url : String) (place : Path) (outcomes : ℕ → Outcome) (d : Disk) (r : Result)
    (first last : ℕ) : Prop where
  le : first ≤ last
  most : last ≤ kAttempts
  retried : ∀ k, first ≤ k → k < last → Retried (answer url (outcomes k))
  stopped : last = kAttempts ∨ ¬ Retried (answer url (outcomes last))
  status : r.status = (answer url (outcomes last)).status
  log : r.log = schedule (fun k => wait k (answer url (outcomes k)).retryAfter) first (last - first)
  success : r.status.ok = true → r.disk.read place = some (outcomes last).body
  failure : r.status.ok = false → r.disk.node place = none
  others : ∀ q, q ≠ place → Disk.SameAt d r.disk q

/-- No shorter than the backoff and no longer than a minute, and as long as the server
    asked for, if that is no longer than a minute. -/
structure FairWait (number : ℕ) (retryAfter seconds : ℤ) : Prop where
  backoff : 2 ^ (number - 1) ≤ seconds
  minute : seconds ≤ 60
  asked : retryAfter ≤ seconds ∨ 60 < retryAfter

structure Downloads (url : String) (place : Path) (outcomes : ℕ → Outcome) (d : Disk) (r : Result) :
    Prop where
  ends : ∃ last, Ends url place outcomes d r 1 last
  waits : ∀ k, 1 ≤ k → k < kAttempts → FairWait k (answer url (outcomes k)).retryAfter
    (wait k (answer url (outcomes k)).retryAfter)

theorem wait_fair {k : ℕ} (first : 1 ≤ k) (early : k < kAttempts) (retryAfter : ℤ) :
    FairWait k retryAfter (wait k retryAfter) := by
  unfold kAttempts at early
  have backoff : ((1 <<< (k - 1) : ℕ) : ℤ) = 2 ^ (k - 1) ∧ (2 : ℤ) ^ (k - 1) ≤ 60 := by
    obtain rfl | rfl | rfl | rfl : k = 1 ∨ k = 2 ∨ k = 3 ∨ k = 4 := by omega
    all_goals decide
  have form : wait k retryAfter = min 60 (max (2 ^ (k - 1)) retryAfter) := by
    unfold wait
    rw [backoff.1]
  constructor
  · rw [form]
    exact Int.le_min.mpr ⟨backoff.2, Int.le_max_left _ _⟩
  · rw [form]
    exact Int.min_le_left _ _
  · rw [form]
    omega

variable {url destination : String} {place : Path} {d d' : Disk} {out : ℕ}

theorem writePieces_spec (pieces : List Bytes) (h : d.node place = some (.file out)) :
    (writePieces d out pieces).node place = some (.file out) ∧
      (writePieces d out pieces).content out = d.content out ++ pieces.flatten ∧
      ∀ q, q ≠ place → Disk.SameAt d (writePieces d out pieces) q := by
  induction pieces generalizing d with
  | nil => exact ⟨h, (List.append_nil _).symm, fun q _ => .refl d q⟩
  | cons piece pieces ih =>
    obtain ⟨node, content, others⟩ := @ih (d.append out piece) h
    refine ⟨node, ?_, fun q hq => (Disk.write_sameAt _ h hq).trans (others q hq)⟩
    change (writePieces (d.append out piece) out pieces).content out = _
    rw [content, List.flatten_cons, ← List.append_assoc]
    exact congrArg (· ++ _) (Function.update_self _ _ _)

structure Room (place : Path) (d : Disk) : Prop where
  absent : d.node place = none
  folder : d.node place.dropLast = some .directory

theorem Room.ne (h : Room place d) : place.dropLast ≠ place := by
  intro same
  have := h.folder
  rw [same, h.absent] at this
  cases this

theorem Room.after (h : Room place d) (absent : d'.node place = none)
    (others : ∀ q, q ≠ place → Disk.SameAt d d' q) : Room place d' :=
  ⟨absent, (others _ h.ne).node.trans h.folder⟩

structure Attempted (url : String) (place : Path) (d : Disk) (outcome : Outcome)
    (did : Attempt × Disk) : Prop where
  answer : did.1 = answer url outcome
  success : did.1.status.ok = true → did.2.read place = some outcome.body
  failure : did.1.status.ok = false → did.2.node place = none
  others : ∀ q, q ≠ place → Disk.SameAt d did.2 q

theorem downloadOnce_attempted (room : Room place d) (outcome : Outcome) :
    Attempted url place d outcome (downloadOnce url destination place d outcome) := by
  cases outcome with
  | noHandle => exact ⟨rfl, nofun, fun _ => room.absent, fun q _ => .refl d q⟩
  | transfer pieces result =>
    have opens : d.openTruncate place = some (d.create place, d.nextInode) := by
      unfold Disk.openTruncate
      rw [if_pos room.folder, room.absent]
    obtain ⟨node, content⟩ := Disk.openTruncate_file opens
    obtain ⟨node', content', others⟩ := writePieces_spec pieces node
    have created (q : Path) (hq : q ≠ place) :=
      (Disk.openTruncate_sameAt opens hq).trans (others q hq)
    unfold downloadOnce
    rw [opens]
    dsimp only
    by_cases ok : result.code = .ok
    · rw [if_pos ok]
      refine ⟨(if_pos ok).symm, fun _ => ?_, nofun, created⟩
      rw [Disk.read_file node', content', content]
      rfl
    · rw [if_neg ok]
      refine ⟨(if_neg ok).symm, nofun, fun _ => Function.update_self _ _ _, fun q hq => ?_⟩
      exact (created q hq).trans (Disk.unlink_sameAt hq)

variable {outcomes : ℕ → Outcome} {left first last : ℕ} {r : Result}

theorem Attempted.ends {did : Attempt × Disk}
    (h : Attempted url place d (outcomes first) did) (most : first ≤ kAttempts)
    (stopped : first = kAttempts ∨ ¬ Retried did.1) :
    Ends url place outcomes d ⟨did.1.status, did.2, [.attempt first]⟩ first first where
  le := Nat.le_refl _
  most := most
  retried k low high := absurd high (Nat.not_lt.mpr low)
  stopped := by rwa [← h.answer]
  status := congrArg Attempt.status h.answer
  log := by rw [Nat.sub_self, schedule]
  success := h.success
  failure := h.failure
  others := h.others

theorem Ends.earlier {did : Attempt × Disk} (h : Attempted url place d (outcomes first) did)
    (again : Retried did.1) (rest : Ends url place outcomes did.2 r (first + 1) last) :
    Ends url place outcomes d
      ⟨r.status, r.disk, .attempt first :: .sleep (wait first did.1.retryAfter) :: r.log⟩
      first last where
  le := Nat.le_trans (Nat.le_succ first) rest.le
  most := rest.most
  retried k low high := by
    by_cases hk : k = first
    · rw [hk, ← h.answer]
      exact again
    · exact rest.retried k (by omega) high
  stopped := rest.stopped
  status := rest.status
  log := by
    have length : last - first = (last - (first + 1)) + 1 := by
      have := rest.le
      omega
    rw [length, schedule, rest.log, h.answer]
  success := rest.success
  failure := rest.failure
  others q hq := (h.others q hq).trans (rest.others q hq)

theorem downloadFrom_ends (room : Room place d) (fits : left < kAttempts) :
    ∃ last, Ends url place outcomes d (downloadFrom url destination place outcomes left d)
      (kAttempts - left) last := by
  induction left generalizing d with
  | zero =>
    have h : Attempted url place d (outcomes kAttempts)
        (downloadOnce url destination place d (outcomes kAttempts)) :=
      downloadOnce_attempted room (outcomes kAttempts)
    exact ⟨kAttempts, h.ends (Nat.le_refl _) (.inl rfl)⟩
  | succ left ih =>
    have h : Attempted url place d (outcomes (kAttempts - (left + 1)))
        (downloadOnce url destination place d (outcomes (kAttempts - (left + 1)))) :=
      downloadOnce_attempted room _
    unfold downloadFrom
    dsimp only
    split
    · rename_i stop
      refine ⟨kAttempts - (left + 1), h.ends (Nat.sub_le _ _) (.inr fun again => ?_)⟩
      rw [again.1, again.2] at stop
      cases stop
    · rename_i again
      rw [Bool.or_eq_true, not_or, Bool.not_eq_true, Bool.not_eq_true, Bool.not_eq_false'] at again
      have room' := room.after (h.failure again.1) h.others
      obtain ⟨last, rest⟩ := ih room' (by omega)
      have next : kAttempts - left = kAttempts - (left + 1) + 1 := by omega
      rw [next] at rest
      exact ⟨last, Ends.earlier h again rest⟩

/-- Where the file has room, whatever the attempts come to. -/
theorem download_downloads (room : Room place d) (outcomes : ℕ → Outcome) :
    Downloads url place outcomes d (download url destination place outcomes d) where
  ends := downloadFrom_ends room (by decide)
  waits _ first early := wait_fair first early _

/-- The connection breaks, the server is busy for longer than a minute, the third attempt
    brings the file. -/
def flaky : ℕ → Outcome
  | 1 => .transfer [[1, 2]] ⟨.recvError, 200, 0, "", "Failure when receiving data from the peer"⟩
  | 2 => .transfer [] ⟨.other 22, 503, 90, "", "HTTP response code said error"⟩
  | _ => .transfer [[1, 2], [3]] ⟨.ok, 200, 0, "", "No error"⟩

theorem flaky_downloads : Downloads "url" ["file"] flaky SharedCache.emptyDisk
    (download "url" "file" ["file"] flaky SharedCache.emptyDisk) :=
  download_downloads ⟨rfl, rfl⟩ flaky

example : (download "url" "file" ["file"] flaky SharedCache.emptyDisk).log =
    [.attempt 1, .sleep 1, .attempt 2, .sleep 60, .attempt 3] := by decide

section
open EnsureFile TransitionSystem
variable {sha256 : Bytes → Bytes} (req : FileRequest) (suffix : Suffix)

theorem writes_run (attempt out : ℕ) (pieces : List Bytes) (d : Disk) :
    Run (callStep sha256 req) (d, .receiving suffix attempt out) (pieces.map .write)
      (writePieces d out pieces, .receiving suffix attempt out) := by
  induction pieces generalizing d with
  | nil => exact .refl _
  | cons piece pieces ih => exact .next rfl (ih (d.append out piece))

theorem downloadOnce_run (attempt : ℕ) (d : Disk) (outcome : Outcome) :
    ∃ events, Run (callStep sha256 req) (d, .starting suffix attempt) events
      ((downloadOnce req.url (req.partPath suffix) (part req suffix) d outcome).2,
        afterAttempt suffix attempt
          (downloadOnce req.url (req.partPath suffix) (part req suffix) d outcome).1) := by
  cases outcome with
  | noHandle => exact ⟨[.curlInitFails], .next rfl (.refl _)⟩
  | transfer pieces result =>
    unfold downloadOnce
    cases opens : d.openTruncate (part req suffix) with
    | none => exact ⟨[.openOutFails], .next rfl (.refl _)⟩
    | some opened =>
      obtain ⟨d', out⟩ := opened
      dsimp only
      have first : callStep sha256 req (d, .starting suffix attempt) .openOut =
          some (d', .receiving suffix attempt out) := by
        change (d.openTruncate (part req suffix)).map _ = _
        rw [opens]
        rfl
      have performs (after : Phase) (h : (if result.code = .ok then afterAttempt suffix attempt {}
          else .failed suffix attempt (failedAttempt req.url result)) = after) :
          callStep sha256 req (writePieces d' out pieces, .receiving suffix attempt out)
            (.perform result) = some (writePieces d' out pieces, after) := by
        rw [← h]
        rfl
      by_cases ok : result.code = .ok
      · refine ⟨.openOut :: (pieces.map .write ++ [.perform result]), .next first ?_⟩
        rw [if_pos ok]
        exact (writes_run req suffix attempt out pieces d').trans
          (.next (performs _ (if_pos ok)) (.refl _))
      · refine ⟨.openOut :: (pieces.map .write ++ [.perform result, .remove true]), .next first ?_⟩
        rw [if_neg ok]
        exact (writes_run req suffix attempt out pieces d').trans
          (.next (performs _ (if_neg ok)) (.next rfl (.refl _)))

/-- Where `ensure_file` goes on after the download. -/
def finish (status : Status) : Phase :=
  if status.ok then .fetched suffix else .leaving suffix status

theorem downloadFrom_run (outcomes : ℕ → Outcome) {left : ℕ} (fits : left < kAttempts) (d : Disk) :
    let r := downloadFrom req.url (req.partPath suffix) (part req suffix) outcomes left d
    ∃ events, Run (callStep sha256 req) (d, .starting suffix (kAttempts - left)) events
      (r.disk, finish suffix r.status) := by
  induction left generalizing d with
  | zero =>
    have last : ∃ events, Run (callStep sha256 req) (d, .starting suffix kAttempts) events _ :=
      downloadOnce_run req suffix kAttempts d (outcomes kAttempts)
    obtain ⟨events, run⟩ := last
    refine ⟨events, ?_⟩
    unfold afterAttempt at run
    rw [if_pos (by rw [beq_self_eq_true, Bool.or_true])] at run
    exact run
  | succ left ih =>
    have first : ∃ events, Run (callStep sha256 req) (d, .starting suffix (kAttempts - (left + 1)))
        events _ :=
      downloadOnce_run req suffix (kAttempts - (left + 1)) d (outcomes (kAttempts - (left + 1)))
    obtain ⟨events, run⟩ := first
    unfold downloadFrom
    dsimp only
    unfold afterAttempt at run
    have early : (kAttempts - (left + 1) == kAttempts) = false :=
      beq_eq_false_iff_ne.mpr (by omega)
    rw [early, Bool.or_false] at run
    split
    · rename_i stop
      rw [if_pos stop] at run
      exact ⟨events, run⟩
    · rename_i again
      rw [if_neg again] at run
      have next : kAttempts - (left + 1) + 1 = kAttempts - left := by omega
      obtain ⟨events', run'⟩ := ih (by omega) (downloadOnce req.url (req.partPath suffix)
        (part req suffix) d (outcomes (kAttempts - (left + 1)))).2
      rw [← next] at run'
      exact ⟨events ++ (.wake :: events'), run.trans (.next rfl run')⟩

/-- `download` is the part of the call from its first attempt to the file or the error. -/
theorem download_run (outcomes : ℕ → Outcome) (d : Disk) :
    let r := download req.url (req.partPath suffix) (part req suffix) outcomes d
    ∃ events, Run (callStep sha256 req) (d, .starting suffix 1) events
      (r.disk, finish suffix r.status) :=
  downloadFrom_run req suffix outcomes (show kAttempts - 1 < kAttempts by decide) d

end
end CyborgdbEmbed.Download

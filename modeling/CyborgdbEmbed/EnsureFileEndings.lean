import CyborgdbEmbed.CacheSafety

set_option autoImplicit false

namespace CyborgdbEmbed.EnsureFile
open FileSystem Resolve TransitionSystem

/-- `fs::exists` does not throw, and `fs::remove` removes. -/
def Event.orderly : Event → Bool
  | .statThrows | .remove false => false
  | _ => true

def callStep (sha256 : Bytes → Bytes) (req : FileRequest) (s : Disk × Phase) (e : Event) :
    Option (Disk × Phase) :=
  if e.orderly then advance sha256 req s.1 s.2 e else none

/-- From `d₀` to `d`, only directories on the way were made, and only the target and
    the temporary files with a suffix in `own` were touched. -/
structure Confined (req : FileRequest) (d₀ d : Disk) (own : List Suffix) : Prop where
  made : ∀ p ∈ (parent req).inits,
    Disk.SameAt d₀ d p ∨ d₀.node p = none ∧ d.node p = some .directory
  others : ∀ p ∉ (parent req).inits, p ≠ target req → (∀ x ∈ own, p ≠ part req x) →
    Disk.SameAt d₀ d p

structure Tidy (req : FileRequest) (d₀ d : Disk) (own : List Suffix) : Prop
    extends Confined req d₀ d own where
  cleared : ∀ x ∈ own, d.node (part req x) = none

def drawnIn (events : List Event) : List Suffix := events.flatMap Event.drawn

inductive Ending (sha256 : Bytes → Bytes) (req : FileRequest) (d₀ d : Disk)
    (events : List Event) : Status → Prop where
  | alreadyThere (there : d₀.present (target req) = true) (only : events = [.stat])
      (same : d = d₀) : Ending sha256 req d₀ d events {}
  -- `stat` is all the call did, so it asked the endpoint for nothing
  | notCached {message : String} (missing : d₀.present (target req) = false)
      (offline : req.config.offline = true) (only : events = [.stat]) (same : d = d₀) :
      Ending sha256 req d₀ d events ⟨.notCached, message⟩
  | fetched (holds : Holds sha256 d (target req) req.expected)
      (tidy : Tidy req d₀ d (drawnIn events)) : Ending sha256 req d₀ d events {}
  | failed {status : Status} (code : status.code = .downloadFailed ∨ status.code = .digestMismatch)
      (target : Disk.SameAt d₀ d (target req)) (tidy : Tidy req d₀ d (drawnIn events)) :
      Ending sha256 req d₀ d events status

variable {sha256 : Bytes → Bytes} {req : FileRequest} {d₀ d d' : Disk} {ph ph' : Phase} {e : Event}
variable {events : List Event} {own : List Suffix}

theorem Confined.refl (req : FileRequest) (d : Disk) (own : List Suffix) :
    Confined req d d own where
  made := fun p _ => .inl (.refl d p)
  others := fun p _ _ _ => .refl d p

theorem Confined.mono {more : List Suffix} (h : Confined req d₀ d own) (hsub : own ⊆ more) :
    Confined req d₀ d more where
  made := h.made
  others := fun p hdir htarget hpart => h.others p hdir htarget fun x hx => hpart x (hsub hx)

theorem Moves.at_dir (h : Moves sha256 req d ph e d' ph') (hs : Sound sha256 req d ph)
    (hapart : Apart req) (hpart : ∀ x, part req x ∉ (parent req).inits) {p : Path}
    (hp : p ∈ (parent req).inits) :
    Disk.SameAt d d' p ∨ d.node p = none ∧ d'.node p = some .directory := by
  have ne_part : ∀ x, p ≠ part req x := fun x heq => hpart x (heq ▸ hp)
  have ne_target : p ≠ target req := fun heq => hapart.target_dir (heq ▸ hp)
  cases h with
  | @mkdir dir todo d'' hd =>
    by_cases heq : p = dir
    · rw [heq]
      exact Disk.mkdir_self hd
    · exact .inl (Disk.mkdir_sameAt hd heq)
  | openOut hd => exact .inl (Disk.openTruncate_sameAt hd (ne_part _))
  | write => exact .inl (Disk.write_sameAt _ hs (ne_part _))
  | removeFailed | leave => exact .inl (tryRemove_sameAt _ (ne_part _))
  | rename hd => exact .inl (Disk.rename_sameAt hd (ne_part _) ne_target)
  | _ => exact .inl (.refl d p)

theorem Moves.confined (h : Moves sha256 req d ph e d' ph') (hs : Sound sha256 req d ph)
    (hapart : Apart req) (hpart : ∀ x, part req x ∉ (parent req).inits)
    (hown : ∀ x, ph.suffix? = some x → x ∈ own) (hc : Confined req d₀ d own) :
    Confined req d₀ d' own where
  made := by
    intro p hp
    cases h.at_dir hs hapart hpart hp with
    | inl hsame =>
      cases hc.made p hp with
      | inl hkept => exact .inl (hkept.trans hsame)
      | inr hmade => exact .inr ⟨hmade.1, hsame.node.trans hmade.2⟩
    | inr hnew =>
      cases hc.made p hp with
      | inl hkept => exact .inr ⟨hkept.node.symm.trans hnew.1, hnew.2⟩
      | inr hmade => exact absurd (hmade.2.symm.trans hnew.1) nofun
  others := by
    intro p hdir htarget hp
    have before := hc.others p hdir htarget hp
    exact before.trans (h.sameAt hs (fun x hx => hp x (hown x hx)) hdir htarget)

theorem Moves.target_kept (h : Moves sha256 req d ph e d' ph') (hs : Sound sha256 req d ph)
    (hapart : Apart req) (hph : ∀ x, ph ≠ .finalising x) : Disk.SameAt d d' (target req) := by
  cases h with
  | mkdir hd =>
    refine Disk.mkdir_sameAt hd ?_
    intro heq
    exact hapart.target_dir (heq ▸ hs _ List.mem_cons_self)
  | openOut hd => exact Disk.openTruncate_sameAt hd (hapart.part_target _).symm
  | write => exact Disk.write_sameAt _ hs (hapart.part_target _).symm
  | removeFailed | leave => exact tryRemove_sameAt _ (hapart.part_target _).symm
  | rename hd => exact absurd rfl (hph _)
  | _ => exact .refl d _

/-- What a call that has come to this phase has done to the target. -/
def Reached (sha256 : Bytes → Bytes) (req : FileRequest) (d₀ d : Disk) : Phase → Prop
  | .leaving _ status =>
    status = {} ∧ Holds sha256 d (target req) req.expected ∨
      (status.code = .downloadFailed ∨ status.code = .digestMismatch) ∧
        Disk.SameAt d₀ d (target req)
  | .failed _ _ result =>
    Disk.SameAt d₀ d (target req) ∧ result.status.code = .downloadFailed
  | _ => Disk.SameAt d₀ d (target req)

structure Underway (sha256 : Bytes → Bytes) (req : FileRequest) (d₀ : Disk) (events : List Event)
    (d : Disk) (ph : Phase) : Prop where
  drawn : drawnIn events = ph.suffix?.toList
  confined : Confined req d₀ d (drawnIn events)
  reached : Reached sha256 req d₀ d ph

def Course (sha256 : Bytes → Bytes) (req : FileRequest) (d₀ : Disk) (events : List Event)
    (d : Disk) : Phase → Prop
  | .called => events = [] ∧ d = d₀
  | .threw => False
  | .returned status => Ending sha256 req d₀ d events status
  | ph => Underway sha256 req d₀ events d ph

theorem Underway.course (h : Underway sha256 req d₀ events d ph) {x : Suffix}
    (hx : ph.suffix? = some x) : Course sha256 req d₀ events d ph := by
  cases ph with
  | called | returned _ | threw => cases hx
  | _ => exact h

theorem Course.underway (h : Course sha256 req d₀ events d ph) {x : Suffix}
    (hx : ph.suffix? = some x) : Underway sha256 req d₀ events d ph := by
  cases ph with
  | called | returned _ | threw => cases hx
  | _ => exact h

theorem drawnIn_concat (events : List Event) (e : Event) :
    drawnIn (events ++ [e]) = drawnIn events ++ e.drawn := by
  unfold drawnIn
  rw [List.flatMap_append, List.flatMap_singleton]

theorem afterAttempt_reached {suffix : Suffix} {attempt : ℕ} {result : Attempt}
    (h : Disk.SameAt d₀ d (target req))
    (hcode : result.status.ok = false → result.status.code = .downloadFailed) :
    Reached sha256 req d₀ d (afterAttempt suffix attempt result) := by
  unfold afterAttempt
  split
  · split
    · exact h
    · rename_i bad
      exact .inr ⟨.inl (hcode (eq_false_of_ne_true bad)), h⟩
  · exact h

theorem afterRead_reached {suffix : Suffix} {file : ℕ} {hashed chunk : Bytes}
    (h : Disk.SameAt d₀ d (target req)) :
    Reached sha256 req d₀ d (afterRead sha256 suffix file hashed chunk) := by
  unfold afterRead
  split
  · exact h
  · exact h

theorem afterCompare_reached {suffix : Suffix} {digest : String}
    (h : Disk.SameAt d₀ d (target req)) :
    Reached sha256 req d₀ d (afterCompare req suffix digest) := by
  unfold afterCompare
  split
  · exact .inr ⟨.inr rfl, h⟩
  · exact h

theorem afterStat_course : Course sha256 req d [.stat] d (afterStat req d) := by
  unfold afterStat
  split
  · rename_i there
    exact .alreadyThere there rfl rfl
  · rename_i missing
    split
    · rename_i offline
      exact .notCached (eq_false_of_ne_true missing) offline rfl rfl
    · exact ⟨rfl, .refl req d _, .refl d _⟩

section Step
variable (hs : Sound sha256 req d ph) (hapart : Apart req)
  (hpart : ∀ x, part req x ∉ (parent req).inits)
include hs hapart hpart

theorem Moves.underway (h : Moves sha256 req d ph e d' ph')
    (hu : Underway sha256 req d₀ events d ph) (hdrawn : e.drawn = [])
    (hsuffix : ph'.suffix? = ph.suffix?) (hreached : Reached sha256 req d₀ d' ph') :
    Underway sha256 req d₀ (events ++ [e]) d' ph' where
  drawn := by rw [drawnIn_concat, hdrawn, List.append_nil, hu.drawn, hsuffix]
  confined := by
    rw [drawnIn_concat, hdrawn, List.append_nil]
    apply h.confined hs hapart hpart ?own hu.confined
    intro x hx
    rw [hu.drawn, hx]
    exact List.mem_singleton_self x
  reached := hreached

theorem Moves.course (h : Moves sha256 req d ph e d' ph') (he : e.orderly = true)
    (hc : Course sha256 req d₀ events d ph) :
    Course sha256 req d₀ (events ++ [e]) d' ph' := by
  have stay (hu : Underway sha256 req d₀ events d ph) := h.underway hs hapart hpart hu
  have kept := h.target_kept hs hapart
  have confined (hown : ∀ x, ph.suffix? = some x → x ∈ drawnIn events)
      (hc : Confined req d₀ d (drawnIn events)) := h.confined hs hapart hpart hown hc
  cases h with
  | stat =>
    obtain ⟨rfl, rfl⟩ := hc
    exact afterStat_course
  | statThrows => cases he
  | mkdir hd => exact stay hc rfl rfl (hc.reached.trans (kept nofun))
  | mkdirFails =>
    have hu := stay hc rfl rfl hc.reached
    refine .failed (.inl rfl) hc.reached ⟨hu.confined, ?_⟩
    rw [hu.drawn]
    exact nofun
  | draw =>
    refine ⟨?drawn, ?confined, hc.reached⟩
    case drawn => rw [drawnIn_concat, hc.drawn]; rfl
    case confined => rw [drawnIn_concat]; exact hc.confined.mono (List.subset_append_left _ _)
  | notStarted he =>
    have hdrawn : e.drawn = [] := by cases he with | inl h | inr h => rw [h]; rfl
    have hu := stay hc hdrawn (afterAttempt_suffix _ _ _)
      (afterAttempt_reached hc.reached fun _ => rfl)
    exact hu.course (afterAttempt_suffix _ _ _)
  | openOut hd => exact stay hc rfl rfl (hc.reached.trans (kept nofun))
  | write => exact stay hc rfl rfl (hc.reached.trans (kept nofun))
  | performed ok =>
    have hu := stay hc rfl (afterAttempt_suffix _ _ _) (afterAttempt_reached hc.reached nofun)
    exact hu.course (afterAttempt_suffix _ _ _)
  | performFailed bad => exact stay hc rfl rfl ⟨hc.reached, rfl⟩
  | removeFailed =>
    have hkept := hc.reached.1.trans (kept nofun)
    have hu := stay hc rfl (afterAttempt_suffix _ _ _)
      (afterAttempt_reached hkept fun _ => hc.reached.2)
    exact hu.course (afterAttempt_suffix _ _ _)
  | wake => exact stay hc rfl rfl hc.reached
  | openIn hd => exact stay hc rfl rfl hc.reached
  | openInFails => exact stay hc rfl rfl (.inr ⟨.inl rfl, hc.reached⟩)
  | readIn =>
    have hu := stay hc rfl (afterRead_suffix _ _ _ _) (afterRead_reached hc.reached)
    exact hu.course (afterRead_suffix _ _ _ _)
  | compare =>
    have hu := stay hc rfl (afterCompare_suffix _ _ _) (afterCompare_reached hc.reached)
    exact hu.course (afterCompare_suffix _ _ _)
  | rename hd => exact stay hc rfl rfl (.inl ⟨rfl, rename_holds hd hs⟩)
  | renameFails => exact stay hc rfl rfl (.inr ⟨.inl rfl, hc.reached⟩)
  | @leave suffix status done =>
    obtain rfl : done = true := by cases done with | false => cases he | true => rfl
    have tidy : Tidy req d₀ (d.unlink (part req suffix)) (drawnIn (events ++ [.remove true])) := by
      rw [drawnIn_concat]
      change Tidy req d₀ _ (drawnIn events ++ [])
      rw [List.append_nil]
      refine ⟨confined ?own hc.confined, ?cleared⟩
      all_goals rw [hc.drawn]
      case own =>
        intro x hx
        rw [hx]
        exact List.mem_singleton_self x
      case cleared =>
        intro x hx
        obtain rfl : x = suffix := List.mem_singleton.mp hx
        exact Function.update_self _ _ _
    cases hc.reached with
    | inl hdone =>
      obtain ⟨rfl, hholds⟩ := hdone
      exact .fetched (hholds.sameAt (kept nofun)) tidy
    | inr hfailed => exact .failed hfailed.1 (hfailed.2.trans (kept nofun)) tidy

end Step

def Event.delivered : Event → ℕ
  | .write data => data.length + 1
  | _ => 0

def size (d : Disk) (p : Path) : ℕ := ((d.read p).getD []).length

def Phase.attempts : Phase → Prop
  | .starting _ attempt | .receiving _ attempt _ | .failed _ attempt _ => attempt ≤ kAttempts
  | .waiting _ attempt _ => attempt < kAttempts
  | _ => True

/-- Five steps for each attempt still to come, one for each byte still to be read. -/
def rank (req : FileRequest) (d : Disk) : Phase → ℕ
  | .called => (parent req).inits.length + 5 * kAttempts + 6
  | .creating todo => todo.length + 5 * kAttempts + 5
  | .starting _ attempt => 5 * (kAttempts - attempt) + 9
  | .receiving _ attempt out => 5 * (kAttempts - attempt) + (d.content out).length + 8
  | .failed _ attempt _ => 5 * (kAttempts - attempt) + 7
  | .waiting _ attempt _ => 5 * (kAttempts - attempt) + 6
  | .fetched suffix => size d (part req suffix) + 5
  | .hashing _ file hashed => (d.content file).length - hashed.length + 4
  | .comparing _ _ => 3
  | .finalising _ => 2
  | .leaving _ _ => 1
  | .returned _ | .threw => 0

theorem size_file {p : Path} {i : ℕ} (h : d.node p = some (.file i)) :
    size d p = (d.content i).length := by
  unfold size
  rw [Disk.read_file h, Option.getD_some]

theorem afterAttempt_attempts {suffix : Suffix} {attempt : ℕ} {result : Attempt}
    (h : attempt ≤ kAttempts) : (afterAttempt suffix attempt result).attempts := by
  unfold afterAttempt
  split
  · split <;> trivial
  · rename_i again
    have other : attempt ≠ kAttempts := by
      rintro rfl
      simp at again
    change attempt < kAttempts
    omega

theorem rank_afterAttempt {suffix : Suffix} {attempt : ℕ} {result : Attempt}
    (bad : result.status.ok = false) :
    rank req d (afterAttempt suffix attempt result) ≤ 5 * (kAttempts - attempt) + 6 := by
  unfold afterAttempt
  split
  · rw [if_neg (by rw [bad]; nofun)]
    change 1 ≤ _
    omega
  · exact Nat.le_refl _

theorem Moves.attempts (h : Moves sha256 req d ph e d' ph') (ha : ph.attempts) :
    ph'.attempts := by
  cases h with
  | stat => unfold afterStat; split <;> [trivial; split <;> trivial]
  | notStarted _ | performed _ | removeFailed => exact afterAttempt_attempts ha
  | draw => exact (by decide : 1 ≤ kAttempts)
  | wake => exact ha
  | openOut _ | write | performFailed _ => exact ha
  | readIn => unfold afterRead; split <;> trivial
  | compare => unfold afterCompare; split <;> trivial
  | _ => trivial

theorem rank_afterStat :
    rank req d (afterStat req d) ≤ (parent req).inits.length + 5 * kAttempts + 5 := by
  unfold afterStat
  split
  · exact Nat.zero_le _
  · split
    · exact Nat.zero_le _
    · exact Nat.le_refl _

theorem rank_afterRead {suffix : Suffix} {file : ℕ} {hashed : Bytes}
    (h : hashed.length ≤ (d.content file).length) :
    rank req d (afterRead sha256 suffix file hashed (chunkAt d file hashed.length)) + 1 ≤
      (d.content file).length - hashed.length + 4 := by
  have read : (chunkAt d file hashed.length).length =
      min bufferSize ((d.content file).length - hashed.length) := by
    unfold chunkAt
    rw [List.length_take, List.length_drop]
  unfold afterRead
  split
  · rename_i full
    rw [full] at read
    simp only [rank, List.length_append, full]
    have : 0 < bufferSize := by decide
    omega
  · simp only [rank]
    omega

theorem Moves.rank_le (h : Moves sha256 req d ph e d' ph') (hs : Sound sha256 req d ph)
    (ha : ph.attempts) : rank req d' ph' + 1 ≤ rank req d ph + e.delivered := by
  cases h with
  | stat => exact Nat.succ_le_succ rank_afterStat
  | draw =>
    simp only [rank, kAttempts]
    omega
  | @notStarted suffix attempt _ text _ =>
    have next : rank req d (afterAttempt suffix attempt { status := ⟨.downloadFailed, text⟩ }) ≤
        5 * (kAttempts - attempt) + 6 := rank_afterAttempt rfl
    change _ ≤ 5 * (kAttempts - attempt) + 9 + e.delivered
    omega
  | openOut hd =>
    have empty := (Disk.openTruncate_file hd).2
    simp only [rank, empty, List.length_nil]
    omega
  | write =>
    simp only [rank, Disk.append, Disk.write, Function.update_self, List.length_append,
      Event.delivered]
    omega
  | performed _ =>
    change size d _ + 5 + 1 ≤ _
    simp only [rank, size_file hs]
    omega
  | performFailed _ =>
    simp only [rank]
    omega
  | @removeFailed suffix attempt result done =>
    have next : rank req (tryRemove d (part req suffix) done) (afterAttempt suffix attempt result) ≤
        5 * (kAttempts - attempt) + 6 := rank_afterAttempt hs
    exact Nat.succ_le_succ next
  | wake =>
    change _ < _ at ha
    simp only [rank]
    omega
  | openIn hd =>
    simp only [rank, size_file hd, List.length_nil]
    omega
  | readIn =>
    obtain ⟨-, hhashed⟩ := hs
    apply rank_afterRead
    rw [hhashed, List.length_take]
    exact Nat.min_le_right _ _
  | compare =>
    unfold afterCompare
    split
    · exact (by decide : 1 + 1 ≤ 3)
    · exact (by decide : 2 + 1 ≤ 3)
  | _ =>
    simp only [rank, List.length_cons]
    omega

theorem callStep_enabled (hph : ph.finished = false) :
    ∃ e, (callStep sha256 req (d, ph) e).isSome = true := by
  cases ph with
  | called => exact ⟨.stat, rfl⟩
  | creating todo =>
    cases todo with
    | nil => exact ⟨.draw 0 0, rfl⟩
    | cons dir todo => exact ⟨.mkdirFails "", rfl⟩
  | starting suffix attempt => exact ⟨.curlInitFails, rfl⟩
  | receiving suffix attempt out => exact ⟨.write [], rfl⟩
  | failed suffix attempt result => exact ⟨.remove true, rfl⟩
  | waiting suffix attempt seconds => exact ⟨.wake, rfl⟩
  | fetched suffix => exact ⟨.openInFails, rfl⟩
  | hashing suffix file hashed => exact ⟨.readIn, rfl⟩
  | comparing suffix digest => exact ⟨.compare, rfl⟩
  | finalising suffix => exact ⟨.renameFails "", rfl⟩
  | leaving suffix status => exact ⟨.remove true, rfl⟩
  | returned status => cases hph
  | threw => cases hph

theorem callStep_moves {s u : Disk × Phase} (h : callStep sha256 req s e = some u) :
    e.orderly = true ∧ Moves sha256 req s.1 s.2 e u.1 u.2 := by
  unfold callStep at h
  split at h
  · exact ⟨‹_›, advance_moves h⟩
  · cases h

/-- After a run of `events`: the call is over and has ended well, or it has steps to
    take, and not many. -/
structure AllOrNothing (sha256 : Bytes → Bytes) (req : FileRequest) (d₀ : Disk)
    (events : List Event) (s : Disk × Phase) : Prop where
  ended : s.2.finished = true → ∃ status, s.2 = .returned status ∧
    Ending sha256 req d₀ s.1 events status
  goesOn : s.2.finished = false → ∃ e, (callStep sha256 req s e).isSome = true
  bounded : events.length ≤
    (parent req).inits.length + 5 * kAttempts + 6 + total Event.delivered events

variable {s : Disk × Phase}

theorem Course.ended (h : Course sha256 req d₀ events d ph) (hph : ph.finished = true) :
    ∃ status, ph = .returned status ∧ Ending sha256 req d₀ d events status := by
  cases ph with
  | returned status => exact ⟨status, rfl, h⟩
  | threw => cases h
  | _ => cases hph

theorem run_course (hapart : Apart req) (hpart : ∀ x, part req x ∉ (parent req).inits)
    (hrun : Run (callStep sha256 req) (d₀, .called) events s) :
    Course sha256 req d₀ events s.1 s.2 := by
  have key : Sound sha256 req s.1 s.2 ∧ Course sha256 req d₀ events s.1 s.2 := by
    apply hrun.history (I := fun events (s : Disk × Phase) =>
      Sound sha256 req s.1 s.2 ∧ Course sha256 req d₀ events s.1 s.2)
    · rintro events s e u ⟨hs, hc⟩ h
      obtain ⟨he, hm⟩ := callStep_moves h
      exact ⟨hm.sound hs hapart, hm.course hs hapart hpart he hc⟩
    · exact ⟨trivial, rfl, rfl⟩
  exact key.2

theorem run_bounded (hapart : Apart req)
    (hrun : Run (callStep sha256 req) (d₀, .called) events s) :
    events.length ≤
      (parent req).inits.length + 5 * kAttempts + 6 + total Event.delivered events := by
  have key : events.length + rank req s.1 s.2 ≤
      rank req d₀ .called + total Event.delivered events := by
    apply hrun.length_le (I := fun (s : Disk × Phase) => Sound sha256 req s.1 s.2 ∧ s.2.attempts)
      (fun s => rank req s.1 s.2)
    · rintro s e u ⟨hs, ha⟩ h
      obtain ⟨-, hm⟩ := callStep_moves h
      exact ⟨hm.sound hs hapart, hm.attempts ha⟩
    · rintro s e u ⟨hs, ha⟩ h
      obtain ⟨-, hm⟩ := callStep_moves h
      exact hm.rank_le hs ha
    · exact ⟨trivial, trivial⟩
  exact (Nat.le_add_right _ _).trans key

end CyborgdbEmbed.EnsureFile

namespace CyborgdbEmbed.SharedCache
open FileSystem Resolve EnsureFile TransitionSystem

theorem fetch_allOrNothing {sha256 : Bytes → Bytes} (f : Fetch) {d₀ : Disk} {s : Disk × Phase}
    {events : List Event} (hrun : Run (callStep sha256 f.request) (d₀, .called) events s) :
    AllOrNothing sha256 f.request d₀ events s where
  ended := (run_course f.apart (f.part_not_dir f) hrun).ended
  goesOn := callStep_enabled
  bounded := run_bounded f.apart hrun

/-- A transfer breaks off, the next one delivers an empty file, which is not the model. -/
def retriedMismatch : List Event :=
  [.stat, .mkdir, .mkdir, .mkdir, .draw 1 2, .openOut, .write [1, 2, 3],
    .perform ⟨.recvError, 200, 0, "", "Failure when receiving data from the peer"⟩, .remove true,
    .wake, .openOut, .perform ⟨.ok, 200, 0, "", "No error"⟩, .openIn, .readIn, .compare,
    .remove true]

theorem retriedMismatch_allOrNothing :
    AllOrNothing sha256OfNothing e5Graph.request emptyDisk retriedMismatch
      ((exec (callStep sha256OfNothing e5Graph.request) (emptyDisk, .called)
        retriedMismatch).getD (emptyDisk, .called)) :=
  fetch_allOrNothing e5Graph (run_exec (by decide +kernel))

end CyborgdbEmbed.SharedCache

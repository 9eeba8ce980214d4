import CyborgdbEmbed.EnsureFile

set_option autoImplicit false

namespace CyborgdbEmbed.EnsureFile
open FileSystem Resolve

variable {sha256 : Bytes → Bytes} {req : FileRequest} {d d' : Disk} {ph ph' : Phase} {e : Event}

def Holds (sha256 : Bytes → Bytes) (d : Disk) (p : Path) (digest : String) : Prop :=
  ∃ bytes, d.read p = some bytes ∧ hexDigest (sha256 bytes) = digest

def Verified (sha256 : Bytes → Bytes) (d : Disk) (p : Path) (digest : String) : Prop :=
  d.node p = none ∨ Holds sha256 d p digest

theorem Holds.sameAt {p : Path} {digest : String} (h : Holds sha256 d p digest)
    (hs : Disk.SameAt d d' p) : Holds sha256 d' p digest := by
  obtain ⟨bytes, hread, hdigest⟩ := h
  exact ⟨bytes, hs.read.trans hread, hdigest⟩

theorem Verified.sameAt {p : Path} {digest : String} (h : Verified sha256 d p digest)
    (hs : Disk.SameAt d d' p) : Verified sha256 d' p digest := by
  cases h with
  | inl hnone => exact .inl (hs.node.trans hnone)
  | inr hholds => exact .inr (hholds.sameAt hs)

theorem Holds.present {p : Path} {digest : String} (h : Holds sha256 d p digest) :
    d.present p = true := by
  obtain ⟨bytes, hread, -⟩ := h
  unfold Disk.read at hread
  split at hread
  · exact Disk.present_of_file ‹_›
  · cases hread

theorem Verified.holds {p : Path} {digest : String} (h : Verified sha256 d p digest)
    (hp : d.present p = true) : Holds sha256 d p digest := by
  cases h with
  | inl hnone =>
    unfold Disk.present at hp
    rw [hnone] at hp
    cases hp
  | inr hholds => exact hholds

def Sound (sha256 : Bytes → Bytes) (req : FileRequest) (d : Disk) : Phase → Prop
  | .creating todo => ∀ dir ∈ todo, dir ∈ (parent req).inits
  | .receiving suffix _ out => d.node (part req suffix) = some (.file out)
  | .failed _ _ result => result.status.ok = false
  | .hashing suffix file hashed => d.node (part req suffix) = some (.file file) ∧
      hashed = (d.content file).take hashed.length
  | .comparing suffix digest => Holds sha256 d (part req suffix) digest
  | .finalising suffix => Holds sha256 d (part req suffix) req.expected
  | .leaving _ status | .returned status => status.ok = true → d.present (target req) = true
  | _ => True

theorem Sound.frame (h : Sound sha256 req d ph)
    (hpart : ∀ suffix, ph.suffix? = some suffix → Disk.SameAt d d' (part req suffix))
    (htarget : d.present (target req) = true → d'.present (target req) = true) :
    Sound sha256 req d' ph := by
  cases ph with
  | called | creating _ | starting _ _ | waiting _ _ _ | fetched _ | threw | failed _ _ _ => exact h
  | receiving suffix attempt out => exact ((hpart suffix rfl).file h).1
  | hashing suffix file hashed =>
    obtain ⟨hnode, hcontent⟩ := (hpart suffix rfl).file h.1
    refine ⟨hnode, ?_⟩
    rw [hcontent]
    exact h.2
  | comparing suffix digest => exact Holds.sameAt h (hpart suffix rfl)
  | finalising suffix => exact Holds.sameAt h (hpart suffix rfl)
  | leaving suffix status => exact fun ok => htarget (h ok)
  | returned status => exact fun ok => htarget (h ok)

structure Apart (req : FileRequest) : Prop where
  part_target : ∀ suffix, part req suffix ≠ target req
  target_dir : target req ∉ (parent req).inits

theorem tryRemove_sameAt {p q : Path} (done : Bool) (hq : q ≠ p) :
    Disk.SameAt d (tryRemove d p done) q := by
  unfold tryRemove
  split
  · exact Disk.unlink_sameAt hq
  · exact .refl d q

/-- A step leaves alone every name but its own temporary file, the directories on the
    way, and the target. -/
theorem Moves.sameAt (h : Moves sha256 req d ph e d' ph') (hs : Sound sha256 req d ph) {q : Path}
    (hpart : ∀ suffix, ph.suffix? = some suffix → q ≠ part req suffix)
    (hdir : q ∉ (parent req).inits) (htarget : q ≠ target req) : Disk.SameAt d d' q := by
  cases h with
  | mkdir hd =>
    refine Disk.mkdir_sameAt hd ?_
    rintro rfl
    exact hdir (hs _ List.mem_cons_self)
  | openOut hd => exact Disk.openTruncate_sameAt hd (hpart _ rfl)
  | write => exact Disk.write_sameAt _ hs (hpart _ rfl)
  | removeFailed | leave => exact tryRemove_sameAt _ (hpart _ rfl)
  | rename hd => exact Disk.rename_sameAt hd (hpart _ rfl) htarget
  | _ => exact .refl d q

theorem rename_holds {p q : Path} {digest : String} (h : d.rename p q = some d')
    (hp : Holds sha256 d p digest) : Holds sha256 d' q digest := by
  obtain ⟨⟨i, hi⟩, -⟩ := Disk.rename_eq h
  obtain ⟨hnode, hcontent⟩ := Disk.rename_target h hi
  obtain ⟨bytes, hread, hdigest⟩ := hp
  refine ⟨bytes, ?_, hdigest⟩
  rw [Disk.read_file hnode, hcontent, ← Disk.read_file hi, hread]

theorem Moves.at_target (h : Moves sha256 req d ph e d' ph') (hs : Sound sha256 req d ph)
    (hapart : Apart req) :
    Disk.SameAt d d' (target req) ∨ Holds sha256 d' (target req) req.expected := by
  cases h with
  | mkdir hd =>
    refine .inl (Disk.mkdir_sameAt hd ?_)
    intro heq
    exact hapart.target_dir (heq ▸ hs _ List.mem_cons_self)
  | openOut hd => exact .inl (Disk.openTruncate_sameAt hd (hapart.part_target _).symm)
  | write => exact .inl (Disk.write_sameAt _ hs (hapart.part_target _).symm)
  | removeFailed | leave => exact .inl (tryRemove_sameAt _ (hapart.part_target _).symm)
  | rename hd => exact .inr (rename_holds hd hs)
  | _ => exact .inl (.refl d _)

theorem Moves.target_present (h : Moves sha256 req d ph e d' ph') (hs : Sound sha256 req d ph)
    (hapart : Apart req) (hp : d.present (target req) = true) :
    d'.present (target req) = true := by
  cases h.at_target hs hapart with
  | inl hsame => rw [hsame.present, hp]
  | inr hholds => exact hholds.present

theorem afterAttempt_sound {suffix : Suffix} {attempt : ℕ} {result : Attempt} :
    Sound sha256 req d (afterAttempt suffix attempt result) := by
  unfold afterAttempt
  split
  · split
    · trivial
    · intro ok
      contradiction
  · trivial

theorem afterStat_sound : Sound sha256 req d (afterStat req d) := by
  unfold afterStat
  split
  · intro _
    assumption
  · split
    · intro ok
      cases ok
    · exact fun dir hdir => hdir

/-- The bytes hashed so far are the file's first ones; a short read completes it. -/
theorem afterRead_sound {suffix : Suffix} {file : ℕ} {hashed : Bytes}
    (h : Sound sha256 req d (.hashing suffix file hashed)) :
    Sound sha256 req d (afterRead sha256 suffix file hashed (chunkAt d file hashed.length)) := by
  obtain ⟨hnode, hhashed⟩ := h
  have more : hashed ++ chunkAt d file hashed.length =
      (d.content file).take (hashed.length + bufferSize) := by
    unfold chunkAt
    rw [List.take_add, ← hhashed]
  unfold afterRead
  split
  · rename_i full
    refine ⟨hnode, ?_⟩
    rw [List.length_append, full]
    exact more
  · rename_i short
    have whole : (d.content file).length ≤ hashed.length + bufferSize := by
      unfold chunkAt at short
      rw [List.length_take, List.length_drop] at short
      omega
    rw [more, List.take_of_length_le whole]
    exact ⟨d.content file, Disk.read_file hnode, rfl⟩

theorem afterCompare_sound {suffix : Suffix} {digest : String}
    (h : Sound sha256 req d (.comparing suffix digest)) :
    Sound sha256 req d (afterCompare req suffix digest) := by
  unfold afterCompare
  split
  · intro ok
    cases ok
  · rename_i heq
    obtain rfl : digest = req.expected := not_not.mp heq
    exact h

theorem failed_not_ok {url : String} {result : CurlResult} :
    (failedAttempt url result).status.ok = false := rfl

theorem Moves.sound (h : Moves sha256 req d ph e d' ph') (hs : Sound sha256 req d ph)
    (hapart : Apart req) : Sound sha256 req d' ph' := by
  have keep := h.target_present hs hapart
  cases h with
  | stat => exact afterStat_sound
  | mkdir hd => exact fun dir hdir => hs dir (List.mem_cons_of_mem _ hdir)
  | mkdirFails | openInFails | renameFails =>
    intro ok
    cases ok
  | notStarted _ | performed _ => exact afterAttempt_sound
  | openOut hd => exact (Disk.openTruncate_file hd).1
  | write => exact hs
  | performFailed _ => exact failed_not_ok
  | removeFailed => exact afterAttempt_sound
  | openIn hd => exact ⟨hd, rfl⟩
  | readIn => exact afterRead_sound hs
  | compare => exact afterCompare_sound hs
  | rename hd => exact fun _ => (rename_holds hd hs).present
  | leave => exact fun ok => keep (hs ok)
  | statThrows | draw | wake => trivial

end CyborgdbEmbed.EnsureFile

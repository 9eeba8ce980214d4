import CyborgdbEmbed.ArtifactCache

set_option autoImplicit false

namespace CyborgdbEmbed.ArtifactCache
open FileSystem Resolve TransitionSystem
open LoadSession (Hash)
open VerifiedLoads (chunk opened opened_file)

section
variable {sha256 : Hash} {strip : Bytes → Bytes} {setup : Setup} {d d' : Disk}
  {phase next : Phase} {path : Path} {s : State} {p : ℕ}

theorem moved_cases {q : ℕ} {other : Phase}
    (h : Function.update s.configures p (some next) q = some other) :
    q = p ∧ other = next ∨ q ≠ p ∧ s.configures q = some other := by
  by_cases same : q = p
  · subst same
    rw [Function.update_self] at h
    exact .inl ⟨rfl, (Option.some.inj h).symm⟩
  · rw [Function.update_of_ne same] at h
    exact .inr ⟨same, h⟩

theorem Inv.moved (inv : Inv sha256 strip setup s) (hp : s.configures p = some phase)
    (noDirectory : NoDirectory setup d')
    (whole : ∀ bytes, d'.read setup.file = some bytes → Pinned sha256 setup bytes)
    (self : Sound sha256 setup d' next)
    (others : ∀ q other, q ≠ p → s.configures q = some other → Sound sha256 setup d' other)
    (downloads : next.downloads = true → phase.downloads = true ∨ Alone Phase.downloads s p)
    (copies : next.copies = true → phase.copies = true ∨ Alone Phase.copies s p ∧
      ∀ q, s.configures q ≠ some (.returned setup.strippedFile))
    (ready : next.copies = false → (phase.copies = true ∨ d'.read setup.strippedFile =
      s.disk.read setup.strippedFile) ∧ (phase.copies = true → ∀ bytes,
        d'.read setup.strippedFile = some bytes → Stripped sha256 strip setup bytes))
    (given : next = .returned setup.strippedFile → Alone Phase.copies s p) :
    Inv sha256 strip setup
      { disk := d', configures := Function.update s.configures p (some next) } where
  noDirectory := noDirectory
  whole := whole
  sound := fun q other hq => by
    obtain ⟨rfl, rfl⟩ | ⟨apart, old⟩ := moved_cases hq
    · exact self
    · exact others q other apart old
  download := fun q part hq inside r other hr apart => by
    have alone : next.downloads = true → Alone Phase.downloads s p := fun h =>
      (downloads h).elim (fun was => inv.download p phase hp was) id
    obtain ⟨rfl, rfl⟩ | ⟨hqp, old⟩ := moved_cases hq
    · obtain ⟨rfl, -⟩ | ⟨-, old'⟩ := moved_cases hr
      · exact absurd rfl apart
      · exact alone inside r other old' apart
    · obtain ⟨rfl, rfl⟩ | ⟨hrp, old'⟩ := moved_cases hr
      · by_contra both
        have := alone (eq_true_of_ne_false both) q part old hqp
        rw [this] at inside
        cases inside
      · exact inv.download q part old inside r other old' apart
  copy := fun q part hq inside => by
    have alone : next.copies = true → Alone Phase.copies s p ∧
        ∀ q, s.configures q ≠ some (.returned setup.strippedFile) := fun h =>
      (copies h).elim (fun was => inv.copy p phase hp was) id
    obtain ⟨rfl, rfl⟩ | ⟨hqp, old⟩ := moved_cases hq
    · refine ⟨fun r other hr apart => ?_, fun r hr => ?_⟩
      · obtain ⟨rfl, -⟩ | ⟨-, old'⟩ := moved_cases hr
        · exact absurd rfl apart
        · exact (alone inside).1 r other old' apart
      · obtain ⟨-, rfl⟩ | ⟨-, old'⟩ := moved_cases hr
        · cases inside
        · exact (alone inside).2 r old'
    · obtain ⟨before, none⟩ := inv.copy q part old inside
      refine ⟨fun r other hr apart => ?_, fun r hr => ?_⟩
      · obtain ⟨rfl, rfl⟩ | ⟨-, old'⟩ := moved_cases hr
        · by_contra both
          have := (alone (eq_true_of_ne_false both)).1 q part old hqp
          rw [this] at inside
          cases inside
        · exact before r other old' apart
      · obtain ⟨rfl, same⟩ | ⟨-, old'⟩ := moved_cases hr
        · have := given same.symm q part old hqp
          rw [this] at inside
          cases inside
        · exact none r old'
  ready := fun idle bytes read => by
    have outside : next.copies = false := idle p next (Function.update_self ..)
    obtain ⟨same, made⟩ := ready outside
    by_cases was : phase.copies = true
    · exact made was bytes read
    · refine inv.ready (fun q other hq => ?_) bytes ((same.resolve_left was).symm.trans read)
      by_cases here : q = p
      · subst here
        obtain rfl := Option.some.inj (hq.symm.trans hp)
        exact eq_false_of_ne_true was
      · exact idle q other ((Function.update_of_ne here _ _).trans hq)

theorem Inv.looked (inv : Inv sha256 strip setup s) (hp : s.configures p = some phase)
    (self : Sound sha256 setup s.disk next)
    (downloads : next.downloads = true → phase.downloads = true ∨ Alone Phase.downloads s p)
    (copies : next.copies = true → phase.copies = true ∨ Alone Phase.copies s p ∧
      ∀ q, s.configures q ≠ some (.returned setup.strippedFile))
    (stays : phase.copies = true → next.copies = true)
    (given : next = .returned setup.strippedFile → Alone Phase.copies s p) :
    Inv sha256 strip setup
      { s with configures := Function.update s.configures p (some next) } := by
  refine inv.moved hp inv.noDirectory inv.whole self (fun q other _ hq => inv.sound q other hq)
    downloads copies (fun outside => ⟨.inr rfl, fun was => ?_⟩) given
  rw [stays was] at outside
  cases outside

theorem Phase.not_copies (h : phase.downloads = true) : phase.copies = false := by
  cases phase <;> first | rfl | cases h

theorem Inv.downloaded (inv : Inv sha256 strip setup s) (hp : s.configures p = some phase)
    (inside : phase.downloads = true) (only : Only setup.partialFile s.disk d')
    (self : Sound sha256 setup d' next) (elsewhere : next.copies = false)
    (notGiven : next ≠ .returned setup.strippedFile) : Inv sha256 strip setup
      { disk := d', configures := Function.update s.configures p (some next) } := by
  have alone := inv.download p phase hp inside
  refine inv.moved hp ⟨?_, ?_⟩ (fun bytes read => ?_) self (fun q other apart hq => ?_)
    (fun _ => .inl inside) (fun copies => ?_) (fun _ => ⟨.inr ?_, fun was => ?_⟩)
    fun same => absurd same notGiven
  · rw [(only.same _ (partialFile_ne_file setup).symm).node]
    exact inv.noDirectory.file
  · rw [(only.same _ (stripped_ne_partialFile setup)).node]
    exact inv.noDirectory.stripped
  · exact inv.whole bytes ((only.same _ (partialFile_ne_file setup).symm).read.symm.trans read)
  · exact (inv.sound q other hq).on_partialFile only (alone q other hq apart)
  · rw [elsewhere] at copies
    cases copies
  · exact (only.same _ (stripped_ne_partialFile setup)).read
  · rw [Phase.not_copies inside] at was
    cases was

theorem Inv.copied (inv : Inv sha256 strip setup s) (hp : s.configures p = some phase)
    (inside : phase.copies = true) (only : Only setup.strippedFile s.disk d')
    (plain : d'.node setup.strippedFile ≠ some .directory)
    (self : Sound sha256 setup d' next) (elsewhere : next.downloads = false)
    (made : next.copies = false → ∀ bytes, d'.read setup.strippedFile = some bytes →
      Stripped sha256 strip setup bytes) : Inv sha256 strip setup
      { disk := d', configures := Function.update s.configures p (some next) } := by
  obtain ⟨alone, none⟩ := inv.copy p phase hp inside
  refine inv.moved hp ⟨?_, plain⟩ (fun bytes read => ?_) self (fun q other apart hq => ?_)
    (fun downloads => ?_) (fun _ => .inl inside)
    (fun outside => ⟨.inl inside, fun _ => made outside⟩) fun _ => alone
  · rw [(only.same _ (stripped_ne_file setup).symm).node]
    exact inv.noDirectory.file
  · exact inv.whole bytes ((only.same _ (stripped_ne_file setup).symm).read.symm.trans read)
  · refine (inv.sound q other hq).on_stripped only (alone q other hq apart) ?_
    rintro rfl
    exact none q hq
  · rw [elsewhere] at downloads
    cases downloads

/-- The download gets its name. Whoever has the file that had it before goes on with that. -/
theorem Sound.renamed (h : Sound sha256 setup d phase)
    (moved : d.rename setup.partialFile setup.file = some d')
    (elsewhere : phase.downloads = false) : Sound sha256 setup d' phase := by
  obtain ⟨⟨i, hi⟩, rfl⟩ := Disk.rename_eq moved
  have there : IsFile (d.move setup.partialFile setup.file) setup.file := by
    refine ⟨i, ?_⟩
    change (if setup.file = setup.file then _ else _) = _
    rw [if_pos rfl, hi]
  have stripped : Disk.SameAt d (d.move setup.partialFile setup.file) setup.strippedFile :=
    Disk.rename_sameAt moved (stripped_ne_partialFile setup) (stripped_ne_file setup)
  cases phase with
  | present | uncopied | unstripping => exact there
  | copying source j =>
    obtain ⟨-, node, frozen, pinned, front⟩ := h
    refine ⟨there, stripped.node.trans node, ⟨frozen.allocated, fun q hq => ?_⟩, pinned, front⟩
    change (if q = setup.file then _
      else if q = setup.partialFile then none else d.node q) = _ at hq
    split at hq
    · assumption
    · split at hq
      · cases hq
      · exact frozen.named q hq
  | stripping => exact ⟨there, h.2.sameAt stripped⟩
  | returned path =>
    exact ⟨there, h.2.imp_right fun ⟨isStripped, made⟩ => ⟨isStripped, made.sameAt stripped⟩⟩
  | called | failed => trivial
  | downloading | hashing | fetching | writing | closed | removing | verified => cases elsewhere

theorem Inv.renamed (inv : Inv sha256 strip setup s) (hp : s.configures p = some .verified)
    (moved : s.disk.rename setup.partialFile setup.file = some d') : Inv sha256 strip setup
      { disk := d', configures := Function.update s.configures p (some .present) } := by
  obtain ⟨bytes, read, pinned⟩ := inv.sound p _ hp
  obtain ⟨i, node, rfl⟩ := read_eq_some_iff.mp read
  obtain ⟨there, content⟩ := Disk.rename_target moved node
  have stripped := Disk.rename_sameAt moved (stripped_ne_partialFile setup) (stripped_ne_file setup)
  refine inv.moved hp ⟨?_, ?_⟩ (fun bytes read' => ?_) ⟨i, there⟩ (fun q other apart hq => ?_)
    nofun nofun (fun _ => ⟨.inr stripped.read, nofun⟩) nofun
  · rw [there]
    nofun
  · rw [stripped.node]
    exact inv.noDirectory.stripped
  · rw [Disk.read_file there, content] at read'
    rwa [← Option.some.inj read']
  · exact (inv.sound q other hq).renamed moved (inv.download p _ hp rfl q other hq apart)

theorem isFile_of_present (there : d.present path = true) (plain : d.node path ≠ some .directory) :
    IsFile d path := by
  obtain ⟨n, hn⟩ := Option.isSome_iff_exists.mp there
  cases n with
  | directory => exact absurd hn plain
  | file i => exact ⟨i, hn⟩

theorem front_read {front : Bytes} {i : ℕ} (h : front <+: d.content i) {size : ℕ} :
    front ++ chunk d i front.length size <+: d.content i ∧
      (size ≠ 0 → chunk d i front.length size = [] → front = d.content i) := by
  obtain ⟨rest, whole⟩ := h
  rw [chunk, ← whole, List.drop_left]
  refine ⟨(List.prefix_append_right_inj front).mpr (List.take_prefix size rest), ?_⟩
  intro asked nothing
  rw [List.take_eq_nil_iff] at nothing
  rw [nothing.resolve_left asked, List.append_nil]

theorem sound_afterHash (sha256 : Hash) {got : Bytes} (code : Option ℕ)
    (read : d.read setup.partialFile = some got) :
    Sound sha256 setup d (afterHash setup (hexDigest (sha256.bytes got)) code) ∧
      (afterHash setup (hexDigest (sha256.bytes got)) code).copies = false ∧
        afterHash setup (hexDigest (sha256.bytes got)) code ≠ .returned setup.strippedFile := by
  unfold afterHash
  split
  · split
    · rename_i same
      exact ⟨⟨got, read, same⟩, rfl, nofun⟩
    · exact ⟨trivial, rfl, nofun⟩
  · split
    · rename_i same
      split
      · exact ⟨⟨got, read, same⟩, rfl, nofun⟩
      · exact ⟨trivial, rfl, nofun⟩
    · exact ⟨trivial, rfl, nofun⟩

theorem inv_download (inv : Inv sha256 strip setup s) (hp : s.configures p = some phase)
    (inside : phase.downloads = true) {e : Event}
    (h : advance sha256 strip setup s.disk phase e = some (d', next)) : Inv sha256 strip setup
      { disk := d', configures := Function.update s.configures p (some next) } := by
  have sound := inv.sound p phase hp
  unfold advance at h
  split at h
  · cases inside
  · obtain ⟨rfl, rfl⟩ := Prod.mk.inj (Option.some.inj h)
    split
    · rename_i file found
      exact inv.downloaded hp rfl (only_refl _ _) ⟨opened_file found, List.nil_prefix⟩ rfl nofun
    · exact inv.downloaded hp rfl (only_refl _ _) trivial rfl nofun
  · rename_i code file got size
    obtain ⟨node, front⟩ := sound
    obtain ⟨more, ended⟩ := front_read front
    split at h
    · cases h
    · rename_i asked
      split at h
      · rename_i nothing
        obtain ⟨rfl, rfl⟩ := Prod.mk.inj (Option.some.inj h)
        have read : s.disk.read setup.partialFile = some got := by
          rw [Disk.read_file node, ended asked nothing]
        obtain ⟨self, elsewhere, notGiven⟩ := sound_afterHash sha256 code read
        exact inv.downloaded hp rfl (only_refl _ _) self elsewhere notGiven
      · obtain ⟨rfl, rfl⟩ := Prod.mk.inj (Option.some.inj h)
        exact inv.downloaded hp rfl (only_refl _ _) ⟨node, more⟩ rfl nofun
  · have result := Option.some.inj h
    split at result
    · rename_i u file created
      obtain ⟨rfl, rfl⟩ := Prod.mk.inj result
      obtain ⟨d₁, made, opens⟩ := Option.bind_eq_some_iff.mp created
      have inv' := inv.sameFiles (sameFiles_mkdirs made)
      exact inv'.downloaded hp rfl (only_openTruncate opens)
        (Disk.openTruncate_file opens).1 rfl nofun
    · obtain ⟨rfl, rfl⟩ := Prod.mk.inj result
      exact inv.downloaded hp rfl (only_refl _ _) trivial rfl nofun
  · obtain ⟨rfl, rfl⟩ := Prod.mk.inj (Option.some.inj h)
    exact inv.downloaded hp rfl (only_write _ sound) sound rfl nofun
  · obtain ⟨rfl, rfl⟩ := Prod.mk.inj (Option.some.inj h)
    exact inv.downloaded hp rfl (only_refl _ _) trivial rfl nofun
  · obtain ⟨rfl, rfl⟩ := Prod.mk.inj (Option.some.inj h)
    split
    · rename_i file found
      exact inv.downloaded hp rfl (only_refl _ _) ⟨opened_file found, List.nil_prefix⟩ rfl nofun
    · exact inv.downloaded hp rfl (only_refl _ _) trivial rfl nofun
  · obtain ⟨rfl, rfl⟩ := Prod.mk.inj (Option.some.inj h)
    exact inv.downloaded hp rfl (only_unlink _ _) trivial rfl nofun
  · have result := Option.some.inj h
    split at result
    · rename_i u moved
      obtain ⟨rfl, rfl⟩ := Prod.mk.inj result
      exact inv.renamed hp moved
    · obtain ⟨rfl, rfl⟩ := Prod.mk.inj result
      exact inv.downloaded hp rfl (only_refl _ _) trivial rfl nofun
  all_goals first | cases inside | cases h

theorem inv_copy (inv : Inv sha256 strip setup s) (hp : s.configures p = some phase)
    (inside : phase.copies = true) {e : Event} (whole : e ≠ .copyFails)
    (h : advance sha256 strip setup s.disk phase e = some (d', next)) : Inv sha256 strip setup
      { disk := d', configures := Function.update s.configures p (some next) } := by
  have sound := inv.sound p phase hp
  have plain := inv.noDirectory.stripped
  have not_directory {u : Disk} {i : ℕ} (node : u.node setup.strippedFile = some (.file i)) :
      u.node setup.strippedFile ≠ some .directory := by
    rw [node]
    nofun
  cases phase with
  | uncopied =>
    cases e with
    | openCopy =>
      obtain ⟨source, found, h⟩ := Option.bind_eq_some_iff.mp h
      obtain ⟨⟨u, file⟩, opens, same⟩ := Option.map_eq_some_iff.mp h
      obtain ⟨rfl, rfl⟩ := Prod.mk.inj same
      have only := only_openTruncate opens
      obtain ⟨node, empty⟩ := Disk.openTruncate_file opens
      have from_file := opened_file found
      obtain ⟨frozen, content⟩ :=
        (frozen_of_node from_file).only only (stripped_ne_file setup)
      refine inv.copied hp rfl only (not_directory node)
        ⟨IsFile.sameAt sound (only.same _ (stripped_ne_file setup).symm), node, frozen, ?_, ?_⟩
        rfl nofun
      · rw [content]
        exact inv.whole _ (Disk.read_file from_file)
      · rw [empty]
        exact List.nil_prefix
    | copyFails => exact absurd rfl whole
    | _ => cases h
  | copying source file =>
    obtain ⟨there, node, frozen, pinned, front⟩ := sound
    cases e with
    | copy size =>
      obtain ⟨more, ended⟩ := front_read front
      unfold advance at h
      dsimp only at h
      split at h
      · cases h
      · rename_i asked
        split at h
        · rename_i nothing
          obtain ⟨rfl, rfl⟩ := Prod.mk.inj (Option.some.inj h)
          have read : s.disk.read setup.strippedFile = some (s.disk.content source) := by
            rw [Disk.read_file node, ended asked nothing]
          exact inv.copied hp rfl (only_refl _ _) plain ⟨there, _, read, pinned⟩ rfl nofun
        · obtain ⟨rfl, rfl⟩ := Prod.mk.inj (Option.some.inj h)
          have only := only_append (chunk s.disk source (s.disk.content file).length size) node
          obtain ⟨frozen', content⟩ := frozen.only only (stripped_ne_file setup)
          refine inv.copied hp rfl only plain
            ⟨there.sameAt (only.same _ (stripped_ne_file setup).symm), node, frozen', ?_, ?_⟩
            rfl nofun
          · rwa [content]
          · have grown : (s.disk.append file
                (chunk s.disk source (s.disk.content file).length size)).content file = _ :=
              Function.update_self ..
            rw [content, grown]
            exact more
    | copyFails => exact absurd rfl whole
    | _ => cases h
  | stripping =>
    obtain ⟨there, bytes, read, pinned⟩ := sound
    cases e with
    | strip =>
      obtain ⟨file, found, same⟩ := Option.map_eq_some_iff.mp h
      obtain ⟨rfl, rfl⟩ := Prod.mk.inj same
      have node := opened_file found
      have only := only_write (strip (s.disk.content file)) node
      have there' := there.sameAt (only.same _ (stripped_ne_file setup).symm)
      refine inv.copied hp rfl only plain ⟨there', .inr ⟨rfl, file, node⟩⟩ rfl
        fun _ made read' => ?_
      rw [Disk.read_file node] at read
      obtain rfl := Option.some.inj read
      refine ⟨_, pinned, ?_⟩
      rw [Disk.read_file (d := s.disk.write file _) node] at read'
      exact (Option.some.inj read').symm.trans (Function.update_self ..)
    | stripFails left =>
      obtain ⟨file, found, same⟩ := Option.map_eq_some_iff.mp h
      obtain ⟨rfl, rfl⟩ := Prod.mk.inj same
      have only := only_write left (opened_file found)
      exact inv.copied hp rfl only plain
        (there.sameAt (only.same _ (stripped_ne_file setup).symm)) rfl nofun
    | _ => cases h
  | unstripping =>
    cases e with
    | unstrip =>
      obtain ⟨rfl, rfl⟩ := Prod.mk.inj (Option.some.inj h)
      have only := only_unlink s.disk setup.strippedFile
      have gone : (s.disk.unlink setup.strippedFile).node setup.strippedFile = none :=
        Function.update_self ..
      refine inv.copied hp rfl only ?_ ⟨IsFile.sameAt sound
        (only.same _ (stripped_ne_file setup).symm), .inl rfl⟩ rfl fun _ bytes read => ?_
      · rw [gone]
        nofun
      · obtain ⟨i, node, -⟩ := read_eq_some_iff.mp read
        rw [gone] at node
        cases node
    | _ => cases h
  | called | downloading | hashing | fetching | writing | closed | removing | verified | present
  | returned | failed => cases inside

theorem inv_act (inv : Inv sha256 strip setup s) (hp : s.configures p = some phase) {e : Event}
    (orderly : Orderly setup s (.act p e))
    (h : advance sha256 strip setup s.disk phase e = some (d', next)) : Inv sha256 strip setup
      { disk := d', configures := Function.update s.configures p (some next) } := by
  obtain ⟨fetches, copies, whole⟩ := orderly phase hp
  cases phase with
  | called =>
    cases e with
    | look =>
      obtain ⟨rfl, rfl⟩ := Prod.mk.inj (Option.some.inj h)
      split
      · rename_i there
        exact inv.looked hp (isFile_of_present there inv.noDirectory.file) nofun nofun nofun nofun
      · rename_i absent
        split
        · exact inv.looked hp trivial nofun nofun nofun nofun
        · exact inv.looked hp trivial (fun _ => .inr (fetches rfl (eq_false_of_ne_true absent)))
            nofun nofun nofun
    | _ => cases h
  | present =>
    have there : IsFile s.disk setup.file := inv.sound p _ hp
    cases e with
    | look =>
      obtain ⟨rfl, rfl⟩ := Prod.mk.inj (Option.some.inj h)
      split
      · refine inv.looked hp ⟨there, .inl rfl⟩ nofun nofun nofun fun same => ?_
        exact absurd (Phase.returned.inj same).symm (stripped_ne_file setup)
      · rename_i strips
        have alone := copies rfl (by simpa using strips)
        split
        · rename_i made
          refine inv.looked hp ⟨there, .inr ⟨rfl, ?_⟩⟩ nofun nofun nofun fun _ => alone
          exact isFile_of_present made inv.noDirectory.stripped
        · rename_i absent
          refine inv.looked hp there nofun (fun _ => .inr ⟨alone, fun q hq => ?_⟩) nofun nofun
          obtain ⟨-, isFile | ⟨-, i, node⟩⟩ := inv.sound q _ hq
          · exact stripped_ne_file setup isFile
          · exact absent (Disk.present_of_file node)
    | _ => cases h
  | returned | failed => cases e <;> cases h
  | downloading | hashing | fetching | writing | closed | removing | verified =>
    exact inv_download inv hp rfl h
  | uncopied | copying | stripping | unstripping => exact inv_copy inv hp rfl whole h

theorem inv_start (inv : Inv sha256 strip setup s) (free : s.configures p = none) :
    Inv sha256 strip setup
      { s with configures := Function.update s.configures p (some .called) } where
  noDirectory := inv.noDirectory
  whole := inv.whole
  sound := fun q other hq => by
    obtain ⟨rfl, rfl⟩ | ⟨-, old⟩ := moved_cases hq
    · trivial
    · exact inv.sound q other old
  download := fun q other hq inside r part hr apart => by
    obtain ⟨rfl, rfl⟩ | ⟨-, old⟩ := moved_cases hq
    · cases inside
    · obtain ⟨rfl, rfl⟩ | ⟨-, old'⟩ := moved_cases hr
      · rfl
      · exact inv.download q other old inside r part old' apart
  copy := fun q other hq inside => by
    obtain ⟨rfl, rfl⟩ | ⟨-, old⟩ := moved_cases hq
    · cases inside
    · obtain ⟨alone, none⟩ := inv.copy q other old inside
      refine ⟨fun r part hr apart => ?_, fun r hr => ?_⟩
      · obtain ⟨rfl, rfl⟩ | ⟨-, old'⟩ := moved_cases hr
        · rfl
        · exact alone r part old' apart
      · obtain ⟨-, same⟩ | ⟨-, old'⟩ := moved_cases hr
        · cases same
        · exact none r old'
  ready := fun idle => inv.ready fun q other hq => by
    refine idle q other ((Function.update_of_ne ?_ _ _).trans hq)
    rintro rfl
    rw [free] at hq
    cases hq

theorem inv_kill (inv : Inv sha256 strip setup s)
    (orderly : ∀ phase, s.configures p = some phase → phase.copies = false) :
    Inv sha256 strip setup { s with configures := Function.update s.configures p none } := by
  have was {q : ℕ} {other : Phase} (hq : Function.update s.configures p none q = some other) :
      s.configures q = some other := by
    by_cases same : q = p
    · rw [same, Function.update_self] at hq
      cases hq
    · rwa [Function.update_of_ne same] at hq
  refine ⟨inv.noDirectory, inv.whole, fun q other hq => inv.sound q other (was hq),
    fun q other hq inside r part hr apart => ?_, fun q other hq inside => ?_, fun idle => ?_⟩
  · exact inv.download q other (was hq) inside r part (was hr) apart
  · obtain ⟨alone, none⟩ := inv.copy q other (was hq) inside
    exact ⟨fun r part hr apart => alone r part (was hr) apart, fun r hr => none r (was hr)⟩
  · refine inv.ready fun q other hq => ?_
    by_cases same : q = p
    · exact orderly other (same ▸ hq)
    · exact idle q other ((Function.update_of_ne same _ _).trans hq)

theorem inv_step (s : State) (a : Action) (s' : State) (inv : Inv sha256 strip setup s)
    (orderly : Orderly setup s a) (h : step sha256 strip setup s a = some s') :
    Inv sha256 strip setup s' := by
  cases a with
  | start p =>
    unfold step at h
    dsimp only at h
    split at h
    · rename_i free
      obtain rfl := Option.some.inj h
      exact inv_start inv free
    · cases h
  | act p e =>
    obtain ⟨phase, hp, h⟩ := Option.bind_eq_some_iff.mp h
    obtain ⟨⟨d', next⟩, moved, rfl⟩ := Option.map_eq_some_iff.mp h
    exact inv_act inv hp orderly moved
  | kill p =>
    obtain rfl := Option.some.inj h
    exact inv_kill inv orderly

/-- Nothing is configured, and neither name of the archive is taken. -/
structure Initial (setup : Setup) (s : State) : Prop where
  idle : ∀ p, s.configures p = none
  file : s.disk.node setup.file = none
  stripped : s.disk.node setup.strippedFile = none

theorem Initial.inv (initial : Initial setup s) : Inv sha256 strip setup s := by
  have nobody {p : ℕ} {phase : Phase} (hp : s.configures p = some phase) : False := by
    rw [initial.idle p] at hp
    cases hp
  have absent {path : Path} (none : s.disk.node path = none) (bytes : Bytes) :
      s.disk.read path ≠ some bytes := by
    intro read
    obtain ⟨i, node, -⟩ := read_eq_some_iff.mp read
    rw [none] at node
    cases node
  refine ⟨⟨?_, ?_⟩, fun bytes read => absurd read (absent initial.file bytes),
    fun _ _ hp => (nobody hp).elim, fun _ _ hp => (nobody hp).elim,
    fun _ _ hp => (nobody hp).elim,
    fun _ bytes read => absurd read (absent initial.stripped bytes)⟩
  · rw [initial.file]
    nofun
  · rw [initial.stripped]
    nofun

def Trusted (sha256 : Hash) (strip : Bytes → Bytes) (setup : Setup) (d : Disk) (path : Path) :
    Prop :=
  path = setup.file ∧ Holds d path (Pinned sha256 setup) ∨
    path = setup.strippedFile ∧ Holds d path (Stripped sha256 strip setup)

theorem Inv.trusted (inv : Inv sha256 strip setup s)
    (hp : s.configures p = some (.returned path)) : Trusted sha256 strip setup s.disk path := by
  obtain ⟨⟨i, node⟩, rfl | ⟨rfl, j, copy⟩⟩ := inv.sound p _ hp
  · exact .inl ⟨rfl, _, Disk.read_file node, inv.whole _ (Disk.read_file node)⟩
  · have idle : ∀ q phase, s.configures q = some phase → phase.copies = false := by
      intro q phase hq
      by_contra inside
      exact (inv.copy q phase hq (eq_true_of_ne_false inside)).2 p hp
    exact .inr ⟨rfl, _, Disk.read_file copy, inv.ready idle _ (Disk.read_file copy)⟩

/-- Whatever configure runs are interrupted, and however often the archive is fetched, each
    run that is given a path is given the pinned archive or its stripped copy, and goes on
    having it. -/
theorem archives_trusted (initial : Initial setup s) {as : List Action}
    (orderly : AllSteps (step sha256 strip setup) (Orderly setup) s as) :
    AllStates (step sha256 strip setup) (fun s => ∀ p path,
      s.configures p = some (.returned path) → Trusted sha256 strip setup s.disk path) s as := by
  refine (orderly.allStates inv_step initial.inv).mono fun u inv p path hp => ?_
  exact inv.trusted hp

end

def twoBytes : Hash := fun bytes =>
  ⟨List.replicate 32 (if bytes = [1, 2] then 0 else 1), List.length_replicate⟩

def ortSetup : Setup where
  name := "onnxruntime"
  platform := "linux-amd64"
  tag := "ort-1.30.0-2"
  digests := [String.ofList ("onnxruntime-linux-amd64   ".toList ++ List.replicate 64 '0')]
  repo := "https://github.com/cyborginc/cyborgdb-embed"
  stripArtifacts := true
  hasStrip := true

def noArtifacts : State where
  disk := SharedCache.emptyDisk

theorem noArtifacts_initial (setup : Setup) : Initial setup noArtifacts where
  idle := fun _ => rfl
  file := by
    change (if setup.file = [] then some Node.directory else none) = none
    exact if_neg (List.cons_ne_nil _ _)
  stripped := by
    change (if setup.strippedFile = [] then some Node.directory else none) = none
    exact if_neg (List.cons_ne_nil _ _)

def fetchEvents : List Event :=
  [.look, .look, .create, .write [1, 2], .transferred 0, .reopen, .read 8, .read 8, .rename]

def stripEvents : List Event := [.look, .openCopy, .copy 8, .copy 8, .strip]

section
variable (k : ℕ) (setup : Setup)

/-- `Alone` where the configure runs have numbers below `k`. -/
def aloneBelow (part : Phase → Bool) (s : State) (p : ℕ) : Bool :=
  (List.range k).all fun q => q == p || !(s.configures q).any part

def orderlyBelow (s : State) : Action → Bool
  | .start _ => true
  | .act p e => (s.configures p).all fun phase =>
      (phase != .called || s.disk.present setup.file || aloneBelow k Phase.downloads s p) &&
        (phase != .present || !setup.strips || aloneBelow k Phase.copies s p) &&
          match e with
          | .copyFails => false
          | _ => true
  | .kill p => (s.configures p).all fun phase => !phase.copies

def Action.number : Action → ℕ
  | .start p | .act p _ | .kill p => p

variable (sha256 : Hash) (strip : Bytes → Bytes)

def orderlyRun : State → List Action → Bool
  | _, [] => true
  | s, a :: as => a.number < k && orderlyBelow k setup s a &&
      (step sha256 strip setup s a).all fun u => orderlyRun u as

variable {k setup sha256 strip} {s u : State} {a : Action}

theorem alone_of_below (below : ∀ q, k ≤ q → s.configures q = none) {part : Phase → Bool} {p : ℕ}
    (h : aloneBelow k part s p = true) : Alone part s p := by
  intro q phase hq apart
  have hk : q < k := by
    by_contra high
    rw [below q (Nat.le_of_not_lt high)] at hq
    cases hq
  have here := List.all_eq_true.mp h q (List.mem_range.mpr hk)
  rw [hq] at here
  simpa [apart] using here

theorem orderly_of_below (below : ∀ q, k ≤ q → s.configures q = none)
    (h : orderlyBelow k setup s a = true) : Orderly setup s a := by
  cases a with
  | start p => trivial
  | act p e =>
    intro phase hp
    unfold orderlyBelow at h
    dsimp only at h
    rw [hp] at h
    simp only [Option.all_some, Bool.and_eq_true, Bool.or_eq_true, bne_iff_ne, ne_eq,
      Bool.not_eq_true'] at h
    obtain ⟨⟨fetches, copies⟩, whole⟩ := h
    refine ⟨fun called absent => ?_, fun present strips => ?_, ?_⟩
    · rw [absent] at fetches
      exact alone_of_below below (fetches.resolve_left fun h => h.elim (· called) nofun)
    · rw [strips] at copies
      exact alone_of_below below (copies.resolve_left fun h => h.elim (· present) nofun)
    · rintro rfl
      cases whole
  | kill p =>
    intro phase hp
    unfold orderlyBelow at h
    dsimp only at h
    rw [hp] at h
    simpa using h

theorem step_below (below : ∀ q, k ≤ q → s.configures q = none) (known : a.number < k)
    (h : step sha256 strip setup s a = some u) : ∀ q, k ≤ q → u.configures q = none := by
  intro q hq
  have other : q ≠ a.number := by omega
  cases a with
  | start p =>
    unfold step at h
    dsimp only at h
    split at h
    · obtain rfl := Option.some.inj h
      exact (Function.update_of_ne other _ _).trans (below q hq)
    · cases h
  | act p e =>
    obtain ⟨phase, -, h⟩ := Option.bind_eq_some_iff.mp h
    obtain ⟨next, -, rfl⟩ := Option.map_eq_some_iff.mp h
    exact (Function.update_of_ne other _ _).trans (below q hq)
  | kill p =>
    obtain rfl := Option.some.inj h
    exact (Function.update_of_ne other _ _).trans (below q hq)

theorem allSteps_of_orderlyRun {as : List Action} (below : ∀ q, k ≤ q → s.configures q = none)
    (h : orderlyRun k setup sha256 strip s as = true) :
    AllSteps (step sha256 strip setup) (Orderly setup) s as := by
  induction as generalizing s with
  | nil => trivial
  | cons a as ih =>
    intro u hu
    unfold orderlyRun at h
    rw [hu] at h
    simp only [Bool.and_eq_true, decide_eq_true_eq, Option.all_some] at h
    obtain ⟨⟨known, orderly⟩, rest⟩ := h
    exact ⟨orderly_of_below below orderly, ih (step_below below known hu) rest⟩

end

/-- The first run is interrupted while it downloads, with a second one waiting. That fetches
    the archive again and strips it of its first byte, and a third one finds the copy. -/
def configureThrice : List Action :=
  [.start 0, .act 0 .look, .start 1, .act 0 .look, .act 0 .create, .act 0 (.write [1]), .kill 0] ++
    ([Event.look, .look, .read 8, .read 8] ++ fetchEvents.drop 2 ++ stripEvents).map (.act 1) ++
      [.start 2, .act 2 .look, .act 2 .look]

theorem archives_trusted_thrice :
    (exec (step twoBytes (List.drop 1) ortSetup) noArtifacts configureThrice).map (fun s =>
      (s.configures 1, s.configures 2, s.disk.read ortSetup.file,
        s.disk.read ortSetup.strippedFile)) =
        some (some (.returned ortSetup.strippedFile), some (.returned ortSetup.strippedFile),
          some [1, 2], some [2]) ∧
    AllStates (step twoBytes (List.drop 1) ortSetup) (fun s => ∀ p path,
      s.configures p = some (.returned path) →
        Trusted twoBytes (List.drop 1) ortSetup s.disk path) noArtifacts configureThrice :=
  ⟨by decide +kernel, archives_trusted (noArtifacts_initial ortSetup)
    (allSteps_of_orderlyRun (k := 3) (fun _ _ => rfl) (by decide +kernel))⟩

/-- Downloads that overlap write to one partial file: the second empties what the first has
    hashed and is about to rename, and the first is given that. -/
def overlapping : List Action :=
  [.start 0, .start 1, .act 0 .look, .act 1 .look, .act 0 .look, .act 1 .look,
    .act 0 .create, .act 0 (.write [1, 2]), .act 0 (.transferred 0), .act 0 .reopen,
    .act 0 (.read 8), .act 0 (.read 8), .act 1 .create, .act 0 .rename, .act 0 .look]

theorem overlapping_untrusted :
    (exec (step twoBytes id { ortSetup with stripArtifacts := false }) noArtifacts
      overlapping).map (fun s => (s.configures 0, s.disk.read ortSetup.file)) =
        some (some (.returned ortSetup.file), some []) := by
  decide +kernel

/-- A copy that is interrupted is taken for a whole one by the next run. -/
def interrupted : List Action :=
  .start 0 :: (fetchEvents ++ [Event.look, .openCopy]).map (.act 0) ++
    [.kill 0, .start 1, .act 1 .look, .act 1 .look]

theorem interrupted_untrusted :
    (exec (step twoBytes id ortSetup) noArtifacts interrupted).map (fun s =>
      (s.configures 1, s.disk.read ortSetup.strippedFile)) =
        some (some (.returned ortSetup.strippedFile), some []) := by
  decide +kernel

end CyborgdbEmbed.ArtifactCache

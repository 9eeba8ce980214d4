import CyborgdbEmbed.Download
import CyborgdbEmbed.Sha256File
import CyborgdbEmbed.VerifiedLoads

set_option autoImplicit false

namespace CyborgdbEmbed.ColdLoad
open FileSystem Resolve EnsureFile SharedCache TransitionSystem Download VerifiedLoads
open LoadSession (Hash)

/-- The attempts before the last one fail in a way that is retried, and it succeeds. -/
structure Delivers (url : String) (outcomes : ℕ → Outcome) (data : Bytes) : Prop where
  delivered : ∃ k, 1 ≤ k ∧ k ≤ kAttempts ∧
    (∀ j, 1 ≤ j → j < k → Retried (answer url (outcomes j))) ∧
      (answer url (outcomes k)).status.ok = true ∧ (outcomes k).body = data

/-- No directory on the way is taken by a file, and the file itself is not there yet. -/
structure Clear (d : Disk) (f : Fetch) (suffix : Suffix) : Prop where
  folders : ∀ dir ∈ (parent f.request).inits, d.node dir = none ∨ d.node dir = some .directory
  target : d.node (target f.request) = none
  part : d.node (part f.request suffix) = none

section
variable {hash : Bytes → Bytes} {req : FileRequest} {d : Disk} {url : String} {place : Path}
  {outcomes : ℕ → Outcome} {data : Bytes} {r : Download.Result}

theorem mkdir_runs {dir : Path} (free : d.node dir = none ∨ d.node dir = some .directory) :
    ∃ d', d.mkdir dir = some d' ∧ d'.node dir = some .directory ∧
      (∀ p, d.node p = some .directory → d'.node p = some .directory) ∧
      ∀ q, q ≠ dir → Disk.SameAt d d' q := by
  obtain ⟨d', made⟩ : ∃ d', d.mkdir dir = some d' := by
    unfold Disk.mkdir
    rcases free with free | free <;> rw [free] <;> exact ⟨_, rfl⟩
  have here : d'.node dir = some .directory := by
    rcases Disk.mkdir_self made with same | ⟨-, here⟩
    · rcases free with free | free
      · unfold Disk.mkdir at made
        rw [free] at made
        obtain rfl := Option.some.inj made
        exact Function.update_self _ _ _
      · exact same.node.trans free
    · exact here
  refine ⟨d', made, here, fun p hp => ?_, fun q hq => Disk.mkdir_sameAt made hq⟩
  by_cases same : p = dir
  · rw [same]
    exact here
  · exact (Disk.mkdir_sameAt made same).node.trans hp

theorem creating_runs (todo : List Path)
    (free : ∀ dir ∈ todo, d.node dir = none ∨ d.node dir = some .directory) :
    ∃ d', Run (callStep hash req) (d, .creating todo) (List.replicate todo.length .mkdir)
        (d', .creating []) ∧ (∀ dir ∈ todo, d'.node dir = some .directory) ∧
      (∀ p, d.node p = some .directory → d'.node p = some .directory) ∧
      ∀ q, q ∉ todo → Disk.SameAt d d' q := by
  induction todo generalizing d with
  | nil => exact ⟨d, .refl _, nofun, fun _ h => h, fun q _ => .refl d q⟩
  | cons dir todo ih =>
    obtain ⟨u, made, here, stays, others⟩ := mkdir_runs (free dir List.mem_cons_self)
    have later : ∀ p ∈ todo, u.node p = none ∨ u.node p = some .directory := by
      intro p hp
      by_cases same : p = dir
      · exact .inr (same ▸ here)
      · rw [(others p same).node]
        exact free p (List.mem_cons_of_mem _ hp)
    obtain ⟨d', run, folders, stays', others'⟩ := ih later
    have first : callStep hash req (d, .creating (dir :: todo)) .mkdir =
        some (u, .creating todo) := by
      change (d.mkdir dir).map _ = _
      rw [made]
      rfl
    refine ⟨d', .next first run, ?_, fun p hp => stays' p (stays p hp), fun q hq => ?_⟩
    · exact List.forall_mem_cons.mpr ⟨stays' dir here, folders⟩
    · rw [List.mem_cons, not_or] at hq
      exact (others q hq.1).trans (others' q hq.2)

theorem Delivers.ends (delivers : Delivers url outcomes data) {last : ℕ}
    (ends : Ends url place outcomes d r 1 last) :
    r.status.ok = true ∧ r.disk.read place = some data := by
  obtain ⟨k, first, most, retried, ok, body⟩ := delivers.delivered
  have same : last = k := by
    rcases Nat.lt_trichotomy last k with early | same | late
    · have again := retried last ends.le early
      rcases ends.stopped with used | stopped
      · exact absurd (used ▸ early) (Nat.not_lt.mpr most)
      · exact absurd again stopped
    · exact same
    · have again := ends.retried k first late
      rw [again.1] at ok
      cases ok
  have done : r.status.ok = true := by rw [ends.status, same, ok]
  refine ⟨done, ?_⟩
  rw [ends.success done, same, body]

end
section
variable {sha256 : Hash} {req : FileRequest} {d d' : Disk} {ph ph' : EnsureFile.Phase}
  {suffix : Suffix} {file : ℕ} {data : Bytes}

theorem drawnIn_cons (e : EnsureFile.Event) (events : List EnsureFile.Event) :
    drawnIn (e :: events) = e.drawn ++ drawnIn events := List.flatMap_cons

theorem drawnIn_append (events more : List EnsureFile.Event) :
    drawnIn (events ++ more) = drawnIn events ++ drawnIn more := List.flatMap_append

theorem drawnIn_mkdirs (n : ℕ) : drawnIn (List.replicate n .mkdir) = [] := by
  induction n with
  | zero => rfl
  | succ n ih => rw [List.replicate_succ, drawnIn_cons, ih]; rfl

theorem draws_step {e : EnsureFile.Event} (moves : Moves sha256.bytes req d ph e d' ph')
    (drawn : ph.suffix?.isSome = true ∨ ph.finished = true) :
    e.drawn = [] ∧ (ph'.suffix?.isSome = true ∨ ph'.finished = true) := by
  cases moves with
  | stat | statThrows | mkdir | mkdirFails | draw => rcases drawn with drawn | drawn <;> cases drawn
  | notStarted he =>
    refine ⟨by rcases he with rfl | rfl <;> rfl, .inl ?_⟩
    rw [afterAttempt_suffix]
    rfl
  | performed | removeFailed =>
    refine ⟨rfl, .inl ?_⟩
    rw [afterAttempt_suffix]
    rfl
  | readIn =>
    refine ⟨rfl, .inl ?_⟩
    rw [afterRead_suffix]
    rfl
  | compare =>
    refine ⟨rfl, .inl ?_⟩
    rw [afterCompare_suffix]
    rfl
  | leave => exact ⟨rfl, .inr rfl⟩
  | _ => exact ⟨rfl, .inl rfl⟩

theorem draws_none {events : List EnsureFile.Event} {s s' : Disk × EnsureFile.Phase}
    (run : Run (callStep sha256.bytes req) s events s')
    (drawn : s.2.suffix?.isSome = true ∨ s.2.finished = true) : drawnIn events = [] := by
  induction run with
  | refl s => rfl
  | next h tail ih =>
    obtain ⟨-, moves⟩ := callStep_moves h
    obtain ⟨none, later⟩ := draws_step moves drawn
    rw [drawnIn_cons, none, ih later]
    rfl

theorem drawn_run (f : Fetch) (folder : d.node (parent f.request) = some .directory)
    (clear : Clear d f suffix) {outcomes : ℕ → Outcome}
    (delivers : Delivers f.request.url outcomes data)
    (pinned : hexDigest (sha256.bytes data) = pin f.entry f.asset) :
    ∃ events d', Run (callStep sha256.bytes f.request) (d, .starting suffix 1) events
        (d', .returned {}) ∧ d'.read (target f.request) = some data ∧
      ∀ q, q ≠ target f.request → q ≠ part f.request suffix → Disk.SameAt d d' q := by
  have room : Room (part f.request suffix) d := by
    refine ⟨clear.part, ?_⟩
    rw [f.part_eq]
    rw [f.parent_eq] at folder
    exact folder
  let r := download f.request.url (f.request.partPath suffix) (part f.request suffix) outcomes d
  have downloads : Downloads f.request.url (part f.request suffix) outcomes d r :=
    download_downloads room outcomes
  obtain ⟨last, ends⟩ := downloads.ends
  obtain ⟨ok, read⟩ := delivers.ends ends
  obtain ⟨fetching, fetches⟩ : ∃ events, Run (callStep sha256.bytes f.request)
      (d, .starting suffix 1) events (r.disk, finish suffix r.status) :=
    download_run f.request suffix outcomes d
  obtain ⟨file, node, rfl⟩ : ∃ file, r.disk.node (part f.request suffix) = some (.file file) ∧
      r.disk.content file = data := by
    unfold Disk.read at read
    split at read
    · rename_i file node
      exact ⟨file, node, Option.some.inj read⟩
    · cases read
  unfold finish at fetches
  rw [if_pos ok] at fetches
  have opens : callStep sha256.bytes f.request (r.disk, .fetched suffix) .openIn =
      some (r.disk, .hashing suffix file []) := by
    change advance sha256.bytes f.request r.disk (.fetched suffix) .openIn = _
    unfold advance
    dsimp only
    rw [node]
  have hashes : Run (callStep sha256.bytes f.request) (r.disk, .hashing suffix file [])
      (List.replicate ((r.disk.content file).length / bufferSize + 1) .readIn)
      (r.disk, .comparing suffix (hexDigest (sha256.bytes (r.disk.content file)))) :=
    Sha256File.hashing_run rfl (List.nil_append _).symm
  have compares : callStep sha256.bytes f.request
      (r.disk, .comparing suffix (hexDigest (sha256.bytes (r.disk.content file)))) .compare =
        some (r.disk, .finalising suffix) := by
    change some (r.disk, afterCompare f.request suffix _) = _
    rw [pinned, afterCompare, f.request_expected, if_neg (not_not.mpr rfl)]
  obtain ⟨moved, renamed⟩ : ∃ moved,
      r.disk.rename (part f.request suffix) (target f.request) = some moved := by
    unfold Disk.rename
    rw [node, (ends.others _ (f.part_ne_target f suffix).symm).node, clear.target]
    exact ⟨_, rfl⟩
  have renames : callStep sha256.bytes f.request (r.disk, .finalising suffix) .rename =
      some (moved, .leaving suffix {}) := by
    change (r.disk.rename _ _).map _ = _
    rw [renamed]
    rfl
  have leaves : callStep sha256.bytes f.request (moved, .leaving suffix {}) (.remove true) =
      some (moved.unlink (part f.request suffix), .returned {}) := rfl
  obtain ⟨node', content'⟩ := Disk.rename_target renamed node
  have kept := Disk.unlink_sameAt (d := moved) (f.part_ne_target f suffix).symm
  refine ⟨_, _, fetches.trans (.next opens (hashes.trans (.next compares (.next renames
    (.next leaves (.refl _)))))), ?_, fun q final own => ?_⟩
  · rw [kept.read, Disk.read_file node', content']
  · exact (ends.others q own).trans ((Disk.rename_sameAt renamed own final).trans
      (Disk.unlink_sameAt own))

theorem fetch_run (f : Fetch) {high low : UInt32} (clear : Clear d f (uniqueSuffix high low))
    (online : f.request.config.offline = false) {outcomes : ℕ → Outcome}
    (delivers : Delivers f.request.url outcomes data)
    (pinned : hexDigest (sha256.bytes data) = pin f.entry f.asset) :
    ∃ events d', Run (callStep sha256.bytes f.request) (d, .called) events (d', .returned {}) ∧
      drawnIn events = [uniqueSuffix high low] ∧ d'.read (target f.request) = some data ∧
      (∀ dir ∈ (parent f.request).inits, d'.node dir = some .directory) ∧
      ∀ q, q ∉ (parent f.request).inits → q ≠ target f.request →
        q ≠ part f.request (uniqueSuffix high low) → Disk.SameAt d d' q := by
  have misses : callStep sha256.bytes f.request (d, .called) .stat =
      some (d, .creating (parent f.request).inits) := by
    change some (d, afterStat f.request d) = _
    unfold afterStat Disk.present
    rw [clear.target, online]
    rfl
  obtain ⟨u, creates, folders, others⟩ : ∃ u, Run (callStep sha256.bytes f.request)
      (d, .creating (parent f.request).inits)
      (List.replicate (parent f.request).inits.length .mkdir) (u, .creating []) ∧
      (∀ dir ∈ (parent f.request).inits, u.node dir = some .directory) ∧
      ∀ q, q ∉ (parent f.request).inits → Disk.SameAt d u q := by
    obtain ⟨u, creates, folders, -, others⟩ := creating_runs _ clear.folders
    exact ⟨u, creates, folders, others⟩
  have draws : callStep sha256.bytes f.request (u, .creating []) (.draw high low) =
      some (u, .starting (uniqueSuffix high low) 1) := rfl
  have clear' : Clear u f (uniqueSuffix high low) :=
    ⟨fun dir hdir => .inr (folders dir hdir),
      (others _ (f.target_not_dir f)).node.trans clear.target,
      (others _ (f.part_not_dir f _)).node.trans clear.part⟩
  have self : parent f.request ∈ (parent f.request).inits :=
    List.mem_inits _ _ |>.mpr (List.prefix_refl _)
  obtain ⟨events, d', run, read, same⟩ := drawn_run f (folders _ self) clear' delivers pinned
  refine ⟨_, d', .next misses (creates.trans (.next draws run)), ?_, read, fun dir hdir => ?_,
    fun q hdir final own => (others q hdir).trans (same q final own)⟩
  · have quiet : drawnIn events = [] := draws_none run (.inl rfl)
    rw [drawnIn_cons, drawnIn_append, drawnIn_mkdirs, drawnIn_cons, quiet]
    rfl
  · refine (same dir ?_ ?_).node.trans (folders dir hdir)
    · rintro rfl
      exact f.target_not_dir f hdir
    · rintro rfl
      exact f.part_not_dir f _ hdir

end

structure Solo (α : Type) where
  disk : Disk
  drawn : List Suffix
  phase : VerifiedLoads.Phase α

section
variable {δ α : Type} (sha256 : Hash) (library : HuggingFace δ) (ort : OnnxRuntime α)
  (c : LoadSession.Call ModelId)

def soloStep (x : Solo α) (e : VerifiedLoads.Event) : Option (Solo α) :=
  if e.drawn.all fun suffix => decide (suffix ∉ x.drawn) then
    (stepLoad sha256 library ort c x.disk x.phase e).map fun (disk, phase) =>
      ⟨disk, e.drawn ++ x.drawn, phase⟩
  else none

variable {sha256 library ort c}

theorem solo_lifts {x y : Solo α} {events : List VerifiedLoads.Event}
    (run : Run (soloStep sha256 library ort c) x events y) {known : c.entry ∈ kRegistry}
    {t : Thread} {s : VerifiedLoads.State α} (disk : s.disk = x.disk) (drawn : s.drawn = x.drawn)
    (load : s.loads t = some ⟨c, known, x.phase⟩) :
    ∃ s', Run (VerifiedLoads.step sha256 library ort) s (events.map (.advance t)) s' ∧
      s'.loads t = some ⟨c, known, y.phase⟩ := by
  induction run generalizing s with
  | refl x => exact ⟨s, .refl s, load⟩
  | @next x u y e events h tail ih =>
    unfold soloStep at h
    split at h
    · rename_i fresh
      obtain ⟨⟨d', ph'⟩, moved, rfl⟩ := Option.map_eq_some_iff.mp h
      let v : VerifiedLoads.State α :=
        { disk := d'
          drawn := e.drawn ++ s.drawn
          loads := Function.update s.loads t (some ⟨c, known, ph'⟩) }
      have first : VerifiedLoads.step sha256 library ort s (.advance t e) = some v := by
        unfold VerifiedLoads.step
        dsimp only
        rw [load, Option.bind_some, drawn, if_pos fresh, disk, moved]
        exact congrArg (fun drawn => some { v with drawn := e.drawn ++ drawn }) drawn.symm
      have here : v.loads t = some ⟨c, known, ph'⟩ := Function.update_self ..
      obtain ⟨s', run, load'⟩ := ih (s := v) rfl (congrArg (e.drawn ++ ·) drawn) here
      exact ⟨s', .next first run, load'⟩
    · cases h

def after : Asset → EnsureFile.Phase → LoadSession.Phase
  | .graph => LoadSession.afterGraph
  | .tokenizer => LoadSession.afterTokenizer

theorem advance_step {known : c.entry ∈ kRegistry} {asset : Asset} {d d' : Disk}
    {ph ph' : EnsureFile.Phase} {e : EnsureFile.Event}
    (h : advance sha256.bytes (⟨c.entry, known, asset, c.vars, c.given⟩ : Fetch).request d ph e =
      some (d', ph')) :
    LoadSession.step sha256 c ⟨d, after asset ph⟩ (.own e) = some ⟨d', after asset ph'⟩ := by
  cases asset with
  | graph =>
    change advance sha256.bytes c.graph d ph e = _ at h
    cases ph with
    | returned | threw => cases h
    | _ =>
      change (advance sha256.bytes c.graph d _ e).map _ = _
      rw [h]
      rfl
  | tokenizer =>
    change advance sha256.bytes c.tokenizer d ph e = _ at h
    cases ph with
    | returned | threw => cases h
    | _ =>
      change (advance sha256.bytes c.tokenizer d _ e).map _ = _
      rw [h]
      rfl

theorem fetch_solo {known : c.entry ∈ kRegistry} {asset : Asset}
    {x y : Disk × EnsureFile.Phase} {events : List EnsureFile.Event} {drawn : List Suffix}
    (run : Run (callStep sha256.bytes (⟨c.entry, known, asset, c.vars, c.given⟩ : Fetch).request)
      x events y) (distinct : (drawnIn events).Nodup)
    (fresh : ∀ suffix ∈ drawnIn events, suffix ∉ drawn) :
    ∃ drawn', (∀ suffix ∈ drawn', suffix ∈ drawnIn events ∨ suffix ∈ drawn) ∧
      Run (soloStep sha256 library ort c) ⟨x.1, drawn, .fetching (after asset x.2)⟩
        (events.map .file) ⟨y.1, drawn', .fetching (after asset y.2)⟩ := by
  induction run generalizing drawn with
  | refl x => exact ⟨drawn, fun _ h => .inr h, .refl _⟩
  | @next x u y e events h tail ih =>
    rw [drawnIn_cons] at distinct fresh ⊢
    have apart : (e.drawn.all fun suffix => decide (suffix ∉ drawn)) = true :=
      List.all_eq_true.mpr fun suffix hs =>
        decide_eq_true (fresh suffix (List.mem_append_left _ hs))
    have first : soloStep sha256 library ort c ⟨x.1, drawn, .fetching (after asset x.2)⟩
        (.file e) = some ⟨u.1, e.drawn ++ drawn, .fetching (after asset u.2)⟩ := by
      unfold callStep at h
      split at h
      · change (if (e.drawn.all fun suffix => decide (suffix ∉ drawn)) then _ else _) = _
        rw [if_pos apart, stepLoad, advance_step h]
        rfl
      · cases h
    obtain ⟨drawn', from_events, rest⟩ := ih (List.Nodup.of_append_right distinct)
      (fun suffix hs used => by
        rcases List.mem_append.mp used with used | used
        · exact List.disjoint_of_nodup_append distinct used hs
        · exact fresh suffix (List.mem_append_right _ hs) used)
    refine ⟨drawn', fun suffix hs => ?_, .next first rest⟩
    rw [List.mem_append]
    rcases from_events suffix hs with late | early
    · exact .inl (.inr late)
    · rcases List.mem_append.mp early with here | before
      · exact .inl (.inl here)
      · exact .inr before

theorem build_solo {d : Disk} {drawn : List Suffix} {ph ph' : VerifiedLoads.Phase α}
    {e : VerifiedLoads.Event} (quiet : e.drawn = []) (h : build library ort c d ph e = some ph') :
    soloStep sha256 library ort c ⟨d, drawn, ph⟩ e = some ⟨d, drawn, ph'⟩ := by
  have moved : stepLoad sha256 library ort c d ph e = some (d, ph') := by
    unfold stepLoad
    split
    · rename_i p e'
      cases p <;> cases h
    · rw [h]
      rfl
  unfold soloStep
  dsimp only
  rw [quiet, moved]
  rfl

theorem read_solo {d : Disk} {drawn : List Suffix} {file : ℕ}
    (reading ended : Bytes → VerifiedLoads.Phase α)
    (reads : ∀ got size, build library ort c d (reading got) (.read size) =
      if size = 0 then none
      else if chunk d file got.length size = [] then some (ended got)
      else some (reading (got ++ chunk d file got.length size))) :
    ∃ events, Run (soloStep sha256 library ort c) ⟨d, drawn, reading []⟩ events
      ⟨d, drawn, ended (d.content file)⟩ := by
  have last (got : Bytes) (whole : d.content file = got) :
      build library ort c d (reading got) (.read ((d.content file).length + 1)) =
        some (ended got) := by
    have nothing : chunk d file got.length ((d.content file).length + 1) = [] := by
      unfold chunk
      rw [whole, List.drop_length, List.take_nil]
    rw [reads, if_neg (Nat.succ_ne_zero _), if_pos nothing]
  by_cases empty : d.content file = []
  · rw [empty]
    exact ⟨_, .next (build_solo rfl (last [] empty)) (.refl _)⟩
  · have all : chunk d file ([] : Bytes).length ((d.content file).length + 1) = d.content file := by
      unfold chunk
      rw [List.length_nil, List.drop_zero, List.take_of_length_le (Nat.le_succ _)]
    have first : build library ort c d (reading []) (.read ((d.content file).length + 1)) =
        some (reading (d.content file)) := by
      rw [reads, if_neg (Nat.succ_ne_zero _), all, if_neg empty, List.nil_append]
    exact ⟨_, .next (build_solo rfl first) (.next (build_solo rfl (last _ rfl)) (.refl _))⟩

theorem build_run {d : Disk} {drawn : List Suffix} {json graph : Bytes}
    (api : (initOrt ort).ok = true)
    (tokenizerThere : d.read (target c.tokenizer) = some json)
    (graphThere : d.read (target c.graph) = some graph) :
    ∃ events, Run (soloStep sha256 library ort c) ⟨d, drawn, .fetching .ready⟩ events
      ⟨d, drawn, result json graph (makeOrtSession library ort c.entry c.provider c.precision
        c.tokenizer.path (some json) (.ok graph))⟩ := by
  obtain ⟨file, opensJson, rfl⟩ := opened_of_read tokenizerThere
  obtain ⟨file', opensGraph, rfl⟩ := opened_of_read graphThere
  have starts : build library ort c d (.fetching .ready) .initOrt = some .openingTokenizer := by
    unfold build
    dsimp only
    rw [if_pos api]
  have first : build library ort c d .openingTokenizer .openFile =
      some (.readingTokenizer file []) := by
    unfold build
    dsimp only
    rw [opensJson]
    rfl
  have second : build library ort c d (.openingGraph (d.content file)) .openFile =
      some (.readingGraph (d.content file) file' []) := by
    unfold build
    dsimp only
    rw [opensGraph]
    rfl
  obtain ⟨readsJson, runJson⟩ : ∃ events, Run (soloStep sha256 library ort c)
      ⟨d, drawn, .readingTokenizer file []⟩ events ⟨d, drawn, tokenized (d.content file)
        (Tokenizer.load library c.tokenizer.path (some (d.content file))
          c.entry.info.maxSeqLength)⟩ :=
    read_solo (.readingTokenizer file) (fun got => tokenized got (Tokenizer.load library
      c.tokenizer.path (some got) c.entry.info.maxSeqLength)) fun _ _ => rfl
  obtain ⟨readsGraph, runGraph⟩ : ∃ events, Run (soloStep sha256 library ort c)
      ⟨d, drawn, .readingGraph (d.content file) file' []⟩ events
      ⟨d, drawn, result (d.content file) (d.content file') (makeOrtSession library ort c.entry
        c.provider c.precision c.tokenizer.path (some (d.content file))
          (.ok (d.content file')))⟩ :=
    read_solo (.readingGraph (d.content file) file') (fun got => result (d.content file) got
      (makeOrtSession library ort c.entry c.provider c.precision c.tokenizer.path
        (some (d.content file)) (.ok got))) fun _ _ => rfl
  have before : Run (soloStep sha256 library ort c) ⟨d, drawn, .fetching .ready⟩
      (.initOrt :: .openFile :: readsJson) ⟨d, drawn, tokenized (d.content file)
        (Tokenizer.load library c.tokenizer.path (some (d.content file))
          c.entry.info.maxSeqLength)⟩ :=
    .next (build_solo rfl starts) (.next (build_solo rfl first) runJson)
  cases made : Tokenizer.load library c.tokenizer.path (some (d.content file))
      c.entry.info.maxSeqLength with
  | error status =>
    rw [made] at before
    have fails : makeOrtSession library ort c.entry c.provider c.precision c.tokenizer.path
        (some (d.content file)) (.ok (d.content file')) = .error status := by
      unfold makeOrtSession
      rw [made]
      rfl
    rw [fails]
    exact ⟨_, before⟩
  | ok tokenizer =>
    rw [made] at before
    exact ⟨_, before.trans (.next (build_solo rfl second) runGraph)⟩

/-- The endpoint serves the pinned file, and the cache has room for it. -/
structure Served (sha256 : Hash) (d : Disk) (f : Fetch) (suffix : Suffix)
    (outcomes : ℕ → Outcome) (data : Bytes) : Prop where
  clear : Clear d f suffix
  delivers : Delivers f.request.url outcomes data
  pinned : hexDigest (sha256.bytes data) = pin f.entry f.asset

def fetchOf (c : LoadSession.Call ModelId) (known : c.entry ∈ kRegistry) (asset : Asset) : Fetch :=
  ⟨c.entry, known, asset, c.vars, c.given⟩

theorem targets_apart {known : c.entry ∈ kRegistry} :
    target (fetchOf c known .tokenizer).request ≠ target (fetchOf c known .graph).request := by
  rw [Fetch.target_eq, Fetch.target_eq]
  intro same
  cases (place_inj known known same).2

theorem clear_after_graph {d d' : Disk} {known : c.entry ∈ kRegistry} {x y : Suffix}
    (clear : Clear d (fetchOf c known .tokenizer) y) (distinct : x ≠ y)
    (folders : ∀ dir ∈ (parent (fetchOf c known .graph).request).inits,
      d'.node dir = some .directory)
    (others : ∀ q, q ∉ (parent (fetchOf c known .graph).request).inits →
      q ≠ target (fetchOf c known .graph).request →
        q ≠ part (fetchOf c known .graph).request x → Disk.SameAt d d' q) :
    Clear d' (fetchOf c known .tokenizer) y where
  folders := fun dir hdir => by
    rw [Fetch.parent_eq] at hdir
    refine .inr (folders dir ?_)
    rw [Fetch.parent_eq]
    exact hdir
  target := (others _ (Fetch.target_not_dir _ _) targets_apart
    (Fetch.part_ne_target _ _ _).symm).node.trans clear.target
  part := (others _ (Fetch.part_not_dir _ _ _) (Fetch.part_ne_target _ _ _)
    fun same => distinct (Fetch.part_inj same).symm).node.trans clear.part

/-- From an empty cache, with an endpoint that delivers both pinned files before the attempts
    are used up, a load that nobody interferes with comes to what `make_ort_session` makes of
    these files. -/
theorem cold_load {s : VerifiedLoads.State α} {t : Thread} (idle : s.idle t = true)
    (known : c.entry ∈ kRegistry) (checks : c.begin = .graph .called)
    (online : (resolvedConfig c.vars c.given).offline = false) (api : (initOrt ort).ok = true)
    {high low high' low' : UInt32} {outcomes outcomes' : ℕ → Outcome} {json graph : Bytes}
    (graphServed : Served sha256 s.disk (fetchOf c known .graph) (uniqueSuffix high low)
      outcomes graph)
    (tokenizerServed : Served sha256 s.disk (fetchOf c known .tokenizer)
      (uniqueSuffix high' low') outcomes' json)
    (distinct : uniqueSuffix high low ≠ uniqueSuffix high' low')
    (fresh : uniqueSuffix high low ∉ s.drawn ∧ uniqueSuffix high' low' ∉ s.drawn) :
    ∃ (events : List VerifiedLoads.Event) (s' : VerifiedLoads.State α),
      Run (VerifiedLoads.step sha256 library ort) s
        (.start t c known :: events.map (.advance t)) s' ∧
      s'.loads t = some ⟨c, known, result json graph (makeOrtSession library ort c.entry
        c.provider c.precision c.tokenizer.path (some json) (.ok graph))⟩ := by
  have online' (asset : Asset) : (fetchOf c known asset).request.config.offline = false := by
    rw [Fetch.request_config]
    exact online
  obtain ⟨_, d, fetchesGraph, drawn, graphThere, folders, others⟩ :=
    fetch_run _ graphServed.clear (online' .graph) graphServed.delivers graphServed.pinned
  have clear := clear_after_graph tokenizerServed.clear distinct folders others
  obtain ⟨_, d', fetchesJson, drawn', jsonThere, -, others'⟩ :=
    fetch_run _ clear (online' .tokenizer) tokenizerServed.delivers tokenizerServed.pinned
  have graphThere' : d'.read (target c.graph) = some graph :=
    (others' _ (Fetch.target_not_dir _ _) targets_apart.symm
      (Fetch.part_ne_target _ _ _).symm).read.trans graphThere
  obtain ⟨drawn₁, from₁, run₁⟩ : ∃ drawn₁, (∀ x ∈ drawn₁, x ∈ drawnIn _ ∨ x ∈ s.drawn) ∧
      Run (soloStep sha256 library ort c) ⟨s.disk, s.drawn, .fetching (.graph .called)⟩ _
        ⟨d, drawn₁, .fetching (.tokenizer .called)⟩ := by
    refine fetch_solo fetchesGraph (drawn ▸ List.nodup_singleton _) ?_
    rw [drawn]
    exact fun x hx => List.mem_singleton.mp hx ▸ fresh.1
  obtain ⟨drawn₂, -, run₂⟩ : ∃ drawn₂, (∀ x ∈ drawn₂, x ∈ drawnIn _ ∨ x ∈ drawn₁) ∧
      Run (soloStep sha256 library ort c) ⟨d, drawn₁, .fetching (.tokenizer .called)⟩ _
        ⟨d', drawn₂, .fetching .ready⟩ := by
    refine fetch_solo fetchesJson (drawn' ▸ List.nodup_singleton _) ?_
    rw [drawn']
    intro x hx used
    obtain rfl := List.mem_singleton.mp hx
    rcases from₁ _ used with early | before
    · rw [drawn] at early
      exact distinct (List.mem_singleton.mp early).symm
    · exact fresh.2 before
  obtain ⟨_, run₃⟩ : ∃ events, Run (soloStep sha256 library ort c)
      ⟨d', drawn₂, .fetching .ready⟩ events ⟨d', drawn₂, _⟩ :=
    build_run api jsonThere graphThere'
  let begun : VerifiedLoads.State α :=
    { s with loads := Function.update s.loads t (some ⟨c, known, .fetching c.begin⟩) }
  have starts : VerifiedLoads.step sha256 library ort s (.start t c known) = some begun :=
    if_pos idle
  have here : begun.loads t = some ⟨c, known, .fetching (.graph .called)⟩ := by
    rw [← checks]
    exact Function.update_self ..
  obtain ⟨s', run, loaded⟩ := solo_lifts (run₁.trans (run₂.trans run₃)) (s := begun) rfl rfl here
  exact ⟨_, s', .next starts run, loaded⟩

end

def pinnedHash : Hash := fun bytes => if bytes = [1, 2, 3] then
  ⟨[0x82, 0x8e, 0x14, 0x96, 0xd7, 0xfa, 0xbb, 0x79, 0xcf, 0xa4, 0xdc, 0xd8, 0x4f, 0xa3, 0x86,
    0x25, 0xc0, 0xd3, 0xd2, 0x1d, 0xa4, 0x74, 0xa0, 0x0f, 0x08, 0xdb, 0x0f, 0x55, 0x99, 0x40,
    0xcf, 0x35], rfl⟩ else
  ⟨[0xd2, 0x41, 0xa6, 0x0d, 0x5e, 0x8f, 0x04, 0xcc, 0x1b, 0x2b, 0x3e, 0x9e, 0xf7, 0xa4, 0x92,
    0x1b, 0x27, 0xbf, 0x52, 0x6d, 0x9f, 0x60, 0x50, 0xab, 0x90, 0xf9, 0x26, 0x7a, 0x1f, 0x9e,
    0x5c, 0x66], rfl⟩

def greetingTokenizer : HuggingFace Unit where
  fromBytes := fun _ => some ()
  withTruncation := fun _ maxLength => if maxLength = 512 then some () else none
  withoutPadding := id
  encode := fun _ text => some (greetingIds text)
  truncates := by
    intro _ maxLength _ text ids h h'
    rw [← Option.some.inj h']
    split at h
    · rename_i same
      rw [same]
      exact (greetingIds_length text).2
    · cases h

noncomputable def greetingRuntime : OnnxRuntime EReal where
  getApi := fun version => version == 30
  environment := .ok ()
  createSession := fun _ => .ok
    { inputNames := ["input_ids", "attention_mask", "token_type_ids"]
      outputNames := ["last_hidden_state"]
      run := fun _ => greetingSession.run }

def bgeSmallCall : LoadSession.Call ModelId where
  entry := bgeSmallEnV15
  provider := .cpu
  precision := .fp32
  vars := fun _ => none
  given := { cacheDir := "cache" }

theorem bgeSmallEnV15_known : bgeSmallCall.entry ∈ kRegistry := by decide +kernel

theorem emptyDisk_node {p : Path} (below : p ≠ []) : emptyDisk.node p = none := if_neg below

theorem emptyDisk_clear (f : Fetch) (suffix : Suffix) : Clear emptyDisk f suffix where
  folders := fun dir _ => by
    by_cases root : dir = []
    · exact .inr (if_pos root)
    · exact .inl (emptyDisk_node root)
  target := emptyDisk_node (f.target_eq ▸ List.cons_ne_nil _ _)
  part := emptyDisk_node (f.part_eq suffix ▸ List.cons_ne_nil _ _)

theorem flaky_delivers (url : String) : Delivers url flaky [1, 2, 3] where
  delivered := by
    refine ⟨3, by decide, by decide, fun j first early => ?_, rfl, rfl⟩
    obtain rfl | rfl : j = 1 ∨ j = 2 := by omega
    · exact ⟨rfl, rfl⟩
    · exact ⟨rfl, rfl⟩

def steady (data : Bytes) : ℕ → Outcome := fun _ => .transfer [data] ⟨.ok, 200, 0, "", "No error"⟩

theorem steady_delivers (url : String) (data : Bytes) : Delivers url (steady data) data where
  delivered := ⟨1, by decide, by decide, fun _ first early => absurd first (Nat.not_le.mpr early),
    rfl, List.append_nil data⟩

theorem cold_load_flaky : ∃ (events : List VerifiedLoads.Event)
    (s' : VerifiedLoads.State EReal),
    Run (VerifiedLoads.step pinnedHash greetingTokenizer greetingRuntime) { disk := emptyDisk }
        (.start ⟨0, 0⟩ bgeSmallCall bgeSmallEnV15_known :: events.map (.advance ⟨0, 0⟩)) s' ∧
      s'.loads ⟨0, 0⟩ = some ⟨bgeSmallCall, bgeSmallEnV15_known, result [4] [1, 2, 3]
        (makeOrtSession greetingTokenizer greetingRuntime bgeSmallEnV15 .cpu .fp32
          bgeSmallCall.tokenizer.path (some [4]) (.ok [1, 2, 3]))⟩ := by
  have distinct : uniqueSuffix 1 2 ≠ uniqueSuffix 3 4 := by decide +kernel
  refine cold_load rfl bgeSmallEnV15_known rfl rfl rfl
    ⟨emptyDisk_clear _ _, flaky_delivers _, ?_⟩ ⟨emptyDisk_clear _ _, steady_delivers _ _, ?_⟩
    distinct ⟨List.not_mem_nil, List.not_mem_nil⟩
  · decide +kernel
  · decide +kernel

section
variable {δ α : Type} {sha256 : Hash} {library : HuggingFace δ} {ort : OnnxRuntime α}
  {s : VerifiedLoads.State α} {t : Thread} {l : Load α}

/-- Whatever processes share the cache, crash in it and fetch into it between two steps of
    a load, a session that is ever made is made of the bytes the registry pins. -/
theorem loads_verified {s₀ : VerifiedLoads.State α} {as : List VerifiedLoads.Action}
    (initial : VerifiedLoads.Initial s₀)
    (run : Run (VerifiedLoads.step sha256 library ort) s₀ as s) {json graph : Bytes}
    {session : ModelSession ModelId α} (ht : s.loads t = some l)
    (done : l.phase = .loaded json graph session) :
    FromPins sha256 library ort l.call json graph session := by
  have hi : VerifiedLoads.Inv sha256 library ort s :=
    run.invariant VerifiedLoads.inv_step initial.inv
  have sound := hi.sound t l ht
  rw [done] at sound
  exact sound

theorem bgeSmall_loads : ∃ as s session,
    Run (VerifiedLoads.step pinnedHash greetingTokenizer greetingRuntime) { disk := emptyDisk }
        as s ∧
      s.loads ⟨0, 0⟩ = some ⟨bgeSmallCall, bgeSmallEnV15_known, .loaded [4] [1, 2, 3] session⟩ := by
  obtain ⟨events, s, run, load⟩ := cold_load_flaky
  exact ⟨_, s, _, run, load⟩

theorem emptyCache_initial : VerifiedLoads.Initial ({ disk := emptyDisk } : VerifiedLoads.State α)
    where
  idle := fun _ => rfl
  empty := emptyDisk_initial.empty

theorem loads_verified_bgeSmall : ∃ session, FromPins pinnedHash greetingTokenizer
    greetingRuntime bgeSmallCall [4] [1, 2, 3] session := by
  obtain ⟨as, s, session, run, load⟩ := bgeSmall_loads
  exact ⟨session, loads_verified emptyCache_initial run load rfl⟩

end
end CyborgdbEmbed.ColdLoad

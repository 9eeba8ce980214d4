import CyborgdbEmbed.EnsureFileSound
import CyborgdbEmbed.SharedCache
import Mathlib.Data.List.Infix

set_option autoImplicit false

namespace CyborgdbEmbed.SharedCache
open FileSystem Resolve EnsureFile TransitionSystem

variable {sha256 : Bytes → Bytes} {s s' : State}

structure Inv (sha256 : Bytes → Bytes) (s : State) : Prop where
  verified : ∀ f : Fetch, Verified sha256 s.disk (target f.request) (pin f.entry f.asset)
  sound : ∀ t c, s.calls t = some c → Sound sha256 c.fetch.request s.disk c.phase
  drawn : ∀ t c x, s.calls t = some c → c.phase.suffix? = some x → x ∈ s.drawn
  owned : ∀ t u c c' x, s.calls t = some c → s.calls u = some c' →
    c.phase.suffix? = some x → c'.phase.suffix? = some x → t = u

theorem Fetch.dir_length (f : Fetch) {dir : Path} (h : dir ∈ (parent f.request).inits) :
    dir.length ≤ 2 := by
  rw [f.parent_eq, List.mem_inits] at h
  exact h.length_le

theorem Fetch.part_not_dir (f g : Fetch) (x : Suffix) :
    part g.request x ∉ (parent f.request).inits := by
  intro h
  have := f.dir_length h
  rw [g.part_eq] at this
  exact absurd this (Nat.not_succ_le_self 2)

theorem Fetch.target_not_dir (f g : Fetch) : target g.request ∉ (parent f.request).inits := by
  intro h
  have := f.dir_length h
  rw [g.target_eq] at this
  exact absurd this (Nat.not_succ_le_self 2)

theorem Fetch.part_ne_target (f g : Fetch) (x : Suffix) : part f.request x ≠ target g.request := by
  rw [f.part_eq, g.target_eq]
  exact partPlace_ne_place x f.entry f.asset g.known g.asset

theorem Fetch.part_inj {f g : Fetch} {x y : Suffix} (h : part f.request x = part g.request y) :
    x = y := by
  rw [f.part_eq, g.part_eq] at h
  exact partPlace_inj h

theorem Fetch.target_inj {f g : Fetch} (h : target f.request = target g.request) :
    pin f.entry f.asset = pin g.entry g.asset := by
  rw [f.target_eq, g.target_eq] at h
  obtain ⟨hentry, hasset⟩ := place_inj f.known g.known h
  rw [hentry, hasset]

theorem Fetch.apart (f : Fetch) : Apart f.request where
  part_target := f.part_ne_target f
  target_dir := f.target_not_dir f

theorem moves_suffix {req : FileRequest} {d d' : Disk} {ph ph' : Phase} {e : Event} {x : Suffix}
    (h : Moves sha256 req d ph e d' ph') (hx : ph'.suffix? = some x) :
    ph.suffix? = some x ∨ x ∈ e.drawn := by
  cases h with
  | stat =>
    rw [afterStat_suffix] at hx
    cases hx
  | statThrows | mkdirFails | leave => cases hx
  | draw => exact .inr (List.mem_singleton.mpr (Option.some.inj hx).symm)
  | notStarted _ | performed _ | removeFailed =>
    rw [afterAttempt_suffix] at hx
    exact .inl hx
  | readIn =>
    rw [afterRead_suffix] at hx
    exact .inl hx
  | compare =>
    rw [afterCompare_suffix] at hx
    exact .inl hx
  | _ => exact .inl hx

theorem advance_step {t : Thread} {e : Event} (h : step sha256 s (.advance t e) = some s') :
    ∃ c d' ph', s.calls t = some c ∧ s.fresh e = true ∧
      Moves sha256 c.fetch.request s.disk c.phase e d' ph' ∧
      s' = { disk := d'
             drawn := e.drawn ++ s.drawn
             calls := Function.update s.calls t (some ⟨c.fetch, ph'⟩) } := by
  obtain ⟨c, hc, hs⟩ := Option.bind_eq_some_iff.mp h
  split at hs
  · rename_i hfresh
    obtain ⟨⟨d', ph'⟩, hmove, heq⟩ := Option.map_eq_some_iff.mp hs
    exact ⟨c, d', ph', hc, hfresh, advance_moves hmove, heq.symm⟩
  · cases hs

section Advance
variable {t : Thread} {c : Call} {e : Event} {d' : Disk} {ph' : Phase}

theorem Inv.final (hi : Inv sha256 s) (hc : s.calls t = some c)
    (hm : Moves sha256 c.fetch.request s.disk c.phase e d' ph') (f : Fetch) :
    Disk.SameAt s.disk d' (target f.request) ∨
      Holds sha256 d' (target f.request) (pin f.entry f.asset) := by
  have hs := hi.sound t c hc
  by_cases heq : target f.request = target c.fetch.request
  · cases hm.at_target hs c.fetch.apart with
    | inl hsame => exact .inl (heq ▸ hsame)
    | inr hholds =>
      right
      rw [heq, Fetch.target_inj heq, ← c.fetch.request_expected]
      exact hholds
  · left
    apply hm.sameAt hs
    · exact fun x _ hx => c.fetch.part_ne_target f x hx.symm
    · exact c.fetch.target_not_dir f
    · exact heq

theorem Inv.final_present (hi : Inv sha256 s) (hc : s.calls t = some c)
    (hm : Moves sha256 c.fetch.request s.disk c.phase e d' ph') (f : Fetch)
    (hp : s.disk.present (target f.request) = true) : d'.present (target f.request) = true := by
  cases hi.final hc hm f with
  | inl hsame => rw [hsame.present, hp]
  | inr hholds => exact hholds.present

theorem Inv.others_part (hi : Inv sha256 s) (hc : s.calls t = some c)
    (hm : Moves sha256 c.fetch.request s.disk c.phase e d' ph') {u : Thread} {c' : Call}
    (hne : u ≠ t) (hc' : s.calls u = some c') {x : Suffix} (hx : c'.phase.suffix? = some x) :
    Disk.SameAt s.disk d' (part c'.fetch.request x) := by
  apply hm.sameAt (hi.sound t c hc)
  · intro y hy heq
    obtain rfl := Fetch.part_inj heq
    exact hne (hi.owned u t c' c x hc' hc hx hy)
  · exact c.fetch.part_not_dir c'.fetch x
  · exact c'.fetch.part_ne_target c.fetch x

theorem fresh_not_drawn {x : Suffix} (hf : s.fresh e = true) (hx : x ∈ e.drawn) : x ∉ s.drawn :=
  of_decide_eq_true (List.all_eq_true.mp hf x hx)

theorem Inv.suffix_drawn (hi : Inv sha256 s) (hc : s.calls t = some c)
    (hm : Moves sha256 c.fetch.request s.disk c.phase e d' ph') {x : Suffix}
    (hx : ph'.suffix? = some x) : x ∈ e.drawn ++ s.drawn := by
  cases moves_suffix hm hx with
  | inl hold => exact List.mem_append_right _ (hi.drawn t c x hc hold)
  | inr hnew => exact List.mem_append_left _ hnew

theorem Inv.suffix_owned (hi : Inv sha256 s) (hc : s.calls t = some c) (hf : s.fresh e = true)
    (hm : Moves sha256 c.fetch.request s.disk c.phase e d' ph') {u : Thread} {c' : Call}
    {x : Suffix} (hc' : s.calls u = some c') (hx : ph'.suffix? = some x)
    (hx' : c'.phase.suffix? = some x) : t = u := by
  cases moves_suffix hm hx with
  | inl hold => exact hi.owned t u c c' x hc hc' hold hx'
  | inr hnew => exact absurd (hi.drawn u c' x hc' hx') (fresh_not_drawn hf hnew)

theorem Inv.moved (hi : Inv sha256 s) (hc : s.calls t = some c) (hf : s.fresh e = true)
    (hm : Moves sha256 c.fetch.request s.disk c.phase e d' ph') :
    Inv sha256 { disk := d'
                 drawn := e.drawn ++ s.drawn
                 calls := Function.update s.calls t (some ⟨c.fetch, ph'⟩) } := by
  refine ⟨?verified, ?sound, ?drawn, ?owned⟩
  case verified =>
    intro f
    cases hi.final hc hm f with
    | inl hsame => exact (hi.verified f).sameAt hsame
    | inr hholds => exact .inr hholds
  case sound =>
    intro u c' hc'
    change Function.update s.calls t _ u = some c' at hc'
    by_cases hu : u = t
    · rw [hu, Function.update_self] at hc'
      obtain rfl := Option.some.inj hc'
      exact hm.sound (hi.sound t c hc) c.fetch.apart
    · rw [Function.update_of_ne hu] at hc'
      apply (hi.sound u c' hc').frame
      · exact fun x hx => hi.others_part hc hm hu hc' hx
      · exact hi.final_present hc hm c'.fetch
  case drawn =>
    intro u c' x hc' hx
    change Function.update s.calls t _ u = some c' at hc'
    by_cases hu : u = t
    · rw [hu, Function.update_self] at hc'
      obtain rfl := Option.some.inj hc'
      exact hi.suffix_drawn hc hm hx
    · rw [Function.update_of_ne hu] at hc'
      exact List.mem_append_right _ (hi.drawn u c' x hc' hx)
  case owned =>
    intro u v c' c'' x hc' hc'' hx hx'
    change Function.update s.calls t _ u = some c' at hc'
    change Function.update s.calls t _ v = some c'' at hc''
    by_cases hu : u = t <;> by_cases hv : v = t
    · rw [hu, hv]
    · rw [hu, Function.update_self] at hc'
      rw [Function.update_of_ne hv] at hc''
      obtain rfl := Option.some.inj hc'
      rw [hu]
      exact hi.suffix_owned hc hf hm hc'' hx hx'
    · rw [hv, Function.update_self] at hc''
      rw [Function.update_of_ne hu] at hc'
      obtain rfl := Option.some.inj hc''
      rw [hv]
      exact (hi.suffix_owned hc hf hm hc' hx' hx).symm
    · rw [Function.update_of_ne hu] at hc'
      rw [Function.update_of_ne hv] at hc''
      exact hi.owned u v c' c'' x hc' hc'' hx hx'

end Advance

theorem Inv.recall (hi : Inv sha256 s) {calls : Thread → Option Call}
    (h : ∀ t c, calls t = some c → s.calls t = some c ∨ c.phase = .called) :
    Inv sha256 { s with calls := calls } := by
  have held : ∀ t c x, calls t = some c → c.phase.suffix? = some x → s.calls t = some c := by
    intro t c x hc hx
    cases h t c hc with
    | inl hold => exact hold
    | inr hnew =>
      rw [hnew] at hx
      cases hx
  refine ⟨hi.verified, ?sound, ?drawn, ?owned⟩
  case sound =>
    intro t c hc
    cases h t c hc with
    | inl hold => exact hi.sound t c hold
    | inr hnew =>
      rw [hnew]
      trivial
  case drawn => exact fun t c x hc hx => hi.drawn t c x (held t c x hc hx) hx
  case owned =>
    intro t u c c' x hc hc' hx hx'
    exact hi.owned t u c c' x (held t c x hc hx) (held u c' x hc' hx') hx hx'

theorem Inv.started (hi : Inv sha256 s) (t : Thread) (fetch : Fetch) :
    Inv sha256 { s with calls := Function.update s.calls t (some ⟨fetch, .called⟩) } := by
  apply hi.recall
  intro u c hc
  by_cases hu : u = t
  · rw [hu, Function.update_self] at hc
    obtain rfl := Option.some.inj hc
    exact .inr rfl
  · rw [Function.update_of_ne hu] at hc
    exact .inl hc

theorem Inv.crashed (hi : Inv sha256 s) (process : ℕ) :
    Inv sha256 { s with calls := fun t => if t.process = process then none else s.calls t } := by
  apply hi.recall
  intro t c hc
  split at hc
  · cases hc
  · exact .inl hc

theorem inv_step (s : State) (a : Action) (s' : State) (hi : Inv sha256 s)
    (h : step sha256 s a = some s') : Inv sha256 s' := by
  cases a with
  | start t fetch =>
    change (if s.idle t then _ else _) = some s' at h
    split at h
    · obtain rfl := Option.some.inj h
      exact hi.started t fetch
    · cases h
  | advance t e =>
    obtain ⟨c, d', ph', hc, hf, hm, rfl⟩ := advance_step h
    exact hi.moved hc hf hm
  | crash process =>
    obtain rfl := Option.some.inj h
    exact hi.crashed process

theorem step_present (hi : Inv sha256 s) {a : Action} (h : step sha256 s a = some s') (f : Fetch)
    (hp : s.disk.present (target f.request) = true) :
    s'.disk.present (target f.request) = true := by
  cases a with
  | start t fetch =>
    change (if s.idle t then _ else _) = some s' at h
    split at h
    · obtain rfl := Option.some.inj h
      exact hp
    · cases h
  | advance t e =>
    obtain ⟨c, d', ph', hc, hf, hm, rfl⟩ := advance_step h
    exact hi.final_present hc hm f hp
  | crash process =>
    obtain rfl := Option.some.inj h
    exact hp

/-- No call is running and no model file is there. Anything else may be. -/
structure Initial (s : State) : Prop where
  idle : ∀ t, s.calls t = none
  empty : ∀ f : Fetch, s.disk.node (target f.request) = none

theorem Initial.inv (h : Initial s) : Inv sha256 s where
  verified := fun f => .inl (h.empty f)
  sound := fun t _ hc => absurd ((h.idle t).symm.trans hc) nofun
  drawn := fun t _ _ hc => absurd ((h.idle t).symm.trans hc) nofun
  owned := fun t _ _ _ _ hc => absurd ((h.idle t).symm.trans hc) nofun

theorem run_present (hi : Inv sha256 s) {as : List Action} (h : Run (step sha256) s as s')
    (f : Fetch) (hp : s.disk.present (target f.request) = true) :
    s'.disk.present (target f.request) = true := by
  have key : Inv sha256 s' ∧ s'.disk.present (target f.request) = true := by
    apply h.invariant (I := fun s => Inv sha256 s ∧ s.disk.present (target f.request) = true)
    · exact fun s a u hi h => ⟨inv_step s a u hi.1 h, step_present hi.1 h f hi.2⟩
    · exact ⟨hi, hp⟩
  exact key.2

structure OnlyVerified (sha256 : Bytes → Bytes) (s : State) : Prop where
  verified : ∀ f : Fetch, Verified sha256 s.disk (target f.request) (pin f.entry f.asset)
  stays : ∀ f : Fetch, s.disk.present (target f.request) = true →
    ∀ as s', Run (step sha256) s as s' → s'.disk.present (target f.request) = true
  returned : ∀ t c status, s.calls t = some c → c.phase = .returned status → status.ok = true →
    Holds sha256 s.disk (target c.fetch.request) (pin c.fetch.entry c.fetch.asset)

theorem only_verified {s₀ : State} {as : List Action} (hinit : Initial s₀)
    (hrun : Run (step sha256) s₀ as s) : OnlyVerified sha256 s := by
  have hi : Inv sha256 s := hrun.invariant inv_step hinit.inv
  refine ⟨hi.verified, fun f hp as s' h => run_present hi h f hp, ?_⟩
  intro t c status hc hphase hok
  have hsound := hi.sound t c hc
  rw [hphase] at hsound
  exact (hi.verified c.fetch).holds (hsound hok)

def emptyDisk : Disk where
  node := fun p => if p = [] then some .directory else none
  content := fun _ => []
  nextInode := 0
  allocated := by
    intro p i h
    split at h <;> cases h
  oneName := by
    intro p q i h
    split at h <;> cases h

theorem emptyDisk_initial : Initial { disk := emptyDisk } where
  idle := fun _ => rfl
  empty := by
    intro f
    rw [f.target_eq]
    change (if place f.entry f.asset = [] then some Node.directory else none) = none
    exact if_neg (List.cons_ne_nil _ _)

def e5Graph : Fetch where
  entry := kRegistry[6]
  known := List.getElem_mem _
  asset := .graph
  vars := fun _ => none
  given := { cacheDir := "cache" }

def sha256OfNothing : Bytes → Bytes := fun _ =>
  [0xe3, 0xb0, 0xc4, 0x42, 0x98, 0xfc, 0x1c, 0x14, 0x9a, 0xfb, 0xf4, 0xc8, 0x99, 0x6f, 0xb9, 0x24,
    0x27, 0xae, 0x41, 0xe4, 0x64, 0x9b, 0x93, 0x4c, 0xa4, 0x95, 0x99, 0x1b, 0x78, 0x52, 0xb8, 0x55]

def fetching (t : Thread) (events : List Event) : List Action :=
  .start t e5Graph :: events.map (.advance t)

/-- One process crashes on its way; the other is served an empty file. -/
def crashAndMismatch : List Action :=
  fetching ⟨1, 0⟩ [.stat, .mkdir] ++
  fetching ⟨0, 0⟩ [.stat, .mkdir, .mkdir, .mkdir, .draw 1 2, .openOut] ++
  .crash 1 :: [Event.perform ⟨.ok, 200, 0, "", "No error"⟩, .openIn, .readIn, .compare,
    .remove true].map (.advance ⟨0, 0⟩)

theorem crashAndMismatch_only_verified : OnlyVerified sha256OfNothing
    ((exec (step sha256OfNothing) { disk := emptyDisk } crashAndMismatch).getD
      { disk := emptyDisk }) :=
  only_verified emptyDisk_initial (run_exec (by decide +kernel))

end CyborgdbEmbed.SharedCache

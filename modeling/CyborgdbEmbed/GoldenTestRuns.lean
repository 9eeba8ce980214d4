import CyborgdbEmbed.GoldenTest

set_option autoImplicit false

namespace CyborgdbEmbed.GoldenTest
open Loops GoldenFiles GoldenScore
open SessionStore (CallId EmbedderId LoadOutcome Quiet HandleHeld openAlone)
open OpenedModels (Options kRegistry_idsDiffer)
open Utf8 (Bytes view)

theorem find?_of_nodup {α β : Type} [DecidableEq β] {xs : List α} {f : α → β}
    (nodup : (xs.map f).Nodup) {x : α} (hx : x ∈ xs) :
    xs.find? (fun y => f y = f x) = some x := by
  obtain ⟨y, found⟩ : ∃ y, xs.find? (fun y => f y = f x) = some y :=
    Option.isSome_iff_exists.mp (List.find?_isSome.mpr ⟨x, hx, decide_eq_true rfl⟩)
  have same : f y = f x := by simpa using List.find?_some found
  rw [found, List.inj_on_of_nodup_map nodup (List.mem_of_find?_eq_some found) hx same]

theorem find_kRegistry {entry : RegistryEntry ModelId} (known : entry ∈ kRegistry) :
    ModelLookup.find kRegistry entry.info.id = some entry :=
  find?_of_nodup kRegistry_idsDiffer known

def entryNamed (name : String) : Option (RegistryEntry ModelId) :=
  kRegistry.find? fun entry => entry.info.name = name

theorem chosen_eq (name : String) : chosen name = (entryNamed name).map (·.info) := by
  have backwards : (kRegistry.reverse.map (·.info.name)).Nodup := by
    rw [List.map_reverse]
    exact List.nodup_reverse.mpr kRegistry_namesDiffer
  have all : chosen name = (kRegistry.reverse.find? fun entry => entry.info.name = name).map
      (·.info) := by
    unfold chosen kModels
    rw [← List.map_reverse, List.find?_map]
    rfl
  rw [all]
  congr 1
  unfold entryNamed
  cases found : kRegistry.find? (fun entry => entry.info.name = name) with
  | none =>
    rw [List.find?_eq_none] at found ⊢
    intro entry known
    exact found entry (List.mem_reverse.mp known)
  | some entry =>
    obtain rfl : entry.info.name = name := by simpa using List.find?_some found
    exact find?_of_nodup (f := fun entry : RegistryEntry ModelId => entry.info.name) backwards
      (List.mem_reverse.mpr (List.mem_of_find?_eq_some found))

theorem dimension_fits : ∀ entry ∈ kRegistry,
    1 < entry.info.dimension ∧ entry.info.dimension < UInt64.size := by decide +kernel

section
variable {ι α δ : Type} [Arith α] {session : OrtSession ι α} {pre : Bytes}
  {texts : Option (ℕ → Bytes)} {out : Option (Buffer α)} {capacity : ℕ}

theorem encode_undersized {given : ℕ → Bytes} {floats : Buffer α}
    (fits : session.entry.info.dimension < UInt64.size)
    (small : capacity < session.entry.info.dimension) :
    (session.encode (some given) 1 pre (some floats) capacity).1.code = .outputTooSmall := by
  have need : 1 * session.entry.info.dimension % UInt64.size = session.entry.info.dimension := by
    rw [Nat.one_mul, Nat.mod_eq_of_lt fits]
  unfold OrtSession.encode
  dsimp only
  rw [if_neg (by simp), need, if_pos small]

theorem encode_null :
    (session.encode none 1 pre out capacity).1.code = .invalidArgument ∧
      (session.encode none 1 pre out capacity).2 = out := by
  unfold OrtSession.encode
  dsimp only
  rw [if_pos ⟨Nat.one_ne_zero, .inl rfl⟩]
  exact ⟨rfl, rfl⟩

theorem encode_empty : session.encode texts 0 pre out capacity = ({}, out) := by
  unfold OrtSession.encode
  dsimp only
  rw [if_neg (by simp), Nat.zero_mul, Nat.zero_mod, if_neg (Nat.not_lt_zero _)]
  split
  · change ((session.encodeBatches _ _ 0 0 0 _).1, some (session.encodeBatches _ _ 0 0 0 _).2) = _
    rw [OrtSession.encodeBatches, dif_neg (Nat.lt_irrefl 0)]
  · rfl

omit [Arith α] in
theorem vectorData_getD (size : ℕ) (floats : Buffer α) :
    (vectorData size floats).getD floats = floats := by
  unfold vectorData
  split <;> rfl

theorem testRefusals_eq {given : List Bytes} (there : given ≠ [])
    {session : ModelSession ModelId α} (known : session.entry ∈ kRegistry) (name : String)
    (vectors : Buffer α) (report : Report δ) :
    testRefusals given name ⟨some session⟩ vectors report = (vectors, report) := by
  obtain ⟨large, fits⟩ := dimension_fits _ known
  have dim : (⟨some session⟩ : Embedder ModelId α).dimension = session.entry.info.dimension := rfl
  have undersized : ((⟨some session⟩ : Embedder ModelId α).embedDocuments (views given) 1
      (vectorData (session.entry.info.dimension - 1) fun _ => Arith.zero)
      (session.entry.info.dimension - 1)).1.code = .outputTooSmall := by
    unfold views vectorData
    rw [if_neg there, if_neg (by omega)]
    exact encode_undersized fits (Nat.sub_lt (by omega) Nat.one_pos)
  unfold testRefusals Report.require
  dsimp only
  rw [dim, undersized]
  simp only [Embedder.embedDocuments, Embedder.embed, encode_null, encode_empty, vectorData_getD,
    beq_self_eq_true, if_true]
  rfl

end

section
variable {α : Type} {lib lib' : Library α} {before tail : List (Option CallId)} {i j : ℕ}
  {held : Option CallId}

/-- The library holds what it held, and what is in the variables of this model. -/
structure Holds (before tail : List (Option CallId)) (lib : Library α) : Prop where
  quiet : Quiet lib.store
  embedders : lib.store.embedders = before ++ tail

structure Same (lib lib' : Library α) : Prop where
  sessions : lib'.sessions = lib.sessions
  next : lib'.store.next = lib.store.next
  calls : lib'.store.calls = lib.store.calls
  impls : lib'.store.impls = lib.store.impls

theorem Same.trans {lib'' : Library α} (h : Same lib lib') (h' : Same lib' lib'') :
    Same lib lib'' where
  sessions := h'.sessions.trans h.sessions
  next := h'.next.trans h.next
  calls := h'.calls.trans h.calls
  impls := h'.impls.trans h.impls

theorem Holds.get_embedder (h : Holds before tail lib) (i : ℕ) :
    lib.store.embedders[before.length + i]? = tail[i]? := by
  rw [h.embedders, List.getElem?_append_right (Nat.le_add_right _ _), Nat.add_sub_cancel_left]

theorem Holds.set_embedder (h : Holds before tail lib) (i : ℕ) (held : Option CallId) :
    lib.store.embedders.set (before.length + i) held = before ++ tail.set i held := by
  rw [h.embedders, List.set_append_right _ _ (Nat.le_add_right _ _), Nat.add_sub_cancel_left]

theorem Holds.construct (h : Holds before tail lib) :
    Holds before (tail ++ [none]) (lib.does .construct) ∧ Same lib (lib.does .construct) ∧
      lib.fresh = before.length + tail.length := by
  refine ⟨⟨h.quiet.kept (a := .construct) rfl rfl, ?_⟩, ⟨rfl, rfl, rfl, rfl⟩, ?_⟩
  · change lib.store.embedders ++ [none] = _
    rw [h.embedders, List.append_assoc]
  · rw [Library.fresh, h.embedders, List.length_append]

theorem Holds.destroy (h : Holds before tail lib) (i : ℕ) :
    Holds before (tail.set i none) (lib.does (.destroy (before.length + i))) ∧
      Same lib (lib.does (.destroy (before.length + i))) :=
  ⟨⟨h.quiet.kept (a := .destroy (before.length + i)) rfl rfl, h.set_embedder i none⟩,
    ⟨rfl, rfl, rfl, rfl⟩⟩

theorem Holds.copy (h : Holds before tail lib) (i : ℕ) (there : tail[j]? = some held) :
    Holds before (tail.set i held)
        (lib.does (.copy (before.length + i) (before.length + j))) ∧
      Same lib (lib.does (.copy (before.length + i) (before.length + j))) := by
  have source : lib.store.embedders[before.length + j]? = some held :=
    (h.get_embedder j).trans there
  have copied : SessionStore.step lib.store (.copy (before.length + i) (before.length + j)) =
      some { lib.store with embedders := lib.store.embedders.set (before.length + i) held } := by
    change (lib.store.embedders[before.length + j]?).map _ = _
    rw [source, Option.map_some]
  have does : lib.does (.copy (before.length + i) (before.length + j)) =
      { lib with store := { lib.store with
          embedders := lib.store.embedders.set (before.length + i) held } } := by
    rw [Library.does, copied, Option.getD_some]
  rw [does]
  exact ⟨⟨h.quiet.kept copied rfl, h.set_embedder i held⟩, ⟨rfl, rfl, rfl, rfl⟩⟩

theorem Holds.embedder (h : Holds before tail lib) {c s : CallId}
    {session : ModelSession ModelId α} (there : tail[i]? = some (some c))
    (impl : lib.store.impls c = some s) (made : lib.sessions s = some session) :
    lib.embedder (before.length + i) = ⟨some session⟩ := by
  unfold Library.embedder
  rw [h.get_embedder, there, Option.join_some, Option.bind_some, impl, Option.bind_some, made]

def keyOf (entry : RegistryEntry ModelId) : SessionStore.Key := ⟨entry.info.id, .cpu, .fp32⟩

/-- Call `c` has opened the model, with the session that call `s` has loaded. -/
structure Leads (entry : RegistryEntry ModelId) (session : ModelSession ModelId α) (s c : CallId)
    (lib : Library α) : Prop where
  impl : lib.store.impls c = some s
  made : lib.sessions s = some session
  call : ∃ call, lib.store.calls c = some call ∧ call.key = keyOf entry ∧
    call.phase = .done (.ok s)

theorem Leads.same {entry : RegistryEntry ModelId} {session : ModelSession ModelId α}
    {s c : CallId} (h : Leads entry session s c lib) (same : Same lib lib') :
    Leads entry session s c lib' where
  impl := same.impls ▸ h.impl
  made := same.sessions ▸ h.made
  call := same.calls ▸ h.call

theorem Holds.free (h : Holds before tail lib) (idle : ∀ held ∈ before ++ tail, held = none)
    (k : SessionStore.Key) (c : CallId) : ¬ HandleHeld lib.store k c := by
  rintro ⟨call, s, -, -, -, mem⟩
  rw [h.embedders] at mem
  cases idle _ mem

section
variable {entry : RegistryEntry ModelId} {session : ModelSession ModelId α} {s c : CallId}

theorem Holds.handle (h : Holds before tail lib) (leads : Leads entry session s c lib)
    (mem : some c ∈ tail) : HandleHeld lib.store (keyOf entry) c := by
  obtain ⟨call, hc, key, phase⟩ := leads.call
  refine ⟨call, s, hc, key, phase, ?_⟩
  rw [h.embedders]
  exact List.mem_append_right _ mem

section
variable {out : EmbedderId} {load : Load α} {store : SessionStore.State}

theorem Library.opens_eq (known : entry ∈ kRegistry) {result : SessionStore.Outcome} :
    openAlone lib.store entry .cpu .fp32 out load.outcome = some (store, result) →
      lib.opens entry.info.id {} out load =
        match result with
        | .ok s => some (
            { store
              sessions := if s = lib.store.next
                then Function.update lib.sessions s (load.session entry {})
                else lib.sessions }, {})
        | .failed _ status => some ({ lib with store }, status)
        | .threw _ => none := by
  intro ran
  unfold Library.opens
  rw [find_kRegistry known]
  dsimp only
  rw [ran]
  cases result <;> rfl

end

theorem Leads.keeps {lib' : Library α} (h : Leads entry session s c lib) {d : CallId}
    (apart : c ≠ d) (impls : ∃ s, lib'.store.impls = Function.update lib.store.impls d s)
    (calls : ∃ call, lib'.store.calls = Function.update lib.store.calls d call)
    (made : lib'.sessions = lib.sessions) : Leads entry session s c lib' := by
  obtain ⟨t, impls⟩ := impls
  obtain ⟨call, calls⟩ := calls
  refine ⟨?_, made ▸ h.made, ?_⟩
  · rw [impls, Function.update_of_ne apart, h.impl]
  · rw [calls, Function.update_of_ne apart]
    exact h.call

theorem Holds.valid (h : Holds before tail lib) {i : ℕ} (inside : i < tail.length) :
    before.length + i < lib.store.embedders.length := by
  rw [h.embedders, List.length_append]
  exact Nat.add_lt_add_left inside _

theorem Holds.runs (h : Holds before [none] lib) (idle : ∀ held ∈ before, held = none)
    (load : Load α) : ∃ store, openAlone lib.store entry .cpu .fp32 before.length load.outcome =
        some (store, load.outcome.result lib.store.next) ∧
      SessionStore.Opened lib.store
        { entry, provider := .cpu, precision := .fp32, target := before.length }
        (load.outcome.result lib.store.next) store := by
  have nothing : ∀ held ∈ before ++ [none], held = none := fun held mem =>
    (List.mem_append.mp mem).elim (idle held) List.mem_singleton.mp
  exact SessionStore.openAlone_loads load.outcome h.quiet (h.valid Nat.one_pos)
    (h.free nothing ⟨entry.info.id, .cpu, .fp32⟩)

theorem Holds.opens_threw (h : Holds before [none] lib) (idle : ∀ held ∈ before, held = none)
    (known : entry ∈ kRegistry) :
    lib.opens entry.info.id {} before.length .threw = none := by
  obtain ⟨store, ran, -⟩ := h.runs idle .threw
  exact Library.opens_eq known ran

theorem Holds.opens_failed (h : Holds before [none] lib) (idle : ∀ held ∈ before, held = none)
    (known : entry ∈ kRegistry) {status : Status} (bad : status.ok = false) :
    ∃ lib', lib.opens entry.info.id {} before.length (.failed status bad) = some (lib', status) ∧
      Holds before [none] lib' ∧ lib'.store.next = lib.store.next + 1 := by
  obtain ⟨store, ran, opened⟩ := h.runs idle (.failed status bad)
  have result : (Load.failed status bad : Load α).outcome.result lib.store.next =
      .failed lib.store.next status := if_neg (bad ▸ Bool.false_ne_true)
  rw [result] at ran opened
  have opens := Library.opens_eq known ran
  refine ⟨{ lib with store }, opens, ⟨opened.quiet h.quiet nofun, ?_⟩,
    opened.next⟩
  exact (opened.nothing nofun).2.trans h.embedders

theorem Holds.opens_made (h : Holds before [none] lib) (idle : ∀ held ∈ before, held = none)
    (known : entry ∈ kRegistry) {load : Load α} (outcome : load.outcome = .returned {})
    (made : load.session entry {} = some session) :
    ∃ lib', lib.opens entry.info.id {} before.length load = some (lib', {}) ∧
      Holds before [some lib.store.next] lib' ∧
        Leads entry session lib.store.next lib.store.next lib' ∧
          lib'.store.next = lib.store.next + 1 := by
  obtain ⟨store, ran, opened⟩ := h.runs idle load
  have result : load.outcome.result lib.store.next = .ok lib.store.next := by
    rw [outcome]
    rfl
  rw [result] at ran opened
  obtain ⟨impls, embedders⟩ := opened.handle _ rfl
  have opens := Library.opens_eq known ran
  refine ⟨_, opens, ⟨opened.quiet h.quiet nofun, ?_⟩, ⟨?_, ?_, ?_⟩,
    opened.next⟩
  · exact embedders.trans (h.set_embedder 0 (some lib.store.next))
  · exact impls ▸ Function.update_self ..
  · exact (congrFun (if_pos rfl) _).trans ((Function.update_self ..).trans made)
  · exact ⟨_, opened.calls ▸ Function.update_self .., rfl, rfl⟩

theorem Holds.opens_again (h : Holds before [some c, none] lib)
    (leads : Leads entry session s c lib) (apart : s ≠ lib.store.next)
    (known : entry ∈ kRegistry) (load : Load α) :
    ∃ lib', lib.opens entry.info.id {} (before.length + 1) load = some (lib', {}) ∧
      Holds before [some c, some lib.store.next] lib' ∧ Leads entry session s c lib' ∧
        Leads entry session s lib.store.next lib' ∧ lib'.store.next = lib.store.next + 1 := by
  have held : HandleHeld lib.store ⟨entry.info.id, .cpu, .fp32⟩ c :=
    h.handle leads List.mem_cons_self
  obtain ⟨store, ran, opened⟩ := SessionStore.openAlone_shares load.outcome h.quiet
    (h.valid Nat.one_lt_two) held leads.impl
  obtain ⟨impls, embedders⟩ := opened.handle _ rfl
  have opens := Library.opens_eq known ran
  refine ⟨_, opens, ⟨opened.quiet h.quiet nofun, ?_⟩,
    leads.keeps ?_ ⟨_, impls⟩ ⟨_, opened.calls⟩ (if_neg apart), ⟨?_, ?_, ?_⟩, opened.next⟩
  · exact embedders.trans (h.set_embedder 1 (some lib.store.next))
  · exact (h.quiet.reachable.inv.numbered.impls c s leads.impl).ne
  · exact impls ▸ Function.update_self ..
  · exact (congrFun (if_neg apart) _).trans leads.made
  · exact ⟨_, opened.calls ▸ Function.update_self .., rfl, rfl⟩

end

section
variable {entry : RegistryEntry ModelId} {session : ModelSession ModelId α} {s c d : CallId}

theorem Holds.handles (h : Holds before [some c, some d] lib)
    (idle : ∀ held ∈ before, held = none) (first : Leads entry session s c lib)
    (second : Leads entry session s d lib) {k : SessionStore.Key} {x : CallId} :
    HandleHeld lib.store k x ↔ k = keyOf entry ∧ (x = c ∨ x = d) := by
  constructor
  · rintro ⟨call, t, hc, key, -, mem⟩
    have one : x = c ∨ x = d := by
      rw [h.embedders, List.mem_append] at mem
      obtain mem | mem := mem
      · cases idle _ mem
      · simpa using mem
    have leads : Leads entry session s x lib := by
      obtain rfl | rfl := one
      · exact first
      · exact second
    obtain ⟨call', hc', key', -⟩ := leads.call
    obtain rfl := Option.some.inj (hc.symm.trans hc')
    exact ⟨key.symm.trans key', one⟩
  · rintro ⟨rfl, rfl | rfl⟩
    · exact h.handle first List.mem_cons_self
    · exact h.handle second (List.mem_cons_of_mem _ List.mem_cons_self)

theorem Holds.shared (h : Holds before [some c, some d] lib)
    (idle : ∀ held ∈ before, held = none) (first : Leads entry session s c lib)
    (second : Leads entry session s d lib) (apart : c ≠ d) :
    shared (SessionStore.loaded lib.store) = true := by
  have both : {x | HandleHeld lib.store (keyOf entry) x} = {c, d} := by
    ext x
    exact (h.handles idle first second).trans (and_iff_right rfl)
  rw [h.quiet.loaded_one (k := keyOf entry) (n := 1) (by rw [both, Set.ncard_pair apart])
    fun j x held => ((h.handles idle first second).mp held).1]
  rfl

end

section
variable {δ : Type} {entry : RegistryEntry ModelId} {session : ModelSession ModelId α}
  {s c : CallId}

theorem describes_entry (built : session.entry = entry) :
    describes (⟨some session⟩ : Embedder ModelId α).identity entry.info = true := by
  subst built
  simp [describes, Embedder.identity, kRegistryVersion]

theorem testHandles_eq (h : Holds before [some c] lib) (idle : ∀ held ∈ before, held = none)
    (leads : Leads entry session s c lib) (older : s ≠ lib.store.next)
    (built : session.entry = entry) (known : entry ∈ kRegistry) (load : Load α) (name : String)
    (report : Report δ) :
    ∃ lib', testHandles load name entry.info before.length lib report = some (lib', report) ∧
      Holds before [some c, none, none] lib' ∧ Leads entry session s c lib' ∧
        lib'.store.next = lib.store.next + 1 := by
  -- the second handle finds the session that the first one keeps alive
  obtain ⟨h₁, same₁, fresh₁⟩ := h.construct
  have first := leads.same same₁
  have older₁ : s ≠ (lib.does .construct).store.next := same₁.next ▸ older
  obtain ⟨lib₂, opened, h₂, leads₂, second, next₂⟩ := h₁.opens_again first older₁ known load
  have apart : c ≠ (lib.does .construct).store.next :=
    (h₁.quiet.reachable.inv.numbered.impls c s first.impl).ne
  -- the assigned one is a copy of the second, and both go at the end of the block
  obtain ⟨h₃, same₃, fresh₃⟩ := h₂.construct
  obtain ⟨h₄, same₄⟩ := h₃.copy (j := 1) 2 rfl
  have model : lib₂.embedder before.length = ⟨some session⟩ :=
    h₂.embedder (i := 0) rfl leads₂.impl leads₂.made
  have copied := (second.same same₃).same same₄
  have assigned := h₄.embedder (i := 2) rfl copied.impl copied.made
  have model₄ : Library.embedder _ before.length = ⟨some session⟩ :=
    h₄.embedder (i := 0) rfl ((leads₂.same same₃).same same₄).impl copied.made
  obtain ⟨h₅, same₅⟩ := h₄.destroy 2
  obtain ⟨h₆, same₆⟩ := h₅.destroy 1
  have same := ((same₃.trans same₄).trans same₅).trans same₆
  refine ⟨_, ?_, h₆, leads₂.same same, same.next.trans (next₂.trans (by rw [same₁.next]))⟩
  have second_eq : lib.fresh = before.length + 1 := fresh₁
  have assigned_eq : lib₂.fresh = before.length + 2 := fresh₃
  unfold testHandles
  rw [second_eq]
  dsimp only
  rw [opened, Option.map_some]
  dsimp only
  rw [h₂.shared idle leads₂ second apart, model, describes_entry built, assigned_eq, assigned,
    model₄, beq_self_eq_true]
  rfl

end

structure Ready (lib : Library α) : Prop where
  quiet : Quiet lib.store
  idle : ∀ held ∈ lib.store.embedders, held = none

theorem initial_ready : Ready ({} : Library α) where
  quiet := ⟨⟨[], .refl _⟩, fun c call hc => by cases hc⟩
  idle := fun held mem => by cases mem

theorem Ready.construct (ready : Ready lib) :
    Holds lib.store.embedders [none] (lib.does .construct) ∧ Same lib (lib.does .construct) :=
  have holds : Holds lib.store.embedders [] lib := ⟨ready.quiet, (List.append_nil _).symm⟩
  ⟨holds.construct.1, holds.construct.2.1⟩

theorem Holds.ready (h : Holds before tail lib) (idle : ∀ held ∈ before, held = none)
    (rest : ∀ held ∈ tail, held = none) : Ready lib where
  quiet := h.quiet
  idle := fun held mem => by
    rw [h.embedders, List.mem_append] at mem
    exact mem.elim (idle held) (rest held)

end

section
variable {α δ : Type} [Arith α] [Doubles δ] (widen : α → δ) (ofBits : UInt32 → δ)
  (inputs : Inputs) (texts groups : List Bytes)

/-- A test that loads the model, scores its vectors and checks nothing else. Loads go by the
    number of their call, and the test takes two of a model that opens. -/
def plainModel (loads : CallId → Load α) (s : CallId × Report δ) (name : String) :
    Option (CallId × Report δ) :=
  let (next, report) := s
  match entryNamed name with
  | none => some (next, report.print name .notInRegistry)
  | some entry =>
    match loads next with
    | .threw => none
    | .failed status _ => some (next + 1, report.fail name (.openFailed status.message))
    | .made tokenizer needsTokenTypeIds run =>
      let model := (Load.made tokenizer needsTokenTypeIds run).session entry {}
      some (next + 2, testVectors widen ofBits inputs texts groups name ⟨model⟩
        (fun _ => Arith.zero) report)

/-- What is printed and returned where no check but the scores can fail. -/
def plain (names : List String) (loads : CallId → Load α) : Option (ℕ × Report δ) :=
  match names, inputs.fixtures with
  | [], _ | _, none => some (2, {})
  | names, some (texts, groups) =>
    (names.foldlM (plainModel widen ofBits inputs texts groups loads) (0, {})).map
      fun (_, report) => (if report.failures = 0 then 0 else 1, report)

def progress (s : Library α × Report δ) : CallId × Report δ := (s.1.store.next, s.2)

variable {widen ofBits inputs texts groups} {lib : Library α} {report : Report δ}
  {name : String}

theorem testModel_unknown (unknown : entryNamed name = none) (loads : CallId → Load α) :
    testModel widen ofBits inputs texts groups loads (lib, report) name =
      some (lib, report.print name .notInRegistry) := by
  unfold testModel
  rw [chosen_eq, unknown]
  rfl

section
variable (widen ofBits inputs texts groups report) {entry : RegistryEntry ModelId}
  {loads : CallId → Load α}

theorem testModel_threw (ready : Ready lib) (found : entryNamed name = some entry)
    (load : loads lib.store.next = .threw) :
    testModel widen ofBits inputs texts groups loads (lib, report) name = none := by
  obtain ⟨h, same⟩ := ready.construct
  have opens := h.opens_threw ready.idle (List.mem_of_find?_eq_some found)
  unfold testModel
  rw [chosen_eq, found, Option.map_some]
  dsimp only [Library.fresh]
  rw [same.next, load, opens, Option.bind_none]

theorem testModel_failed (ready : Ready lib) (found : entryNamed name = some entry)
    {status : Status} {bad : status.ok = false} (load : loads lib.store.next = .failed status bad) :
    ∃ lib', testModel widen ofBits inputs texts groups loads (lib, report) name =
        some (lib', report.fail name (.openFailed status.message)) ∧
      Ready lib' ∧ lib'.store.next = lib.store.next + 1 := by
  obtain ⟨h, same⟩ := ready.construct
  obtain ⟨lib₁, opens, h₁, next⟩ :=
    h.opens_failed ready.idle (List.mem_of_find?_eq_some found) bad
  obtain ⟨h₂, same₂⟩ := h₁.destroy 0
  refine ⟨_, ?_, h₂.ready ready.idle (by simp), same₂.next.trans (next.trans (by rw [same.next]))⟩
  unfold testModel
  rw [chosen_eq, found, Option.map_some]
  dsimp only [Library.fresh]
  rw [same.next, load, opens, Option.bind_some]
  dsimp only
  rw [bad]
  rfl

theorem testModel_made (there : texts ≠ []) (ready : Ready lib)
    (found : entryNamed name = some entry) {load : Load α} (loaded : loads lib.store.next = load)
    {session : ModelSession ModelId α} (outcome : load.outcome = .returned {})
    (made : load.session entry {} = some session) (built : session.entry = entry) :
    ∃ lib', testModel widen ofBits inputs texts groups loads (lib, report) name =
        some (lib', testVectors widen ofBits inputs texts groups name ⟨some session⟩
          (fun _ => Arith.zero) report) ∧
      Ready lib' ∧ lib'.store.next = lib.store.next + 2 := by
  have known : entry ∈ kRegistry := List.mem_of_find?_eq_some found
  obtain ⟨h, same⟩ := ready.construct
  obtain ⟨lib₁, opens, h₁, leads, next₁⟩ := h.opens_made ready.idle known outcome made
  obtain ⟨lib₂, handles, h₂, leads₂, next₂⟩ := testHandles_eq h₁ ready.idle leads
    (next₁ ▸ (Nat.lt_succ_self _).ne) built known (loads lib₁.store.next) name report
  have model : lib₂.embedder lib.store.embedders.length = ⟨some session⟩ :=
    h₂.embedder (i := 0) rfl leads₂.impl leads₂.made
  obtain ⟨h₃, same₃⟩ := h₂.destroy 0
  refine ⟨_, ?_, h₃.ready ready.idle (by simp), ?_⟩
  · unfold testModel
    rw [chosen_eq, found, Option.map_some]
    dsimp only [Library.fresh]
    rw [same.next, loaded, opens, Option.bind_some]
    dsimp only
    rw [handles, Option.map_some, model, testRefusals_eq there (built ▸ known)]
    rfl
  · rw [same₃.next, next₂, next₁, same.next]

end

variable (widen ofBits inputs texts groups)

/-- One name takes the plain test along. -/
theorem testModel_eq (there : texts ≠ []) (ready : Ready lib) (loads : CallId → Load α)
    (name : String) :
    (testModel widen ofBits inputs texts groups loads (lib, report) name).map progress =
        plainModel widen ofBits inputs texts groups loads (lib.store.next, report) name ∧
      ∀ s, testModel widen ofBits inputs texts groups loads (lib, report) name = some s →
        Ready s.1 := by
  unfold plainModel
  dsimp only
  cases found : entryNamed name with
  | none =>
    rw [testModel_unknown found]
    exact ⟨rfl, fun s same => Option.some.inj same ▸ ready⟩
  | some entry =>
    dsimp only
    cases load : loads lib.store.next with
    | threw =>
      rw [testModel_threw _ _ _ _ _ _ ready found load]
      exact ⟨rfl, nofun⟩
    | failed status bad =>
      obtain ⟨lib', result, ready', next⟩ := testModel_failed widen ofBits inputs texts
        groups report ready found load
      rw [result, ← next]
      exact ⟨rfl, fun s same => Option.some.inj same ▸ ready'⟩
    | made tokenizer needsTokenTypeIds run =>
      obtain ⟨lib', result, ready', next⟩ := testModel_made widen ofBits inputs texts groups
        report there ready found load rfl rfl rfl
      rw [result, ← next]
      exact ⟨rfl, fun s same => Option.some.inj same ▸ ready'⟩

theorem foldlM_testModel (there : texts ≠ []) (loads : CallId → Load α) (names : List String) :
    ∀ s : Library α × Report δ, Ready s.1 →
      (names.foldlM (testModel widen ofBits inputs texts groups loads) s).map progress =
        names.foldlM (plainModel widen ofBits inputs texts groups loads) (progress s) := by
  induction names with
  | nil => exact fun _ _ => rfl
  | cons name names ih =>
    rintro ⟨lib, report⟩ ready
    obtain ⟨step, keeps⟩ := testModel_eq widen ofBits inputs texts groups there ready loads name
    rw [List.foldlM_cons, List.foldlM_cons]
    change Option.map progress (Option.bind _ _) = Option.bind (plainModel _ _ _ _ _ _ _ _) _
    rw [progress, ← step]
    cases done : testModel widen ofBits inputs texts groups loads (lib, report) name with
    | none => rfl
    | some s' => exact ih s' (keeps s' done)

theorem fixtures_there {inputs : Inputs} {texts groups : List Bytes}
    (h : inputs.fixtures = some (texts, groups)) : texts ≠ [] := by
  rintro rfl
  unfold Inputs.fixtures GoldenFiles.GoldenTest.fixtures at h
  dsimp only at h
  split at h
  · cases h
  · rename_i full
    obtain ⟨empty, -⟩ := Prod.mk.inj (Option.some.inj h)
    rw [empty] at full
    exact full rfl

/-- Whatever models are named, in any order and any number of times, and whatever their loads
    end with, the program prints and returns what the plain test does. None of its checks of
    handles, identities and refusals ever fails. -/
theorem main_eq_plain (names : List String) (loads : CallId → Load α) :
    main widen ofBits inputs names loads = plain widen ofBits inputs names loads := by
  unfold main plain
  cases names with
  | nil => rfl
  | cons name names =>
    cases fixtures : inputs.fixtures with
    | none => rfl
    | some given =>
      obtain ⟨texts, groups⟩ := given
      have run := foldlM_testModel widen ofBits inputs texts groups (fixtures_there fixtures)
        loads (name :: names) ({}, {}) initial_ready
      dsimp only
      rw [show ((0, {}) : CallId × Report δ) = progress ({}, {}) from rfl, ← run, Option.map_map]
      rfl

end
end CyborgdbEmbed.GoldenTest

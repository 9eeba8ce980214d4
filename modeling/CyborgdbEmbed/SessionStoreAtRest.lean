import CyborgdbEmbed.SessionStoreListing

set_option autoImplicit false

namespace CyborgdbEmbed.SessionStore
open TransitionSystem

def AtRest (σ : State) : Prop :=
  ∀ c call, σ.calls c = some call → ∃ outcome, call.phase = .done outcome

/-- What `loaded_models` says about `k`, and which sessions of `k` are gone. -/
structure ExactlyListed (σ : State) (k : Key) : Prop where
  rows : (loaded σ).filter (fun m => m.key = k) =
    if {c | HandleHeld σ k c}.ncard = 0 then []
    else [⟨k.model, k.provider, k.precision, ({c | HandleHeld σ k c}.ncard : ℕ)⟩]
  destroyed : ∀ s, BuiltFor σ s k → (σ.useCount s = 0 ↔ ∀ c, ¬ HandleOf σ c s)

theorem filter_rows {l : List (Sigma fun _ : Key => Entry)} (nodup : l.NodupKeys) (k : Key)
    (row : Key → Entry → Option LoadedModel) (keyed : ∀ j e m, row j e = some m → m.key = j) :
    (l.filterMap fun p => row p.1 p.2).filter (fun m => m.key = k) =
      ((l.dlookup k).bind (row k)).toList := by
  induction l with
  | nil => rfl
  | cons p l ih =>
    obtain ⟨j, e⟩ := p
    have tail := ih (List.nodupKeys_of_nodupKeys_cons nodup)
    by_cases hj : k = j
    · subst hj
      have absent : l.dlookup k = none :=
        List.dlookup_eq_none.mpr (List.notMem_keys_of_nodupKeys_cons nodup)
      rw [absent] at tail
      rw [List.dlookup_cons_eq, Option.bind_some, List.filterMap_cons]
      cases hr : row k e with
      | none => exact tail
      | some m =>
        have same : decide (m.key = k) = true := decide_eq_true (keyed k e m hr)
        change List.filter _ (m :: _) = [m]
        exact (List.filter_cons_of_pos (p := fun m : LoadedModel => m.key = k) same).trans
          (congrArg (m :: ·) tail)
    · rw [List.dlookup_cons_ne _ _ hj, ← tail, List.filterMap_cons]
      cases hr : row j e with
      | none => rfl
      | some m =>
        have other : ¬ decide (m.key = k) = true := fun h =>
          hj ((of_decide_eq_true h).symm.trans (keyed j e m hr))
        exact List.filter_cons_of_neg (p := fun m : LoadedModel => m.key = k) other

theorem loaded_filter (σ : State) (k : Key) :
    (loaded σ).filter (fun m => m.key = k) =
      ((σ.entries.lookup k).bind (loadedRow σ k)).toList :=
  filter_rows σ.entries.nodupKeys k (loadedRow σ) fun _ _ _ => loadedRow_key

section
variable {σ : State}

theorem AtRest.not_heldByCall (rest : AtRest σ) (s : CallId) : ¬ HeldByCall σ s := by
  rintro ⟨c, call, hc, hs⟩
  obtain ⟨outcome, hp⟩ := rest _ _ hc
  simp only [Call.session, hp, reduceCtorEq] at hs

/-- A future that is still in the map at rest belongs to a load that threw. -/
theorem AtRest.not_heldByFuture (rest : AtRest σ) (inv : Inv σ) (s : CallId) :
    ¬ HeldByFuture σ s := by
  rintro ⟨f, hv, ⟨k, e, he, hf⟩ | ⟨c, call, hc, hf⟩⟩
  · obtain ⟨_, call, hc, _, hp⟩ := inv.pending k e f he hf
    obtain ⟨outcome, hdone⟩ := rest _ _ hc
    have threw : call.phase = .done (.threw f) := by
      refine hp.resolve_left ?_
      rw [hdone]
      exact id
    have sound := inv.sound f call hc
    rw [threw] at sound
    cases hv.symm.trans (sound rfl).2
  · obtain ⟨outcome, hp⟩ := rest _ _ hc
    simp only [Call.future, hp, reduceCtorEq] at hf

theorem AtRest.no_window (rest : AtRest σ) {s : CallId} {loader : Call}
    (hs : σ.calls s = some loader) : ¬ loader.phase.window := by
  obtain ⟨outcome, hp⟩ := rest _ _ hs
  rw [hp]
  exact id

theorem countP_handles (inv : Inv σ) (s : CallId) :
    (List.range σ.next).countP
      (fun i => σ.impls i == some s && σ.embedders.contains (some i)) =
        {c | HandleOf σ c s}.ncard := by
  have handles : {c | HandleOf σ c s} = ((Finset.range σ.next).filter fun i =>
      (σ.impls i == some s && σ.embedders.contains (some i)) = true : Finset ℕ) := by
    ext c
    simp only [HandleOf, Set.mem_ofPred_eq, Finset.coe_filter, Finset.mem_range, Bool.and_eq_true,
      beq_iff_eq, List.contains_iff_mem]
    constructor
    · intro h
      exact ⟨inv.numbered.impls c s h.1, h⟩
    · intro h
      exact h.2
  rw [handles, Set.ncard_coe_finset, List.countP_eq_length_filter]
  simp only [Finset.card, Finset.filter_val, Finset.range_val, Multiset.range, Multiset.filter_coe,
    Multiset.coe_card, Bool.decide_eq_true]

theorem AtRest.useCount (rest : AtRest σ) (inv : Inv σ) (s : CallId) :
    σ.useCount s = {c | HandleOf σ c s}.ncard := by
  have locals := (heldByCall_iff inv.numbered s).not.mpr (rest.not_heldByCall s)
  have futures := (heldByFuture_iff inv.numbered s).not.mpr (rest.not_heldByFuture inv s)
  rw [← countP_handles inv s]
  unfold State.useCount
  omega

theorem Inv.handles_finite (inv : Inv σ) (s : CallId) : {c | HandleOf σ c s}.Finite :=
  (Set.finite_lt_nat σ.next).subset fun c h => inv.numbered.impls c s h.1

theorem AtRest.handleHeld_iff (rest : AtRest σ) (inv : Inv σ) {k : Key} {e : Entry} {s : CallId}
    (he : σ.entries.lookup k = some e) (hs : e.session = some s) (c : CallId) :
    HandleHeld σ k c ↔ HandleOf σ c s := by
  constructor
  · intro held
    obtain ⟨t, handle, built⟩ := inv.held_handle held
    rcases inv.placed t k built (.inr (.inr ⟨c, handle⟩)) with ⟨e', he', ht⟩ | ⟨loader, hl, hw⟩
    · obtain rfl := Option.some.inj (he.symm.trans he')
      obtain rfl := Option.some.inj (hs.symm.trans ht)
      exact handle
    · exact absurd hw (rest.no_window hl)
  · rintro ⟨himpl, hmem⟩
    obtain ⟨call, hc, hp⟩ := inv.impl c s himpl
    have built : BuiltFor σ s call.key := by
      have sound := inv.sound c call hc
      rw [hp] at sound
      exact sound.1
    obtain ⟨x, hx, hxk⟩ := inv.listed k e s he hs
    obtain ⟨y, hy, hyk⟩ := built
    obtain rfl := Option.some.inj (hx.symm.trans hy)
    exact ⟨call, s, hc, hyk.symm.trans hxk, hp, hmem⟩

theorem AtRest.handleHeld_listed (rest : AtRest σ) (inv : Inv σ) {k : Key} {c : CallId}
    (held : HandleHeld σ k c) : ∃ e s, σ.entries.lookup k = some e ∧ e.session = some s := by
  obtain ⟨s, handle, built⟩ := inv.held_handle held
  rcases inv.placed s k built (.inr (.inr ⟨c, handle⟩)) with ⟨e, he, hs⟩ | ⟨loader, hl, hw⟩
  · exact ⟨e, s, he, hs⟩
  · exact absurd hw (rest.no_window hl)

theorem AtRest.rows (rest : AtRest σ) (inv : Inv σ) (k : Key) :
    (loaded σ).filter (fun m => m.key = k) =
      if {c | HandleHeld σ k c}.ncard = 0 then []
      else [⟨k.model, k.provider, k.precision, ({c | HandleHeld σ k c}.ncard : ℕ)⟩] := by
  rw [loaded_filter]
  by_cases h : ∃ e s, σ.entries.lookup k = some e ∧ e.session = some s
  · obtain ⟨e, s, he, hs⟩ := h
    have same : {c | HandleHeld σ k c} = {c | HandleOf σ c s} :=
      Set.ext fun c => rest.handleHeld_iff inv he hs c
    rw [same, ← rest.useCount inv s, he, Option.bind_some]
    by_cases used : σ.useCount s = 0
    · have dead : σ.lock e.session = none := by
        simp only [State.lock, hs, Option.filter_some, used, lt_irrefl, decide_false,
          Bool.false_eq_true, ↓reduceIte]
      simp only [loadedRow, dead, Option.map_none, Option.toList_none, used, ↓reduceIte]
    · have live := lock_eq_some_iff.mpr ⟨hs, Nat.pos_of_ne_zero used⟩
      have count : ((σ.useCount s + 1 : ℕ) : Int) - 1 = (σ.useCount s : ℕ) := by omega
      simp only [loadedRow, live, Option.map_some, Option.toList_some, used, ↓reduceIte, count]
  · have none_held : {c | HandleHeld σ k c} = ∅ :=
      Set.eq_empty_of_forall_notMem fun c held => h (rest.handleHeld_listed inv held)
    rw [none_held, Set.ncard_empty]
    cases he : σ.entries.lookup k with
    | none => rfl
    | some e =>
      have hs : e.session = none := Option.eq_none_iff_forall_ne_some.mpr
        fun s hs => h ⟨e, s, he, hs⟩
      simp [loadedRow, hs, State.lock]

end

/-- In every reachable state without a running open, a key is listed with one row that
    counts the opens still held, or with none, and a session lives while it has a handle. -/
theorem exactlyListed {σ : State} (h : Reachable σ) (rest : AtRest σ) (k : Key) :
    ExactlyListed σ k where
  rows := rest.rows h.inv k
  destroyed := fun s _ => by
    rw [rest.useCount h.inv s, Set.ncard_eq_zero (h.inv.handles_finite s),
      Set.eq_empty_iff_forall_notMem]
    rfl

/-- Two opens of one model share a session. The first handle is copied, the second dropped. -/
def sharedThenDropped : List Action :=
  twoOpens bgeSmallEnV15 ++ [.ret 1, .finish 1, .publish 0, .ret 0, .finish 0,
    .construct, .copy 2 0, .destroy 1]

theorem exactlyListed_sharedThenDropped : ExactlyListed (after sharedThenDropped)
    ⟨.bgeSmallEnV15, .cpu, .fp32⟩ := by
  have reached : Reachable (after sharedThenDropped) := reachable_after (by decide)
  have ended (c : CallId) (hc : c < 2) :
      ((after sharedThenDropped).calls c).map (·.phase) = some (.done (.ok 0)) := by
    match c, hc with
    | 0, _ => decide
    | 1, _ => decide
  refine exactlyListed reached (fun c call hc => ?_) _
  have two : (after sharedThenDropped).next = 2 := by decide
  have hp := ended c (by rw [← two]; exact reached.inv.started c call hc)
  rw [hc] at hp
  exact ⟨_, Option.some.inj hp⟩

end CyborgdbEmbed.SessionStore

import CyborgdbEmbed.SessionStoreSteps

set_option autoImplicit false

namespace CyborgdbEmbed.SessionStore

/-- Some entry or some call's locals refer to the shared state of `f`. -/
def FutureHeld (σ : State) (f : CallId) : Prop :=
  (∃ k e, σ.entries.lookup k = some e ∧ e.pending = some f) ∨
    ∃ c call, σ.calls c = some call ∧ call.future c = some f

def HeldByCall (σ : State) (s : CallId) : Prop :=
  ∃ c call, σ.calls c = some call ∧ call.session c = some s

def HeldByFuture (σ : State) (s : CallId) : Prop :=
  ∃ f, σ.futures f = .value (some s) ∧ FutureHeld σ f

def HeldByHandle (σ : State) (s : CallId) : Prop :=
  ∃ i, σ.impls i = some s ∧ some i ∈ σ.embedders

def Holds (σ : State) (s : CallId) : Prop :=
  HeldByCall σ s ∨ HeldByFuture σ s ∨ HeldByHandle σ s

structure Numbered (σ : State) : Prop where
  calls : ∀ c call, σ.calls c = some call → c < σ.next
  futures : ∀ f, σ.futures f ≠ .empty → f < σ.next
  impls : ∀ i s, σ.impls i = some s → i < σ.next

theorem mem_entries_iff {σ : State} {k : Key} {e : Entry} :
    (⟨k, e⟩ : Sigma fun _ : Key => Entry) ∈ σ.entries.entries ↔ σ.entries.lookup k = some e :=
  AList.mem_lookup_iff.symm

theorem any_calls_iff {σ : State} (numbered : Numbered σ) (q : CallId → Call → Bool) :
    (List.range σ.next).any (fun c => (σ.calls c).any (q c)) = true ↔
      ∃ c call, σ.calls c = some call ∧ q c call = true := by
  constructor
  · intro h
    obtain ⟨c, _, hc⟩ := List.any_eq_true.mp h
    obtain ⟨call, hcall, hq⟩ := (Option.any_eq_true _ _).mp hc
    exact ⟨c, call, hcall, hq⟩
  · rintro ⟨c, call, hcall, hq⟩
    refine List.any_eq_true.mpr ⟨c, List.mem_range.mpr (numbered.calls c call hcall), ?_⟩
    exact (Option.any_eq_true _ _).mpr ⟨call, hcall, hq⟩

theorem futureAlive_iff {σ : State} (numbered : Numbered σ) (f : CallId) :
    σ.futureAlive f = true ↔ FutureHeld σ f := by
  unfold State.futureAlive FutureHeld
  rw [Bool.or_eq_true, any_calls_iff numbered]
  simp only [List.any_eq_true, beq_iff_eq, Sigma.exists, mem_entries_iff]

theorem heldByCall_iff {σ : State} (numbered : Numbered σ) (s : CallId) :
    0 < (List.range σ.next).countP
      (fun c => (σ.calls c).any fun call => call.session c == some s) ↔ HeldByCall σ s := by
  rw [List.countP_pos_iff, ← List.any_eq_true,
    any_calls_iff numbered fun c call => call.session c == some s]
  simp only [beq_iff_eq, HeldByCall]

theorem heldByFuture_iff {σ : State} (numbered : Numbered σ) (s : CallId) :
    0 < (List.range σ.next).countP
      (fun f => σ.futures f == .value (some s) && σ.futureAlive f) ↔ HeldByFuture σ s := by
  simp only [List.countP_pos_iff, List.mem_range, Bool.and_eq_true, beq_iff_eq,
    futureAlive_iff numbered, HeldByFuture]
  constructor
  · rintro ⟨f, _, h⟩
    exact ⟨f, h⟩
  · rintro ⟨f, hv, h⟩
    exact ⟨f, numbered.futures f (by simp [hv]), hv, h⟩

theorem heldByHandle_iff {σ : State} (numbered : Numbered σ) (s : CallId) :
    0 < (List.range σ.next).countP
      (fun i => σ.impls i == some s && σ.embedders.contains (some i)) ↔ HeldByHandle σ s := by
  simp only [List.countP_pos_iff, List.mem_range, Bool.and_eq_true, beq_iff_eq,
    List.contains_iff_mem, HeldByHandle]
  constructor
  · rintro ⟨i, _, h⟩
    exact ⟨i, h⟩
  · rintro ⟨i, hi, h⟩
    exact ⟨i, numbered.impls i s hi, hi, h⟩

theorem useCount_pos_iff {σ : State} (numbered : Numbered σ) (s : CallId) :
    0 < σ.useCount s ↔ Holds σ s := by
  unfold Holds
  rw [← heldByCall_iff numbered, ← heldByFuture_iff numbered, ← heldByHandle_iff numbered]
  unfold State.useCount
  omega

end CyborgdbEmbed.SessionStore

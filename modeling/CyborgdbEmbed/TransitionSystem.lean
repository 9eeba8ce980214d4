import Mathlib.Data.List.Basic
import Mathlib.Tactic.Common

set_option autoImplicit false

/-!
# Runs of a partial step function

A system is given by `step : σ → α → Option σ`: an action that is not enabled in
a state gives no next state. Nondeterminism lives in the action. A run carries
the list of its actions, so a property of a run can speak about the steps taken
as well as about the states visited.
-/
namespace CyborgdbEmbed.TransitionSystem

variable {σ α : Type*} {step : σ → α → Option σ}

inductive Run (step : σ → α → Option σ) : σ → List α → σ → Prop where
  | refl (s : σ) : Run step s [] s
  | next {s u v : σ} {a : α} {as : List α} (h : step s a = some u) (tail : Run step u as v) :
      Run step s (a :: as) v

/-- Executable counterpart of `Run`. -/
def exec (step : σ → α → Option σ) : σ → List α → Option σ
  | s, [] => some s
  | s, a :: as => (step s a).bind fun u => exec step u as

theorem exec_run {s v : σ} {as : List α} (h : exec step s as = some v) : Run step s as v := by
  induction as generalizing s with
  | nil =>
    obtain rfl : s = v := Option.some.inj h
    exact .refl _
  | cons a as ih =>
    obtain ⟨u, hu, hv⟩ := Option.bind_eq_some_iff.mp h
    exact .next hu (ih hv)

theorem run_exec {s : σ} {as : List α} (h : (exec step s as).isSome = true) :
    Run step s as ((exec step s as).getD s) := by
  obtain ⟨v, hv⟩ := Option.isSome_iff_exists.mp h
  rw [hv]
  exact exec_run hv

theorem Run.exec_eq {s v : σ} {as : List α} (h : Run step s as v) : exec step s as = some v := by
  induction h with
  | refl s => rfl
  | next h _ ih => simp only [exec, h, Option.bind_some, ih]

theorem Run.trans {s u v : σ} {as bs : List α} (h : Run step s as u) (h' : Run step u bs v) :
    Run step s (as ++ bs) v := by
  induction h with
  | refl _ => exact h'
  | next hs _ ih => exact .next hs (ih h')

/-- The step at which a run comes to satisfy `P`. -/
theorem Run.first_step {P : σ → Prop} {s v : σ} {as : List α} (h : Run step s as v)
    (hs : ¬ P s) (hv : P v) :
    ∃ before a after m u, as = before ++ a :: after ∧ Run step s before m ∧
      step m a = some u ∧ Run step u after v ∧ ¬ P m ∧ P u := by
  induction h with
  | refl s => exact absurd hv hs
  | @next s u v a as h tail ih =>
    by_cases hu : P u
    · exact ⟨[], a, as, s, u, rfl, .refl s, h, tail, hs, hu⟩
    · obtain ⟨before, b, after, m, w, rfl, hm, hw, hafter, hPm, hPw⟩ := ih hu hv
      exact ⟨a :: before, b, after, m, w, rfl, .next h hm, hw, hafter, hPm, hPw⟩

theorem Run.invariant {I : σ → Prop} (hstep : ∀ s a u, I s → step s a = some u → I u)
    {s v : σ} {as : List α} (h : Run step s as v) (hs : I s) : I v := by
  induction h with
  | refl _ => exact hs
  | next h _ ih => exact ih (hstep _ _ _ hs h)

/-- As `Run.invariant`, for a property of the state and of the actions taken so far. -/
theorem Run.history {I : List α → σ → Prop}
    (hstep : ∀ as s a u, I as s → step s a = some u → I (as ++ [a]) u)
    {s v : σ} {as : List α} (h : Run step s as v) (hs : I [] s) : I as v := by
  suffices key : ∀ before, I before s → I (before ++ as) v from key [] hs
  clear hs
  induction h with
  | refl s =>
    intro before hs
    rwa [List.append_nil]
  | @next s u v a as h tail ih =>
    intro before hs
    rw [List.append_cons]
    exact ih (before ++ [a]) (hstep before s a u hs h)

def total (gain : α → ℕ) : List α → ℕ
  | [] => 0
  | a :: as => gain a + total gain as

/-- Where every action but for what it brings in lowers the rank, a run is no longer
    than the rank it starts with and what its actions bring. -/
theorem Run.length_le {I : σ → Prop} (rank : σ → ℕ) (gain : α → ℕ)
    (hI : ∀ s a u, I s → step s a = some u → I u)
    (hstep : ∀ s a u, I s → step s a = some u → rank u + 1 ≤ rank s + gain a)
    {s v : σ} {as : List α} (h : Run step s as v) (hs : I s) :
    as.length + rank v ≤ rank s + total gain as := by
  induction h with
  | refl s => exact Nat.le_of_eq (Nat.zero_add _)
  | next h _ ih =>
    have first := hstep _ _ _ hs h
    have rest := ih (hI _ _ _ hs h)
    rw [List.length_cons, total]
    omega

def trace {β : Type*} (step : σ → α → Option σ) (f : σ → α → Option β) : σ → List α → List β
  | _, [] => []
  | s, a :: as => (f s a).toList ++ (step s a).elim [] fun u => trace step f u as

theorem trace_cons {β : Type*} {f : σ → α → Option β} {s u : σ} {a : α} (h : step s a = some u)
    (as : List α) : trace step f s (a :: as) = (f s a).toList ++ trace step f u as := by
  rw [trace, h]
  rfl

/-- A value that every step either keeps or sets to what it shows is, at the end of
    a run, the last thing shown. -/
theorem Run.last_shown {β : Type*} {f : σ → α → Option β} {value : σ → β}
    (hstep : ∀ s a u, step s a = some u → value u = (f s a).getD (value s))
    {s v : σ} {as : List α} (h : Run step s as v) :
    value v = (trace step f s as).getLastD (value s) := by
  induction h with
  | refl s => rfl
  | next h _ ih =>
    rw [trace_cons h, ih, hstep _ _ _ h]
    cases f _ _ with
    | none => rfl
    | some x => exact List.getLastD_cons.symm

/-- `AllSteps C` says of the run of `as` from `s` that every step it takes meets
    `C`, a condition on the action and on the state before it. -/
def AllSteps (step : σ → α → Option σ) (C : σ → α → Prop) : σ → List α → Prop
  | _, [] => True
  | s, a :: as => ∀ u, step s a = some u → C s a ∧ AllSteps step C u as

theorem allSteps_of_forall {C : α → Prop} {as : List α} (h : ∀ a ∈ as, C a) (s : σ) :
    AllSteps step (fun _ a => C a) s as := by
  induction as generalizing s with
  | nil => trivial
  | cons a as ih =>
    rw [List.forall_mem_cons] at h
    exact fun u _ => ⟨h.1, ih h.2 u⟩

/-- `AllStates P` says of the run of `as` from `s` that every state it visits,
    the first and the last included, satisfies `P`. -/
def AllStates (step : σ → α → Option σ) (P : σ → Prop) : σ → List α → Prop
  | s, [] => P s
  | s, a :: as => P s ∧ ∀ u, step s a = some u → AllStates step P u as

theorem AllStates.head {P : σ → Prop} {s : σ} {as : List α} (h : AllStates step P s as) :
    P s := by
  cases as with
  | nil => exact h
  | cons a as => exact h.1

theorem AllStates.last {P : σ → Prop} {s v : σ} {as : List α} (h : AllStates step P s as)
    (run : Run step s as v) : P v := by
  induction run with
  | refl s => exact h
  | next hs _ ih => exact ih (h.2 _ hs)

theorem AllSteps.allStates {C : σ → α → Prop} {I : σ → Prop}
    (hstep : ∀ s a u, I s → C s a → step s a = some u → I u)
    {s : σ} {as : List α} (hc : AllSteps step C s as) (hs : I s) : AllStates step I s as := by
  induction as generalizing s with
  | nil => exact hs
  | cons a as ih =>
    refine ⟨hs, fun u hu => ?_⟩
    obtain ⟨ha, htail⟩ := hc u hu
    exact ih htail (hstep s a u hs ha hu)

theorem AllStates.mono {P Q : σ → Prop} (hPQ : ∀ s, P s → Q s) {s : σ} {as : List α}
    (h : AllStates step P s as) : AllStates step Q s as := by
  induction as generalizing s with
  | nil => exact hPQ s h
  | cons a as ih => exact ⟨hPQ s h.1, fun u hu => ih (h.2 u hu)⟩

/-- When, within an invariant `I`, a step keeps `P` exactly if it meets `C`, a run
    stays in `P` exactly if all its steps meet `C`. -/
theorem allStates_iff_allSteps {C : σ → α → Prop} {I P : σ → Prop}
    (hI : ∀ s a u, I s → step s a = some u → I u)
    (hP : ∀ s a u, I s → P s → step s a = some u → (P u ↔ C s a))
    {s : σ} {as : List α} (hs : I s) (hPs : P s) :
    AllStates step P s as ↔ AllSteps step C s as := by
  constructor
  · intro h
    induction as generalizing s with
    | nil => trivial
    | cons a as ih =>
      intro u hu
      have hPu : P u := (h.2 u hu).head
      exact ⟨(hP s a u hs hPs hu).mp hPu, ih (hI s a u hs hu) hPu (h.2 u hu)⟩
  · intro h
    have key : AllStates step (fun s => I s ∧ P s) s as :=
      h.allStates (fun s a u hi hc hu =>
        ⟨hI s a u hi.1 hu, (hP s a u hi.1 hi.2 hu).mpr hc⟩) ⟨hs, hPs⟩
    exact key.mono fun _ hi => hi.2

/-- When, within an invariant `I`, a step ends in `P` exactly if it starts in `P` and
    meets `C`, a run ends in `P` exactly if all its steps meet `C`. -/
theorem Run.last_iff_allSteps {C : σ → α → Prop} {I P : σ → Prop}
    (hI : ∀ s a u, I s → step s a = some u → I u)
    (hP : ∀ s a u, I s → step s a = some u → (P u ↔ P s ∧ C s a))
    {s v : σ} {as : List α} (h : Run step s as v) (hs : I s) (hPs : P s) :
    P v ↔ AllSteps step C s as := by
  suffices key : P v ↔ P s ∧ AllSteps step C s as by
    rw [key]
    exact and_iff_right hPs
  clear hPs
  induction h with
  | refl s => exact (and_iff_left trivial).symm
  | @next s u v a as hstep tail ih =>
    have hcons : AllSteps step C s (a :: as) ↔ C s a ∧ AllSteps step C u as := by
      constructor
      · intro h
        exact h u hstep
      · intro h w hw
        obtain rfl : u = w := Option.some.inj (hstep.symm.trans hw)
        exact h
    rw [ih (hI s a u hs hstep), hP s a u hs hstep, hcons, and_assoc]

end CyborgdbEmbed.TransitionSystem

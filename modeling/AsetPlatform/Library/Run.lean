import Mathlib.Data.List.Basic

/-!
# Runs of a deterministic transition system

A system is a step function `step : σ → ε → σ`; the nondeterminism of its environment is carried by
the events. `runFrom` is the state after a list of events. `EveryStep` says that a property of the
state before a step and of its event holds at each step of a run, and `EveryState` that a property
of states holds in the start state and after each step.

The rules: an invariant kept by every guarded step holds in every state of a run whose steps all
meet the guard (`everyState_of_invariant`), it turns into properties of the steps
(`everyStep_of_invariant`), two step properties that agree under an unconditional invariant hold of
the same runs (`everyStep_congr`), and a guard that is exactly what each step needs characterises
the good runs (`everyStep_iff_guarded`, `everyState_iff_everyStep`).
-/

set_option autoImplicit false

namespace AsetPlatform.Library

universe u v

section Run

variable {σ : Type u} {ε : Type v} (step : σ → ε → σ)

/-- The state after the events `es`. -/
def runFrom (s : σ) (es : List ε) : σ := es.foldl step s

/-- `P` holds of the state before each step and the event of that step. -/
def EveryStep (P : σ → ε → Prop) : σ → List ε → Prop
  | _, [] => True
  | s, e :: es => P s e ∧ EveryStep P (step s e) es

/-- `P` holds in the start state and after each step. -/
def EveryState (P : σ → Prop) (s : σ) (es : List ε) : Prop :=
  P s ∧ EveryStep step (fun t e => P (step t e)) s es

instance EveryStep.decidable (P : σ → ε → Prop) [∀ s e, Decidable (P s e)] :
    ∀ s es, Decidable (EveryStep step P s es)
  | _, [] => isTrue trivial
  | s, e :: es =>
      @instDecidableAnd _ _ inferInstance (EveryStep.decidable P (step s e) es)

@[simp]
theorem runFrom_nil (s : σ) : runFrom step s [] = s := rfl

@[simp]
theorem runFrom_cons (s : σ) (e : ε) (es : List ε) :
    runFrom step s (e :: es) = runFrom step (step s e) es := rfl

theorem runFrom_append (s : σ) (es fs : List ε) :
    runFrom step s (es ++ fs) = runFrom step (runFrom step s es) fs := by
  simp only [runFrom, List.foldl_append]

@[simp]
theorem everyStep_nil (P : σ → ε → Prop) (s : σ) : EveryStep step P s [] := trivial

@[simp]
theorem everyStep_cons (P : σ → ε → Prop) (s : σ) (e : ε) (es : List ε) :
    EveryStep step P s (e :: es) ↔ P s e ∧ EveryStep step P (step s e) es := Iff.rfl

variable {step}

theorem EveryStep.imp {P Q : σ → ε → Prop} (hPQ : ∀ s e, P s e → Q s e) {s : σ} {es : List ε}
    (h : EveryStep step P s es) : EveryStep step Q s es := by
  induction es generalizing s with
  | nil => trivial
  | cons e es ih => exact ⟨hPQ s e h.1, ih h.2⟩

theorem EveryStep.and {P Q : σ → ε → Prop} {s : σ} {es : List ε} (hP : EveryStep step P s es)
    (hQ : EveryStep step Q s es) : EveryStep step (fun t e => P t e ∧ Q t e) s es := by
  induction es generalizing s with
  | nil => trivial
  | cons e es ih => exact ⟨⟨hP.1, hQ.1⟩, ih hP.2 hQ.2⟩

theorem everyStep_and {P Q : σ → ε → Prop} {s : σ} {es : List ε} :
    EveryStep step (fun t e => P t e ∧ Q t e) s es ↔ EveryStep step P s es ∧ EveryStep step Q s es :=
  ⟨fun h => ⟨h.imp fun _ _ hHere => hHere.1, h.imp fun _ _ hHere => hHere.2⟩,
    fun h => h.1.and h.2⟩

theorem everyStep_of_forall {P : σ → ε → Prop} (h : ∀ s e, P s e) :
    ∀ s es, EveryStep step P s es
  | _, [] => trivial
  | s, e :: es => ⟨h s e, everyStep_of_forall h (step s e) es⟩

/-- The invariant rule for steps: a guarded invariant gives a property of every step. -/
theorem everyStep_of_invariant {inv : σ → Prop} {guard P : σ → ε → Prop}
    (hstep : ∀ s e, inv s → guard s e → inv (step s e))
    (hP : ∀ s e, inv s → guard s e → P s e) {s : σ} {es : List ε} (hs : inv s)
    (hg : EveryStep step guard s es) : EveryStep step P s es := by
  induction es generalizing s with
  | nil => trivial
  | cons e es ih => exact ⟨hP s e hs hg.1, ih (hstep s e hs hg.1) hg.2⟩

theorem everyState_of_invariant {inv : σ → Prop} {guard : σ → ε → Prop}
    (hstep : ∀ s e, inv s → guard s e → inv (step s e)) {s : σ} {es : List ε} (hs : inv s)
    (hg : EveryStep step guard s es) : EveryState step inv s es :=
  ⟨hs, everyStep_of_invariant hstep hstep hs hg⟩

theorem everyState_of_kept {inv : σ → Prop} (hstep : ∀ s e, inv s → inv (step s e)) {s : σ}
    (hs : inv s) (es : List ε) : EveryState step inv s es := by
  refine ⟨hs, ?_⟩
  induction es generalizing s with
  | nil => trivial
  | cons e es ih => exact ⟨hstep s e hs, ih (hstep s e hs)⟩

theorem EveryState.imp {P Q : σ → Prop} (hPQ : ∀ s, P s → Q s) {s : σ} {es : List ε}
    (h : EveryState step P s es) : EveryState step Q s es :=
  ⟨hPQ s h.1, h.2.imp fun t e => hPQ (step t e)⟩

theorem EveryState.last {P : σ → Prop} {s : σ} {es : List ε} (h : EveryState step P s es) :
    P (runFrom step s es) := by
  induction es generalizing s with
  | nil => exact h.1
  | cons e es ih => exact ih ⟨h.2.1, h.2.2⟩

theorem everyStep_congr {inv : σ → Prop} {P Q : σ → ε → Prop}
    (hstep : ∀ s e, inv s → inv (step s e)) (hPQ : ∀ s e, inv s → (P s e ↔ Q s e))
    {s : σ} {es : List ε} (hs : inv s) : EveryStep step P s es ↔ EveryStep step Q s es := by
  induction es generalizing s with
  | nil => exact Iff.rfl
  | cons e es ih =>
      rw [everyStep_cons, everyStep_cons, hPQ s e hs, ih (hstep s e hs)]

/-- When a guard keeps an invariant and, under it, is just what a step needs to be good, the runs of
good steps are the guarded ones. -/
theorem everyStep_iff_guarded {inv : σ → Prop} {guard P : σ → ε → Prop}
    (hstep : ∀ s e, inv s → guard s e → inv (step s e)) (hP : ∀ s e, inv s → (P s e ↔ guard s e))
    {s : σ} {es : List ε} (hs : inv s) : EveryStep step P s es ↔ EveryStep step guard s es := by
  induction es generalizing s with
  | nil => exact Iff.rfl
  | cons e es ih =>
      rw [everyStep_cons, everyStep_cons, hP s e hs]
      constructor
      · rintro ⟨hg, hrest⟩
        exact ⟨hg, (ih (hstep s e hs hg)).mp hrest⟩
      · rintro ⟨hg, hrest⟩
        exact ⟨hg, (ih (hstep s e hs hg)).mpr hrest⟩

/-- When a guard keeps an invariant and, under it, is just what a step needs to reach a good state,
the runs through good states are the guarded ones. -/
theorem everyState_iff_everyStep {inv P : σ → Prop} {guard : σ → ε → Prop}
    (hstep : ∀ s e, inv s → guard s e → inv (step s e))
    (hP : ∀ s e, inv s → (P (step s e) ↔ guard s e)) {s : σ} {es : List ε} (hs : inv s)
    (hPs : P s) : EveryState step P s es ↔ EveryStep step guard s es := by
  unfold EveryState
  rw [everyStep_iff_guarded hstep hP hs]
  exact and_iff_right hPs

end Run

end AsetPlatform.Library

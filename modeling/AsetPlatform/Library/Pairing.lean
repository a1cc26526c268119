import Mathlib.Data.List.Basic

/-!
# Calls and their answers

A trace of calls and answers, each with the key that ties an answer to its call. A trace is paired
when every answer comes after a call of its key and every call has an answer after it. Cutting off a
first part of a paired trace keeps the answered calls answered; it leaves an answer without its call
exactly when a pair is split by the cut (`paired_of_append_iff`).
-/

set_option autoImplicit false

namespace AsetPlatform.Library

universe u

/-- An entry of a trace. -/
inductive Mark (κ : Type u) where
  | call (k : κ)
  | answer (k : κ)
  deriving DecidableEq, Repr

variable {κ : Type u}

/-- Every answer of the trace is to a call among `seen` or to an earlier call of the trace. -/
def Called : List κ → List (Mark κ) → Prop
  | _, [] => True
  | seen, .call k :: t => Called (k :: seen) t
  | seen, .answer k :: t => k ∈ seen ∧ Called seen t

/-- Every call of the trace has a later answer. -/
def Answered : List (Mark κ) → Prop
  | [] => True
  | .call k :: t => .answer k ∈ t ∧ Answered t
  | .answer _ :: t => Answered t

/-- Answers and calls match. -/
structure Paired (t : List (Mark κ)) : Prop where
  called : Called [] t
  answered : Answered t

/-- A call of the first part is answered in the second one, where the call has not been repeated up
to then. -/
def Splits (d t : List (Mark κ)) : Prop :=
  ∃ k before after, .call k ∈ d ∧ t = before ++ .answer k :: after ∧ .call k ∉ before

instance decidableCalled [DecidableEq κ] :
    (seen : List κ) → (t : List (Mark κ)) → Decidable (Called seen t)
  | _, [] => .isTrue trivial
  | seen, .call k :: t => decidableCalled (k :: seen) t
  | seen, .answer k :: t =>
      haveI := decidableCalled seen t
      inferInstanceAs (Decidable (k ∈ seen ∧ Called seen t))

instance decidableAnswered [DecidableEq κ] : (t : List (Mark κ)) → Decidable (Answered t)
  | [] => .isTrue trivial
  | .call k :: t =>
      haveI := decidableAnswered t
      inferInstanceAs (Decidable (.answer k ∈ t ∧ Answered t))
  | .answer _ :: t => decidableAnswered t

instance decidablePaired [DecidableEq κ] (t : List (Mark κ)) : Decidable (Paired t) :=
  decidable_of_iff (Called [] t ∧ Answered t) ⟨fun h => ⟨h.1, h.2⟩, fun h => ⟨h.1, h.2⟩⟩

/-! ## The answers of a trace -/

/-- The position-free form: in front of each answer the call has been seen. -/
theorem called_iff (seen : List κ) (t : List (Mark κ)) :
    Called seen t ↔ ∀ before k after, t = before ++ .answer k :: after →
      k ∈ seen ∨ .call k ∈ before := by
  induction t generalizing seen with
  | nil => simp [Called]
  | cons mark t ih =>
      cases mark with
      | call j =>
          rw [Called, ih]
          constructor
          · intro h before k after hsplit
            obtain ⟨rest, rfl, rfl⟩ : ∃ rest, before = .call j :: rest ∧
                t = rest ++ .answer k :: after := by
              cases before with
              | nil => simp at hsplit
              | cons m rest =>
                  obtain ⟨rfl, htail⟩ := List.cons.inj hsplit
                  exact ⟨rest, rfl, htail⟩
            rcases h rest k after rfl with hseen | hcall
            · rcases List.mem_cons.mp hseen with rfl | hseen
              · exact Or.inr (by simp)
              · exact Or.inl hseen
            · exact Or.inr (List.mem_cons_of_mem _ hcall)
          · intro h before k after hsplit
            rcases h (.call j :: before) k after (by rw [hsplit]; rfl) with hseen | hcall
            · exact Or.inl (List.mem_cons_of_mem _ hseen)
            · rcases List.mem_cons.mp hcall with heq | hcall
              · obtain rfl := Mark.call.inj heq
                exact Or.inl (by simp)
              · exact Or.inr hcall
      | answer j =>
          rw [Called, ih]
          constructor
          · rintro ⟨hj, h⟩ before k after hsplit
            cases before with
            | nil =>
                obtain ⟨heq, -⟩ := List.cons.inj hsplit
                obtain rfl := Mark.answer.inj heq
                exact Or.inl hj
            | cons m rest =>
                obtain ⟨rfl, htail⟩ := List.cons.inj hsplit
                exact (h rest k after htail).imp id (List.mem_cons_of_mem _)
          · intro h
            refine ⟨(h [] j t rfl).resolve_right (by simp), fun before k after hsplit => ?_⟩
            rcases h (.answer j :: before) k after (by rw [hsplit]; rfl) with hseen | hcall
            · exact Or.inl hseen
            · rcases List.mem_cons.mp hcall with heq | hcall
              · exact absurd heq (by simp)
              · exact Or.inr hcall

theorem Answered.of_append {d t : List (Mark κ)} (h : Answered (d ++ t)) : Answered t := by
  induction d with
  | nil => exact h
  | cons mark d ih =>
      cases mark with
      | call k => exact ih h.2
      | answer k => exact ih h

theorem paired_of_append_iff {d t : List (Mark κ)} (h : Paired (d ++ t)) :
    Paired t ↔ ¬ Splits d t := by
  constructor
  · rintro ⟨hcalled, -⟩ ⟨k, before, after, -, hsplit, hnot⟩
    rcases (called_iff [] t).mp hcalled before k after hsplit with hseen | hcall
    · exact absurd hseen (by simp)
    · exact hnot hcall
  · intro hsplits
    refine ⟨(called_iff [] t).mpr fun before k after hsplit => ?_, h.answered.of_append⟩
    have hwhole : d ++ t = (d ++ before) ++ .answer k :: after := by
      rw [hsplit, List.append_assoc]
    rcases (called_iff [] (d ++ t)).mp h.called (d ++ before) k after hwhole with hseen | hcall
    · exact absurd hseen (by simp)
    rcases List.mem_append.mp hcall with hcut | hkept
    · exact Or.inr (by_contra fun hnot => hsplits ⟨k, before, after, hcut, hsplit, hnot⟩)
    · exact Or.inr hkept

end AsetPlatform.Library

import Mathlib.Data.List.Basic

/-!
# Folds that work on one key at a time

A step that may fail takes a store through a list of events, each of which concerns the part of the
store under its own key. `KeyedStep` says so of a step; then the part under a key after a run is the
fold of the events of that key over the part before (`KeyedStep.view_foldlM`). When such a fold comes
back to where it began, and what is moved once stays moved, none of its steps moves anything
(`eq_of_not_moved`).

A column that several rows give holds the last value given (`lastGiven`). It holds what each of them
gives when they agree (`lastGiven_settled_iff`).
-/

set_option autoImplicit false

namespace AsetPlatform.Library

universe u v w x

variable {σ : Type u} {ε : Type v} {κ : Type w} {β : Type x}

/-- Under the invariant, a step changes the part under the key of its event as `own` says, and no
other part. -/
structure KeyedStep (step : σ → ε → Option σ) (key : ε → κ) (view : σ → κ → β) (own : β → ε → β)
    (Inv : σ → Prop) : Prop where
  inv : ∀ {s s' : σ} {e : ε}, Inv s → step s e = some s' → Inv s'
  same : ∀ {s s' : σ} {e : ε}, Inv s → step s e = some s' →
    view s' (key e) = own (view s (key e)) e
  other : ∀ {s s' : σ} {e : ε} {k : κ}, Inv s → step s e = some s' → k ≠ key e →
    view s' k = view s k

namespace KeyedStep

variable {step : σ → ε → Option σ} {key : ε → κ} {view : σ → κ → β} {own : β → ε → β}
variable {Inv : σ → Prop} {s s' : σ} {es : List ε}

theorem inv_foldlM (h : KeyedStep step key view own Inv) (hInv : Inv s)
    (hRun : es.foldlM step s = some s') : Inv s' := by
  induction es generalizing s with
  | nil =>
      obtain rfl := Option.some.inj hRun
      exact hInv
  | cons e es ih =>
      obtain ⟨s₁, hStep, hRest⟩ := Option.bind_eq_some_iff.mp hRun
      exact ih (h.inv hInv hStep) hRest

theorem view_foldlM [DecidableEq κ] (h : KeyedStep step key view own Inv) (hInv : Inv s)
    (hRun : es.foldlM step s = some s') (k : κ) :
    view s' k = (es.filter fun e => key e = k).foldl own (view s k) := by
  induction es generalizing s with
  | nil =>
      obtain rfl := Option.some.inj hRun
      rfl
  | cons e es ih =>
      obtain ⟨s₁, hStep, hRest⟩ := Option.bind_eq_some_iff.mp hRun
      have hTail := ih (h.inv hInv hStep) hRest
      by_cases hKey : key e = k
      · subst hKey
        rw [List.filter_cons_of_pos (by simp), List.foldl_cons, ← h.same hInv hStep]
        exact hTail
      · rw [List.filter_cons_of_neg (by simp [hKey]), ← h.other hInv hStep (Ne.symm hKey)]
        exact hTail

end KeyedStep

/-- A step moves `v` or leaves it, and what has moved does not come back. -/
theorem eq_of_not_moved {own : β → ε → β} {Moved : β → Prop} {v : β} {es : List ε}
    (hStep : ∀ e ∈ es, own v e = v ∨ Moved (own v e))
    (hKeep : ∀ b, ∀ e ∈ es, Moved b → Moved (own b e)) (h : ¬ Moved (es.foldl own v)) :
    ∀ e ∈ es, own v e = v := by
  have hRun : ∀ {es' : List ε} {b : β}, (∀ e ∈ es', e ∈ es) → Moved b → Moved (es'.foldl own b) := by
    intro es' b hSub hMoved
    induction es' generalizing b with
    | nil => exact hMoved
    | cons e es' ih =>
        exact ih (fun x hx => hSub x (List.mem_cons_of_mem _ hx))
          (hKeep b e (hSub e List.mem_cons_self) hMoved)
  induction es with
  | nil => exact fun e he => absurd he List.not_mem_nil
  | cons e es ih =>
      rcases hStep e List.mem_cons_self with hFixed | hMoved
      · rw [List.foldl_cons, hFixed] at h
        have hRest := ih (fun x hx => hStep x (List.mem_cons_of_mem _ hx))
          (fun b x hx => hKeep b x (List.mem_cons_of_mem _ hx)) h
          (fun hSub => hRun fun x hx => List.mem_cons_of_mem _ (hSub x hx))
        exact List.forall_mem_cons.mpr ⟨hFixed, hRest⟩
      · exact absurd (hRun (fun x hx => List.mem_cons_of_mem _ hx) hMoved) h

/-! ## A column that several rows give -/

section Columns

variable {ρ : Type u} {α : Type v} {given : ρ → Option α} {rows rest : List ρ} {first : ρ} {old : Option α}

def lastGiven (given : ρ → Option α) (rows : List ρ) (old : Option α) : Option α :=
  rows.foldl (fun value r => (given r).or value) old

theorem lastGiven_cases (given : ρ → Option α) (rows : List ρ) (old : Option α) :
    (lastGiven given rows old = old ∧ ∀ r ∈ rows, given r = none) ∨
      ∃ r ∈ rows, ∃ x, given r = some x ∧ lastGiven given rows old = some x := by
  unfold lastGiven
  induction rows generalizing old with
  | nil => exact Or.inl ⟨rfl, fun r hr => absurd hr List.not_mem_nil⟩
  | cons r rows ih =>
      rcases ih ((given r).or old) with ⟨hOld, hNone⟩ | ⟨r', hMem, x, hGiven, hLast⟩
      · cases hGiven : given r with
        | none =>
            rw [hGiven, Option.none_or] at hOld
            left
            refine ⟨?_, List.forall_mem_cons.mpr ⟨hGiven, hNone⟩⟩
            rw [List.foldl_cons, hGiven, Option.none_or]
            exact hOld
        | some x =>
            rw [hGiven, Option.some_or] at hOld
            refine Or.inr ⟨r, List.mem_cons_self, x, hGiven, ?_⟩
            rw [List.foldl_cons, hGiven, Option.some_or]
            exact hOld
      · exact Or.inr ⟨r', List.mem_cons_of_mem _ hMem, x, hGiven, hLast⟩

theorem lastGiven_settled_iff : (∀ r ∈ rows, ∀ x, given r = some x → lastGiven given rows old = some x) ↔
    ∀ a ∈ rows, ∀ b ∈ rows, ∀ x y, given a = some x → given b = some y → x = y := by
  constructor
  · intro h a ha b hb x y hx hy
    exact Option.some.inj ((h a ha x hx).symm.trans (h b hb y hy))
  · intro h r hr x hx
    rcases lastGiven_cases given rows old with ⟨-, hNone⟩ | ⟨r', hr', y, hy, hLast⟩
    · rw [hNone r hr] at hx
      cases hx
    · rw [hLast, h r hr r' hr' x y hx hy]

/-- The same when the value of the first row was stored through `clean`. -/
theorem lastGiven_settled_new_iff {clean : Option α → Option α} (hClean : clean none = none) :
    (∀ r ∈ first :: rest, ∀ x, given r = some x →
      lastGiven given rest (clean (given first)) = some x) ↔
    (∀ a ∈ first :: rest, ∀ b ∈ first :: rest, ∀ x y, given a = some x → given b = some y → x = y) ∧
      ∀ x, given first = some x → clean (some x) = some x ∨ ∃ r ∈ rest, given r = some x := by
  constructor
  · intro h
    refine ⟨fun a ha b hb x y hx hy => Option.some.inj ((h a ha x hx).symm.trans (h b hb y hy)), ?_⟩
    intro x hx
    have hFirst := h first List.mem_cons_self x hx
    rcases lastGiven_cases given rest (clean (given first)) with ⟨hOld, -⟩ | ⟨r, hr, y, hy, hLast⟩
    · rw [hOld, hx] at hFirst
      exact Or.inl hFirst
    · rw [hLast] at hFirst
      exact Or.inr ⟨r, hr, hy.trans hFirst⟩
  · rintro ⟨hAgree, hStays⟩ r hr x hx
    rcases lastGiven_cases given rest (clean (given first)) with ⟨hOld, hNone⟩ | ⟨r', hr', y, hy, hLast⟩
    · -- no later row gives a value, so that of the first row has to stay
      rw [hOld]
      rcases List.mem_cons.mp hr with rfl | hRest
      · rcases hStays x hx with hStay | ⟨r', hr', hGiven⟩
        · rw [hx, hStay]
        · rw [hNone r' hr'] at hGiven
          cases hGiven
      · rw [hNone r hRest] at hx
        cases hx
    · rw [hLast, hAgree r hr r' (List.mem_cons_of_mem _ hr') x y hx hy]

end Columns

end AsetPlatform.Library

import AsetPlatform.Library.Dict

/-!
# Read-through caches

A cache in front of a state answers a query with the value remembered under the key of the query, and
with the state's own answer when there is none. It is coherent when its answers are those of the
state. A miss that remembers the answer keeps it coherent, as long as queries with one key have one
answer. A change of the state that leaves only old entries keeps it coherent exactly when the answers
under the entries left are as before (`coherent_of_change_iff`).
-/

set_option autoImplicit false

namespace AsetPlatform.Library

universe u v w x

variable {σ : Type u} {Q : Type v} {κ : Type w} {α : Type x} [DecidableEq κ]
variable (key : Q → κ) (answer : σ → Q → α)

/-- The answer to a query. -/
def readThrough (cache : Dict κ α) (s : σ) (q : Q) : α := (cache.get? (key q)).getD (answer s q)

/-- Every answer is that of the state. -/
def Coherent (cache : Dict κ α) (s : σ) : Prop := ∀ q, readThrough key answer cache s q = answer s q

variable {key answer} {cache cache' : Dict κ α} {s s' : σ}

theorem coherent_iff :
    Coherent key answer cache s ↔ ∀ q a, cache.get? (key q) = some a → a = answer s q := by
  constructor
  · intro h q a hEntry
    have hAnswer := h q
    rwa [readThrough, hEntry, Option.getD_some] at hAnswer
  · intro h q
    rw [readThrough]
    cases hEntry : cache.get? (key q) with
    | none => rfl
    | some a => exact h q a hEntry

theorem coherent_empty : Coherent key answer .empty s :=
  coherent_iff.mpr fun q a hEntry => by simp [Dict.get?_empty] at hEntry

theorem Coherent.set (hKey : ∀ q q', key q = key q' → answer s q = answer s q')
    (h : Coherent key answer cache s) (q : Q) :
    Coherent key answer (cache.set (key q) (answer s q)) s := by
  refine coherent_iff.mpr fun q' a hEntry => ?_
  rw [Dict.get?_set] at hEntry
  split at hEntry
  · rename_i hSame
    rw [← Option.some.inj hEntry]
    exact hKey q q' hSame.symm
  · exact coherent_iff.mp h q' a hEntry

/-- A change of the state after which only old entries are left. -/
theorem coherent_of_change_iff (h : Coherent key answer cache s)
    (hLeft : ∀ q a, cache'.get? (key q) = some a → cache.get? (key q) = some a) :
    Coherent key answer cache' s' ↔
      ∀ q, (cache'.get? (key q)).isSome → answer s' q = answer s q := by
  rw [coherent_iff]
  constructor
  · intro hAfter q hEntry
    obtain ⟨a, ha⟩ := Option.isSome_iff_exists.mp hEntry
    rw [← hAfter q a ha, coherent_iff.mp h q a (hLeft q a ha)]
  · intro hSame q a ha
    rw [hSame q (Option.isSome_iff_exists.mpr ⟨a, ha⟩), coherent_iff.mp h q a (hLeft q a ha)]

end AsetPlatform.Library

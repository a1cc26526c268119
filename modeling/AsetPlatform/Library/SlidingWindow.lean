import Mathlib.Algebra.BigOperators.Group.List.Basic
import Mathlib.Algebra.Order.Group.Defs
import Mathlib.Data.List.Pairwise

/-!
# Timestamped logs read through a sliding window

A log is a list of entries with a timestamp and an amount, oldest first. `windowSum c log` adds the
amounts of the entries not older than the cutoff `c`. Dropping the expired head of a log changes no
sum with a later cutoff (`windowSum_dropExpired`), and on a log sorted by time it leaves exactly the
entries of the window, so the sum of what is left is the window sum (`total_dropExpired`).

Times come from any linear order and amounts from any commutative group.
-/

set_option autoImplicit false

namespace AsetPlatform.Library

universe u v

/-- A log entry: when an amount was entered, and the amount. -/
structure Entry (τ : Type u) (α : Type v) where
  time : τ
  amount : α
  deriving DecidableEq, Repr

section Total

variable {τ : Type u} {α : Type v} [AddCommGroup α]

def total (log : List (Entry τ α)) : α := (log.map Entry.amount).sum

@[simp]
theorem total_nil : total ([] : List (Entry τ α)) = 0 := rfl

@[simp]
theorem total_cons (e : Entry τ α) (log : List (Entry τ α)) :
    total (e :: log) = e.amount + total log := by
  simp [total]

@[simp]
theorem total_append (log log' : List (Entry τ α)) : total (log ++ log') = total log + total log' := by
  simp [total]

end Total

section Expiry

variable {τ : Type u} {α : Type v} [LinearOrder τ]

/-- The log without its expired head: entries older than the cutoff are dropped from the front
until the first one that is not. -/
def dropExpired (cutoff : τ) (log : List (Entry τ α)) : List (Entry τ α) :=
  log.dropWhile fun e => decide (e.time < cutoff)

/-- The entries `dropExpired` removes. -/
def expiredHead (cutoff : τ) (log : List (Entry τ α)) : List (Entry τ α) :=
  log.takeWhile fun e => decide (e.time < cutoff)

/-- Entries stand in the order of their timestamps. -/
def Chronological (log : List (Entry τ α)) : Prop :=
  log.Pairwise fun a b => a.time ≤ b.time

theorem dropExpired_cons_of_lt {c : τ} {e : Entry τ α} (h : e.time < c) (log : List (Entry τ α)) :
    dropExpired c (e :: log) = dropExpired c log := by
  simp [dropExpired, h]

theorem dropExpired_cons_of_le {c : τ} {e : Entry τ α} (h : c ≤ e.time) (log : List (Entry τ α)) :
    dropExpired c (e :: log) = e :: log := by
  simp [dropExpired, not_lt.mpr h]

theorem dropExpired_sublist (c : τ) (log : List (Entry τ α)) :
    (dropExpired c log).Sublist log :=
  List.dropWhile_sublist _

theorem Chronological.dropExpired {c : τ} {log : List (Entry τ α)} (hs : Chronological log) :
    Chronological (dropExpired c log) :=
  hs.sublist (dropExpired_sublist c log)

theorem Chronological.append_one {log : List (Entry τ α)} (hs : Chronological log) {e : Entry τ α}
    (h : ∀ a ∈ log, a.time ≤ e.time) : Chronological (log ++ [e]) := by
  refine List.pairwise_append.mpr ⟨hs, List.pairwise_singleton _ _, ?_⟩
  intro a ha b hb
  rw [List.mem_singleton] at hb
  subst hb
  exact h a ha

theorem le_time_of_mem_dropExpired {c : τ} {log : List (Entry τ α)} (hs : Chronological log) :
    ∀ e ∈ Library.dropExpired c log, c ≤ e.time := by
  induction log with
  | nil => intro e he; simp [Library.dropExpired] at he
  | cons a log ih =>
      obtain ⟨hle, hrest⟩ := List.pairwise_cons.mp hs
      rcases lt_or_ge a.time c with ha | ha
      · rw [dropExpired_cons_of_lt ha]
        exact ih hrest
      · rw [dropExpired_cons_of_le ha]
        intro e he
        rcases List.mem_cons.mp he with rfl | he
        · exact ha
        · exact le_trans ha (hle e he)

end Expiry

section Window

variable {τ : Type u} {α : Type v} [LinearOrder τ] [AddCommGroup α]

/-- The sum of the amounts entered at or after the cutoff. -/
def windowSum (cutoff : τ) (log : List (Entry τ α)) : α :=
  total (log.filter fun e => decide (cutoff ≤ e.time))

theorem total_expiredHead_add (cutoff : τ) (log : List (Entry τ α)) :
    total (expiredHead cutoff log) + total (dropExpired cutoff log) = total log := by
  rw [← total_append, expiredHead, dropExpired, List.takeWhile_append_dropWhile]

@[simp]
theorem windowSum_nil (cutoff : τ) : windowSum cutoff ([] : List (Entry τ α)) = 0 := rfl

theorem windowSum_cons (cutoff : τ) (e : Entry τ α) (log : List (Entry τ α)) :
    windowSum cutoff (e :: log) = (if cutoff ≤ e.time then e.amount else 0) + windowSum cutoff log := by
  by_cases h : cutoff ≤ e.time <;> simp [windowSum, h]

theorem windowSum_append (cutoff : τ) (log log' : List (Entry τ α)) :
    windowSum cutoff (log ++ log') = windowSum cutoff log + windowSum cutoff log' := by
  simp [windowSum]

theorem windowSum_singleton (cutoff : τ) (e : Entry τ α) :
    windowSum cutoff [e] = if cutoff ≤ e.time then e.amount else 0 := by
  simp [windowSum_cons]

theorem windowSum_dropExpired {c c' : τ} (hc : c ≤ c') (log : List (Entry τ α)) :
    windowSum c' (dropExpired c log) = windowSum c' log := by
  induction log with
  | nil => rfl
  | cons e log ih =>
      rcases lt_or_ge e.time c with he | he
      · have hold : ¬ c' ≤ e.time := not_le.mpr (lt_of_lt_of_le he hc)
        rw [dropExpired_cons_of_lt he, ih, windowSum_cons, if_neg hold, zero_add]
      · rw [dropExpired_cons_of_le he]

theorem windowSum_eq_total {c : τ} {log : List (Entry τ α)} (h : ∀ e ∈ log, c ≤ e.time) :
    windowSum c log = total log := by
  have hfilter : log.filter (fun e => decide (c ≤ e.time)) = log :=
    List.filter_eq_self.mpr fun e he => decide_eq_true (h e he)
  rw [windowSum, hfilter]

/-- On a chronological log, what is left after dropping the expired head adds up to the window
sum. -/
theorem total_dropExpired {c : τ} {log : List (Entry τ α)} (hs : Chronological log) :
    total (dropExpired c log) = windowSum c log := by
  rw [← windowSum_eq_total (le_time_of_mem_dropExpired hs), windowSum_dropExpired le_rfl]

end Window

end AsetPlatform.Library

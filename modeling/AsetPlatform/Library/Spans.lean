import Mathlib.Data.List.Count
import Mathlib.Tactic.Linarith

/-!
# Spans of days

A span runs from its first day to its last, or has no end. A list of spans that starts on some day is a
function of time (`Partition`) when each day from there on is in exactly one of them; then exactly one
has no end. Between two changes it may be a function of the days before some day `e` only, with no span
without an end (`Upto e`).

Ending the open span of a partition the day before `e` leaves a function of the days before `e` just
when `e` is not before the open span, or nothing is (`Partition.upto_close`,
`Partition.inOrder_of_partition`), and a new open span from `e` on completes it (`Upto.partition`).
-/

set_option autoImplicit false

namespace AsetPlatform.Library

/-- A span of days, both ends included. -/
structure Span where
  first : Int
  last : Option Int
  deriving DecidableEq, Repr

namespace Span

/-- The span has no end. -/
def Endless (s : Span) : Prop := s.last = none

def Covers (s : Span) (x : Int) : Prop := s.first ≤ x ∧ ∀ l ∈ s.last, x ≤ l

instance endlessDecidable (s : Span) : Decidable s.Endless := decEq s.last none

instance coversDecidable (s : Span) (x : Int) : Decidable (s.Covers x) := instDecidableAnd

/-- An endless span ends the day before `e`. -/
def close (e : Int) (s : Span) : Span := if s.Endless then { s with last := some (e - 1) } else s

/-- From `e` on. -/
def from_ (e : Int) : Span := ⟨e, none⟩

variable {s : Span} {e x : Int}

theorem covers_of_endless (h : s.Endless) : s.Covers x ↔ s.first ≤ x := by
  rw [Covers, h]
  simp

@[simp]
theorem covers_from : (from_ e).Covers x ↔ e ≤ x := covers_of_endless rfl

@[simp]
theorem first_close : (s.close e).first = s.first := by
  rw [close]
  split <;> rfl

theorem close_of_ends (h : ¬s.Endless) : s.close e = s := if_neg h

@[simp]
theorem not_endless_close : ¬(s.close e).Endless := by
  rw [close]
  split
  · exact Option.some_ne_none _
  · rename_i hEnds
    exact hEnds

theorem covers_close_of_endless (h : s.Endless) : (s.close e).Covers x ↔ s.first ≤ x ∧ x < e := by
  rw [close, if_pos h, Covers]
  simp only [Option.mem_def, Option.some.injEq, forall_eq', Int.le_sub_one_iff]

theorem Covers.of_close (h : (s.close e).Covers x) : s.Covers x := by
  by_cases hEndless : s.Endless
  · exact (covers_of_endless hEndless).mpr ((covers_close_of_endless hEndless).mp h).1
  · rwa [close_of_ends hEndless] at h

end Span

namespace Spans

/-! ## Functions of time -/

/-- No day is in two of the spans. -/
def Apart (spans : List Span) : Prop := ∀ x, spans.countP (Span.Covers · x) ≤ 1

def Started (spans : List Span) (x : Int) : Prop := ∃ s ∈ spans, s.first ≤ x

/-- Each day from the first one on is in exactly one span, and exactly one span has no end. -/
structure Partition (spans : List Span) : Prop where
  apart : Apart spans
  covered : ∀ {x}, Started spans x → ∃ s ∈ spans, s.Covers x
  endless : spans.countP (fun s => decide s.Endless) = 1

/-- The same for the days before `e`, and every span ends before it. -/
structure Upto (e : Int) (spans : List Span) : Prop where
  apart : Apart spans
  covered : ∀ {x}, (∃ s ∈ spans, s.Covers x) ↔ x < e ∧ Started spans x
  ends : ∀ s ∈ spans, ¬s.Endless

section

variable {spans : List Span} {s s' : Span} {e x : Int}

theorem Upto.nil : Upto e [] where
  apart := fun _ => Nat.zero_le 1
  covered := by simp [Started]
  ends := fun _ hs => absurd hs List.not_mem_nil

theorem eq_of_mem_of_length_le_one {l : List Span} (h : l.length ≤ 1) (hs : s ∈ l) (hs' : s' ∈ l) :
    s = s' := by
  cases l with
  | nil => exact absurd hs List.not_mem_nil
  | cons a rest =>
      have hRest : rest = [] := List.length_eq_zero_iff.mp (by rw [List.length_cons] at h; omega)
      rw [hRest, List.mem_singleton] at hs hs'
      rw [hs, hs']

theorem Apart.unique (h : Apart spans) (hs : s ∈ spans) (hs' : s' ∈ spans) (hx : s.Covers x)
    (hx' : s'.Covers x) : s = s' := by
  have hLength := h x
  rw [List.countP_eq_length_filter] at hLength
  have hIn : s ∈ spans.filter fun s => decide (s.Covers x) :=
    List.mem_filter.mpr ⟨hs, decide_eq_true hx⟩
  have hIn' : s' ∈ spans.filter fun s => decide (s.Covers x) :=
    List.mem_filter.mpr ⟨hs', decide_eq_true hx'⟩
  exact eq_of_mem_of_length_le_one hLength hIn hIn'

theorem Partition.ne_nil (h : Partition spans) : spans ≠ [] := by
  rintro rfl
  exact absurd h.endless (by decide)

theorem Partition.exists_endless (h : Partition spans) : ∃ s ∈ spans, s.Endless := by
  obtain ⟨s, hs, hEndless⟩ := List.countP_pos_iff.mp (by rw [h.endless]; exact Nat.one_pos)
  exact ⟨s, hs, of_decide_eq_true hEndless⟩

theorem Partition.endless_unique (h : Partition spans) (hs : s ∈ spans) (hs' : s' ∈ spans)
    (hEndless : s.Endless) (hEndless' : s'.Endless) : s = s' := by
  apply h.apart.unique hs hs' (x := max s.first s'.first)
  · exact (Span.covers_of_endless hEndless).mpr (le_max_left _ _)
  · exact (Span.covers_of_endless hEndless').mpr (le_max_right _ _)

theorem Upto.no_endless (h : Upto e spans) : ¬∃ s ∈ spans, s.Endless := by
  rintro ⟨s, hs, hEndless⟩
  exact h.ends s hs hEndless

/-! ## Ending the open span, and starting the next -/

theorem started_close : Started (spans.map (Span.close e)) x ↔ Started spans x := by
  simp [Started]

theorem Apart.close (h : Apart spans) : Apart (spans.map (Span.close e)) := by
  intro x
  rw [List.countP_map]
  refine le_trans (List.countP_mono_left ?_) (h x)
  intro s _ hs
  exact decide_eq_true (Span.Covers.of_close (of_decide_eq_true hs))

/-- The open span does not start after `e`, or nothing starts before it. -/
def InOrder (e : Int) (spans : List Span) : Prop :=
  ∀ s ∈ spans, s.Endless → s.first ≤ e ∨ ∀ s' ∈ spans, s.first ≤ s'.first

instance inOrderDecidable (e : Int) (spans : List Span) : Decidable (InOrder e spans) :=
  inferInstanceAs (Decidable (∀ s ∈ spans, s.Endless → s.first ≤ e ∨ ∀ s' ∈ spans, s.first ≤ s'.first))

/-- The open span ends before `e`. -/
theorem Partition.upto_close (h : Partition spans) (hOrder : InOrder e spans) :
    Upto e (spans.map (Span.close e)) where
  apart := h.apart.close
  covered := by
    intro x
    rw [started_close]
    constructor
    · rintro ⟨closed, hClosed, hx⟩
      obtain ⟨s, hs, rfl⟩ := List.mem_map.mp hClosed
      refine ⟨?_, s, hs, hx.of_close.1⟩
      by_cases hEndless : s.Endless
      · exact ((Span.covers_close_of_endless hEndless).mp hx).2
      · -- a span with an end has no day that the open one has
        obtain ⟨s₀, hs₀, hOpen⟩ := h.exists_endless
        by_contra hLate
        have hFirst : s₀.first ≤ x := by
          rcases hOrder s₀ hs₀ hOpen with hBefore | hFirst
          · exact hBefore.trans (not_lt.mp hLate)
          · exact (hFirst s hs).trans hx.of_close.1
        have hSame := h.apart.unique hs hs₀ hx.of_close ((Span.covers_of_endless hOpen).mpr hFirst)
        exact hEndless (hSame ▸ hOpen)
    · rintro ⟨hBefore, hStarted⟩
      obtain ⟨s, hs, hx⟩ := h.covered hStarted
      refine ⟨s.close e, List.mem_map_of_mem hs, ?_⟩
      by_cases hEndless : s.Endless
      · exact (Span.covers_close_of_endless hEndless).mpr ⟨hx.1, hBefore⟩
      · rwa [Span.close_of_ends hEndless]
  ends := by
    intro closed hClosed
    obtain ⟨s, -, rfl⟩ := List.mem_map.mp hClosed
    exact Span.not_endless_close

theorem Upto.partition (h : Upto e spans) : Partition (spans ++ [Span.from_ e]) where
  apart := by
    intro x
    rw [List.countP_append, List.countP_singleton]
    by_cases hx : e ≤ x
    · have hNone : spans.countP (fun s => decide (s.Covers x)) = 0 := by
        rw [List.countP_eq_zero]
        intro s hs hCovers
        exact absurd (h.covered.mp ⟨s, hs, of_decide_eq_true hCovers⟩).1 (not_lt.mpr hx)
      rw [hNone, Nat.zero_add]
      split <;> decide
    · rw [if_neg (by simpa using hx)]
      exact h.apart x
  covered := by
    rintro x ⟨s, hs, hx⟩
    by_cases hBefore : x < e
    · rcases List.mem_append.mp hs with hs | hs
      · obtain ⟨s', hs', hx'⟩ := h.covered.mpr ⟨hBefore, s, hs, hx⟩
        exact ⟨s', List.mem_append_left _ hs', hx'⟩
      · rw [List.mem_singleton.mp hs] at hx
        exact absurd hBefore (not_lt.mpr hx)
    · exact ⟨Span.from_ e, List.mem_append_right _ (List.mem_singleton_self _),
        Span.covers_from.mpr (not_lt.mp hBefore)⟩
  endless := by
    rw [List.countP_append]
    have hNone : spans.countP (fun s => decide s.Endless) = 0 := by
      rw [List.countP_eq_zero]
      intro s hs hEndless
      exact h.ends s hs (of_decide_eq_true hEndless)
    rw [hNone]
    rfl

theorem Partition.inOrder_of_partition (h : Partition spans)
    (hNew : Partition (spans.map (Span.close e) ++ [Span.from_ e])) : InOrder e spans := by
  intro s₀ hs₀ hOpen
  by_contra hNot
  push Not at hNot
  obtain ⟨hEarly, s, hs, hFirst⟩ := hNot
  -- a day from `e` on, before the open span, that an earlier span covers
  have hStarted : Started spans (max e s.first) := ⟨s, hs, le_max_right _ _⟩
  obtain ⟨s', hs', hx⟩ := h.covered hStarted
  have hEnds : ¬s'.Endless := by
    intro hEndless
    have hSame := h.endless_unique hs' hs₀ hEndless hOpen
    rw [hSame] at hx
    exact absurd hx.1 (not_le.mpr (max_lt hEarly hFirst))
  have hMem : s' ∈ spans.map (Span.close e) ++ [Span.from_ e] := by
    refine List.mem_append_left _ (List.mem_map.mpr ⟨s', hs', ?_⟩)
    exact Span.close_of_ends hEnds
  have hSame := hNew.apart.unique hMem (List.mem_append_right _ (List.mem_singleton_self _)) hx
    (Span.covers_from.mpr (le_max_left _ _))
  exact hEnds (hSame ▸ rfl)

theorem Partition.replace_iff (h : Partition spans) :
    Partition (spans.map (Span.close e) ++ [Span.from_ e]) ↔ InOrder e spans :=
  ⟨h.inOrder_of_partition, fun hOrder => (h.upto_close hOrder).partition⟩

end

end Spans

end AsetPlatform.Library

import Mathlib.Data.Finset.Max

/-!
# Columns with missing values

A column of a frame is a function of the day; `missing` stands for a value that is not there. The days
of a frame are a finite set, as joins and sorts leave its rows in their order. `ffill` and `bfill` fill
a missing value from the rows before and after it.

`place s t` is the day of `s` from which a value is taken at `t`: the last one up to `t`, or else the
first. A column filled both ways has at each day the value of its place among the days with a value
(`fillBoth_eq`), and filling it again, on more days, is the same (`fillBoth_fillBoth`).
-/

set_option autoImplicit false

namespace AsetPlatform.Library

universe u v

/-! ## Places -/

section Place

variable {δ : Type u} [LinearOrder δ]

/-- The last day of a set up to a day, or else its first one. -/
def place (s : Finset δ) (t : δ) : Option δ :=
  if h : (s.filter (· ≤ t)).Nonempty then some ((s.filter (· ≤ t)).max' h)
  else if h : s.Nonempty then some (s.min' h)
  else none

variable {s s' : Finset δ} {t d : δ}

theorem place_eq_some_of_le (hMem : d ∈ s) (hLe : d ≤ t) (hLast : ∀ d' ∈ s, d' ≤ t → d' ≤ d) :
    place s t = some d := by
  have hIn : d ∈ s.filter (· ≤ t) := Finset.mem_filter.mpr ⟨hMem, hLe⟩
  rw [place, dif_pos ⟨d, hIn⟩]
  refine congrArg some (le_antisymm (Finset.max'_le _ _ _ fun d' hd' => ?_) (Finset.le_max' _ _ hIn))
  obtain ⟨hMem', hLe'⟩ := Finset.mem_filter.mp hd'
  exact hLast d' hMem' hLe'

theorem place_eq_some_of_lt (hMem : d ∈ s) (hFirst : ∀ d' ∈ s, d ≤ d') (hLt : t < d) :
    place s t = some d := by
  have hNone : ¬(s.filter (· ≤ t)).Nonempty := by
    rintro ⟨d', hd'⟩
    obtain ⟨hMem', hLe'⟩ := Finset.mem_filter.mp hd'
    exact absurd (hLt.trans_le (hFirst d' hMem')) (not_lt.mpr hLe')
  rw [place, dif_neg hNone, dif_pos ⟨d, hMem⟩]
  refine congrArg some (le_antisymm (Finset.min'_le _ _ hMem) (Finset.le_min' _ _ _ hFirst))

theorem place_cases (h : place s t = some d) :
    d ∈ s ∧ (d ≤ t ∧ (∀ d' ∈ s, d' ≤ t → d' ≤ d) ∨ t < d ∧ ∀ d' ∈ s, d ≤ d') := by
  rw [place] at h
  split at h
  · rename_i hSome
    obtain rfl := Option.some.inj h
    obtain ⟨hMem, hLe⟩ := Finset.mem_filter.mp (Finset.max'_mem _ hSome)
    refine ⟨hMem, Or.inl ⟨hLe, fun d' hMem' hLe' => ?_⟩⟩
    exact Finset.le_max' _ _ (Finset.mem_filter.mpr ⟨hMem', hLe'⟩)
  · rename_i hNone
    split at h
    · rename_i hSome
      obtain rfl := Option.some.inj h
      refine ⟨Finset.min'_mem _ hSome, Or.inr ⟨?_, fun d' hMem' => Finset.min'_le _ _ hMem'⟩⟩
      by_contra hLe
      exact hNone ⟨_, Finset.mem_filter.mpr ⟨Finset.min'_mem _ hSome, not_lt.mp hLe⟩⟩
    · cases h

theorem place_eq_none_iff : place s t = none ↔ s = ∅ := by
  rw [← Finset.not_nonempty_iff_eq_empty]
  constructor
  · rintro h ⟨d, hMem⟩
    rw [place] at h
    split at h
    · cases h
    · rw [dif_pos ⟨d, hMem⟩] at h
      cases h
  · intro hNone
    rw [place, dif_neg fun hSome => hNone (hSome.mono (Finset.filter_subset _ _)), dif_neg hNone]

theorem place_self (h : d ∈ s) : place s d = some d :=
  place_eq_some_of_le h le_rfl fun _ _ hLe => hLe

theorem place_place (hSub : s ⊆ s') (h : place s' t = some d) : place s d = place s t := by
  obtain ⟨-, ⟨hLe, hLast⟩ | ⟨hLt, hFirst⟩⟩ := place_cases h
  · -- No day of the smaller set lies between `d` and `t`.
    cases hPlace : place s t with
    | none =>
        rw [place_eq_none_iff] at hPlace ⊢
        exact hPlace
    | some e =>
        obtain ⟨hMem, ⟨hLe', hLast'⟩ | ⟨hLt', hFirst'⟩⟩ := place_cases hPlace
        · exact place_eq_some_of_le hMem (hLast e (hSub hMem) hLe')
            fun e' hMem' hLe'' => hLast' e' hMem' (hLe''.trans hLe)
        · exact place_eq_some_of_lt hMem hFirst' (hLe.trans_lt hLt')
  · cases hPlace : place s t with
    | none =>
        rw [place_eq_none_iff] at hPlace ⊢
        exact hPlace
    | some e =>
        obtain ⟨hMem, ⟨hLe', -⟩ | ⟨-, hFirst'⟩⟩ := place_cases hPlace
        · exact absurd (hFirst e (hSub hMem)) (not_le.mpr (hLe'.trans_lt hLt))
        · rcases (hFirst e (hSub hMem)).eq_or_lt with rfl | hAfter
          · exact place_self hMem
          · exact place_eq_some_of_lt hMem hFirst' hAfter

end Place

/-! ## Fills -/

section Fill

variable {δ : Type u} {α : Type v} [LinearOrder δ] [DecidableEq α] (missing : α)

/-- A column on the rows of a frame. -/
def onRows (ds : Finset δ) (f : δ → α) (t : δ) : α := if t ∈ ds then f t else missing

/-- The rows with a value. -/
def known (ds : Finset δ) (f : δ → α) : Finset δ := ds.filter fun d => f d ≠ missing

/-- The value at the place of a day, among the days `s`. -/
def valueAt (s : Finset δ) (f : δ → α) (t : δ) : α := (place s t).elim missing f

/-- `ffill` -/
def ffill (ds : Finset δ) (f : δ → α) : δ → α :=
  onRows missing ds fun t =>
    if h : ((known missing ds f).filter (· ≤ t)).Nonempty then
      f (((known missing ds f).filter (· ≤ t)).max' h)
    else missing

/-- `bfill` -/
def bfill (ds : Finset δ) (f : δ → α) : δ → α :=
  onRows missing ds fun t =>
    if h : ((known missing ds f).filter (t ≤ ·)).Nonempty then
      f (((known missing ds f).filter (t ≤ ·)).min' h)
    else missing

/-- `ffill().bfill()` -/
def fillBoth (ds : Finset δ) (f : δ → α) : δ → α := bfill missing ds (ffill missing ds f)

/-- `ffill().fillna(value)` -/
def ffillOr (value : α) (ds : Finset δ) (f : δ → α) : δ → α :=
  onRows missing ds fun t => if ffill missing ds f t = missing then value else ffill missing ds f t

variable {missing} {ds ds' : Finset δ} {f g : δ → α} {t : δ}

omit [DecidableEq α] in
theorem onRows_of_mem (h : t ∈ ds) : onRows missing ds f t = f t := if_pos h

omit [DecidableEq α] in
theorem onRows_of_notMem (h : t ∉ ds) : onRows missing ds f t = missing := if_neg h

omit [LinearOrder δ] in
theorem mem_known : t ∈ known missing ds f ↔ t ∈ ds ∧ f t ≠ missing := Finset.mem_filter

omit [LinearOrder δ] in
theorem known_subset : known missing ds f ⊆ ds := Finset.filter_subset _ _

theorem ffill_eq (h : t ∈ ds) :
    ffill missing ds f t =
      if ∃ d ∈ known missing ds f, d ≤ t then valueAt missing (known missing ds f) f t else missing := by
  rw [ffill, onRows_of_mem h, valueAt, place]
  by_cases hSome : ((known missing ds f).filter (· ≤ t)).Nonempty
  · have hExists : ∃ d ∈ known missing ds f, d ≤ t := by
      obtain ⟨d, hd⟩ := hSome
      exact ⟨d, (Finset.mem_filter.mp hd).1, (Finset.mem_filter.mp hd).2⟩
    rw [dif_pos hSome, dif_pos hSome, if_pos hExists, Option.elim_some]
  · have hNone : ¬∃ d ∈ known missing ds f, d ≤ t := by
      rintro ⟨d, hMem, hLe⟩
      exact hSome ⟨d, Finset.mem_filter.mpr ⟨hMem, hLe⟩⟩
    rw [dif_neg hSome, if_neg hNone]

theorem valueAt_ne_missing (h : (known missing ds f).Nonempty) (t : δ) :
    valueAt missing (known missing ds f) f t ≠ missing := by
  rw [valueAt]
  cases hPlace : place (known missing ds f) t with
  | none => exact absurd (place_eq_none_iff.mp hPlace) h.ne_empty
  | some d => exact (mem_known.mp (place_cases hPlace).1).2

omit [DecidableEq α] in
theorem valueAt_empty (f : δ → α) (t : δ) : valueAt missing ∅ f t = missing := by
  rw [valueAt, place_eq_none_iff.mpr rfl, Option.elim_none]

theorem fillBoth_eq (missing : α) (ds : Finset δ) (f : δ → α) :
    fillBoth missing ds f = onRows missing ds (valueAt missing (known missing ds f) f) := by
  funext t
  by_cases hRow : t ∈ ds
  · rw [fillBoth, bfill, onRows_of_mem hRow, onRows_of_mem hRow]
    by_cases hKnown : (known missing ds f).Nonempty
    · by_cases hBefore : ∃ d ∈ known missing ds f, d ≤ t
      · -- The row is filled forward, and is its own first row from then on.
        have hHere : ffill missing ds f t = valueAt missing (known missing ds f) f t := by
          rw [ffill_eq hRow, if_pos hBefore]
        have hMem : t ∈ (known missing ds (ffill missing ds f)).filter (t ≤ ·) := by
          refine Finset.mem_filter.mpr ⟨mem_known.mpr ⟨hRow, ?_⟩, le_rfl⟩
          rw [hHere]
          exact valueAt_ne_missing hKnown t
        have hMin : ((known missing ds (ffill missing ds f)).filter (t ≤ ·)).min' ⟨t, hMem⟩ = t :=
          le_antisymm (Finset.min'_le _ _ hMem)
            (Finset.le_min' _ _ _ fun d hd => (Finset.mem_filter.mp hd).2)
        rw [dif_pos ⟨t, hMem⟩, hMin, hHere]
      · -- The first row that is filled is the first one with a value.
        have hFirst := Finset.min'_mem _ hKnown
        have hAfter : t < (known missing ds f).min' hKnown := by
          by_contra hLe
          exact hBefore ⟨_, hFirst, not_lt.mp hLe⟩
        have hPlace : place (known missing ds f) t = some ((known missing ds f).min' hKnown) :=
          place_eq_some_of_lt hFirst (fun d hd => Finset.min'_le _ _ hd) hAfter
        have hFilled : ∀ d ∈ ds, ffill missing ds f d ≠ missing →
            (known missing ds f).min' hKnown ≤ d := by
          intro d hd hValue
          rw [ffill_eq hd] at hValue
          split at hValue
          · rename_i hSome
            obtain ⟨e, hMem, hLe⟩ := hSome
            exact (Finset.min'_le _ _ hMem).trans hLe
          · exact absurd rfl hValue
        have hThere : ffill missing ds f ((known missing ds f).min' hKnown) =
            f ((known missing ds f).min' hKnown) := by
          rw [ffill_eq (known_subset hFirst), if_pos ⟨_, hFirst, le_rfl⟩, valueAt, place_self hFirst,
            Option.elim_some]
        have hMem : (known missing ds f).min' hKnown ∈
            (known missing ds (ffill missing ds f)).filter (t ≤ ·) := by
          refine Finset.mem_filter.mpr ⟨mem_known.mpr ⟨known_subset hFirst, ?_⟩, hAfter.le⟩
          rw [hThere]
          exact (mem_known.mp hFirst).2
        have hMin : ((known missing ds (ffill missing ds f)).filter (t ≤ ·)).min' ⟨_, hMem⟩ =
            (known missing ds f).min' hKnown := by
          refine le_antisymm (Finset.min'_le _ _ hMem) (Finset.le_min' _ _ _ fun d hd => ?_)
          obtain ⟨hKnown', -⟩ := Finset.mem_filter.mp hd
          exact hFilled d (known_subset hKnown') (mem_known.mp hKnown').2
        rw [dif_pos ⟨_, hMem⟩, hMin, hThere, valueAt, hPlace, Option.elim_some]
    · -- There is nothing to fill with.
      rw [Finset.not_nonempty_iff_eq_empty] at hKnown
      have hNone : ¬((known missing ds (ffill missing ds f)).filter (t ≤ ·)).Nonempty := by
        rintro ⟨d, hd⟩
        obtain ⟨hRow', hValue⟩ := mem_known.mp (Finset.mem_filter.mp hd).1
        rw [ffill_eq hRow', hKnown] at hValue
        simp at hValue
      rw [dif_neg hNone, hKnown, valueAt_empty]
  · rw [fillBoth, bfill, onRows_of_notMem hRow, onRows_of_notMem hRow]

theorem fillBoth_singleton (missing : α) (t : δ) (f : δ → α) : fillBoth missing {t} f t = f t := by
  rw [fillBoth_eq, onRows_of_mem (Finset.mem_singleton_self t), valueAt]
  by_cases hValue : f t = missing
  · have hNone : known missing {t} f = ∅ := by
      rw [Finset.eq_empty_iff_forall_notMem]
      intro d hd
      obtain ⟨hMem, hThere⟩ := mem_known.mp hd
      rw [Finset.mem_singleton.mp hMem] at hThere
      exact hThere hValue
    rw [hNone, place_eq_none_iff.mpr rfl, Option.elim_none, hValue]
  · rw [place_self (mem_known.mpr ⟨Finset.mem_singleton_self t, hValue⟩), Option.elim_some]

theorem fillBoth_fillBoth (hSub : ds ⊆ ds') (f : δ → α) :
    fillBoth missing ds' (fillBoth missing ds f) =
      onRows missing ds' (valueAt missing (known missing ds f) f) := by
  rw [fillBoth_eq missing ds', fillBoth_eq missing ds]
  congr 1
  funext t
  by_cases hKnown : (known missing ds f).Nonempty
  · have hRows : known missing ds' (onRows missing ds (valueAt missing (known missing ds f) f)) = ds := by
      ext d
      rw [mem_known]
      constructor
      · rintro ⟨-, hValue⟩
        by_contra hOut
        exact hValue (onRows_of_notMem hOut)
      · intro hRow
        rw [onRows_of_mem hRow]
        exact ⟨hSub hRow, valueAt_ne_missing hKnown d⟩
    rw [hRows, valueAt]
    cases hPlace : place ds t with
    | none =>
        rw [place_eq_none_iff] at hPlace
        rw [hPlace] at hKnown
        exact absurd hKnown (by simp [known])
    | some d =>
        rw [Option.elim_some, onRows_of_mem (place_cases hPlace).1, valueAt, valueAt,
          place_place known_subset hPlace]
  · rw [Finset.not_nonempty_iff_eq_empty] at hKnown
    have hNone : known missing ds' (onRows missing ds (valueAt missing ∅ f)) = ∅ := by
      rw [Finset.eq_empty_iff_forall_notMem]
      intro d hd
      refine (mem_known.mp hd).2 ?_
      rw [onRows]
      split
      · exact valueAt_empty f d
      · rfl
    rw [hKnown, hNone, valueAt_empty, valueAt_empty]

section Constant

variable {c : α}

theorem ffill_of_const (h : t ∈ ds) (hConst : ∀ d ∈ known missing ds f, f d = c) :
    ffill missing ds f t = if ∃ d ∈ known missing ds f, d ≤ t then c else missing := by
  rw [ffill_eq h, valueAt]
  split
  · next hSome =>
      obtain ⟨d, hd, -⟩ := hSome
      cases hPlace : place (known missing ds f) t with
      | none => exact absurd (place_eq_none_iff.mp hPlace ▸ hd) (Finset.notMem_empty d)
      | some e => rw [Option.elim_some, hConst e (place_cases hPlace).1]
  · rfl

theorem fillBoth_of_const (h : t ∈ ds) (hConst : ∀ d ∈ known missing ds f, f d = c) :
    fillBoth missing ds f t = if (known missing ds f).Nonempty then c else missing := by
  rw [fillBoth_eq, onRows_of_mem h, valueAt]
  cases hPlace : place (known missing ds f) t with
  | none =>
      have hNone : ¬(known missing ds f).Nonempty := by
        rw [place_eq_none_iff.mp hPlace]
        exact Finset.not_nonempty_empty
      rw [if_neg hNone, Option.elim_none]
  | some d =>
      have hMem := (place_cases hPlace).1
      rw [if_pos ⟨d, hMem⟩, Option.elim_some, hConst d hMem]

end Constant

end Fill

end AsetPlatform.Library

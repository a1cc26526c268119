import Mathlib.Data.Fintype.Basic
import AsetPlatform.StockData.Pricing

/-!
# Runs of pricing calls

Any callers, with their reads and commits interleaved and failing. While a caller is between its two
commits on a pair, the intervals of the pair stop the day before the new rate; otherwise they are a
function of time. This holds in every state of a run whose steps are orderly (`priced_of_orderly`): a
caller closes the open rate of its pair only when what it has read is still what its pair needs, on a
day that is not too early, and its append is not refused after that.
-/

set_option autoImplicit false

namespace AsetPlatform.StockData

open AsetPlatform.Library

universe u

/-- A caller is about to append a rate of the pair. -/
def PricingPhase.On (p : String × String) : PricingPhase → Prop
  | .appending a => a.pair = p
  | _ => False

instance onDecidable (p : String × String) : ∀ ph : PricingPhase, Decidable (ph.On p)
  | .idle => isFalse id
  | .reading _ => isFalse id
  | .overwriting _ _ => isFalse id
  | .appending a => decEq a.pair p

namespace PricingWorld

variable {κ : Type u}

/-- A caller is between its two commits on the pair. -/
def Between (w : PricingWorld κ) (p : String × String) : Prop := ∃ k, (w.phase k).On p

instance betweenDecidable [Fintype κ] (w : PricingWorld κ) (p : String × String) :
    Decidable (w.Between p) :=
  Fintype.decidableExistsFintype

/-- The intervals of the table never overlap. Once a rate of a pair is stored, they cover each day from
the first on and one is open, unless a caller is between its two commits. -/
def Priced (w : PricingWorld κ) : Prop :=
  ∀ p, Spans.Apart (intervals p w.table) ∧
    (¬w.Between p → (intervals p w.table ≠ [] ∨ ∃ x ∈ w.returned, x.1.pair = p) →
      Spans.Partition (intervals p w.table))

/-- What a caller has read of a pair may be written back: it has rows if the table has, and an open one
with them; and it is what the table has while another caller is between its commits on the pair. -/
def Kept (w : PricingWorld κ) (df : List PriceRow) (p : String × String) : Prop :=
  (w.Between p → intervals p df = intervals p w.table) ∧
    (¬w.Between p →
      (intervals p df = [] → intervals p w.table = []) ∧
        (intervals p df ≠ [] → ∃ s ∈ intervals p df, s.Endless))

/-- An initial `add_pricing` finds no rates of its pair. A frame without rows is read only for such a
pair. What is overwritten is still current for each pair; no other caller is about to append a rate of
the pair, the day is not before the open rate unless that is the first, and the commit does not raise
when there are rates to close. An append is refused only when nothing was closed. -/
def Orderly (w : PricingWorld κ) : PricingEvent κ → Prop
  | .add k a => w.phase k = .idle → intervals a.pair w.table = [] ∧ ¬w.Between a.pair
  | .update _ _ => True
  | .read k ok =>
      ∀ a, w.phase k = .reading a → (ok = true → w.table = []) →
        intervals a.pair w.table = [] ∧ ¬w.Between a.pair
  | .overwrite k commit =>
      ∀ a df, w.phase k = .overwriting a df → commit ≠ .refused →
        (∀ p, w.Kept df p) ∧ ¬w.Between a.pair ∧
          Spans.InOrder a.effectiveFrom (intervals a.pair df) ∧
          (intervals a.pair df ≠ [] → commit = .done)
  | .append k _ _ commit =>
      ∀ a, w.phase k = .appending a → commit = .refused → intervals a.pair w.table = []

/-! ## The invariant -/

/-- No rates yet, or a function of time. -/
def Tidy (spans : List Span) : Prop := spans = [] ∨ Spans.Partition spans

structure Inv (w : PricingWorld κ) : Prop where
  single : ∀ {k k' p}, (w.phase k).On p → (w.phase k').On p → k = k'
  upto : ∀ {k a}, w.phase k = .appending a →
    Spans.Upto a.effectiveFrom (intervals a.pair w.table)
  tidy : ∀ {p}, ¬w.Between p → Tidy (intervals p w.table)
  /-- What a caller has read was the table at the time. -/
  held : ∀ {k a df}, w.phase k = .overwriting a df →
    ∀ p, (∃ e, Spans.Upto e (intervals p df)) ∨ Spans.Partition (intervals p df)
  returned : ∀ {x}, x ∈ w.returned → intervals x.1.pair w.table ≠ []

/-- A new table has of the pair what the callers between their commits need. -/
def Carries (w : PricingWorld κ) (t : List PriceRow) (p : String × String) : Prop :=
  (w.Between p → intervals p t = intervals p w.table) ∧ (¬w.Between p → Tidy (intervals p t))

section Invariant

variable {w : PricingWorld κ} {k j : κ} {ph : PricingPhase} {a : PricingArgs} {t df : List PriceRow}
  {p : String × String}

theorem Inv.shape (h : Inv w) (p : String × String) :
    (∃ e, Spans.Upto e (intervals p w.table)) ∨ Spans.Partition (intervals p w.table) := by
  by_cases hBetween : w.Between p
  · obtain ⟨k, hOn⟩ := hBetween
    cases hPhase : w.phase k with
    | appending a =>
        rw [hPhase] at hOn
        obtain rfl : a.pair = p := hOn
        exact Or.inl ⟨_, h.upto hPhase⟩
    | _ =>
        rw [hPhase] at hOn
        exact hOn.elim
  · rcases h.tidy hBetween with hNil | hPartition
    · rw [hNil]
      exact Or.inl ⟨0, Spans.Upto.nil⟩
    · exact Or.inr hPartition

theorem Inv.priced (h : Inv w) : w.Priced := by
  intro p
  constructor
  · rcases h.shape p with ⟨e, hUpto⟩ | hPartition
    · exact hUpto.apart
    · exact hPartition.apart
  · intro hBetween hRates
    have hRows : intervals p w.table ≠ [] := by
      rcases hRates with hRows | ⟨x, hx, rfl⟩
      · exact hRows
      · exact h.returned hx
    exact (h.tidy hBetween).resolve_left hRows

theorem Inv.carries (h : Inv w) (hPhase : w.phase k = .overwriting a df) (hKept : w.Kept df p) :
    w.Carries df p := by
  refine ⟨hKept.1, fun hBetween => ?_⟩
  by_cases hNil : intervals p df = []
  · exact Or.inl hNil
  · refine Or.inr ((h.held hPhase p).resolve_left ?_)
    rintro ⟨e, hUpto⟩
    exact hUpto.no_endless ((hKept.2 hBetween).2 hNil)

theorem Kept.rows (h : w.Kept df p) (hNil : intervals p df = []) : intervals p w.table = [] := by
  by_cases hBetween : w.Between p
  · rw [← h.1 hBetween, hNil]
  · exact (h.2 hBetween).1 hNil

theorem Inv.start : Inv (PricingWorld.start : PricingWorld κ) where
  single := fun hOn => hOn.elim
  upto := fun hPhase => PricingPhase.noConfusion hPhase
  tidy := fun _ => Or.inl rfl
  held := fun hPhase => PricingPhase.noConfusion hPhase
  returned := fun hx => absurd hx List.not_mem_nil

/-! ## Moves of one caller -/

variable [DecidableEq κ]

theorem on_goTo_of_ne (h : j ≠ k) : ((w.goTo k ph).phase j).On p ↔ (w.phase j).On p := by
  rw [goTo_of_ne w ph h]

/-- A caller that is not about to append before or after its step. -/
theorem Inv.stay (h : Inv w) (hBefore : ∀ p, ¬(w.phase k).On p) (hAfter : ∀ p, ¬ph.On p)
    (hHeld : ∀ {b df}, ph = .overwriting b df →
      ∀ p, (∃ e, Spans.Upto e (intervals p df)) ∨ Spans.Partition (intervals p df))
    (hCarries : ∀ p, w.Carries t p) (hRows : ∀ p, intervals p t = [] → intervals p w.table = []) :
    Inv { w.goTo k ph with table := t } := by
  have hOn : ∀ j p, ((w.goTo k ph).phase j).On p ↔ (w.phase j).On p := by
    intro j p
    by_cases hj : j = k
    · subst hj
      rw [goTo_self]
      exact iff_of_false (hAfter p) (hBefore p)
    · exact on_goTo_of_ne hj
  refine ⟨?_, ?_, ?_, ?_, ?_⟩
  · intro i j p hi hj
    exact h.single ((hOn i p).mp hi) ((hOn j p).mp hj)
  · intro j b hPhase
    have hHere : ((w.goTo k ph).phase j).On b.pair := by
      rw [show (w.goTo k ph).phase j = .appending b from hPhase]
      exact rfl
    have hj : j ≠ k := by
      rintro rfl
      rw [goTo_self] at hHere
      exact hAfter _ hHere
    have hWas : w.phase j = .appending b := (goTo_of_ne w ph hj).symm.trans hPhase
    rw [show intervals b.pair t = intervals b.pair w.table from
      (hCarries b.pair).1 ⟨j, (hOn j _).mp hHere⟩]
    exact h.upto hWas
  · intro p hNone
    refine (hCarries p).2 ?_
    rintro ⟨j, hj⟩
    exact hNone ⟨j, (hOn j p).mpr hj⟩
  · intro j b df hPhase
    by_cases hj : j = k
    · subst hj
      exact hHeld ((goTo_self w j ph).symm.trans hPhase)
    · exact h.held ((goTo_of_ne w ph hj).symm.trans hPhase)
  · intro x hx hNil
    exact h.returned hx (hRows _ hNil)

/-- A caller comes between its commits, on a pair with nobody else there. -/
theorem Inv.enter (h : Inv w) (hBefore : ∀ p, ¬(w.phase k).On p) (hFree : ¬w.Between a.pair)
    (hUpto : Spans.Upto a.effectiveFrom (intervals a.pair t))
    (hCarries : ∀ p, p ≠ a.pair → w.Carries t p)
    (hRows : ∀ p, intervals p t = [] → intervals p w.table = []) :
    Inv { w.goTo k (.appending a) with table := t } := by
  have hOn : ∀ {j p}, j ≠ k → (((w.goTo k (.appending a)).phase j).On p ↔ (w.phase j).On p) :=
    fun hj => on_goTo_of_ne hj
  have hSelf : ∀ {p}, ((w.goTo k (.appending a)).phase k).On p → p = a.pair := by
    intro p hp
    rw [goTo_self] at hp
    exact Eq.symm hp
  refine ⟨?_, ?_, ?_, ?_, ?_⟩
  · intro i j p hi hj
    by_cases hik : i = k <;> by_cases hjk : j = k
    · exact hik.trans hjk.symm
    · subst hik
      obtain rfl := hSelf hi
      exact absurd ⟨j, (hOn hjk).mp hj⟩ hFree
    · subst hjk
      obtain rfl := hSelf hj
      exact absurd ⟨i, (hOn hik).mp hi⟩ hFree
    · exact h.single ((hOn hik).mp hi) ((hOn hjk).mp hj)
  · intro j b hPhase
    by_cases hj : j = k
    · subst hj
      obtain rfl : a = b := PricingPhase.appending.inj ((goTo_self w j _).symm.trans hPhase)
      exact hUpto
    · have hWas : w.phase j = .appending b := (goTo_of_ne w _ hj).symm.trans hPhase
      have hBetween : w.Between b.pair := ⟨j, by rw [hWas]; exact rfl⟩
      have hNe : b.pair ≠ a.pair := fun hSame => hFree (hSame ▸ hBetween)
      rw [show intervals b.pair t = intervals b.pair w.table from (hCarries _ hNe).1 hBetween]
      exact h.upto hWas
  · intro p hNone
    have hNe : p ≠ a.pair := by
      rintro rfl
      exact hNone ⟨k, by rw [show (w.goTo k (.appending a)).phase k = _ from goTo_self w k _]; exact rfl⟩
    refine (hCarries p hNe).2 ?_
    rintro ⟨j, hj⟩
    have hjk : j ≠ k := by
      rintro rfl
      exact hBefore p hj
    exact hNone ⟨j, (hOn hjk).mpr hj⟩
  · intro j b df hPhase
    by_cases hj : j = k
    · subst hj
      exact absurd ((goTo_self w j _).symm.trans hPhase) (by simp)
    · exact h.held ((goTo_of_ne w _ hj).symm.trans hPhase)
  · intro x hx hNil
    exact h.returned hx (hRows _ hNil)

/-- A caller leaves its commits behind. -/
theorem Inv.leave (h : Inv w) (hPhase : w.phase k = .appending a)
    {ret : List (PricingArgs × String)} (hTidy : Tidy (intervals a.pair t))
    (hSame : ∀ p, a.pair ≠ p → intervals p t = intervals p w.table)
    (hRows : intervals a.pair t = [] → intervals a.pair w.table = [])
    (hRet : ∀ x ∈ ret, x ∈ w.returned ∨ intervals x.1.pair t ≠ []) :
    Inv { table := t, phase := (w.goTo k .idle).phase, returned := ret } := by
  have hWas : ∀ {j p}, ((w.goTo k .idle).phase j).On p → j ≠ k ∧ (w.phase j).On p := by
    intro j p hj
    have hjk : j ≠ k := by
      rintro rfl
      rw [goTo_self] at hj
      exact hj
    exact ⟨hjk, (on_goTo_of_ne hjk).mp hj⟩
  have hHere : (w.phase k).On a.pair := by
    rw [hPhase]
    exact rfl
  refine ⟨?_, ?_, ?_, ?_, ?_⟩
  · intro i j p hi hj
    exact h.single (hWas hi).2 (hWas hj).2
  · intro j b hNow
    have hOn : ((w.goTo k .idle).phase j).On b.pair := by
      rw [show (w.goTo k .idle).phase j = .appending b from hNow]
      exact rfl
    obtain ⟨hjk, hOn⟩ := hWas hOn
    have hNe : a.pair ≠ b.pair := fun hPair => hjk (h.single hOn (hPair ▸ hHere))
    rw [show intervals b.pair t = intervals b.pair w.table from hSame _ hNe]
    exact h.upto ((goTo_of_ne w _ hjk).symm.trans hNow)
  · intro p hNone
    by_cases hp : a.pair = p
    · rw [← hp]
      exact hTidy
    · rw [show intervals p t = intervals p w.table from hSame p hp]
      apply h.tidy
      rintro ⟨j, hj⟩
      have hjk : j ≠ k := by
        rintro rfl
        rw [hPhase] at hj
        exact hp hj
      exact hNone ⟨j, (on_goTo_of_ne hjk).mpr hj⟩
  · intro j b df hNow
    have hjk : j ≠ k := by
      rintro rfl
      exact absurd ((goTo_self w j _).symm.trans hNow) (by simp)
    exact h.held ((goTo_of_ne w _ hjk).symm.trans hNow)
  · intro x hx hNil
    rcases hRet x hx with hOld | hNew
    · by_cases hp : a.pair = x.1.pair
      · rw [← hp] at hNil
        exact h.returned hOld (hp ▸ hRows hNil)
      · rw [show intervals x.1.pair t = intervals x.1.pair w.table from hSame _ hp] at hNil
        exact h.returned hOld hNil
    · exact hNew hNil

/-- A caller that reads on, with the table as it is. -/
theorem Inv.goOn (h : Inv w) (hBefore : ∀ p, ¬(w.phase k).On p) (hAfter : ∀ p, ¬ph.On p)
    (hHeld : ∀ {b df}, ph = .overwriting b df →
      ∀ p, (∃ e, Spans.Upto e (intervals p df)) ∨ Spans.Partition (intervals p df)) :
    Inv (w.goTo k ph) :=
  h.stay hBefore hAfter hHeld (fun _ => ⟨fun _ => rfl, h.tidy⟩) fun _ hNil => hNil

theorem Inv.begin (h : Inv w) (hBefore : ∀ p, ¬(w.phase k).On p)
    (hFirst : intervals a.pair w.table = [] ∧ ¬w.Between a.pair) :
    Inv (w.goTo k (.appending a)) := by
  refine h.enter hBefore hFirst.2 ?_ (fun _ _ => ⟨fun _ => rfl, h.tidy⟩) fun _ hNil => hNil
  rw [hFirst.1]
  exact Spans.Upto.nil

theorem Inv.read (h : Inv w) {ok : Bool} (hOrderly : w.Orderly (.read k ok)) :
    Inv (w.step (.read k ok)) := by
  rw [step]
  cases hPhase : w.phase k with
  | reading a =>
      have hBefore : ∀ p, ¬(w.phase k).On p := by
        intro p hOn
        rw [hPhase] at hOn
        exact hOn
      obtain ⟨df, hDf⟩ : ∃ df, df = if ok then w.table else [] := ⟨_, rfl⟩
      simp only [← hDf]
      by_cases hNil : df = []
      · rw [if_pos hNil]
        refine h.begin hBefore (hOrderly a hPhase fun hOk => ?_)
        rw [hOk, if_pos rfl] at hDf
        exact hDf.symm.trans hNil
      · have hRead : df = w.table := by
          cases ok with
          | true => exact hDf
          | false => exact absurd hDf hNil
        rw [if_neg hNil]
        split
        · exact h.goOn hBefore (fun _ => id) fun hNow => PricingPhase.noConfusion hNow
        · refine h.goOn hBefore (fun _ => id) ?_
          intro b df' hNow p
          obtain ⟨-, rfl⟩ := PricingPhase.overwriting.inj hNow
          rw [hRead]
          exact h.shape p
  | _ => exact h

theorem Inv.overwrite (h : Inv w) {commit : Commit} (hOrderly : w.Orderly (.overwrite k commit)) :
    Inv (w.step (.overwrite k commit)) := by
  rw [step]
  cases hPhase : w.phase k with
  | overwriting a df =>
      have hBefore : ∀ p, ¬(w.phase k).On p := by
        intro p hOn
        rw [hPhase] at hOn
        exact hOn
      simp only
      by_cases hRefused : commit = .refused
      · rw [if_pos hRefused, hRefused, if_neg (by decide)]
        exact h.goOn hBefore (fun _ => id) fun hOther => PricingPhase.noConfusion hOther
      · obtain ⟨hKept, hFree, hOrder, hRaise⟩ := hOrderly a df hPhase hRefused
        have hRows : ∀ p, intervals p (closeRates df a) = [] → intervals p w.table = [] := by
          intro p hNil
          apply (hKept p).rows
          by_cases hp : a.pair = p
          · subst hp
            rw [intervals_closeRates] at hNil
            exact List.map_eq_nil_iff.mp hNil
          · rwa [intervals_closeRates_of_ne hp] at hNil
        have hOther : ∀ p, p ≠ a.pair → w.Carries (closeRates df a) p := by
          intro p hp
          have hCarries := h.carries hPhase (hKept p)
          rw [Carries, intervals_closeRates_of_ne hp.symm]
          exact hCarries
        rw [if_neg hRefused]
        by_cases hDone : commit = .done
        · rw [if_pos hDone]
          refine h.enter hBefore hFree ?_ hOther hRows
          rw [intervals_closeRates]
          rcases (h.carries hPhase (hKept a.pair)).2 hFree with hNil | hPartition
          · rw [hNil]
            exact Spans.Upto.nil
          · exact hPartition.upto_close hOrder
        · -- carried out, though it raised: there was nothing to close
          rw [if_neg hDone]
          refine h.stay hBefore (fun _ => id) (fun hNow => PricingPhase.noConfusion hNow) ?_ hRows
          intro p
          by_cases hp : p = a.pair
          · subst hp
            refine ⟨fun hBetween => absurd hBetween hFree, fun _ => Or.inl ?_⟩
            have hNil : intervals a.pair df = [] := by
              by_contra hSome
              exact hDone (hRaise hSome)
            rw [intervals_closeRates, hNil, List.map_nil]
          · exact hOther p hp
  | _ => exact h

theorem Inv.append (h : Inv w) {pid : String} {now : Int} {commit : Commit}
    (hOrderly : w.Orderly (.append k pid now commit)) : Inv (w.step (.append k pid now commit)) := by
  rw [step]
  cases hPhase : w.phase k with
  | appending a =>
      have hNew : intervals a.pair (addPricing w.table a pid now) ≠ [] := by
        rw [intervals_addPricing]
        exact List.append_ne_nil_of_right_ne_nil _ (List.cons_ne_nil _ _)
      have hRet : ∀ x ∈ w.returned ++ [(a, pid)],
          x ∈ w.returned ∨ intervals x.1.pair (addPricing w.table a pid now) ≠ [] := by
        intro x hx
        rcases List.mem_append.mp hx with hOld | hLast
        · exact Or.inl hOld
        · rw [List.mem_singleton.mp hLast]
          exact Or.inr hNew
      have hTidy : Tidy (intervals a.pair (addPricing w.table a pid now)) := by
        rw [intervals_addPricing]
        exact Or.inr (h.upto hPhase).partition
      cases commit with
      | done =>
          exact h.leave hPhase hTidy (fun p => intervals_addPricing_of_ne) (fun hNil => absurd hNil hNew)
            hRet
      | refused =>
          exact h.leave hPhase (Or.inl (hOrderly a hPhase rfl)) (fun _ _ => rfl) id fun _ => Or.inl
      | lost =>
          exact h.leave hPhase hTidy (fun p => intervals_addPricing_of_ne) (fun hNil => absurd hNil hNew)
            fun _ => Or.inl
  | _ => exact h

theorem Inv.step (h : Inv w) (e : PricingEvent κ) (hOrderly : w.Orderly e) : Inv (w.step e) := by
  cases e with
  | add k a =>
      rw [PricingWorld.step]
      split
      · rename_i hPhase
        refine h.begin ?_ (hOrderly hPhase)
        intro p hOn
        rw [hPhase] at hOn
        exact hOn
      · exact h
  | update k a =>
      rw [PricingWorld.step]
      split
      · rename_i hPhase
        refine h.goOn ?_ (fun _ => id) fun hNow => PricingPhase.noConfusion hNow
        intro p hOn
        rw [hPhase] at hOn
        exact hOn
      · exact h
  | read k ok => exact h.read hOrderly
  | overwrite k commit => exact h.overwrite hOrderly
  | append k pid now commit => exact h.append hOrderly

end Invariant

/-! ## Examples -/

def qwenFrom (day : Int) : PricingArgs := ⟨"groq", "qwen/qwen3-32b", 34 / 100, 34 / 100, day, none⟩

def addEvents (a : PricingArgs) : List (PricingEvent Bool) := [.add false a, .append false "p0" 0 .done]

/-- An update with nothing between its steps. -/
def updateEvents (a : PricingArgs) (commit : Commit) : List (PricingEvent Bool) :=
  [.update false a, .read false true, .overwrite false .done, .append false "p1" 0 commit]

end PricingWorld

end AsetPlatform.StockData

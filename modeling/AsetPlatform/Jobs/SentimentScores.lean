import AsetPlatform.Jobs.SentimentClasses
import AsetPlatform.Library.Run

/-!
# The scores of a sentiment run

The workers of `execute_run_sentiment` in `backend/jobs/executor.py`, step by step. A check reads whether
its ticker has a score of today (unless the run is forced), gets headlines and scores them
(`refresh_ticker_sentiment` of `tools/_sentiment_scorer.py`), deletes the ticker's rows of today, and
appends its own (`insert_sentiment_score` of `stocks/repository.py`). The steps of different checks
interleave and each may fail; a failed delete is ignored. When all checks are through, the gap fill gives
the market score to the tickers that have no row.

What the headlines and the scoring of a check come to is part of the events, so that the fields of
`Input` about this are not used. Rows of other days are left out, and so are the scores.

`World.real` is no part of the program. It holds the tickers whose last score of today is by FinBERT or
the LLM.
-/

set_option autoImplicit false

namespace AsetPlatform.Jobs.SentimentScores

open AsetPlatform.Library
open AsetPlatform.Jobs.Sentiment (Input partition_iff)

/-! ## The table -/

/-- A ticker as it is stored, in upper case. -/
abbrev Symbol := { s : String // asciiUpper s = s }

def upper (s : String) : Symbol := ⟨asciiUpper s, asciiUpper_idem s⟩

/-- What `score_headlines_with_source` names. -/
inductive Provenance where
  | finbert
  | llm
  | none
  deriving DecidableEq

inductive Source where
  | scored (p : Provenance)
  | marketFallback
  deriving DecidableEq

/-- Scored by FinBERT or the LLM. -/
def Source.real : Source → Bool
  | .scored .finbert => true
  | .scored .llm => true
  | .scored .none => false
  | .marketFallback => false

/-- A row of today. -/
structure ScoreRow where
  ticker : Symbol
  source : Source
  deriving DecidableEq

/-! ## The checks -/

/-- How far a check is. -/
inductive Phase where
  | waiting
  | scored (p : Provenance)
  | deleted (p : Provenance)
  | finished
  deriving DecidableEq

def Phase.isDeleted : Phase → Bool
  | .waiting => false
  | .scored _ => false
  | .deleted _ => true
  | .finished => false

structure World where
  rows : List ScoreRow
  phase : Nat → Phase
  real : List Symbol

/-- The workers' steps, by the number of the check. A `result` of none stands for a read that fails, no
headlines, or a failure to score them. -/
inductive Event where
  | check (k : Nat) (result : Option Provenance)
  | delete (k : Nat) (fails : Bool)
  | append (k : Nat) (fails : Bool)

/-- When the checks begin. -/
def World.start (rows : List ScoreRow) : World where
  rows := rows
  phase := fun _ => .waiting
  real := (rows.filter (·.source.real)).map ScoreRow.ticker

def World.goto (w : World) (k : Nat) (phase : Phase) : World :=
  { w with phase := Function.update w.phase k phase }

section Steps

variable (x : Input) (w : World)

def symbolAt (k : Nat) : Option Symbol := x.checkTickers[k]?.map upper

/-- The freshness read, the headlines and the scoring. -/
def check (k : Nat) (symbol : Symbol) (result : Option Provenance) : World :=
  -- a score of today is enough; nothing is fetched and nothing written
  if !x.force && decide (symbol ∈ w.rows.map ScoreRow.ticker) then w.goto k .finished
  else
    match result with
    | none => w.goto k .finished
    | some p => w.goto k (.scored p)

/-- `insert_sentiment_score` up to its delete. -/
def delete (k : Nat) (symbol : Symbol) (p : Provenance) (fails : Bool) : World :=
  { w.goto k (.deleted p) with
    -- a failed delete is caught, and the append follows all the same
    rows := if fails then w.rows else w.rows.filter (·.ticker ≠ symbol) }

def append (k : Nat) (symbol : Symbol) (p : Provenance) (fails : Bool) : World :=
  if fails then w.goto k .finished
  else
    { w.goto k .finished with
      rows := w.rows ++ [⟨symbol, .scored p⟩]
      real := if (Source.scored p).real then w.real ++ [symbol] else w.real.filter (· ≠ symbol) }

def step : Event → World
  | .check k result =>
      match symbolAt x k, w.phase k with
      | some symbol, .waiting => check x w k symbol result
      | _, _ => w
  | .delete k fails =>
      match symbolAt x k, w.phase k with
      | some symbol, .scored p => delete w k symbol p fails
      | _, _ => w
  | .append k fails =>
      match symbolAt x k, w.phase k with
      | some symbol, .deleted p => append w k symbol p fails
      | _, _ => w

/-- All checks are through. -/
def Finished : Prop := ∀ k < x.checkTickers.length, w.phase k = .finished

/-! ## The gap fill -/

/-- `unscored` -/
def unscored : List String :=
  x.allYf.filter fun t => t ∉ (w.rows.map ScoreRow.ticker).map Subtype.val

/-- The rows that the gap fill leaves. -/
def leftRows (deleteFails : Bool) : List ScoreRow :=
  if deleteFails then w.rows
  else w.rows.filter fun r =>
    !(decide (r.ticker ∈ (unscored x w).map upper) && !r.source.real)

/-- Step 5, and whether its delete fails. -/
def fillRows (deleteFails : Bool) : List ScoreRow :=
  if unscored x w = [] then w.rows
  else leftRows x w deleteFails ++ (unscored x w).map fun t => ⟨upper t, .marketFallback⟩

/-! ## What is promised, and when -/

/-- Each ticker in scope has one row, and it is no market score when the last one before was by FinBERT or
the LLM. -/
structure CoveredOnce (deleteFails : Bool) : Prop where
  once : ∀ t ∈ x.allYf, ((fillRows x w deleteFails).filter (·.ticker = upper t)).length = 1
  kept : ∀ t ∈ x.allYf, upper t ∈ w.real →
    ⟨upper t, .marketFallback⟩ ∉ fillRows x w deleteFails

/-- A row by FinBERT or the LLM is stored. -/
def HasReal (symbol : Symbol) : Prop := ∃ r ∈ w.rows, r.ticker = symbol ∧ r.source.real = true

/-- A check has deleted the rows of its symbol and not appended its own. -/
def Pending (k : Nat) (symbol : Symbol) : Prop :=
  symbolAt x k = some symbol ∧ (w.phase k).isDeleted = true

/-- Before the run no ticker in scope has two rows. -/
def StartsOnce (rows : List ScoreRow) : Prop :=
  ∀ t ∈ x.allYf, (rows.filter (·.ticker = upper t)).length ≤ 1

/-- A row is appended when none of its symbol is stored. If the append fails, a score by FinBERT or the LLM
is left, or another check of the symbol has yet to append. -/
def Careful : Event → Prop
  | .check _ _ => True
  | .delete _ _ => True
  | .append k fails => ∀ symbol ∈ symbolAt x k, (w.phase k).isDeleted = true →
      if fails then
        symbol ∈ w.real → HasReal w symbol ∨
          ∃ k' < x.checkTickers.length, k' ≠ k ∧ Pending x w k' symbol
      else symbol ∉ w.rows.map ScoreRow.ticker

instance (symbol : Symbol) : Decidable (HasReal w symbol) := by
  unfold HasReal
  infer_instance

instance (k : Nat) (symbol : Symbol) : Decidable (Pending x w k symbol) :=
  inferInstanceAs (Decidable (_ ∧ _))

instance (e : Event) : Decidable (Careful x w e) :=
  match e with
  | .check _ _ => isTrue trivial
  | .delete _ _ => isTrue trivial
  | .append k fails => by
      unfold Careful
      infer_instance

/-- The tickers to fill in have different symbols, and no row of them is left. -/
def FillCareful (deleteFails : Bool) : Prop :=
  ((unscored x w).map upper).Nodup ∧
    ∀ symbol ∈ (unscored x w).map upper,
      symbol ∉ (leftRows x w deleteFails).map ScoreRow.ticker

end Steps

/-! ## What a step does -/

/-- The moves of a step. -/
inductive Move (x : Input) (w : World) : Event → World → Prop
  | idle (e : Event) : Move x w e w
  | checked {k : Nat} {symbol : Symbol} (result : Option Provenance) (phase : Phase)
      (hsymbol : symbolAt x k = some symbol) (hphase : w.phase k = .waiting)
      (hnext : phase.isDeleted = false) : Move x w (.check k result) (w.goto k phase)
  | deleted {k : Nat} {symbol : Symbol} {p : Provenance} (fails : Bool)
      (hsymbol : symbolAt x k = some symbol) (hphase : w.phase k = .scored p) :
      Move x w (.delete k fails) (delete w k symbol p fails)
  | appended {k : Nat} {symbol : Symbol} {p : Provenance} (fails : Bool)
      (hsymbol : symbolAt x k = some symbol) (hphase : w.phase k = .deleted p) :
      Move x w (.append k fails) (append w k symbol p fails)

section Steps

variable {x : Input} {w : World}

theorem step_move (x : Input) (w : World) (e : Event) : Move x w e (step x w e) := by
  cases e with
  | check k result =>
    rw [step]
    split
    · next symbol hsymbol hphase =>
      unfold check
      split
      · exact .checked result _ hsymbol hphase rfl
      · cases result with
        | none => exact .checked none _ hsymbol hphase rfl
        | some p => exact .checked (some p) _ hsymbol hphase rfl
    · exact .idle _
  | delete k fails =>
    rw [step]
    split
    · next symbol p hsymbol hphase => exact .deleted fails hsymbol hphase
    · exact .idle _
  | append k fails =>
    rw [step]
    split
    · next symbol p hsymbol hphase => exact .appended fails hsymbol hphase
    · exact .idle _

theorem lt_of_symbolAt {k : Nat} {symbol : Symbol} (h : symbolAt x k = some symbol) :
    k < x.checkTickers.length := by
  by_contra hge
  rw [symbolAt, List.getElem?_eq_none (Nat.not_lt.mp hge)] at h
  cases h

theorem Pending.goto {k k' : Nat} {symbol : Symbol} {phase : Phase} (hne : k' ≠ k)
    (h : Pending x w k' symbol) : Pending x (w.goto k phase) k' symbol := by
  refine ⟨h.1, ?_⟩
  rw [World.goto]
  simp only [Function.update_of_ne hne]
  exact h.2

theorem Pending.goto_other {k k' : Nat} {symbol symbol' : Symbol} {phase : Phase}
    (hsymbol : symbolAt x k = some symbol) (hne : symbol' ≠ symbol)
    (h : Pending x w k' symbol') : Pending x (w.goto k phase) k' symbol' := by
  refine h.goto ?_
  rintro rfl
  exact hne (Option.some.inj (h.1.symm.trans hsymbol))

/-- No ticker in scope has two rows. A ticker whose last score is by FinBERT or the LLM has a row of
these, unless a check is between its delete and its append. -/
structure Sound (x : Input) (w : World) : Prop where
  once : ∀ t ∈ x.allYf, (w.rows.filter (·.ticker = upper t)).length ≤ 1
  real : ∀ symbol ∈ w.real, HasReal w symbol ∨ ∃ k, Pending x w k symbol

theorem sound_start {rows : List ScoreRow} (h : StartsOnce x rows) :
    Sound x (World.start rows) := by
  refine ⟨h, ?_⟩
  intro symbol hsymbol
  obtain ⟨r, hr, rfl⟩ := List.mem_map.mp hsymbol
  obtain ⟨hmem, hreal⟩ := List.mem_filter.mp hr
  exact Or.inl ⟨r, hmem, rfl, hreal⟩

theorem Sound.goto {k : Nat} {phase : Phase} (h : Sound x w)
    (hphase : (w.phase k).isDeleted = false) : Sound x (w.goto k phase) := by
  refine ⟨h.once, ?_⟩
  intro symbol hsymbol
  refine (h.real symbol hsymbol).imp id ?_
  rintro ⟨k', hpending⟩
  refine ⟨k', hpending.goto ?_⟩
  rintro rfl
  exact absurd hpending.2 (by simp [hphase])

theorem Sound.delete {k : Nat} {symbol : Symbol} {p : Provenance} (h : Sound x w) (fails : Bool)
    (hsymbol : symbolAt x k = some symbol) (hphase : w.phase k = .scored p) :
    Sound x (delete w k symbol p fails) := by
  have hrows : ∀ r ∈ w.rows, r.ticker ≠ symbol → r ∈ (SentimentScores.delete w k symbol p fails).rows := by
    intro r hr hne
    rw [SentimentScores.delete]
    cases fails with
    | true => exact hr
    | false => exact List.mem_filter.mpr ⟨hr, by simpa using hne⟩
  constructor
  · intro t ht
    refine Nat.le_trans (List.Sublist.length_le ?_) (h.once t ht)
    apply List.Sublist.filter
    rw [SentimentScores.delete]
    cases fails with
    | true => exact List.Sublist.refl _
    | false => exact List.filter_sublist
  · intro symbol' hsymbol'
    by_cases hsame : symbol' = symbol
    · subst hsame
      right
      refine ⟨k, hsymbol, ?_⟩
      simp [SentimentScores.delete, World.goto, Phase.isDeleted]
    · rcases h.real symbol' hsymbol' with ⟨r, hr, hticker, hreal⟩ | ⟨k', hpending⟩
      · left
        exact ⟨r, hrows r hr (hticker ▸ hsame), hticker, hreal⟩
      · exact Or.inr ⟨k', hpending.goto_other hsymbol hsame⟩

theorem Sound.append {k : Nat} {symbol : Symbol} {p : Provenance} (h : Sound x w) (fails : Bool)
    (hsymbol : symbolAt x k = some symbol) (hphase : w.phase k = .deleted p)
    (hcareful : Careful x w (.append k fails)) : Sound x (append w k symbol p fails) := by
  have hdeleted : (w.phase k).isDeleted = true := by
    rw [hphase]
    rfl
  have hcareful := hcareful symbol hsymbol hdeleted
  cases fails with
  | true =>
    -- the check ends without its row, so the condition has to say who has one
    refine ⟨h.once, ?_⟩
    intro symbol' hsymbol'
    by_cases hsame : symbol' = symbol
    · subst hsame
      refine (hcareful hsymbol').imp id ?_
      rintro ⟨k', -, hne, hpending⟩
      exact ⟨k', hpending.goto hne⟩
    · refine (h.real symbol' hsymbol').imp id ?_
      rintro ⟨k', hpending⟩
      exact ⟨k', hpending.goto_other hsymbol hsame⟩
  | false =>
    -- no row of the symbol is there, so the one appended is the only one
    have hnone : w.rows.filter (·.ticker = symbol) = [] := by
      rw [List.filter_eq_nil_iff]
      intro r hr hticker
      exact hcareful (List.mem_map.mpr ⟨r, hr, of_decide_eq_true hticker⟩)
    constructor
    · intro t ht
      rw [SentimentScores.append, if_neg Bool.false_ne_true]
      simp only [List.filter_append]
      by_cases hsame : symbol = upper t
      · rw [← hsame, hnone]
        simp
      · have hnot : [(⟨symbol, .scored p⟩ : ScoreRow)].filter (·.ticker = upper t) = [] := by
          simp [hsame]
        rw [hnot, List.append_nil]
        exact h.once t ht
    · intro symbol' hsymbol'
      rw [SentimentScores.append, if_neg Bool.false_ne_true] at hsymbol' ⊢
      by_cases hsame : symbol' = symbol
      · -- it is the last score now
        subst hsame
        simp only at hsymbol'
        split at hsymbol'
        · next hreal => exact Or.inl ⟨_, List.mem_append_right _ (List.mem_singleton_self _), rfl, hreal⟩
        · simp at hsymbol'
      · have hold : symbol' ∈ w.real := by
          simp only at hsymbol'
          split at hsymbol'
          · simpa [hsame] using hsymbol'
          · exact (List.mem_filter.mp hsymbol').1
        rcases h.real symbol' hold with ⟨r, hr, hticker, hreal⟩ | ⟨k', hpending⟩
        · exact Or.inl ⟨r, List.mem_append_left _ hr, hticker, hreal⟩
        · exact Or.inr ⟨k', hpending.goto_other hsymbol hsame⟩

theorem Sound.step (h : Sound x w) {e : Event} (hcareful : Careful x w e) :
    Sound x (step x w e) := by
  generalize hw' : SentimentScores.step x w e = w'
  have hmove := step_move x w e
  rw [hw'] at hmove
  cases hmove with
  | idle => exact h
  | checked result phase hsymbol hphase hnext =>
    apply h.goto
    rw [hphase]
    rfl
  | deleted fails hsymbol hphase => exact h.delete fails hsymbol hphase
  | appended fails hsymbol hphase => exact h.append fails hsymbol hphase hcareful

end Steps

/-! ## The gap fill -/

section Fill

variable {x : Input} {w : World} {deleteFails : Bool}

theorem Sound.hasReal (h : Sound x w) (hdone : Finished x w) {symbol : Symbol}
    (hsymbol : symbol ∈ w.real) : HasReal w symbol := by
  refine (h.real symbol hsymbol).resolve_right ?_
  rintro ⟨k, hk, hdeleted⟩
  rw [hdone k (lt_of_symbolAt hk)] at hdeleted
  cases hdeleted

theorem fillRows_eq (x : Input) (w : World) (deleteFails : Bool) :
    fillRows x w deleteFails =
      leftRows x w deleteFails ++ (unscored x w).map fun t => ⟨upper t, .marketFallback⟩ := by
  rw [fillRows]
  split
  · next hnone =>
    rw [leftRows, hnone]
    cases deleteFails <;> simp
  · rfl

theorem filter_leftRows {symbol : Symbol} (h : symbol ∉ (unscored x w).map upper) :
    (leftRows x w deleteFails).filter (·.ticker = symbol) = w.rows.filter (·.ticker = symbol) := by
  rw [leftRows]
  split
  · rfl
  · rw [List.filter_filter]
    apply List.filter_congr
    intro r _
    by_cases hticker : r.ticker = symbol
    · simp [hticker, h]
    · simp [hticker]

theorem mem_leftRows_of_real {r : ScoreRow} (hr : r ∈ w.rows) (hreal : r.source.real = true) :
    r ∈ leftRows x w deleteFails := by
  rw [leftRows]
  split
  · exact hr
  · exact List.mem_filter.mpr ⟨hr, by simp [hreal]⟩

theorem filter_fallback (ts : List String) (symbol : Symbol) :
    ((ts.map fun t => (⟨upper t, .marketFallback⟩ : ScoreRow)).filter (·.ticker = symbol)).length =
      (ts.map upper).count symbol := by
  rw [List.filter_map, List.length_map, List.count_eq_countP, List.countP_map,
    List.countP_eq_length_filter]
  congr 2
  funext t
  rw [Bool.eq_iff_iff]
  simp [Function.comp, Subtype.ext_iff]

theorem Sound.coveredOnce (h : Sound x w) (hdone : Finished x w)
    (hfill : FillCareful x w deleteFails) : CoveredOnce x w deleteFails := by
  have honce : ∀ t ∈ x.allYf,
      ((fillRows x w deleteFails).filter (·.ticker = upper t)).length = 1 := by
    intro t ht
    rw [fillRows_eq, List.filter_append, List.length_append, filter_fallback]
    by_cases hmem : upper t ∈ (unscored x w).map upper
    · -- it is filled in once, and nothing is left of it
      have hnone : (leftRows x w deleteFails).filter (·.ticker = upper t) = [] := by
        rw [List.filter_eq_nil_iff]
        intro r hr hticker
        exact hfill.2 _ hmem (List.mem_map.mpr ⟨r, hr, of_decide_eq_true hticker⟩)
      rw [hnone, List.count_eq_one_of_mem hfill.1 hmem]
      rfl
    · -- it has a row, and no other
      have hstored : t ∈ (w.rows.map ScoreRow.ticker).map Subtype.val := by
        by_contra hnot
        exact hmem (List.mem_map_of_mem (List.mem_filter.mpr ⟨ht, by simpa using hnot⟩))
      obtain ⟨symbol, hsymbol, hval⟩ := List.mem_map.mp hstored
      obtain ⟨r, hr, rfl⟩ := List.mem_map.mp hsymbol
      have hticker : r.ticker = upper t := by
        apply Subtype.ext
        rw [upper, ← hval]
        exact r.ticker.2.symm
      rw [filter_leftRows hmem, List.count_eq_zero_of_not_mem hmem]
      have hpos : 0 < (w.rows.filter (·.ticker = upper t)).length :=
        List.length_pos_of_mem (List.mem_filter.mpr ⟨hr, decide_eq_true hticker⟩)
      have hle := h.once t ht
      omega
  refine ⟨honce, ?_⟩
  intro t ht hreal hfallback
  obtain ⟨r, hr, hticker, hsource⟩ := h.hasReal hdone hreal
  obtain ⟨r', hr'⟩ := List.length_eq_one_iff.mp (honce t ht)
  have hone : ∀ r'' ∈ fillRows x w deleteFails, r''.ticker = upper t → r'' = r' := by
    intro r'' hmem hticker
    have hfiltered : r'' ∈ (fillRows x w deleteFails).filter (·.ticker = upper t) :=
      List.mem_filter.mpr ⟨hmem, decide_eq_true hticker⟩
    rw [hr'] at hfiltered
    exact List.mem_singleton.mp hfiltered
  have hmem : r ∈ fillRows x w deleteFails := by
    rw [fillRows_eq]
    exact List.mem_append_left _ (mem_leftRows_of_real hr hsource)
  rw [hone r hmem hticker, ← hone _ hfallback rfl] at hsource
  cases hsource

end Fill

/-- A registry in which all tickers are new, and a run that nothing is known for. -/
def newTickers (registry : Registry) : Input where
  registry := registry
  scope := "all"
  force := false
  scoredFresh := fun _ => false
  dormant := fun _ => false
  probes := fun _ => []
  probes_nodup := fun _ => List.nodup_nil
  historyDays := fun _ => 0
  hot := fun _ => false
  marketCap := fun _ => 0
  sample := fun cold size => cold.take size
  sample_subperm := Sentiment.take_subperm
  scoredBefore := []
  stores := fun _ => false
  cancelSet := fun _ => false
  gapFillFails := false

/-- Two stocks, one of them with headlines. -/
def twoNew : Input :=
  newTickers ⟨[("AAPL", ⟨"us", "stock"⟩), ("TCS.NS", ⟨"NSE", "stock"⟩)], by decide⟩

/-- One stock, listed with and without its suffix. -/
def twoListings : Input :=
  newTickers ⟨[("RELIANCE", ⟨"NSE", "stock"⟩), ("RELIANCE.NS", ⟨"NSE", "stock"⟩)], by decide⟩

end AsetPlatform.Jobs.SentimentScores

import AsetPlatform.Ingestion.Sources
import AsetPlatform.Library.Floats
import AsetPlatform.Library.Rows
import AsetPlatform.Recommendations.Stage3Rules
import Mathlib.Tactic.Linarith

/-!
# Gaps of a portfolio

Stage 2 of `backend/jobs/recommendation_engine.py`, whose output stage 3 reasons over. The holdings
are those of the scope with what the enrichment left in them; index, watchlist and correlation alerts
are what the helpers return. Values and scores are rationals, forecasts and sentiments may be NaN.

`topCandidates_best`: the best forty are handed on, with a bonus just if they fill a gap.
`tiers_true`: the tiers of the rules of stage 3 say what is held.
-/

set_option autoImplicit false

namespace AsetPlatform.Recommendations.GapAnalysis

open AsetPlatform.Ingestion (safeStr)
open AsetPlatform.Library Stage3

inductive Cap where
  | largecap
  | midcap
  | smallcap
  deriving DecidableEq

def Cap.text : Cap → String
  | largecap => "largecap"
  | midcap => "midcap"
  | smallcap => "smallcap"

/-- `CAP_BENCHMARK` -/
def Cap.benchmark : Cap → ℚ
  | largecap => 60
  | midcap => 25
  | smallcap => 15

/-- `_classify_cap` -/
def classifyCap : Option ℚ → Cap
  | none => .smallcap
  | some cap =>
      if cap ≤ 0 then .smallcap
      else if 200000000000 ≤ cap then .largecap
      else if 50000000000 ≤ cap then .midcap
      else .smallcap

/-- `safe_sector(sector, fallback="ETF/Other")` -/
def safeSector (T : CharTables) (sector : Option String) : String :=
  (safeStr T sector).getD "ETF/Other"

/-- What a weight that is short by more than five earns. -/
def shortfall (gapPct most rate : ℚ) : ℚ := if gapPct < -5 then min most (|gapPct| * rate) else 0

/-- `_compute_gap_bonus` -/
def computeGapBonus (sectorGapPct : ℚ) (indexGap : Bool) (capGapPct : ℚ) : ℚ :=
  min 20 (round2 (shortfall sectorGapPct 10 (1 / 2) + (if indexGap then 5 else 0) +
    shortfall capGapPct 5 (3 / 10)))

/-- `_assign_tier` -/
def assignTier (ticker : String) (holdings watchlist : List String) : String :=
  if ticker ∈ holdings then "portfolio" else if ticker ∈ watchlist then "watchlist" else "discovery"

/-- `_categorize_holding`; NaN compares false. -/
def categorizeHolding (compositeScore : ℚ) (forecast3mPct : Option ℚ) (weightPct : ℚ)
    (sentiment : Option ℚ) : Category :=
  if compositeScore < 30 ∧ below forecast3mPct 0 then .exitReduce
  else if compositeScore < 40 ∧ below sentiment (-3 / 10) then .riskAlert
  else if 20 < weightPct then .rebalance
  else .holdAccumulate

/-- A row of the holdings, with its value in the column that the weights are made of. -/
structure HoldingRow where
  ticker : String
  sector : Option String
  value : ℚ
  marketCap : Option ℚ

/-- A row of stage 1. -/
structure CandidateRow where
  ticker : String
  compositeScore : ℚ
  sector : Option String
  marketCap : Option ℚ
  target3mPctChange : Option ℚ
  sentiment : Option ℚ

/-- What stage 2 works on; `weighted` says that the holdings have a sector and a value column. -/
structure Input where
  tables : CharTables
  format1 : ℚ → String
  holdings : List HoldingRow
  weighted : Bool
  candidates : List CandidateRow
  nifty50 : List String
  watchlist : List String
  correlationAlerts : Nat

namespace Input

variable (x : Input)

def holdingsTickers : List String := x.holdings.map HoldingRow.ticker

def totalValue : ℚ := if x.weighted then (x.holdings.map HoldingRow.value).sum else 0

def weight (h : HoldingRow) : ℚ := if 0 < x.totalValue then h.value / x.totalValue * 100 else 0

def sectorOf (h : HoldingRow) : String := safeSector x.tables h.sector

/-- `user_sectors.get(sector, 0.0)` -/
def sectorWeight (sector : String) : ℚ :=
  ((x.holdings.filter (x.sectorOf · = sector)).map x.weight).sum

/-- `user_sectors` -/
def userSectors : List (String × ℚ) :=
  if 0 < x.totalValue then
    (x.holdings.map x.sectorOf).eraseDups.map fun sector => (sector, x.sectorWeight sector)
  else []

def capDist (cap : Cap) : ℚ :=
  ((x.holdings.filter (classifyCap ·.marketCap = cap)).map x.weight).sum

/-- `universe_sectors.get(sector, 0.0)` -/
def universeWeight (sector : String) : ℚ :=
  x.candidates.countP (·.sector.getD "Other" = sector) / x.candidates.length * 100

/-- `sector_gaps.get(sector, 0.0)` -/
def sectorGap (sector : String) : ℚ := round2 (x.sectorWeight sector - x.universeWeight sector)

def capGap (cap : Cap) : ℚ := round2 (x.capDist cap - cap.benchmark)

structure Enriched where
  ticker : String
  compositeScore : ℚ
  gapBonus : ℚ
  gapAdjustedScore : ℚ
  tier : String
  fillsGaps : List String
  sector : String
  capCategory : Cap

def enrich (c : CandidateRow) : Enriched :=
  let sector := safeSector x.tables c.sector
  let cap := classifyCap c.marketCap
  let sGap := x.sectorGap sector
  let iGap := decide (c.ticker ∈ x.nifty50 ∧ c.ticker ∉ x.holdingsTickers)
  let cGap := x.capGap cap
  let bonus := computeGapBonus sGap iGap cGap
  { ticker := c.ticker
    compositeScore := c.compositeScore
    gapBonus := bonus
    gapAdjustedScore := round2 (c.compositeScore + bonus)
    tier := assignTier c.ticker x.holdingsTickers x.watchlist
    fillsGaps := (if sGap < -5 then ["sector:" ++ sector] else []) ++
      (if iGap then ["nifty50"] else []) ++ (if cGap < -5 then ["cap:" ++ cap.text] else [])
    sector := sector
    capCategory := cap }

def ranked : List Enriched :=
  (x.candidates.map x.enrich).mergeSort fun a b => b.gapAdjustedScore ≤ a.gapAdjustedScore

/-- `_TOP_CANDIDATES` of them. -/
def topCandidates : List Enriched := x.ranked.take 40

/-- An element of `portfolio_actions`: `score_map` has the last score of a ticker, and the other two
are looked up in its first row. -/
def portfolioAction (h : HoldingRow) : PortfolioAction (Option ℚ) :=
  let rows := x.candidates.filter (·.ticker = h.ticker)
  let comp := (rows.getLast?.map CandidateRow.compositeScore).getD 50
  let fcast := (rows.head?.map CandidateRow.target3mPctChange).getD (some 0)
  let sent := (rows.head?.map CandidateRow.sentiment).getD (some 0)
  { ticker := h.ticker
    compositeScore := some (round2 comp)
    forecast3mPct := fcast.map round2
    category := categorizeHolding comp fcast (x.weight h) sent }

def concentrationRisks : List String :=
  (x.userSectors.filter (30 < ·.2)).map (fun e => e.1 ++ ": " ++ x.format1 e.2 ++ "% (>30%)") ++
    if 80 < x.capDist .largecap then
      ["Large-cap heavy: " ++ x.format1 (x.capDist .largecap) ++ "%"]
    else []

/-- `stage2_gap_analysis`, as far as stage 3 looks at what it returns. -/
def stage2GapAnalysis : Stage2Output (Option ℚ) where
  portfolioSummary :=
    { concentrationRisks := x.concentrationRisks
      correlationAlerts := x.correlationAlerts
      totalHoldings := x.holdingsTickers.eraseDups.length }
  portfolioActions := x.holdings.map x.portfolioAction
  candidates := x.topCandidates.map fun e => ⟨e.ticker, some e.gapAdjustedScore, e.tier, e.sector⟩

end Input

/-! ## Bonus and rank -/

theorem shortfall_cases {most rate : ℚ} (hMost : 1 ≤ most) (hRate : 1 / 5 ≤ rate) (gapPct : ℚ) :
    gapPct < -5 ∧ 1 ≤ shortfall gapPct most rate ∨ ¬gapPct < -5 ∧ shortfall gapPct most rate = 0 := by
  by_cases hShort : gapPct < -5
  · refine Or.inl ⟨hShort, ?_⟩
    have hAbs : 5 ≤ |gapPct| := (by linarith : 5 ≤ -gapPct).trans (neg_le_abs gapPct)
    rw [shortfall, if_pos hShort]
    exact le_min hMost (by nlinarith)
  · exact Or.inr ⟨hShort, if_neg hShort⟩

theorem computeGapBonus_bounds (s : ℚ) (i : Bool) (c : ℚ) :
    0 ≤ computeGapBonus s i c ∧ computeGapBonus s i c ≤ 20 ∧
      (computeGapBonus s i c = 0 ↔ ¬s < -5 ∧ i = false ∧ ¬c < -5) := by
  have hSector := shortfall_cases (by norm_num : (1 : ℚ) ≤ 10) (by norm_num : 1 / 5 ≤ (1 / 2 : ℚ)) s
  have hCap := shortfall_cases (by norm_num : (1 : ℚ) ≤ 5) (by norm_num : 1 / 5 ≤ (3 / 10 : ℚ)) c
  have hZero : round2 0 = 0 := by decide +kernel
  have hOne : round2 1 = 1 := by decide +kernel
  rw [computeGapBonus]
  generalize shortfall s 10 (1 / 2) = p at *
  generalize shortfall c 5 (3 / 10) = q at *
  by_cases hNone : ¬s < -5 ∧ i = false ∧ ¬c < -5
  · obtain ⟨hs, rfl, hc⟩ := hNone
    have hp : p = 0 := (hSector.resolve_left fun h => hs h.1).2
    have hq : q = 0 := (hCap.resolve_left fun h => hc h.1).2
    subst hp hq
    simp [hZero, hs, hc]
  · have hp : 0 ≤ p := hSector.elim (fun h => zero_le_one.trans h.2) fun h => h.2.ge
    have hq : 0 ≤ q := hCap.elim (fun h => zero_le_one.trans h.2) fun h => h.2.ge
    have hFilled : 1 ≤ p + (if i then 5 else 0) + q := by
      cases i with
      | true =>
          rw [if_pos rfl]
          linarith
      | false =>
          rw [if_neg Bool.false_ne_true, add_zero]
          rcases hSector with ⟨-, hOnce⟩ | ⟨hs, -⟩
          · linarith
          · rcases hCap with ⟨-, hOnce⟩ | ⟨hc, -⟩
            · linarith
            · exact absurd ⟨hs, rfl, hc⟩ hNone
    have hRound := hOne ▸ round2_mono hFilled
    have hLe : 1 ≤ min 20 (round2 (p + (if i then 5 else 0) + q)) := le_min (by norm_num) hRound
    exact ⟨by linarith, min_le_left _ _, iff_of_false (fun h => by linarith) hNone⟩

namespace Input

variable {x : Input}

theorem enrich_bonus (c : CandidateRow) : 0 ≤ (x.enrich c).gapBonus ∧ (x.enrich c).gapBonus ≤ 20 ∧
    ((x.enrich c).gapBonus = 0 ↔ (x.enrich c).fillsGaps = []) := by
  refine (computeGapBonus_bounds _ _ _).imp_right (And.imp_right fun h => h.trans ?_)
  simp only [enrich, List.append_eq_nil_iff, ite_eq_right_iff, List.cons_ne_nil, imp_false,
    Bool.not_eq_true, and_assoc]

theorem ranked_perm : x.ranked.Perm (x.candidates.map x.enrich) := List.mergeSort_perm _ _

/-- The candidates that stage 2 hands on are forty, or all; none that is left out is ahead of one of
them. Their bonus is at most 20, and there is none just if they fill no gap. -/
theorem topCandidates_best (x : Input) :
    (∃ rest, (x.topCandidates ++ rest).Perm (x.candidates.map x.enrich) ∧
      (x.topCandidates ++ rest).Pairwise fun a b => b.gapAdjustedScore ≤ a.gapAdjustedScore) ∧
    x.topCandidates.length = min 40 x.candidates.length ∧
    ∀ e ∈ x.topCandidates,
      0 ≤ e.gapBonus ∧ e.gapBonus ≤ 20 ∧ (e.gapBonus = 0 ↔ e.fillsGaps = []) := by
  refine ⟨⟨x.ranked.drop 40, ?_⟩, ?_, fun e he => ?_⟩
  · rw [topCandidates, List.take_append_drop]
    exact ⟨ranked_perm, sorted_mergeSort (fun e : Enriched => OrderDual.toDual e.gapAdjustedScore) _⟩
  · rw [topCandidates, List.length_take, ranked_perm.length_eq, List.length_map]
  · obtain ⟨c, -, rfl⟩ := List.mem_map.mp (ranked_perm.mem_iff.mp (List.mem_of_mem_take he))
    exact enrich_bonus c

/-! ## Tiers -/

theorem assignTier_eq_portfolio_iff (ticker : String) (holdings watchlist : List String) :
    assignTier ticker holdings watchlist = "portfolio" ↔ ticker ∈ holdings := by
  rw [assignTier]
  split
  · simp [*]
  · split <;> simp [*]

theorem mem_fill {rt : Runtime (Option ℚ)} {o : Obj} {cs : List (Candidate (Option ℚ))} :
    ∀ {recs : List Obj} {seen : List String}, o ∈ fill rt recs seen cs →
      o ∈ recs ∨ ∃ c ∈ cs, o = candidateRec rt c := by
  induction cs with
  | nil => exact fun h => Or.inl h
  | cons c cs ih =>
      intro recs seen h
      have hAppend : ∀ {os : List Obj}, o ∈ os ++ [candidateRec rt c] →
          o ∈ os ∨ ∃ d ∈ c :: cs, o = candidateRec rt d := fun hMem =>
        (List.mem_append.mp hMem).imp_right fun hLast =>
          ⟨c, List.mem_cons_self, List.mem_singleton.mp hLast⟩
      have hLater : (∃ d ∈ cs, o = candidateRec rt d) → ∃ d ∈ c :: cs, o = candidateRec rt d :=
        fun ⟨d, hd, ho⟩ => ⟨d, List.mem_cons_of_mem _ hd, ho⟩
      rw [fill] at h
      split at h
      · exact (ih h).imp_right hLater
      · split at h
        · exact hAppend h
        · exact (ih h).elim hAppend fun hRest => Or.inr (hLater hRest)

theorem length_fallbackRecs_le (rt : Runtime (Option ℚ)) (s2 : Stage2Output (Option ℚ)) :
    (fallbackRecs rt s2).length ≤ 5 := by
  obtain ⟨picks, hRecs, hPicks⟩ := fallbackRecs_eq rt s2
  have hFirst : (firstTickers s2).length ≤ 2 := by
    rw [firstTickers, List.length_map]
    exact firstActions_length_le _
  have hBought : picks.length ≤ 5 - (firstTickers s2).length := by
    rw [← List.length_map Candidate.ticker, hPicks]
    exact List.length_take_le _ _
  rw [hRecs, List.length_append, List.length_map, List.length_map]
  rw [firstTickers, List.length_map] at hFirst hBought
  omega

/-- From the output of stage 2 the rules of stage 3 recommend at most five times, and the tier of what
they recommend is "portfolio" just if its ticker is held. -/
theorem tiers_true (x : Input) (rt : Runtime (Option ℚ)) :
    (fallbackRecs rt x.stage2GapAnalysis).length ≤ 5 ∧
      ∀ o ∈ fallbackRecs rt x.stage2GapAnalysis, ∃ ticker, Obj.symbol o = some ticker ∧
        (Obj.get o "tier" = some (.str "portfolio") ↔ ticker ∈ x.holdingsTickers) := by
  refine ⟨length_fallbackRecs_le rt _, fun o ho => ?_⟩
  rcases mem_fill ho with hAction | ⟨c, hc, rfl⟩
  · obtain ⟨pa, hpa, rfl⟩ := List.mem_map.mp hAction
    obtain ⟨h, hh, rfl⟩ := List.mem_map.mp (mem_of_firstActions hpa)
    exact ⟨h.ticker, rfl, iff_of_true rfl (List.mem_map_of_mem hh)⟩
  · obtain ⟨e, he, rfl⟩ := List.mem_map.mp (List.mem_of_mem_take hc)
    obtain ⟨row, -, rfl⟩ := List.mem_map.mp (ranked_perm.mem_iff.mp (List.mem_of_mem_take he))
    have hTier := assignTier_eq_portfolio_iff row.ticker x.holdingsTickers x.watchlist
    refine ⟨row.ticker, rfl, Iff.trans ?_ hTier⟩
    exact ⟨fun h => Json.str.inj (Option.some.inj h), fun h => congrArg (some ∘ Json.str) h⟩

end Input

end AsetPlatform.Recommendations.GapAnalysis

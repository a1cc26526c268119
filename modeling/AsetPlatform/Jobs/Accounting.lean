import AsetPlatform.Jobs.Analytics
import AsetPlatform.Jobs.BatchRefresh
import AsetPlatform.Jobs.Piotroski
import AsetPlatform.Jobs.Sentiment

/-!
# The records of the batch jobs

Four jobs count what they have done, each in its own way. `batch_job_honest_iff` says for each when its
record is honest, and `dishonest_records` gives a small run of each where it is not.
-/

set_option autoImplicit false

namespace AsetPlatform.Jobs

/-- A run of one of the jobs. -/
inductive BatchJob where
  | analytics (x : Analytics.Input)
  | sentiment (x : Sentiment.Input)
  | piotroski (x : Piotroski.Input)
  | refresh (x : BatchRefresh.Input)

namespace BatchJob

def inScope : BatchJob → List String
  | analytics x => x.tickers
  | sentiment x => x.tickers
  | piotroski x => x.tickers
  | refresh x => x.tickers

def upToDate : BatchJob → String → Bool
  | analytics x => Analytics.upToDate x
  | sentiment x => Sentiment.upToDate x
  | piotroski x => Piotroski.upToDate x
  | refresh x => BatchRefresh.upToDate x

/-- What the run ends with. -/
def record : BatchJob → Option Finalized
  | analytics x => Analytics.executeComputeAnalytics x
  | sentiment x => some (Sentiment.executeRunSentiment x)
  | piotroski x => some (Piotroski.executeRunPiotroski x)
  | refresh x => BatchRefresh.batchDataRefresh x

/-- The run is not cancelled, and none of its writes raises. -/
def Finishes : BatchJob → Prop
  | analytics x => Analytics.Finishes x
  | sentiment x => Sentiment.Uncancelled x
  | piotroski x => x.cancelSet = false
  | refresh x => BatchRefresh.Finishes x

/-- The counts of what the run meets add up. -/
def Sound : BatchJob → Prop
  | analytics x => Analytics.Sound x
  | sentiment x => Sentiment.Sound x
  | piotroski x => Piotroski.Sound x
  | refresh x => BatchRefresh.Sound x

end BatchJob

/-- The record of a batch job is honest if and only if its run is sound or does not finish. -/
theorem batch_job_honest_iff (job : BatchJob) :
    HonestRecord job.inScope job.upToDate job.record ↔ (job.Finishes → job.Sound) := by
  cases job with
  | analytics x => exact Analytics.honestRecord_iff
  | sentiment x => exact Sentiment.honestRecord_iff
  | piotroski x => exact Piotroski.honestRecord_iff
  | refresh x => exact BatchRefresh.honestRecord_iff

/-! ## A run of each job -/

/-- An Indian stock and an American one. -/
def twoStocks : Registry where
  entries := [("TCS.NS", ⟨"NSE", "stock"⟩), ("AAPL", ⟨"us", "stock"⟩)]
  nodup := by decide

/-- Analytics for India, on a day when AAPL was analysed: two of one ticker are done. -/
def indianAnalytics : Analytics.Input where
  registry := twoStocks
  scope := "india"
  force := false
  analysedToday := {"AAPL"}
  hasOhlcv := fun _ => true
  readFails := fun _ => false
  computeError := fun _ => none
  cancelSet := fun _ => false
  appendFails := false

/-- Sentiment for a ticker without headlines: it is checked and then given the market score, and counts
twice. -/
def quietSentiment : Sentiment.Input where
  registry := twoStocks
  scope := "us"
  force := false
  scoredFresh := fun _ => false
  dormant := fun _ => false
  probes := fun _ => []
  probes_nodup := fun _ => List.nodup_nil
  historyDays := fun _ => 0
  hot := fun _ => false
  marketCap := fun _ => 0
  sample := fun cold size => cold.take size
  sample_subperm := Sentiment.take_subperm
  scoredBefore := []
  stores := fun _ => false
  cancelSet := fun _ => false
  gapFillFails := false

/-- A Piotroski run in which no ticker has quarterly results. -/
def emptyScreen : Piotroski.Input where
  registry := twoStocks
  scope := "all"
  cancelSet := false
  screen := fun _ => .skipped
  screenError := none

/-- A refresh in which one of two tickers cannot be fetched. -/
def halfRefresh : BatchRefresh.Input where
  registry := twoStocks
  scope := "all"
  force := false
  today := 20000
  latest := fun _ => none
  downloads := fun _ => true
  fetchError := fun t => if t = "AAPL" then some "no data" else none
  cancelSet := fun _ => false
  writeFails := false

theorem dishonest_records :
    (BatchJob.analytics indianAnalytics).record = some ⟨.success, 1, 2, none⟩ ∧
    (BatchJob.sentiment quietSentiment).record = some ⟨.success, 1, 2, none⟩ ∧
    (BatchJob.piotroski emptyScreen).record = some ⟨.success, 2, 0, none⟩ ∧
    (BatchJob.refresh halfRefresh).record = some ⟨.success, 2, 2, some "AAPL: no data"⟩ ∧
    ∀ job ∈ [BatchJob.analytics indianAnalytics, .sentiment quietSentiment, .piotroski emptyScreen,
      .refresh halfRefresh], ¬ HonestRecord job.inScope job.upToDate job.record := by
  refine ⟨rfl, rfl, rfl, rfl, ?_⟩
  intro job hjob hhonest
  simp only [List.mem_cons, List.not_mem_nil, or_false] at hjob
  rcases hjob with rfl | rfl | rfl | rfl
  · have hdone := (hhonest ⟨.success, 1, 2, none⟩ rfl (by decide)).done_le
    exact absurd hdone (by decide)
  · have hdone := (hhonest ⟨.success, 1, 2, none⟩ rfl (by decide)).done_le
    exact absurd hdone (by decide)
  · have hsound : Piotroski.Sound emptyScreen := Piotroski.honestRecord_iff.mp hhonest rfl
    exact absurd (hsound rfl) (by decide)
  · have hsound : BatchRefresh.Sound halfRefresh :=
      BatchRefresh.honestRecord_iff.mp hhonest ⟨fun _ _ => rfl, rfl⟩
    exact absurd hsound (by
      rw [BatchRefresh.Sound]
      decide)

end AsetPlatform.Jobs

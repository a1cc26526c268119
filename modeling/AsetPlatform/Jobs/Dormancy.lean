import AsetPlatform.Library.Dict
import AsetPlatform.Library.Rows
import AsetPlatform.Library.Run
import Mathlib.Data.List.Induction
import Mathlib.Data.Nat.Basic

/-!
# Dormant tickers

The table `sentiment_dormant` of `backend/db/pg_stocks.py`. A fetch without headlines moves the next
retry of its ticker further away, a fetch with headlines ends the dormancy, and a write that fails is
ignored. Times are in seconds.
-/

set_option autoImplicit false

namespace AsetPlatform.Jobs.Dormancy

open AsetPlatform.Library

/-- `_DORMANT_COOLDOWN_DAYS` -/
def dormantCooldownDays : List Nat := [2, 4, 8, 16, 30]

/-- `_compute_next_retry` -/
def computeNextRetry (consecutiveEmpty now : Nat) : Nat :=
  let streak := max 1 consecutiveEmpty
  let idx := min (streak - 1) (dormantCooldownDays.length - 1)
  now + dormantCooldownDays.getD idx 0 * 86400

/-- `SentimentDormant`, by ticker. -/
structure Dormant where
  consecutiveEmpty : Nat
  lastCheckedAt : Nat
  nextRetryAt : Option Nat
  lastHeadlineCount : Nat
  lastSeenHeadlinesAt : Option Nat

abbrev Table := Dict String Dormant

/-- `record_empty_fetch` -/
def recordEmptyFetch (t : Table) (ticker : String) (now : Nat) : Table :=
  match t.get? ticker with
  | none => t.set ticker ⟨1, now, some (computeNextRetry 1 now), 0, none⟩
  | some row =>
      t.set ticker
        { row with
          consecutiveEmpty := row.consecutiveEmpty + 1
          lastCheckedAt := now
          nextRetryAt := some (computeNextRetry (row.consecutiveEmpty + 1) now) }

/-- `record_successful_fetch` -/
def recordSuccessfulFetch (t : Table) (ticker : String) (now headlineCount : Nat) : Table :=
  match t.get? ticker with
  | none => t
  | some row =>
      t.set ticker
        { row with
          consecutiveEmpty := 0
          lastCheckedAt := now
          nextRetryAt := none
          lastHeadlineCount := headlineCount
          lastSeenHeadlinesAt := some now }

/-- `get_dormant_tickers` -/
def getDormantTickers (t : Table) (now : Nat) : List String :=
  (t.entries.filter fun e => e.2.nextRetryAt.any (now < ·)).map Prod.fst

def eligible (t : Table) : List (String × Dormant) :=
  (t.entries.filter fun e => e.2.nextRetryAt.isSome).mergeSort
    fun a b => a.2.lastCheckedAt ≤ b.2.lastCheckedAt

/-- `get_dormant_eligible_for_probe`, with ties in the order of the table. -/
def getDormantEligibleForProbe (t : Table) (limit : Option Nat) : List String :=
  let rows := match limit with
    | some n => if 0 < n then (eligible t).take n else eligible t
    | none => eligible t
  rows.map Prod.fst

/-- One fetch, with the number of its headlines, and whether the database takes its record. -/
structure Fetch where
  ticker : String
  time : Nat
  headlines : Nat
  recorded : Bool

def step (t : Table) (f : Fetch) : Table :=
  if f.recorded then
    if f.headlines = 0 then recordEmptyFetch t f.ticker f.time
    else recordSuccessfulFetch t f.ticker f.time f.headlines
  else t

/-! ## Streaks -/

/-- The times of the recorded empty fetches of a ticker since the last recorded one with headlines. -/
def emptyStreak (ticker : String) (fetches : List Fetch) : List Nat :=
  fetches.foldl (fun streak f =>
    if f.recorded ∧ f.ticker = ticker then if f.headlines = 0 then streak ++ [f.time] else []
    else streak) []

/-- The row of a ticker says how long the streak is, when it ends and when it was last checked. -/
def Tells (row : Option Dormant) (streak : List Nat) : Prop :=
  (row.elim 0 Dormant.consecutiveEmpty) = streak.length ∧
    row.bind Dormant.nextRetryAt = streak.getLast?.map (computeNextRetry streak.length) ∧
    ∀ last ∈ streak.getLast?, row.map Dormant.lastCheckedAt = some last

theorem tells_run (ticker : String) (fetches : List Fetch) :
    Tells ((runFrom step Dict.empty fetches).get? ticker) (emptyStreak ticker fetches) := by
  induction fetches using List.reverseRecOn with
  | nil => exact ⟨rfl, rfl, fun last hLast => by cases hLast⟩
  | append_singleton fetches f ih =>
      have hStreak : emptyStreak ticker (fetches ++ [f]) =
          if f.recorded ∧ f.ticker = ticker then
            if f.headlines = 0 then emptyStreak ticker fetches ++ [f.time] else []
          else emptyStreak ticker fetches := by
        rw [emptyStreak, List.foldl_append]
        rfl
      rw [hStreak, runFrom_append, runFrom_cons, runFrom_nil]
      generalize runFrom step Dict.empty fetches = t at ih ⊢
      generalize emptyStreak ticker fetches = streak at ih ⊢
      by_cases hRecorded : f.recorded = true
      · by_cases hTicker : f.ticker = ticker
        · rw [if_pos ⟨hRecorded, hTicker⟩, step, if_pos hRecorded, hTicker]
          obtain ⟨hCount, -⟩ := ih
          by_cases hEmpty : f.headlines = 0
          · rw [if_pos hEmpty, if_pos hEmpty, recordEmptyFetch]
            cases hRow : t.get? ticker with
            | none =>
                rw [hRow] at hCount
                have hNil : streak = [] := List.length_eq_zero_iff.mp hCount.symm
                simp [Tells, Dict.get?_set, hNil]
            | some row =>
                rw [hRow] at hCount
                simp [Tells, Dict.get?_set, ← hCount]
          · rw [if_neg hEmpty, if_neg hEmpty, recordSuccessfulFetch]
            cases hRow : t.get? ticker with
            | none => simp [Tells, hRow]
            | some row => simp [Tells, Dict.get?_set]
        · -- the row of another ticker is written
          have hSame : (step t f).get? ticker = t.get? ticker := by
            rw [step, if_pos hRecorded]
            split
            · rw [recordEmptyFetch]
              split <;> rw [Dict.get?_set, if_neg (Ne.symm hTicker)]
            · rw [recordSuccessfulFetch]
              split
              · rfl
              · rw [Dict.get?_set, if_neg (Ne.symm hTicker)]
          rw [if_neg fun h => hTicker h.2, hSame]
          exact ih
      · rw [if_neg fun h => hRecorded h.1, step, if_neg hRecorded]
        exact ih

/-- After any fetches a ticker is skipped exactly while the cooldown of its streak of empty fetches
lasts, which begins with the last of them. -/
theorem mem_dormant_iff (ticker : String) (fetches : List Fetch) (now : Nat) :
    ticker ∈ getDormantTickers (runFrom step Dict.empty fetches) now ↔
      ∃ last, (emptyStreak ticker fetches).getLast? = some last ∧
        now < computeNextRetry (emptyStreak ticker fetches).length last := by
  have hTells := (tells_run ticker fetches).2.1
  generalize runFrom step Dict.empty fetches = t at hTells ⊢
  have hMem : ticker ∈ getDormantTickers t now ↔
      ∃ retry, (t.get? ticker).bind Dormant.nextRetryAt = some retry ∧ now < retry := by
    simp only [getDormantTickers, List.mem_map, List.mem_filter, Option.any_eq_true,
      decide_eq_true_eq, Option.bind_eq_some_iff, Dict.get?_eq_some_iff]
    constructor
    · rintro ⟨⟨_, row⟩, ⟨hRow, retry, hRetry, hLess⟩, rfl⟩
      exact ⟨retry, ⟨row, hRow, hRetry⟩, hLess⟩
    · rintro ⟨retry, ⟨row, hRow, hRetry⟩, hLess⟩
      exact ⟨(ticker, row), ⟨hRow, retry, hRetry, hLess⟩, rfl⟩
  rw [hMem, hTells]
  simp only [Option.map_eq_some_iff]
  constructor
  · rintro ⟨_, ⟨last, hLast, rfl⟩, hLess⟩
    exact ⟨last, hLast, hLess⟩
  · rintro ⟨last, hLast, hLess⟩
    exact ⟨_, ⟨last, hLast, rfl⟩, hLess⟩

/-! ## Probes -/

theorem eligible_perm (t : Table) :
    (eligible t).Perm (t.entries.filter fun e => e.2.nextRetryAt.isSome) := List.mergeSort_perm _ _

theorem mem_eligible_iff {t : Table} {e : String × Dormant} :
    e ∈ eligible t ↔ t.get? e.1 = some e.2 ∧ e.2.nextRetryAt.isSome := by
  rw [(eligible_perm t).mem_iff, List.mem_filter, Dict.get?_eq_some_iff]

theorem getDormantEligibleForProbe_eq (t : Table) (limit : Option Nat) :
    getDormantEligibleForProbe t limit = ((eligible t).take
      (if limit.getD 0 = 0 then (eligible t).length else limit.getD 0)).map Prod.fst := by
  unfold getDormantEligibleForProbe
  rcases limit with _ | _ | n
  · simp
  · simp
  · simp

/-- After any fetches the probes are tickers with a streak of empty fetches, those first whose last one
is the furthest back, and only those beyond the limit are left out. -/
theorem probes_oldest_first (fetches : List Fetch) (limit : Option Nat) :
    ∃ rest, let all := getDormantEligibleForProbe (runFrom step Dict.empty fetches) limit ++ rest
      all.Nodup ∧ (∀ ticker, ticker ∈ all ↔ emptyStreak ticker fetches ≠ []) ∧
      (all.Pairwise fun a b =>
        (emptyStreak a fetches).getLastD 0 ≤ (emptyStreak b fetches).getLastD 0) ∧
      rest.length = if limit.getD 0 = 0 then 0 else all.length - limit.getD 0 := by
  have hTells := fun ticker => tells_run ticker fetches
  generalize runFrom step Dict.empty fetches = t at hTells ⊢
  refine ⟨((eligible t).drop (if limit.getD 0 = 0 then (eligible t).length
    else limit.getD 0)).map Prod.fst, ?_⟩
  rw [getDormantEligibleForProbe_eq, ← List.map_append, List.take_append_drop]
  have hMem : ∀ ticker, ticker ∈ (eligible t).map Prod.fst ↔ emptyStreak ticker fetches ≠ [] := by
    intro ticker
    rw [← List.getLast?_isSome, ← Option.isSome_map, ← (hTells ticker).2.1, List.mem_map,
      Option.isSome_bind, Option.any_eq_true]
    constructor
    · rintro ⟨e, he, rfl⟩
      exact ⟨e.2, mem_eligible_iff.mp he⟩
    · rintro ⟨row, hRow⟩
      exact ⟨(ticker, row), mem_eligible_iff.mpr hRow, rfl⟩
  have hLast : ∀ e ∈ eligible t, (emptyStreak e.1 fetches).getLastD 0 = e.2.lastCheckedAt := by
    intro e he
    have hStreak := List.getLast?_eq_some_getLast ((hMem e.1).mp (List.mem_map_of_mem he))
    have hChecked := (hTells e.1).2.2 _ hStreak
    rw [(mem_eligible_iff.mp he).1] at hChecked
    rw [List.getLastD_eq_getLast?, hStreak]
    exact (Option.some.inj hChecked).symm
  refine ⟨?_, hMem, ?_, ?_⟩
  · rw [((eligible_perm t).map Prod.fst).nodup_iff]
    exact t.nodup.sublist (List.filter_sublist.map Prod.fst)
  · rw [List.pairwise_map]
    refine (sorted_mergeSort (fun e : String × Dormant => e.2.lastCheckedAt) _).imp_of_mem fun {a b} ha hb hLe => ?_
    rwa [hLast a ha, hLast b hb]
  · rw [List.length_map, List.length_map, List.length_drop]
    split <;> omega

end AsetPlatform.Jobs.Dormancy

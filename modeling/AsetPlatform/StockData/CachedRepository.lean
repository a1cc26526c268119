import AsetPlatform.Library.Months
import AsetPlatform.Library.ReadThrough
import AsetPlatform.Library.Run
import AsetPlatform.Library.Text
import AsetPlatform.StockData.StockTables

/-!
# The caching repository

`stocks/cached_repository.py`: four readers are cached, three writers drop the entries of their
reader, and every other method of `StockRepository` is reached by delegation. `World` runs any
sequence of calls; between calls entries may vanish, when they expire or others need their room.
`upper` is `str.upper`.

`cached_reads_iff`: the cached readers answer as the wrapped repository would, at every moment of a
run, exactly when the delegated calls, and the wrapped writers that raise, change no answer for which
an entry is left.
-/

set_option autoImplicit false

namespace AsetPlatform.StockData.CachedRepository

open AsetPlatform.Library

universe u

variable {P : Type u}

/-! ## Readers -/

/-- The cached readers. -/
inductive Reader where
  | getCurrency (ticker : String)
  | getLatestOhlcvDate (ticker : String)
  | getLatestAnalysisSummary (ticker : String)
  | getLatestForecastRun (ticker : String) (horizonMonths : Int)
  deriving DecidableEq

inductive Answer where
  | currency (code : String)
  | ohlcvDate (day : Option Nat)
  | analysis (row : Option AnalysisRow)
  | forecast (row : Option ForecastRow)
  deriving DecidableEq

def Reader.table : Reader → TableName
  | .getCurrency _ => .companyInfo
  | .getLatestOhlcvDate _ => .ohlcv
  | .getLatestAnalysisSummary _ => .analysisSummary
  | .getLatestForecastRun _ _ => .forecastRuns

/-- The prefix of the keys of a table's reader. -/
def keyPrefix : TableName → String
  | .companyInfo => "currency:"
  | .ohlcv => "ohlcv_date:"
  | .analysisSummary => "analysis:"
  | .forecastRuns => "forecast:"

section Upper

variable (upper : String → String)

/-- The cache key of a call. -/
def Reader.key : Reader → String
  | .getCurrency ticker => keyPrefix .companyInfo ++ upper ticker
  | .getLatestOhlcvDate ticker => keyPrefix .ohlcv ++ upper ticker
  | .getLatestAnalysisSummary ticker => keyPrefix .analysisSummary ++ upper ticker
  | .getLatestForecastRun ticker horizonMonths =>
      keyPrefix .forecastRuns ++ upper ticker ++ ":" ++ toString horizonMonths

/-- What the wrapped repository returns. -/
def answer (s : StockTables P) : Reader → Answer
  | .getCurrency ticker => .currency (s.getCurrency (upper ticker))
  | .getLatestOhlcvDate ticker => .ohlcvDate (s.getLatestOhlcvDate (upper ticker))
  | .getLatestAnalysisSummary ticker => .analysis (s.getLatestAnalysisSummary (upper ticker))
  | .getLatestForecastRun ticker horizonMonths =>
      .forecast (s.getLatestForecastRun (upper ticker) horizonMonths)

end Upper

/-! ## Calls -/

/-- The other methods. `query` is a method that queries one of the four tables, `other` one that has to
do with none of them; `now` and the ids in a row are those the method makes up. -/
inductive Method (P : Type u) where
  | insertOhlcv (ticker : String) (df : List (Nat × Option P)) (readFails : Bool)
      (nullDelete append : Commit)
  | insertAnalysisSummary (row : AnalysisRow) (delete append : Commit)
  | insertForecastRun (row : ForecastRow) (append : Commit)
  | insertCompanyInfo (ticker : String) (currency : Option String) (now : Int)
      (delete append : Commit)
  | insertForecastRunsBatch (rows : List ForecastRow) (append : Commit)
  | updateOhlcvAdjClose (ticker : String) (adjCloseMap : List (Nat × Option P))
      (delete append : Commit)
  | deleteTickerData (ticker : String) (delete : TableName → Commit)
  | retryCommit (op : TableCommit P) (commit : Commit)
  | query (table : TableName)
  | other

/-- A call of a cached reader, a call of another method, or entries that vanish. -/
inductive Call (P : Type u) where
  | read (r : Reader)
  | run (m : Method P)
  | forget (keys : List String)

/-- The table whose entries a wrapped writer drops. -/
def Method.wrapped : Method P → Option TableName
  | .insertOhlcv .. => some .ohlcv
  | .insertAnalysisSummary .. => some .analysisSummary
  | .insertForecastRun .. => some .forecastRuns
  | _ => none

/-- The tables a method may change. -/
def Method.writes : Method P → List TableName
  | .insertOhlcv .. => [.ohlcv]
  | .insertAnalysisSummary .. => [.analysisSummary]
  | .insertForecastRun .. => [.forecastRuns]
  | .insertCompanyInfo .. => [.companyInfo]
  | .insertForecastRunsBatch .. => [.forecastRuns]
  | .updateOhlcvAdjClose .. => [.ohlcv]
  | .deleteTickerData .. => [.companyInfo, .ohlcv, .analysisSummary, .forecastRuns]
  | .retryCommit (.companyInfo _) _ => [.companyInfo]
  | .retryCommit (.ohlcv _) _ => [.ohlcv]
  | .retryCommit (.analysisSummary _) _ => [.analysisSummary]
  | .retryCommit (.forecastRuns _) _ => [.forecastRuns]
  | .query _ | .other => []

/-- A method of the wrapped repository, and whether it raised. -/
def perform (upper : String → String) (s : StockTables P) : Method P → StockTables P × Bool
  | .insertOhlcv ticker df readFails nullDelete append =>
      s.insertOhlcv ticker df readFails nullDelete append
  | .insertAnalysisSummary row delete append => s.insertAnalysisSummary row delete append
  | .insertForecastRun row append => s.insertForecastRun row append
  | .insertCompanyInfo ticker currency now delete append =>
      s.insertCompanyInfo ticker currency now delete append
  | .insertForecastRunsBatch rows append => s.insertForecastRunsBatch rows append
  | .updateOhlcvAdjClose ticker adjCloseMap delete append =>
      s.updateOhlcvAdjClose (upper ticker) adjCloseMap delete append
  | .deleteTickerData ticker delete => s.deleteTickerData (upper ticker) delete
  | .retryCommit op commit => s.commit commit op
  | .query table => (s.queried table, false)
  | .other => (s, false)

/-- `_invalidate_prefix` -/
def invalidatePrefix (keyStart : String) (cache : Dict String Answer) : Dict String Answer :=
  cache.filter fun k _ => !keyStart.toList.isPrefixOf k.toList

/-- The wrapped repository and the cache in front of it. -/
structure World (P : Type u) where
  repo : StockTables P
  cache : Dict String Answer

namespace World

variable (upper : String → String) (w : World P)

/-- A call of a cached reader. -/
def read (r : Reader) : Answer × World P :=
  match w.cache.get? (r.key upper) with
  | some a => (a, w)
  | none =>
      let result := answer upper w.repo r
      (result, ⟨w.repo.queried r.table, w.cache.set (r.key upper) result⟩)

/-- A call of another method: a wrapped writer that returns drops the entries of its reader. -/
def run (m : Method P) : World P :=
  match perform upper w.repo m with
  | (repo, true) => { w with repo := repo }
  | (repo, false) =>
      match m.wrapped with
      | some table => ⟨repo, invalidatePrefix (keyPrefix table) w.cache⟩
      | none => { w with repo := repo }

def step : Call P → World P
  | .read r => (w.read upper r).2
  | .run m => w.run upper m
  | .forget keys => { w with cache := w.cache.filter fun k _ => k ∉ keys }

/-- Each cached reader returns what the wrapped repository would. -/
def ReadsCurrent : Prop := ∀ r, (w.read upper r).1 = answer upper w.repo r

/-- The call changes no answer about a table for which an entry is there. -/
def Unchanged (m : Method P) (table : TableName) : Prop :=
  ∀ r, r.table = table → (w.cache.get? (r.key upper)).isSome →
    answer upper (perform upper w.repo m).1 r = answer upper w.repo r

/-- A wrapped writer that returns may change its table. Any other call may write what changes no
cached answer. -/
def Harmless : Call P → Prop
  | .run m =>
      match m.wrapped with
      | some table => (perform upper w.repo m).2 = true → w.Unchanged upper m table
      | none => ∀ table ∈ m.writes, w.Unchanged upper m table
  | .read _ | .forget _ => True

end World

/-! ## Keys -/

section Keys

variable (upper : String → String)

theorem key_startsWith (r : Reader) : (keyPrefix r.table).toList <+: (r.key upper).toList := by
  cases r with
  | getLatestForecastRun ticker horizonMonths =>
      simp only [Reader.key, Reader.table, String.toList_append, List.append_assoc]
      exact List.prefix_append _ _
  | _ =>
      simp only [Reader.key, Reader.table, String.toList_append]
      exact List.prefix_append _ _

theorem table_eq_of_startsWith {t t' : TableName} {k : List Char} (h : (keyPrefix t).toList <+: k)
    (h' : (keyPrefix t').toList <+: k) : t = t' := by
  have hHead : ∀ {t : TableName}, (keyPrefix t).toList <+: k →
      k.head? = (keyPrefix t).toList.head? := by
    intro t hPrefix
    obtain ⟨rest, rfl⟩ := hPrefix
    cases t <;> rfl
  have hSame := (hHead h).symm.trans (hHead h')
  revert hSame
  cases t <;> cases t' <;> decide

theorem isPrefixOf_key_iff (t : TableName) (r : Reader) :
    (keyPrefix t).toList.isPrefixOf (r.key upper).toList = true ↔ r.table = t := by
  rw [ List.isPrefixOf_iff_prefix]
  constructor
  · exact fun h => table_eq_of_startsWith (key_startsWith upper r) h
  · rintro rfl
    exact key_startsWith upper r

theorem answer_congr {r r' : Reader} (h : r.key upper = r'.key upper) (s : StockTables P) :
    answer upper s r = answer upper s r' := by
  have hTable : r.table = r'.table :=
    table_eq_of_startsWith (key_startsWith upper r) (h ▸ key_startsWith upper r')
  have hChars := congrArg String.toList h
  have hTicker : ∀ {pre : List Char} {a b : String}, pre ++ a.toList = pre ++ b.toList → a = b :=
    fun hSame => String.toList_inj.mp (List.append_cancel_left hSame)
  cases r with
  | getCurrency ticker =>
      cases r' with
      | getCurrency ticker' =>
          simp only [Reader.key, String.toList_append] at hChars
          rw [answer, answer, hTicker hChars]
      | _ => cases hTable
  | getLatestOhlcvDate ticker =>
      cases r' with
      | getLatestOhlcvDate ticker' =>
          simp only [Reader.key, String.toList_append] at hChars
          rw [answer, answer, hTicker hChars]
      | _ => cases hTable
  | getLatestAnalysisSummary ticker =>
      cases r' with
      | getLatestAnalysisSummary ticker' =>
          simp only [Reader.key, String.toList_append] at hChars
          rw [answer, answer, hTicker hChars]
      | _ => cases hTable
  | getLatestForecastRun ticker horizonMonths =>
      cases r' with
      | getLatestForecastRun ticker' horizonMonths' =>
          simp only [Reader.key, String.toList_append, List.append_assoc] at hChars
          -- The last colon stands in front of the horizon.
          have hColon := append_cons_inj_of_notMem_right (colon_notMem_toString horizonMonths)
            (colon_notMem_toString horizonMonths') (List.append_cancel_left hChars)
          rw [answer, answer, String.toList_inj.mp hColon.1, toString_int_inj hColon.2]
      | _ => cases hTable

end Keys

/-! ## What a method leaves as it is -/

/-- A query of the table reads the same rows. -/
def SameVisible (s s' : StockTables P) : TableName → Prop
  | .companyInfo => s'.companyInfo.visible = s.companyInfo.visible
  | .ohlcv => s'.ohlcv.visible = s.ohlcv.visible
  | .analysisSummary => s'.analysisSummary.visible = s.analysisSummary.visible
  | .forecastRuns => s'.forecastRuns.visible = s.forecastRuns.visible

theorem SameVisible.refl (s : StockTables P) (table : TableName) : SameVisible s s table := by
  cases table <;> rfl

theorem SameVisible.answer_eq {upper : String → String} {s s' : StockTables P} {r : Reader}
    (h : SameVisible s s' r.table) : answer upper s' r = answer upper s r := by
  cases r with
  | getCurrency ticker =>
      have hRows : s'.companyInfo.visible = s.companyInfo.visible := h
      rw [answer, answer, StockTables.getCurrency, StockTables.getCurrency, hRows]
  | getLatestOhlcvDate ticker =>
      have hRows : s'.ohlcv.visible = s.ohlcv.visible := h
      rw [answer, answer, StockTables.getLatestOhlcvDate, StockTables.getLatestOhlcvDate, hRows]
  | getLatestAnalysisSummary ticker =>
      have hRows : s'.analysisSummary.visible = s.analysisSummary.visible := h
      rw [answer, answer, StockTables.getLatestAnalysisSummary,
        StockTables.getLatestAnalysisSummary, hRows]
  | getLatestForecastRun ticker horizonMonths =>
      have hRows : s'.forecastRuns.visible = s.forecastRuns.visible := h
      rw [answer, answer, StockTables.getLatestForecastRun, StockTables.getLatestForecastRun, hRows]

theorem sameVisible_queried (s : StockTables P) (table table' : TableName) :
    SameVisible s (s.queried table) table' := by
  cases table <;> cases table' <;> rfl

theorem sameVisible_insertOhlcv (s : StockTables P) (ticker : String) (df : List (Nat × Option P))
    (readFails : Bool) (nullDelete append : Commit) {table : TableName} (h : table ≠ .ohlcv) :
    SameVisible s (s.insertOhlcv ticker df readFails nullDelete append).1 table := by
  rw [StockTables.insertOhlcv]
  split
  · exact .refl s table
  split
  · exact .refl s table
  dsimp only
  split
  · cases table <;> rfl
  · cases table <;> first | rfl | exact absurd rfl h

theorem sameVisible_updateOhlcvAdjClose (s : StockTables P) (ticker : String)
    (adjCloseMap : List (Nat × Option P)) (delete append : Commit) {table : TableName}
    (h : table ≠ .ohlcv) :
    SameVisible s (s.updateOhlcvAdjClose ticker adjCloseMap delete append).1 table := by
  rw [StockTables.updateOhlcvAdjClose]
  split
  · exact .refl s table
  dsimp only
  split
  · cases table <;> rfl
  split
  · cases table <;> first | rfl | exact absurd rfl h
  · cases table <;> first | rfl | exact absurd rfl h

theorem sameVisible_perform (upper : String → String) (s : StockTables P) (m : Method P)
    {table : TableName} (h : table ∉ m.writes) : SameVisible s (perform upper s m).1 table := by
  cases m with
  | insertOhlcv ticker df readFails nullDelete append =>
      exact sameVisible_insertOhlcv s ticker df readFails nullDelete append
        fun hSame => h (hSame ▸ List.mem_singleton_self _)
  | updateOhlcvAdjClose ticker adjCloseMap delete append =>
      exact sameVisible_updateOhlcvAdjClose s (upper ticker) adjCloseMap delete append
        fun hSame => h (hSame ▸ List.mem_singleton_self _)
  | insertForecastRunsBatch rows append =>
      rw [perform, StockTables.insertForecastRunsBatch]
      split
      · exact .refl s table
      · cases table <;> first | rfl | exact absurd (List.mem_singleton_self _) h
  | insertAnalysisSummary row delete append =>
      cases table <;> first | rfl | exact absurd (List.mem_singleton_self _) h
  | insertForecastRun row append =>
      cases table <;> first | rfl | exact absurd (List.mem_singleton_self _) h
  | insertCompanyInfo ticker currency now delete append =>
      cases table <;> first | rfl | exact absurd (List.mem_singleton_self _) h
  | deleteTickerData ticker delete =>
      exact absurd (by cases table <;> simp [Method.writes]) h
  | retryCommit op commit =>
      cases op <;> cases table <;> first | rfl | exact absurd (List.mem_singleton_self _) h
  | query t => exact sameVisible_queried s t table
  | other => exact .refl s table

theorem writes_of_wrapped {m : Method P} {table : TableName} (h : m.wrapped = some table) :
    m.writes = [table] := by
  cases m <;> simp [Method.wrapped] at h <;> subst h <;> rfl

/-! ## Runs -/

namespace World

variable {upper : String → String} {w : World P}

/-- The cache is coherent with the wrapped repository. -/
def Current (upper : String → String) (w : World P) : Prop :=
  Coherent (Reader.key upper) (answer upper) w.cache w.repo

theorem readsCurrent_iff : w.ReadsCurrent upper ↔ w.Current upper := by
  refine forall_congr' fun r => ?_
  rw [read, readThrough]
  cases w.cache.get? (r.key upper) <;> rfl

theorem Current.read (h : w.Current upper) (r : Reader) : (w.read upper r).2.Current upper := by
  rw [World.read]
  split
  · exact h
  · have hSet := Coherent.set (fun r r' hKey => answer_congr upper hKey w.repo) h r
    refine (coherent_of_change_iff hSet fun r' a hEntry => hEntry).mpr fun r' _ => ?_
    exact (sameVisible_queried w.repo r.table r'.table).answer_eq

theorem Current.forget (h : w.Current upper) (keys : List String) :
    (w.step upper (.forget keys)).Current upper := by
  refine (coherent_of_change_iff h fun r a hEntry => ?_).mpr fun r _ => rfl
  rw [step, Dict.get?_filter, Option.filter_eq_some_iff] at hEntry
  exact hEntry.1

theorem Current.delegated_iff (h : w.Current upper) (m : Method P) :
    Current upper { w with repo := (perform upper w.repo m).1 } ↔
      ∀ table ∈ m.writes, w.Unchanged upper m table := by
  refine (coherent_of_change_iff h fun r a hEntry => hEntry).trans ?_
  constructor
  · exact fun hSame table _ r _ hEntry => hSame r hEntry
  · intro hUnchanged r hEntry
    by_cases hWrites : r.table ∈ m.writes
    · exact hUnchanged r.table hWrites r rfl hEntry
    · exact (sameVisible_perform upper w.repo m hWrites).answer_eq

theorem Current.wrapped (h : w.Current upper) {m : Method P} {table : TableName}
    (hWrapped : m.wrapped = some table) :
    Current upper ⟨(perform upper w.repo m).1, invalidatePrefix (keyPrefix table) w.cache⟩ := by
  have hEntries : ∀ (r : Reader) a, (invalidatePrefix (keyPrefix table) w.cache).get? (r.key upper) = some a →
      w.cache.get? (r.key upper) = some a ∧ r.table ≠ table := by
    intro r a hEntry
    rw [invalidatePrefix, Dict.get?_filter, Option.filter_eq_some_iff, Bool.not_eq_true',
      ← Bool.not_eq_true, isPrefixOf_key_iff] at hEntry
    exact hEntry
  refine (coherent_of_change_iff h fun r a hEntry => (hEntries r a hEntry).1).mpr fun r hLeft => ?_
  obtain ⟨a, ha⟩ := Option.isSome_iff_exists.mp hLeft
  refine (sameVisible_perform upper w.repo m ?_).answer_eq
  rw [writes_of_wrapped hWrapped, List.mem_singleton]
  exact (hEntries r a ha).2

theorem Current.step_iff (h : w.Current upper) (c : Call P) :
    (w.step upper c).Current upper ↔ w.Harmless upper c := by
  cases c with
  | read r => exact iff_of_true (h.read r) trivial
  | forget keys => exact iff_of_true (h.forget keys) trivial
  | run m =>
      have hDelegated := h.delegated_iff m
      rw [step, run, Harmless]
      cases hWrapped : m.wrapped with
      | none =>
          rcases hPerform : perform upper w.repo m with ⟨repo, raised⟩
          rw [hPerform] at hDelegated
          cases raised <;> exact hDelegated
      | some table =>
          have hReturned := h.wrapped hWrapped
          rw [writes_of_wrapped hWrapped] at hDelegated
          rcases hPerform : perform upper w.repo m with ⟨repo, raised⟩
          rw [hPerform] at hDelegated hReturned
          cases raised with
          | false => exact iff_of_true hReturned fun hRaised => absurd hRaised (by simp)
          | true => simpa using hDelegated

/-- At every moment of a run the cached readers return what the wrapped repository would, exactly
when every call is harmless. -/
theorem cached_reads_iff (upper : String → String) (repo : StockTables P) (calls : List (Call P)) :
    EveryState (step upper) (ReadsCurrent upper) ⟨repo, .empty⟩ calls ↔
      EveryStep (step upper) (Harmless upper) ⟨repo, .empty⟩ calls := by
  have hStart : Current upper (⟨repo, .empty⟩ : World P) := coherent_empty
  have hStep : ∀ (w : World P) (c : Call P), w.Current upper → w.Harmless upper c →
      (w.step upper c).Current upper := fun w c h hHarmless => (h.step_iff c).mpr hHarmless
  refine everyState_iff_everyStep hStep (fun w c h => ?_) hStart (readsCurrent_iff.mpr hStart)
  exact readsCurrent_iff.trans (h.step_iff c)

/-- Company info is harmless when no currency of the ticker is cached, or the same one. -/
theorem harmless_insertCompanyInfo_iff {ticker : String} {currency : Option String} {now : Int}
    {delete : Commit} (hDelete : delete ≠ .refused)
    (hFresh : w.repo.companyInfo.visible = w.repo.companyInfo.rows) :
    w.Harmless upper (.run (.insertCompanyInfo ticker currency now delete .done)) ↔
      ∀ t, upper t = ticker → (w.cache.get? ((Reader.getCurrency t).key upper)).isSome →
        orUsd currency = w.repo.getCurrency ticker := by
  have hAnswer : ∀ t, answer upper (perform upper w.repo
      (.insertCompanyInfo ticker currency now delete .done)).1 (.getCurrency t) =
        .currency (if upper t = ticker then orUsd currency else w.repo.getCurrency (upper t)) :=
    fun t => congrArg Answer.currency (StockTables.getCurrency_insertCompanyInfo hDelete hFresh)
  constructor
  · intro h t hTicker hEntry
    have hSame := h .companyInfo (List.mem_singleton_self _) (.getCurrency t) rfl hEntry
    rw [hAnswer, if_pos hTicker, answer, hTicker] at hSame
    exact Answer.currency.inj hSame
  · intro h table hTable r hReader hEntry
    obtain rfl := List.mem_singleton.mp hTable
    cases r with
    | getCurrency t =>
        rw [hAnswer, answer]
        split
        · rw [h t ‹_› hEntry, ‹upper t = ticker›]
        · rfl
    | _ => cases hReader

/-! ## A first fetch -/

/-- No data yet. -/
def noData : StockTables Nat := ⟨⟨[], none⟩, ⟨[], none⟩, ⟨[], none⟩, ⟨[], none⟩⟩

/-- The currency of a ticker is looked up before its company info arrives. -/
def firstFetch : List (Call Nat) :=
  [.read (.getCurrency "TCS.NS"),
    .run (.insertCompanyInfo "TCS.NS" (some "INR") 0 .done .done)]

/-- The currency stays the default one of the first lookup. -/
theorem firstFetch_outdated :
    ¬ EveryState (step asciiUpper) (ReadsCurrent asciiUpper) ⟨noData, .empty⟩ firstFetch := by
  intro h
  have hLast := h.last (.getCurrency "TCS.NS")
  revert hLast
  decide +kernel

end World

end AsetPlatform.StockData.CachedRepository

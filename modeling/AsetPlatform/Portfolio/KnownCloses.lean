import AsetPlatform.Portfolio.Performance

/-!
# Lots at the last known close

On a date of the series, a lot counts with the last close of its ticker when the ticker has a row on
that date, or none from there on. In a gap between two rows of a ticker its lots count nothing
(`valued_iff`).
-/

set_option autoImplicit false

namespace AsetPlatform.Portfolio.Performance

open AsetPlatform.Library

/-! ## Close maps -/

def lastClose (rows : List PriceRow) (d : Int) : Option ℚ :=
  ((rows.filter (·.date ≤ d)).filterMap PriceRow.close).getLast?

section CloseMaps

variable {rows : List PriceRow} {d : Int}

theorem lastClose_cons {r : PriceRow} (h : r.date ≤ d) :
    lastClose (r :: rows) d = (lastClose rows d).or r.close := by
  rw [lastClose, lastClose, List.filter_cons_of_pos (by simpa using h)]
  cases hClose : r.close with
  | none => rw [List.filterMap_cons_none hClose, Option.or_none]
  | some c =>
      rw [List.filterMap_cons_some hClose]
      cases hRest : (rows.filter (·.date ≤ d)).filterMap PriceRow.close with
      | nil => rfl
      | cons y ys => rw [List.getLast?_cons_cons, List.getLast?_cons]; rfl

theorem lastClose_of_later (h : ∀ r ∈ rows, d < r.date) : lastClose rows d = none := by
  have hNone : rows.filter (·.date ≤ d) = [] := by
    rw [List.filter_eq_nil_iff]
    intro r hr hLe
    exact absurd (of_decide_eq_true hLe) (not_le_of_gt (h r hr))
  rw [lastClose, hNone]
  rfl

theorem isSome_lastClose_iff :
    (lastClose rows d).isSome ↔ ∃ r ∈ rows, r.date ≤ d ∧ r.close.isSome := by
  rw [lastClose, Option.isSome_iff_ne_none, ne_eq, List.getLast?_eq_none_iff,
    List.filterMap_eq_nil_iff]
  push Not
  constructor
  · rintro ⟨r, hr, hClose⟩
    obtain ⟨hMem, hLe⟩ := List.mem_filter.mp hr
    exact ⟨r, hMem, of_decide_eq_true hLe, Option.isSome_iff_ne_none.mpr hClose⟩
  · rintro ⟨r, hr, hLe, hClose⟩
    exact ⟨r, List.mem_filter.mpr ⟨hr, decide_eq_true hLe⟩, Option.isSome_iff_ne_none.mp hClose⟩

theorem lastClose_congr {d' : Int} (h : ∀ r ∈ rows, r.date ≤ d ↔ r.date ≤ d') :
    lastClose rows d = lastClose rows d' := by
  rw [lastClose, lastClose, List.filter_congr fun r hr => decide_eq_decide.mpr (h r hr)]

theorem lookup_ffillCloses (hSorted : rows.Pairwise fun r r' => r.date < r'.date) (last : Option ℚ) :
    (ffillCloses last rows).lookup d =
      if d ∈ rows.map PriceRow.date then (lastClose rows d).or last else none := by
  induction rows generalizing last with
  | nil => rfl
  | cons r rs ih =>
      obtain ⟨hLater, hRest⟩ := List.pairwise_cons.mp hSorted
      rw [ffillCloses]
      by_cases hDate : d = r.date
      · subst hDate
        have hNone : lastClose rs r.date = none := lastClose_of_later hLater
        have hOut : r.date ∉ rs.map PriceRow.date := by
          intro hMem
          obtain ⟨r', hr', hSame⟩ := List.mem_map.mp hMem
          exact absurd hSame (hLater r' hr').ne'
        rw [List.map_cons, if_pos List.mem_cons_self, lastClose_cons le_rfl, hNone, Option.none_or]
        cases hClose : r.close.or last with
        | none => rw [ih hRest, if_neg hOut]
        | some c => rw [List.lookup_cons_self]
      · have hMem : d ∈ (r :: rs).map PriceRow.date ↔ d ∈ rs.map PriceRow.date := by
          rw [List.map_cons, List.mem_cons]
          exact or_iff_right hDate
        have hValue : ∀ c : Option ℚ, r.close.or last = c →
            (if d ∈ rs.map PriceRow.date then (lastClose rs d).or c else none) =
              if d ∈ (r :: rs).map PriceRow.date then (lastClose (r :: rs) d).or last else none := by
          rintro c rfl
          by_cases hIn : d ∈ rs.map PriceRow.date
          · obtain ⟨r', hr', rfl⟩ := List.mem_map.mp hIn
            rw [if_pos hIn, if_pos (hMem.mpr hIn), lastClose_cons (le_of_lt (hLater r' hr')),
              Option.or_assoc]
          · rw [if_neg hIn, if_neg fun h => hIn (hMem.mp h)]
        cases hClose : r.close.or last with
        | none => rw [ih hRest, ← hValue none hClose]
        | some c =>
            rw [← hValue (some c) hClose, ← ih hRest]
            simp only [List.lookup_cons, beq_eq_false_iff_ne.mpr hDate]

theorem mem_keys_iff_lookup {cm : CloseMap} : d ∈ cm.map Prod.fst ↔ (cm.lookup d).isSome := by
  induction cm with
  | nil => simp
  | cons p ps ih =>
      rw [List.map_cons, List.mem_cons, List.lookup_cons, ih]
      by_cases hKey : d = p.1
      · simp [hKey]
      · simp [hKey, beq_eq_false_iff_ne.mpr hKey]

theorem mem_keys_iff (hSorted : rows.Pairwise fun r r' => r.date < r'.date) :
    d ∈ (ffillCloses none rows).map Prod.fst ↔
      d ∈ rows.map PriceRow.date ∧ (lastClose rows d).isSome := by
  rw [mem_keys_iff_lookup, lookup_ffillCloses hSorted, Option.or_none]
  split
  · rename_i hMem
    exact (and_iff_right hMem).symm
  · rename_i hOut
    exact iff_of_false (by simp) fun h => hOut h.1

theorem lookup_map_const {ds : List Int} (h : d ∈ ds) (c : ℚ) :
    (ds.map fun d => (d, c)).lookup d = some c := by
  induction ds with
  | nil => cases h
  | cons d' ds ih =>
      rw [List.map_cons, List.lookup_cons]
      by_cases hSame : d = d'
      · simp [hSame]
      · rw [beq_eq_false_iff_ne.mpr hSame]
        exact ih ((List.mem_cons.mp h).resolve_left hSame)

/-- A close map that is carried on: past its own end there is its last close. -/
theorem lookup_extended {sortedDates : List Int} {cm : CloseMap} {tickerMax : Int}
    (hSorted : sortedDates.Pairwise (· ≤ ·)) (hDate : d ∈ sortedDates)
    (hMax : (cm.map Prod.fst).max? = some tickerMax) :
    (extended sortedDates cm).lookup d =
      (cm.lookup d).or (if tickerMax < d then some ((cm.lookup tickerMax).getD 0) else none) := by
  have hNonempty : sortedDates ≠ [] := List.ne_nil_of_mem hDate
  have hEnd := List.getLast?_eq_some_getLast hNonempty
  have hLe : d ≤ sortedDates.getLast hNonempty := by
    rcases List.eq_nil_or_concat sortedDates with hNil | ⟨front, last, hConcat⟩
    · exact absurd hNil hNonempty
    · rw [List.concat_eq_append] at hConcat
      subst hConcat
      rw [List.getLast_append_singleton]
      rcases List.mem_append.mp hDate with hFront | hLast
      · exact (List.pairwise_append.mp hSorted).2.2 d hFront last List.mem_cons_self
      · exact le_of_eq (List.mem_singleton.mp hLast)
  rw [extended, hMax, hEnd]
  simp only
  split
  · rename_i hCovered
    rw [if_neg (not_lt_of_ge (hLe.trans hCovered)), Option.or_none]
  · rw [List.lookup_append]
    congr 1
    split
    · rename_i hPast
      have hMem : d ∈ sortedDates.filter (tickerMax < ·) :=
        List.mem_filter.mpr ⟨hDate, decide_eq_true hPast⟩
      exact lookup_map_const hMem _
    · rename_i hBefore
      rw [List.lookup_eq_none_iff]
      intro p hp
      obtain ⟨d', hd', rfl⟩ := List.mem_map.mp hp
      rw [bne_iff_ne]
      rintro rfl
      exact hBefore (of_decide_eq_true (List.mem_filter.mp hd').2)

end CloseMaps

/-! ## The series of a ticker -/

section Series

variable {prices : Prices} {t : String} {d : Int}

theorem mem_series_iff {r : PriceRow} : r ∈ prices.series t ↔ r ∈ prices.rows ∧ r.ticker = t := by
  rw [Prices.series, List.mem_insertionSort, List.mem_filter, decide_eq_true_eq]

theorem sorted_series : (prices.series t).Pairwise fun r r' => r.date < r'.date := by
  have hTrans : IsTrans PriceRow fun r r' => r.date ≤ r'.date := ⟨fun _ _ _ => le_trans⟩
  have hTotal : Std.Total fun r r' : PriceRow => r.date ≤ r'.date :=
    ⟨fun r r' => le_total r.date r'.date⟩
  have hSorted : (prices.series t).Pairwise fun r r' => r.date ≤ r'.date :=
    List.pairwise_insertionSort _ _
  have hKeys : ((prices.series t).map fun r => (r.ticker, r.date)).Nodup := by
    have hPerm : (prices.series t).Perm (prices.rows.filter (·.ticker = t)) :=
      List.perm_insertionSort _ _
    exact (hPerm.map _).nodup_iff.mpr (prices.nodup.sublist (List.filter_sublist.map _))
  have hNe : (prices.series t).Pairwise fun r r' => r.date ≠ r'.date := by
    have hDistinct := List.pairwise_map.mp hKeys
    refine hDistinct.imp_of_mem fun {r r'} hr hr' hNe hSame => hNe ?_
    exact Prod.ext ((mem_series_iff.mp hr).2.trans (mem_series_iff.mp hr').2.symm) hSame
  exact (hSorted.and hNe).imp fun {r r'} h => lt_of_le_of_ne h.1 h.2

/-- The price of a ticker on a date of the series, where its last close is known: there is none in a
gap of the ticker. -/
theorem lookup_extended_series {sortedDates : List Int} {c : ℚ}
    (hSorted : sortedDates.Pairwise (· ≤ ·)) (hDate : d ∈ sortedDates)
    (hKnown : lastClose (prices.series t) d = some c) :
    (extended sortedDates (ffillCloses none (prices.series t))).lookup d =
      if d ∈ (prices.series t).map PriceRow.date ∨ ∀ r ∈ prices.series t, r.date < d then some c
      else none := by
  have hKnown' : (lastClose (prices.series t) d).isSome := by
    rw [hKnown]
    rfl
  obtain ⟨first, hFirst, hFirstLe, hFirstClose⟩ := isSome_lastClose_iff.mp hKnown'
  -- from the first close on, all dates of the rows are in the close map
  have hKey : ∀ r ∈ prices.series t, first.date ≤ r.date →
      r.date ∈ (ffillCloses none (prices.series t)).map Prod.fst := by
    intro r hr hLe
    refine (mem_keys_iff sorted_series).mpr ⟨List.mem_map_of_mem hr, ?_⟩
    exact isSome_lastClose_iff.mpr ⟨first, hFirst, hLe, hFirstClose⟩
  obtain ⟨tickerMax, hMax⟩ : ∃ m, ((ffillCloses none (prices.series t)).map Prod.fst).max? = some m := by
    refine Option.isSome_iff_exists.mp ?_
    rw [List.isSome_max?_iff]
    exact List.ne_nil_of_mem (hKey first hFirst le_rfl)
  obtain ⟨hMaxKey, hMaxLe⟩ := List.max?_eq_some_iff.mp hMax
  have hMaxRow := ((mem_keys_iff sorted_series).mp hMaxKey).1
  have hUpTo : ∀ r ∈ prices.series t, r.date ≤ tickerMax := by
    intro r hr
    by_cases hLe : first.date ≤ r.date
    · exact hMaxLe r.date (hKey r hr hLe)
    · exact (le_of_lt (not_le.mp hLe)).trans (hMaxLe first.date (hKey first hFirst le_rfl))
  have hPastAll : tickerMax < d ↔ ∀ r ∈ prices.series t, r.date < d := by
    constructor
    · intro hPast r hr
      exact lt_of_le_of_lt (hUpTo r hr) hPast
    · intro hAll
      obtain ⟨last, hLast, hSame⟩ := List.mem_map.mp hMaxRow
      exact hSame ▸ hAll last hLast
  rw [lookup_extended hSorted hDate hMax, lookup_ffillCloses sorted_series,
    lookup_ffillCloses sorted_series, if_pos hMaxRow, Option.or_none, Option.or_none, hKnown]
  by_cases hRow : d ∈ (prices.series t).map PriceRow.date
  · rw [if_pos hRow, if_pos (Or.inl hRow), Option.some_or]
  · rw [if_neg hRow, Option.none_or]
    by_cases hAll : ∀ r ∈ prices.series t, r.date < d
    · have hCarry : lastClose (prices.series t) tickerMax = some c := by
        rw [← hKnown]
        exact lastClose_congr fun r hr => iff_of_true (hUpTo r hr) (le_of_lt (hAll r hr))
      rw [if_pos (hPastAll.mpr hAll), if_pos (Or.inr hAll), hCarry]
      rfl
    · rw [if_neg (hPastAll.not.mpr hAll), if_neg (not_or.mpr ⟨hRow, hAll⟩)]

end Series

/-! ## Days and points -/

section Points

variable {x : Input} {r : Rounding} {d : Int}

theorem foldl_added {step : ℚ × ℚ → Lot → ℚ × ℚ} {added : Lot → Option (ℚ × ℚ)}
    (hNone : ∀ totals lot, added lot = none → step totals lot = totals)
    (hSome : ∀ totals lot sums, added lot = some sums →
      step totals lot = (totals.1 + sums.1, totals.2 + sums.2))
    (lots : List Lot) (totals : ℚ × ℚ) :
    lots.foldl step totals =
      (totals.1 + ((lots.filterMap added).map Prod.fst).sum,
        totals.2 + ((lots.filterMap added).map Prod.snd).sum) := by
  induction lots generalizing totals with
  | nil => simp
  | cons lot lots ih =>
      rw [List.foldl_cons]
      cases hAdds : added lot with
      | none => rw [hNone totals lot hAdds, List.filterMap_cons_none hAdds, ih]
      | some sums =>
          rw [hSome totals lot sums hAdds, List.filterMap_cons_some hAdds, ih]
          simp only [List.map_cons, List.sum_cons, add_assoc]

theorem Input.dayTotals_eq :
    x.dayTotals d =
      (((x.lots.filterMap (x.contribution d)).map Prod.fst).sum,
        ((x.lots.filterMap (x.contribution d)).map Prod.snd).sum) := by
  rw [Input.dayTotals, @foldl_added _ (x.contribution d)]
  · rw [zero_add, zero_add]
  · intro totals lot h
    rw [h]
  · intro totals lot sums h
    rw [h]

theorem Input.sorted_sortedDates : x.sortedDates.Pairwise (· ≤ ·) :=
  List.pairwise_insertionSort _ _

theorem Input.mem_values {day : Day} (h : day ∈ x.values r) :
    day.date ∈ x.sortedDates ∧ day.value = r.two (x.dayTotals day.date).1 ∧
      day.invested = r.two (x.dayTotals day.date).2 := by
  obtain ⟨d, hd, hDay⟩ := List.mem_filterMap.mp h
  split at hDay
  · cases hDay
    exact ⟨hd, rfl, rfl⟩
  · cases hDay

theorem mem_of_mem_inPeriod {period : String} {values : List Day} {day : Day}
    (h : day ∈ inPeriod period values) : day ∈ values := by
  rw [inPeriod] at h
  split at h
  · exact List.mem_of_mem_filter h
  · exact h

theorem mem_pointsAfter {values : List Day} {p : DailyPoint} :
    ∀ {prev : Day}, p ∈ pointsAfter r prev values →
      ∃ day ∈ values, p.date = day.date ∧ p.value = day.value ∧ p.investedValue = day.invested := by
  induction values with
  | nil =>
      intro prev h
      cases h
  | cons day rest ih =>
      intro prev h
      rcases List.mem_cons.mp h with rfl | hRest
      · exact ⟨day, List.mem_cons_self, rfl, rfl, rfl⟩
      · obtain ⟨day', hMem, hSame⟩ := ih hRest
        exact ⟨day', List.mem_cons_of_mem _ hMem, hSame⟩

theorem mem_dailyPoints {values : List Day} {p : DailyPoint} (h : p ∈ dailyPoints r values) :
    ∃ day ∈ values, p.date = day.date ∧ p.value = day.value ∧ p.investedValue = day.invested := by
  cases values with
  | nil => cases h
  | cons day rest =>
      rcases List.mem_cons.mp h with rfl | hRest
      · exact ⟨day, List.mem_cons_self, rfl, rfl, rfl⟩
      · obtain ⟨day', hMem, hSame⟩ := mem_pointsAfter hRest
        exact ⟨day', List.mem_cons_of_mem _ hMem, hSame⟩

theorem point_totals {period : String} {p : DailyPoint}
    (hp : p ∈ (buildPortfolioPerformance r x period).data) :
    p.date ∈ x.sortedDates ∧ p.value = r.two (x.dayTotals p.date).1 ∧
      p.investedValue = r.two (x.dayTotals p.date).2 := by
  rw [buildPortfolioPerformance] at hp
  simp only at hp
  split at hp
  · cases hp
  · obtain ⟨day, hMem, hDate, hValue, hInvested⟩ := mem_dailyPoints hp
    rw [hDate, hValue, hInvested]
    exact Input.mem_values (mem_of_mem_inPeriod hMem)

end Points

/-! ## Lots -/

/-- Each lot that is bought counts with the last close of its ticker. -/
def Input.ValuedAtLastClose (x : Input) (d : Int) : Prop :=
  ∀ row ∈ x.buys, ∀ td c, row.tradeDate = some td → td ≤ d →
    lastClose (x.prices.series row.ticker) d = some c →
    ∃ lot, lotOf x.prices row = some lot ∧
      x.contribution d lot = some (row.quantity * c, row.quantity * lot.buyPrice)

/-- The ticker of each lot that is bought has a row on the date, if it has rows before and after. -/
def Input.NoGap (x : Input) (d : Int) : Prop :=
  ∀ row ∈ x.buys, ∀ td, row.tradeDate = some td → td ≤ d →
    (∃ r ∈ x.prices.series row.ticker, r.date ≤ d ∧ r.close.isSome) →
    d ∈ (x.prices.series row.ticker).map PriceRow.date ∨
      ∀ r ∈ x.prices.series row.ticker, r.date < d

/-- What a lot adds on a date of the series, where the last close of its ticker is known. -/
theorem contribution_lotOf {x : Input} {row : Row} {d td : Int} {c : ℚ} (hDate : d ∈ x.sortedDates)
    (hTrade : row.tradeDate = some td) (hBought : td ≤ d)
    (hKnown : lastClose (x.prices.series row.ticker) d = some c) :
    ∃ lot, lotOf x.prices row = some lot ∧
      x.contribution d lot =
        if d ∈ (x.prices.series row.ticker).map PriceRow.date ∨
            ∀ r ∈ x.prices.series row.ticker, r.date < d then
          some (row.quantity * c, row.quantity * lot.buyPrice)
        else none := by
  have hRows : x.prices.series row.ticker ≠ [] := by
    intro hNil
    rw [hNil] at hKnown
    cases hKnown
  have hMap : closeMap x.prices row.ticker = some (ffillCloses none (x.prices.series row.ticker)) :=
    if_neg hRows
  refine ⟨_, by rw [lotOf, hMap, Option.map_some], ?_⟩
  have hNotLater : ¬row.tradeDate.all (d < ·) := by
    rw [hTrade]
    simpa using hBought
  rw [Input.contribution, if_neg hNotLater, hMap, Option.bind_some,
    lookup_extended_series Input.sorted_sortedDates hDate hKnown, apply_ite (Option.map _)]
  rfl

/-- Each point has the totals of what the lots add on its date; the lots count at the last known
closes if and only if none of their tickers has a gap there. -/
theorem valued_iff (r : Rounding) (x : Input) (period : String) {p : DailyPoint}
    (hp : p ∈ (buildPortfolioPerformance r x period).data) :
    (p.value = r.two ((x.lots.filterMap (x.contribution p.date)).map Prod.fst).sum ∧
        p.investedValue = r.two ((x.lots.filterMap (x.contribution p.date)).map Prod.snd).sum) ∧
      (x.ValuedAtLastClose p.date ↔ x.NoGap p.date) := by
  obtain ⟨hDate, hValue, hInvested⟩ := point_totals hp
  rw [Input.dayTotals_eq] at hValue hInvested
  refine ⟨⟨hValue, hInvested⟩, ?_⟩
  constructor
  · intro hValued row hRow td hTrade hBought hSome
    obtain ⟨c, hKnown⟩ := Option.isSome_iff_exists.mp (isSome_lastClose_iff.mpr hSome)
    obtain ⟨lot, hLot, hAdds⟩ := contribution_lotOf hDate hTrade hBought hKnown
    obtain ⟨lot', hLot', hAdds'⟩ := hValued row hRow td c hTrade hBought hKnown
    have hSame : lot = lot' := Option.some.inj (hLot.symm.trans hLot')
    rw [← hSame, hAdds] at hAdds'
    by_contra hGap
    rw [if_neg hGap] at hAdds'
    cases hAdds'
  · intro hNoGap row hRow td c hTrade hBought hKnown
    obtain ⟨lot, hLot, hAdds⟩ := contribution_lotOf hDate hTrade hBought hKnown
    have hKnown' : (lastClose (x.prices.series row.ticker) p.date).isSome := by
      rw [hKnown]
      rfl
    have hIn := hNoGap row hRow td hTrade hBought (isSome_lastClose_iff.mp hKnown')
    exact ⟨lot, hLot, hAdds.trans (if_pos hIn)⟩

/-- A share bought on the first day for 5. -/
def shareOf (ticker : String) : Row where
  transactionId := ticker
  userId := "u1"
  ticker := ticker
  side := "BUY"
  quantity := 1
  price := 5
  currency := "USD"
  market := "us"
  tradeDate := some 1
  fees := 0
  notes := ""
  createdAt := 0

/-- A share of a ticker with closes on three days, and one of a ticker without the second. -/
def gapped : Input where
  transactions := [shareOf "AAPL", shareOf "MSFT"]
  currency := "USD"
  prices :=
    { rows := [⟨"AAPL", 1, some 10⟩, ⟨"AAPL", 2, some 11⟩, ⟨"AAPL", 3, some 12⟩,
        ⟨"MSFT", 1, some 100⟩, ⟨"MSFT", 3, some 102⟩]
      nodup := by decide }

/-- On the third day both shares count. -/
theorem valued_after_gap :
    ∃ p ∈ (buildPortfolioPerformance .decimal gapped "ALL").data,
      p.date = 3 ∧ p.value = 114 ∧ gapped.ValuedAtLastClose p.date := by
  have hRows : ∀ row ∈ gapped.buys, 3 ∈ (gapped.prices.series row.ticker).map PriceRow.date := by
    decide +kernel
  obtain ⟨p, hp, hDate, hValue⟩ :
      ∃ p ∈ (buildPortfolioPerformance .decimal gapped "ALL").data, p.date = 3 ∧ p.value = 114 := by
    decide +kernel
  refine ⟨p, hp, hDate, hValue, (valued_iff .decimal gapped "ALL" hp).2.mpr ?_⟩
  intro row hRow td _ _ _
  exact Or.inl (hDate ▸ hRows row hRow)

/-- On the second day the share without a row counts nothing, and the portfolio loses 94. -/
theorem gap_counts_nothing :
    (∃ p ∈ (buildPortfolioPerformance .decimal gapped "ALL").data,
        p.date = 2 ∧ p.value = 11 ∧ p.dailyPnl = -94) ∧
      ¬gapped.ValuedAtLastClose 2 := by
  refine ⟨by decide +kernel, fun hValued => ?_⟩
  obtain ⟨lot, hLot, hAdds⟩ :=
    hValued (shareOf "MSFT") (by decide +kernel) 1 100 rfl (by decide) (by decide +kernel)
  have hNothing : (lotOf gapped.prices (shareOf "MSFT")).bind (gapped.contribution 2) = none := by
    decide +kernel
  rw [hLot, Option.bind_some, hAdds] at hNothing
  cases hNothing

end AsetPlatform.Portfolio.Performance

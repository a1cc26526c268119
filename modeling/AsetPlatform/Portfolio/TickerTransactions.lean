import AsetPlatform.Library.Frames
import AsetPlatform.Portfolio.Performance

/-!
# The transactions of a ticker

`get_portfolio_transactions` of `auth/endpoints/ticker_routes.py` lists the transactions of a ticker
and sums them up, a SELL with a negative sign. `get_portfolio_holdings` adds up the BUYs of each ticker,
currency and market. `agree_iff` says when the two agree.
-/

set_option autoImplicit false

namespace AsetPlatform.Portfolio.Dashboard

open AsetPlatform.Library Performance

/-! ## The route -/

structure Transaction where
  transactionId : String
  tradeDate : Option Int
  side : String
  quantity : ℚ
  price : ℚ
  fees : ℚ
  notes : Option String
  deriving DecidableEq

def transactionOf (row : Row) : Transaction where
  transactionId := row.transactionId
  tradeDate := row.tradeDate
  side := if row.side = "" then "BUY" else row.side
  quantity := row.quantity
  price := row.price
  fees := row.fees
  notes := if row.notes = "nan" then none else some row.notes

structure Summary where
  totalQuantity : ℚ
  avgPrice : ℚ
  invested : ℚ
  currentPrice : Option ℚ
  currentValue : Option ℚ
  gain : Option ℚ
  gainPct : Option ℚ
  deriving DecidableEq

structure TransactionsResponse where
  ticker : String
  currency : String
  market : String
  transactions : List Transaction
  summary : Summary
  deriving DecidableEq

def sign (t : Transaction) : ℚ := if asciiUpper t.side = "SELL" then -1 else 1

/-- The loop that respects the sign of BUY and SELL. -/
def signedTotals (transactions : List Transaction) : ℚ × ℚ :=
  transactions.foldl
    (fun (totalQty, invested) t =>
      (totalQty + sign t * t.quantity, invested + sign t * t.quantity * t.price))
    (0, 0)

def summaryOf (r : Rounding) (currentPrice : Option ℚ) (transactions : List Transaction) : Summary :=
  let (totalQty, invested) := signedTotals transactions
  let avgPrice := if totalQty ≠ 0 then invested / totalQty else 0
  let currentValue := currentPrice.map fun p => r.two (totalQty * p)
  let gain := currentValue.map fun v => r.two (v - invested)
  { totalQuantity := r.four totalQty
    avgPrice := r.two avgPrice
    invested := r.two invested
    currentPrice := currentPrice
    currentValue := currentValue
    gain := gain
    gainPct := if invested ≠ 0 then gain.map fun g => r.two (g / invested * 100) else none }

/-- `ticker.upper().strip()` -/
def normalTicker (T : CharTables) (ticker : String) : String :=
  String.ofList (strip T (T.upper ticker.toList))

/-- `sort_values("trade_date")` puts rows without a date last. -/
def tradeRank (row : Row) : WithTop Int :=
  match row.tradeDate with
  | none => ⊤
  | some d => (d : WithTop Int)

/-- What the route is given beside the table: a sort by trade date, and the last close of a ticker. -/
structure RouteInput where
  tables : CharTables
  sort : List Row → List Row
  sorts : SortsUp tradeRank sort
  close : String → Option ℚ

/-- `get_portfolio_transactions`, or the status and the detail of its error. -/
def tickerTransactions (r : Rounding) (x : RouteInput) (user : UserId) (table : List Row)
    (request : String) : Except (Nat × String) TransactionsResponse :=
  let ticker := normalTicker x.tables request
  let rows := x.sort ((transactionsOf user table).filter (·.ticker = ticker))
  match rows.head? with
  | none => .error (404, "No transactions for ticker")
  | some first =>
      .ok
        { ticker := ticker
          currency := if first.currency = "" then "USD" else first.currency
          market := if first.market = "" then "us" else first.market
          transactions := rows.map transactionOf
          summary := summaryOf r (x.close ticker) (rows.map transactionOf) }

/-! ## Sums -/

def cost (row : Row) : ℚ := row.quantity * row.price

def isSell (row : Row) : Bool := asciiUpper row.side = "SELL"

/-- A figure summed over the rows that satisfy a test. -/
def sumWhere (figure : Row → ℚ) (rows : List Row) (p : Row → Bool) : ℚ :=
  ((rows.filter p).map figure).sum

section Sums

variable {figure : Row → ℚ} {rows : List Row} {p q : Row → Bool}

theorem sumWhere_cons (row : Row) :
    sumWhere figure (row :: rows) p = (if p row then figure row else 0) + sumWhere figure rows p := by
  rw [sumWhere, sumWhere, List.filter_cons]
  split
  · rw [List.map_cons, List.sum_cons]
  · rw [zero_add]

/-- A sum over rows splits at a test. -/
theorem sumWhere_split :
    sumWhere figure rows p =
      sumWhere figure rows (fun row => p row && q row) +
        sumWhere figure rows fun row => p row && !q row := by
  induction rows with
  | nil => exact (add_zero (0 : ℚ)).symm
  | cons row rows ih =>
      rw [sumWhere_cons, sumWhere_cons, sumWhere_cons, ih]
      cases p row <;> cases q row <;> simp only [Bool.and_true, Bool.and_false, Bool.not_true,
        Bool.not_false, Bool.false_eq_true, if_true, if_false] <;> ring

theorem sign_transactionOf (row : Row) :
    sign (transactionOf row) = if isSell row then -1 else 1 := by
  have hBuy : asciiUpper "BUY" ≠ "SELL" := by decide
  have hEmpty : asciiUpper "" ≠ "SELL" := by decide
  rw [sign, transactionOf, isSell]
  simp only [decide_eq_true_eq]
  by_cases hSide : row.side = ""
  · rw [if_pos hSide, hSide, if_neg hBuy, if_neg hEmpty]
  · rw [if_neg hSide]

/-- The route takes the SELLs from the rest. -/
theorem signedTotals_eq (rows : List Row) :
    signedTotals (rows.map transactionOf) =
      (sumWhere Row.quantity rows (!isSell ·) - sumWhere Row.quantity rows isSell,
        sumWhere cost rows (!isSell ·) - sumWhere cost rows isSell) := by
  have hFold : ∀ (rows : List Row) (totals : ℚ × ℚ),
      (rows.map transactionOf).foldl
          (fun (totalQty, invested) t =>
            (totalQty + sign t * t.quantity, invested + sign t * t.quantity * t.price))
          totals =
        (totals.1 + (sumWhere Row.quantity rows (!isSell ·) - sumWhere Row.quantity rows isSell),
          totals.2 + (sumWhere cost rows (!isSell ·) - sumWhere cost rows isSell)) := by
    intro rows
    induction rows with
    | nil => intro totals; simp [sumWhere]
    | cons row rows ih =>
        intro totals
        rw [List.map_cons, List.foldl_cons, ih]
        simp only [sumWhere_cons, sign_transactionOf]
        apply Prod.ext
        · cases isSell row <;> simp [transactionOf] <;> ring
        · cases isSell row <;> simp [transactionOf, cost] <;> ring
  rw [signedTotals, hFold]
  simp only [zero_add]

theorem sumWhere_perm {rows' : List Row} (h : rows.Perm rows') :
    sumWhere figure rows p = sumWhere figure rows' p :=
  ((h.filter p).map figure).sum_eq

end Sums

/-! ## Agreement -/

def ofTicker (user : UserId) (table : List Row) (t : String) : List Row :=
  (transactionsOf user table).filter (·.ticker = t)

def inGroup (key : String × String × String) (row : Row) : Bool :=
  row.side = "BUY" && groupKey row = key

/-- A ticker is held exactly if the route computes a positive quantity, and then each holding of it has
the quantity, the average price and the invested amount of the route. -/
def Agrees (user : UserId) (table : List Row) (t : String) (summary : Option Summary) : Prop :=
  ((∃ h ∈ holdingsOf user table, h.ticker = t) ↔ ∃ s, summary = some s ∧ 0 < s.totalQuantity) ∧
    ∀ h ∈ holdingsOf user table, h.ticker = t → ∀ s, summary = some s →
      h.quantity = s.totalQuantity ∧ h.avgPrice = s.avgPrice ∧ h.invested = s.invested

/-- Where a group of BUYs is kept, the SELLs of the ticker balance what is bought outside of the group,
in quantity and in cost; where none is, they are no less than what is bought. -/
structure Balanced (user : UserId) (table : List Row) (t : String) : Prop where
  kept : ∀ key : String × String × String, key.1 = t →
    0 < sumWhere Row.quantity (ofTicker user table t) (inGroup key) →
      (sumWhere Row.quantity (ofTicker user table t) fun row => !isSell row && !inGroup key row) =
          sumWhere Row.quantity (ofTicker user table t) isSell ∧
        (sumWhere cost (ofTicker user table t) fun row => !isSell row && !inGroup key row) =
          sumWhere cost (ofTicker user table t) isSell
  dropped : (∀ key : String × String × String, key.1 = t →
      sumWhere Row.quantity (ofTicker user table t) (inGroup key) ≤ 0) →
    sumWhere Row.quantity (ofTicker user table t) (!isSell ·) ≤
      sumWhere Row.quantity (ofTicker user table t) isSell

section Agreement

variable {user : UserId} {table : List Row} {t : String}

theorem inGroup_not_isSell {key : String × String × String} {row : Row} (h : inGroup key row) :
    isSell row = false := by
  have hBuy : asciiUpper "BUY" ≠ "SELL" := by decide
  rw [inGroup, Bool.and_eq_true, decide_eq_true_eq] at h
  rw [isSell, h.1]
  exact decide_eq_false hBuy

/-- The rows that are no SELLs are those of a group and the others. -/
theorem sum_bought (figure : Row → ℚ) (rows : List Row) (key : String × String × String) :
    sumWhere figure rows (!isSell ·) =
      sumWhere figure rows (inGroup key) +
        sumWhere figure rows fun row => !isSell row && !inGroup key row := by
  rw [sumWhere_split (q := inGroup key)]
  congr 2
  funext row
  cases hIn : inGroup key row with
  | false => rw [Bool.and_false]
  | true => rw [inGroup_not_isSell hIn]; rfl

theorem sum_group (figure : Row → ℚ) {key : String × String × String} (hKey : key.1 = t) :
    ((((transactionsOf user table).filter fun row => row.side = "BUY").filter
        fun row => groupKey row = key).map figure).sum =
      sumWhere figure (ofTicker user table t) (inGroup key) := by
  rw [sumWhere, ofTicker, List.filter_filter, List.filter_filter]
  congr 2
  apply List.filter_congr
  intro row _
  by_cases hGroup : groupKey row = key
  · have hTicker : row.ticker = t := by
      rw [← hKey, ← hGroup]
      rfl
    simp [inGroup, hGroup, hTicker]
  · simp [inGroup, hGroup]

/-- A holding is a group with a positive quantity. -/
theorem mem_holdingsOf_iff {h : Holding} :
    (h ∈ holdingsOf user table ∧ h.ticker = t) ↔
      ∃ key : String × String × String, key.1 = t ∧
        0 < sumWhere Row.quantity (ofTicker user table t) (inGroup key) ∧
        h = ⟨key.1, key.2.1, key.2.2, sumWhere Row.quantity (ofTicker user table t) (inGroup key),
          sumWhere cost (ofTicker user table t) (inGroup key)⟩ := by
  rw [holdingsOf]
  simp only [List.mem_filter, List.mem_map, List.mem_insertionSort, List.mem_dedup, decide_eq_true_eq]
  constructor
  · rintro ⟨⟨⟨key, -, rfl⟩, hPos⟩, hTicker⟩
    refine ⟨key, hTicker, ?_, ?_⟩
    · rw [← sum_group _ hTicker]
      exact hPos
    · rw [← sum_group _ hTicker, ← sum_group _ hTicker]
      rfl
  · rintro ⟨key, hKey, hPos, rfl⟩
    refine ⟨⟨⟨key, ?_, ?_⟩, hPos⟩, hKey⟩
    · -- a group with a positive quantity has a row
      by_contra hNone
      have hEmpty : (ofTicker user table t).filter (inGroup key) = [] := by
        rw [List.filter_eq_nil_iff]
        intro row hRow hIn
        rw [inGroup, Bool.and_eq_true, decide_eq_true_eq, decide_eq_true_eq] at hIn
        exact hNone ⟨row, ⟨List.mem_of_mem_filter hRow, hIn.1⟩, hIn.2⟩
      rw [sumWhere, hEmpty] at hPos
      exact absurd hPos (lt_irrefl 0)
    · rw [← sum_group Row.quantity hKey, ← sum_group cost hKey]
      rfl

/-- What the route sums up, before rounding. -/
theorem summary_exact {x : RouteInput} {request : String}
    (ht : normalTicker x.tables request = t) {answer : TransactionsResponse}
    (h : tickerTransactions .exact x user table request = .ok answer) :
    answer.summary.totalQuantity =
        sumWhere Row.quantity (ofTicker user table t) (!isSell ·) -
          sumWhere Row.quantity (ofTicker user table t) isSell ∧
      answer.summary.invested =
        sumWhere cost (ofTicker user table t) (!isSell ·) -
          sumWhere cost (ofTicker user table t) isSell ∧
      answer.summary.avgPrice =
        if answer.summary.totalQuantity ≠ 0 then
          answer.summary.invested / answer.summary.totalQuantity
        else 0 := by
  have hPerm := x.sorts.perm ((transactionsOf user table).filter (·.ticker = t))
  rw [tickerTransactions] at h
  simp only [ht] at h
  split at h
  · cases h
  · cases h
    have hSums := signedTotals_eq (x.sort ((transactionsOf user table).filter (·.ticker = t)))
    simp only [sumWhere_perm hPerm] at hSums
    refine ⟨?_, ?_, ?_⟩
    · exact congrArg Prod.fst hSums
    · exact congrArg Prod.snd hSums
    · rfl

theorem summary_eq_none_iff {x : RouteInput} {r : Rounding} {request : String}
    (ht : normalTicker x.tables request = t) :
    (tickerTransactions r x user table request).toOption = none ↔ ofTicker user table t = [] := by
  have hPerm := x.sorts.perm (ofTicker user table t)
  have hHead : (x.sort (ofTicker user table t)).head? = none ↔ ofTicker user table t = [] := by
    rw [List.head?_eq_none_iff, ← List.length_eq_zero_iff, hPerm.length_eq,
      List.length_eq_zero_iff]
  rw [← hHead, tickerTransactions]
  simp only [ht]
  rw [ofTicker]
  cases (x.sort ((transactionsOf user table).filter (·.ticker = t))).head? with
  | none => exact iff_of_true rfl rfl
  | some first => exact iff_of_false (by simp [Except.toOption]) (by simp)

end Agreement

/-- The holdings agree with the summary of a ticker, before rounding, exactly if its transactions are
balanced. -/
theorem rows_agree_iff (x : RouteInput) (user : UserId) (table : List Row) (request : String) :
    Agrees user table (normalTicker x.tables request)
        ((tickerTransactions .exact x user table request).toOption.map TransactionsResponse.summary) ↔
      Balanced user table (normalTicker x.tables request) := by
  generalize ht : normalTicker x.tables request = t
  cases hAnswer : (tickerTransactions .exact x user table request).toOption with
  | none =>
      have hRows : ofTicker user table t = [] := (summary_eq_none_iff ht).mp hAnswer
      have hZero : ∀ figure p, sumWhere figure (ofTicker user table t) p = 0 := by
        intro figure p
        rw [hRows]
        rfl
      have hNoHolding : ∀ h ∈ holdingsOf user table, h.ticker ≠ t := by
        intro h hMem hTicker
        obtain ⟨key, -, hPos, -⟩ := mem_holdingsOf_iff.mp ⟨hMem, hTicker⟩
        rw [hZero] at hPos
        exact absurd hPos (lt_irrefl 0)
      refine iff_of_true ⟨?_, fun h hMem hTicker => absurd hTicker (hNoHolding h hMem)⟩ ⟨?_, ?_⟩
      · exact iff_of_false (fun ⟨h, hMem, hTicker⟩ => hNoHolding h hMem hTicker) (by simp)
      · intro key _ hPos
        rw [hZero] at hPos
        exact absurd hPos (lt_irrefl 0)
      · intro _
        rw [hZero, hZero]
  | some answer =>
      have hOk : tickerTransactions .exact x user table request = .ok answer := by
        cases hResult : tickerTransactions .exact x user table request with
        | error e =>
            rw [hResult] at hAnswer
            cases hAnswer
        | ok answer' =>
            rw [hResult] at hAnswer
            exact congrArg _ (Option.some.inj hAnswer)
      obtain ⟨hQuantity, hInvested, hAvg⟩ := summary_exact ht hOk
      rw [Option.map_some]
      constructor
      · rintro ⟨hAppears, hValues⟩
        refine ⟨?_, ?_⟩
        · intro key hKey hPos
          obtain ⟨hMem, hTicker⟩ := mem_holdingsOf_iff.mpr ⟨key, hKey, hPos, rfl⟩
          obtain ⟨hSameQuantity, -, hSameInvested⟩ := hValues _ hMem hTicker _ rfl
          rw [hQuantity, sum_bought _ _ key] at hSameQuantity
          rw [hInvested, sum_bought _ _ key] at hSameInvested
          simp only at hSameQuantity hSameInvested
          constructor <;> linarith
        · intro hNone
          by_contra hMore
          have hPos : 0 < answer.summary.totalQuantity := by
            rw [hQuantity]
            linarith
          obtain ⟨h, hMem, hTicker⟩ := hAppears.mpr ⟨_, rfl, hPos⟩
          obtain ⟨key, hKey, hKept, -⟩ := mem_holdingsOf_iff.mp ⟨hMem, hTicker⟩
          exact absurd hKept (not_lt_of_ge (hNone key hKey))
      · intro hBalanced
        -- a group that is kept has the sums of the route
        have hSame : ∀ key : String × String × String, key.1 = t →
            0 < sumWhere Row.quantity (ofTicker user table t) (inGroup key) →
            sumWhere Row.quantity (ofTicker user table t) (inGroup key) =
                answer.summary.totalQuantity ∧
              sumWhere cost (ofTicker user table t) (inGroup key) = answer.summary.invested := by
          intro key hKey hPos
          obtain ⟨hOtherQuantity, hOtherCost⟩ := hBalanced.kept key hKey hPos
          rw [hQuantity, hInvested, sum_bought _ _ key, sum_bought cost _ key, hOtherQuantity,
            hOtherCost]
          constructor <;> ring
        refine ⟨⟨?_, ?_⟩, ?_⟩
        · rintro ⟨h, hMem, hTicker⟩
          obtain ⟨key, hKey, hPos, -⟩ := mem_holdingsOf_iff.mp ⟨hMem, hTicker⟩
          exact ⟨_, rfl, (hSame key hKey hPos).1 ▸ hPos⟩
        · rintro ⟨s, hs, hTotal⟩
          cases hs
          by_contra hNone
          have hDropped : ∀ key : String × String × String, key.1 = t →
              sumWhere Row.quantity (ofTicker user table t) (inGroup key) ≤ 0 := by
            intro key hKey
            by_contra hKept
            exact hNone ⟨_, mem_holdingsOf_iff.mpr ⟨key, hKey, not_le.mp hKept, rfl⟩⟩
          have hLess := hBalanced.dropped hDropped
          rw [hQuantity] at hTotal
          linarith
        · intro h hMem hTicker s hs
          cases hs
          obtain ⟨key, hKey, hPos, rfl⟩ := mem_holdingsOf_iff.mp ⟨hMem, hTicker⟩
          obtain ⟨hSameQuantity, hSameInvested⟩ := hSame key hKey hPos
          refine ⟨hSameQuantity, ?_, hSameInvested⟩
          rw [hAvg, ← hSameQuantity, ← hSameInvested, if_pos hPos.ne']
          rfl

/-- Ten AAPL are bought for 5, and four sold for 6. -/
def soldSome : List Row :=
  [⟨"b1", "a1", "AAPL", "BUY", 10, 5, "USD", "us", some 1, 0, "", 0⟩,
    ⟨"s1", "a1", "AAPL", "SELL", 4, 6, "USD", "us", some 2, 0, "", 0⟩]

def byTradeDate : List Row → List Row := List.insertionSort fun r r' => tradeRank r ≤ tradeRank r'

theorem byTradeDate_sorts : SortsUp tradeRank byTradeDate := sortsUp_insertionSort tradeRank

def withoutCloses : RouteInput where
  tables := .ascii
  sort := byTradeDate
  sorts := byTradeDate_sorts
  close := fun _ => none

def userA1 : UserId := ⟨"a1", by decide⟩

/-- The holding has ten AAPL, and the route six. -/
theorem sold_disagree :
    ((holdingsOf userA1 soldSome).map Holding.quantity = [10] ∧
        ((tickerTransactions .exact withoutCloses userA1 soldSome "aapl").toOption.map
          fun answer => answer.summary.totalQuantity) = some 6) ∧
      ¬Agrees userA1 soldSome (normalTicker withoutCloses.tables "aapl")
        ((tickerTransactions .exact withoutCloses userA1 soldSome "aapl").toOption.map
          TransactionsResponse.summary) := by
  refine ⟨by decide +kernel, fun hAgrees => ?_⟩
  obtain ⟨s, hs, hTotal⟩ : ∃ s, (tickerTransactions .exact withoutCloses userA1 soldSome
      "aapl").toOption.map TransactionsResponse.summary = some s ∧ s.totalQuantity = 6 := by
    refine ⟨⟨6, 26 / 6, 26, none, none, none, none⟩, ?_, rfl⟩
    decide +kernel
  have hHolding : (⟨"AAPL", "USD", "us", 10, 50⟩ : Holding) ∈ holdingsOf userA1 soldSome := by
    decide +kernel
  have hTicker : "AAPL" = normalTicker withoutCloses.tables "aapl" := by decide +kernel
  have hSame := (hAgrees.2 _ hHolding hTicker s hs).1
  rw [hTotal] at hSame
  exact absurd hSame (by norm_num)

end AsetPlatform.Portfolio.Dashboard

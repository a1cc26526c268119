import AsetPlatform.Library.Frames
import AsetPlatform.Screening.Evidence

/-!
# Annual figures

`_aggregate_annual` of `backend/pipeline/screener/screen.py`, and the score that `run_screen` gives a
ticker: income and cash flow are summed over the quarters of a fiscal year, the balance sheet is that of
its last quarter, and the latest two years are compared.

A year that is not over yet is compared with a whole one. `likeWithLike_iff` says for which companies
whose quarters are all alike this does not show.
-/

set_option autoImplicit false

namespace AsetPlatform.Screening

open AsetPlatform.Library

/-! ## The screen -/

/-- A row of `quarterly_results`, as far as the screen reads it. -/
structure ResultRow where
  statementType : String
  fiscalYear : Option Int
  quarterEnd : Nat
  revenue : Option ℚ
  netIncome : Option ℚ
  grossProfit : Option ℚ
  operatingCashflow : Option ℚ
  totalAssets : Option ℚ
  totalDebt : Option ℚ
  currentAssets : Option ℚ
  currentLiabilities : Option ℚ
  sharesOutstanding : Option ℚ
  deriving DecidableEq

/-- `sort_values("quarter_end")`; rows of one quarter may come in any order. -/
structure QuarterSort where
  sort : List ResultRow → List ResultRow
  sorts : SortsUp ResultRow.quarterEnd sort

/-- `vals.sum()` of the values that are there, if any. -/
def columnSum (rows : List ResultRow) (col : ResultRow → Option ℚ) : Figure :=
  match rows.filterMap col with
  | [] => .none
  | vals => .number vals.sum

def latestValue (rows : List ResultRow) (col : ResultRow → Option ℚ) : Figure :=
  (rows.getLast?.bind col).elim .none .number

section Screen

variable (S : QuarterSort) (df : List ResultRow)

/-- The rows of a statement, in one group of `groupby("fiscal_year")`. -/
def group (statement : String) (fy : Int) (rows : List ResultRow) : List ResultRow :=
  (rows.filter (·.statementType = statement)).filter (·.fiscalYear = some fy)

/-- The dict of a fiscal year. -/
def yearOf (fy : Int) : Year :=
  let inc := group "income" fy df
  let cf := group "cashflow" fy df
  let bal := (S.sort (df.filter (·.statementType = "balance"))).filter (·.fiscalYear = some fy)
  { netIncome := columnSum inc ResultRow.netIncome
    totalAssets := latestValue bal ResultRow.totalAssets
    operatingCashflow := columnSum cf ResultRow.operatingCashflow
    totalDebt := latestValue bal ResultRow.totalDebt
    currentAssets := latestValue bal ResultRow.currentAssets
    currentLiabilities := latestValue bal ResultRow.currentLiabilities
    sharesOutstanding := latestValue bal ResultRow.sharesOutstanding
    grossProfit := columnSum inc ResultRow.grossProfit
    revenue := columnSum inc ResultRow.revenue }

def statements : List String := ["income", "cashflow", "balance"]

def fiscalYears : List Int :=
  ((df.filter fun r => r.statementType ∈ statements).filterMap ResultRow.fiscalYear).dedup

/-- `_aggregate_annual` -/
def aggregateAnnual : List (Int × Year) := (fiscalYears df).map fun fy => (fy, yearOf S df fy)

/-- The result of a ticker in `run_screen`; it is skipped with less than two years. -/
def screenTicker : Option PiotroskiResult :=
  match (aggregateAnnual S df).insertionSort fun a b => b.1 ≤ a.1 with
  | curr :: prev :: _ => some (computePiotroski curr.2 prev.2)
  | _ => none

end Screen

/-! ## Companies whose quarters are alike -/

/-- The figures of a quarter; they may be missing. -/
structure Quarter where
  revenue : Option ℚ
  netIncome : Option ℚ
  grossProfit : Option ℚ
  operatingCashflow : Option ℚ
  totalAssets : Option ℚ
  totalDebt : Option ℚ
  currentAssets : Option ℚ
  currentLiabilities : Option ℚ
  sharesOutstanding : Option ℚ

namespace Quarter

variable (q : Quarter) (fy : Int) (quarterEnd : Nat)

def incomeRow : ResultRow :=
  ⟨"income", some fy, quarterEnd, q.revenue, q.netIncome, q.grossProfit, none, none, none, none, none,
    none⟩

def cashflowRow : ResultRow :=
  ⟨"cashflow", some fy, quarterEnd, none, none, none, q.operatingCashflow, none, none, none, none, none⟩

def balanceRow : ResultRow :=
  ⟨"balance", some fy, quarterEnd, none, none, none, none, q.totalAssets, q.totalDebt, q.currentAssets,
    q.currentLiabilities, q.sharesOutstanding⟩

/-- The rows of the three statements of a quarter. -/
def rows : List ResultRow :=
  [q.incomeRow fy quarterEnd, q.cashflowRow fy quarterEnd, q.balanceRow fy quarterEnd]

/-- The figures of a year of `k` quarters. -/
def annual (k : Nat) : Year where
  netIncome := q.netIncome.elim .none fun x => .number (k * x)
  totalAssets := q.totalAssets.elim .none .number
  operatingCashflow := q.operatingCashflow.elim .none fun x => .number (k * x)
  totalDebt := q.totalDebt.elim .none .number
  currentAssets := q.currentAssets.elim .none .number
  currentLiabilities := q.currentLiabilities.elim .none .number
  sharesOutstanding := q.sharesOutstanding.elim .none .number
  grossProfit := q.grossProfit.elim .none fun x => .number (k * x)
  revenue := q.revenue.elim .none fun x => .number (k * x)

end Quarter

/-- A company with the same figures in every quarter of the last two fiscal years. -/
structure Company where
  figures : Quarter
  year : Int
  /-- The ends of the quarters of the year before. -/
  before : List Nat
  before_ne : before ≠ []
  earlier : List ResultRow
  earlier_lt : ∀ r ∈ earlier, ∀ fy, r.fiscalYear = some fy → fy < year - 1

/-- The rows of a company that has reported some quarters of the current year. -/
def Company.rows (x : Company) (reported : List Nat) : List ResultRow :=
  x.earlier ++ (x.before.flatMap (x.figures.rows (x.year - 1)) ++
    reported.flatMap (x.figures.rows x.year))

/-- The score is the same however many quarters of the current year are reported, from one to as many as
the year before has, and in whichever order the rows are found. -/
def LikeWithLike (S : QuarterSort) (x : Company) : Prop :=
  ∀ (reported reported' : List Nat) (df df' : List ResultRow),
    reported ≠ [] → reported.length ≤ x.before.length → df.Perm (x.rows reported) →
      reported' ≠ [] → reported'.length ≤ x.before.length → df'.Perm (x.rows reported') →
        (screenTicker S df).map PiotroskiResult.totalScore =
          (screenTicker S df').map PiotroskiResult.totalScore

/-! ## The figures of the last two years -/

section Groups

variable {rows : List ResultRow} {col : ResultRow → Option ℚ} {v : Option ℚ} {fy : Int}
  {statement : String}

theorem columnSum_const (hRows : rows ≠ []) (h : ∀ r ∈ rows, col r = v) :
    columnSum rows col = v.elim .none fun x => .number (rows.length * x) := by
  cases v with
  | none =>
      have hNone : rows.filterMap col = [] := List.filterMap_eq_nil_iff.mpr h
      rw [columnSum, hNone]
      rfl
  | some x =>
      have hAll : rows.filterMap col = List.replicate rows.length x := by
        refine List.eq_replicate_iff.mpr ⟨?_, fun y hy => ?_⟩
        · rw [List.length_filterMap_eq_countP, List.countP_eq_length]
          exact fun r hr => by rw [h r hr]; rfl
        · obtain ⟨r, hr, hValue⟩ := List.mem_filterMap.mp hy
          exact Option.some.inj (hValue.symm.trans (h r hr))
      obtain ⟨r, rest, rfl⟩ := List.exists_cons_of_ne_nil hRows
      rw [columnSum, hAll, List.length_cons, List.replicate_succ]
      change Figure.number (x :: List.replicate rest.length x).sum = Figure.number _
      rw [← List.replicate_succ, List.sum_replicate, nsmul_eq_mul]

theorem latestValue_const (hRows : rows ≠ []) (h : ∀ r ∈ rows, col r = v) :
    latestValue rows col = v.elim .none .number := by
  rw [latestValue, List.getLast?_eq_some_getLast hRows, Option.bind_some,
    h _ (List.getLast_mem hRows)]

theorem group_perm {rows' : List ResultRow} (h : rows.Perm rows') (statement : String) (fy : Int) :
    (group statement fy rows).Perm (group statement fy rows') :=
  (h.filter _).filter _

theorem group_append (rows rows' : List ResultRow) :
    group statement fy (rows ++ rows') = group statement fy rows ++ group statement fy rows' := by
  rw [group, List.filter_append, List.filter_append]
  rfl

theorem group_eq_nil (h : ∀ r ∈ rows, r.fiscalYear ≠ some fy) : group statement fy rows = [] := by
  rw [group, List.filter_filter, List.filter_eq_nil_iff]
  intro r hr hBoth
  exact h r hr (of_decide_eq_true (Bool.and_eq_true_iff.mp hBoth).1)

variable (q : Quarter) (ends : List Nat)

theorem fiscalYear_of_mem_rows {fy' : Int} {r : ResultRow} (h : r ∈ ends.flatMap (q.rows fy')) :
    r.fiscalYear = some fy' := by
  obtain ⟨e, -, hr⟩ := List.mem_flatMap.mp h
  simp only [Quarter.rows, List.mem_cons, List.not_mem_nil, or_false] at hr
  rcases hr with rfl | rfl | rfl
  · rfl
  · rfl
  · rfl

/-- The rows of each statement among those of some quarters. -/
theorem group_rows :
    group "income" fy (ends.flatMap (q.rows fy)) = ends.map (q.incomeRow fy) ∧
      group "cashflow" fy (ends.flatMap (q.rows fy)) = ends.map (q.cashflowRow fy) ∧
      group "balance" fy (ends.flatMap (q.rows fy)) = ends.map (q.balanceRow fy) := by
  induction ends with
  | nil => exact ⟨rfl, rfl, rfl⟩
  | cons e es ih =>
      rw [List.flatMap_cons, group_append, group_append, group_append, ih.1, ih.2.1, ih.2.2]
      simp [group, Quarter.rows, Quarter.incomeRow, Quarter.cashflowRow, Quarter.balanceRow]

theorem yearOf_eq (S : QuarterSort) {df : List ResultRow} (hEnds : ends ≠ [])
    (h : ∀ statement, (group statement fy df).Perm (group statement fy (ends.flatMap (q.rows fy)))) :
    yearOf S df fy = q.annual ends.length := by
  have hInc : (group "income" fy df).Perm (ends.map (q.incomeRow fy)) := by
    rw [← (group_rows q ends).1]
    exact h "income"
  have hCf : (group "cashflow" fy df).Perm (ends.map (q.cashflowRow fy)) := by
    rw [← (group_rows q ends).2.1]
    exact h "cashflow"
  have hBal : ((S.sort (df.filter (·.statementType = "balance"))).filter
      (·.fiscalYear = some fy)).Perm (ends.map (q.balanceRow fy)) := by
    rw [← (group_rows q ends).2.2]
    exact ((S.sorts.perm _).filter _).trans (h "balance")
  have hNonempty : ∀ (f : Nat → ResultRow) (rows : List ResultRow), rows.Perm (ends.map f) →
      rows ≠ [] := by
    rintro f rows hPerm rfl
    exact hEnds (List.map_eq_nil_iff.mp (List.nil_perm.mp hPerm))
  have hSum : ∀ (f : Nat → ResultRow) (rows : List ResultRow), rows.Perm (ends.map f) →
      ∀ (col : ResultRow → Option ℚ) (v : Option ℚ), (∀ e, col (f e) = v) →
        columnSum rows col = v.elim .none fun x => .number (ends.length * x) := by
    intro f rows hPerm col v hCol
    rw [columnSum_const (hNonempty f rows hPerm) fun r hr => ?_, hPerm.length_eq, List.length_map]
    obtain ⟨e, -, rfl⟩ := List.mem_map.mp (hPerm.subset hr)
    exact hCol e
  have hLatest : ∀ (f : Nat → ResultRow) (rows : List ResultRow), rows.Perm (ends.map f) →
      ∀ (col : ResultRow → Option ℚ) (v : Option ℚ), (∀ e, col (f e) = v) →
        latestValue rows col = v.elim .none .number := by
    intro f rows hPerm col v hCol
    refine latestValue_const (hNonempty f rows hPerm) fun r hr => ?_
    obtain ⟨e, -, rfl⟩ := List.mem_map.mp (hPerm.subset hr)
    exact hCol e
  rw [yearOf, Quarter.annual, Year.mk.injEq]
  exact ⟨hSum _ _ hInc _ _ fun _ => rfl, hLatest _ _ hBal _ _ fun _ => rfl,
    hSum _ _ hCf _ _ fun _ => rfl, hLatest _ _ hBal _ _ fun _ => rfl,
    hLatest _ _ hBal _ _ fun _ => rfl, hLatest _ _ hBal _ _ fun _ => rfl,
    hLatest _ _ hBal _ _ fun _ => rfl, hSum _ _ hInc _ _ fun _ => rfl,
    hSum _ _ hInc _ _ fun _ => rfl⟩

end Groups

section LastYears

variable (S : QuarterSort) (x : Company) {reported : List Nat} {df : List ResultRow}

theorem group_current (statement : String) : group statement x.year (x.rows reported) =
    group statement x.year (reported.flatMap (x.figures.rows x.year)) := by
  have hEarlier : group statement x.year x.earlier = [] := by
    refine group_eq_nil fun r hr hYear => ?_
    have hLess := x.earlier_lt r hr x.year hYear
    omega
  have hBefore : group statement x.year (x.before.flatMap (x.figures.rows (x.year - 1))) = [] := by
    refine group_eq_nil fun r hr hYear => ?_
    have hSame := Option.some.inj ((fiscalYear_of_mem_rows _ _ hr).symm.trans hYear)
    omega
  rw [Company.rows, group_append, group_append, hEarlier, hBefore, List.nil_append, List.nil_append]

theorem group_before (statement : String) : group statement (x.year - 1) (x.rows reported) =
    group statement (x.year - 1) (x.before.flatMap (x.figures.rows (x.year - 1))) := by
  have hEarlier : group statement (x.year - 1) x.earlier = [] := by
    refine group_eq_nil fun r hr hYear => ?_
    have hLess := x.earlier_lt r hr (x.year - 1) hYear
    omega
  have hReported : group statement (x.year - 1) (reported.flatMap (x.figures.rows x.year)) = [] := by
    refine group_eq_nil fun r hr hYear => ?_
    have hSame := Option.some.inj ((fiscalYear_of_mem_rows _ _ hr).symm.trans hYear)
    omega
  rw [Company.rows, group_append, group_append, hEarlier, hReported, List.nil_append,
    List.append_nil]

variable {x}

theorem yearOf_current (hReported : reported ≠ []) (hRows : df.Perm (x.rows reported)) :
    yearOf S df x.year = x.figures.annual reported.length := by
  refine yearOf_eq x.figures reported S hReported fun statement => ?_
  rw [← group_current x statement]
  exact group_perm hRows statement x.year

theorem yearOf_before (hRows : df.Perm (x.rows reported)) :
    yearOf S df (x.year - 1) = x.figures.annual x.before.length := by
  refine yearOf_eq x.figures x.before S x.before_ne fun statement => ?_
  have hPerm := group_perm hRows statement (x.year - 1)
  rwa [group_before x statement] at hPerm

theorem mem_fiscalYears_iff {fy : Int} : fy ∈ fiscalYears df ↔
    ∃ r ∈ df, r.statementType ∈ statements ∧ r.fiscalYear = some fy := by
  rw [fiscalYears, List.mem_dedup, List.mem_filterMap]
  simp only [List.mem_filter, decide_eq_true_eq, and_assoc]

theorem mem_fiscalYears_of_rows {fy : Int} {q : Quarter} {ends : List Nat} (hEnds : ends ≠ [])
    (h : ∀ r ∈ ends.flatMap (q.rows fy), r ∈ df) : fy ∈ fiscalYears df := by
  obtain ⟨e, rest, rfl⟩ := List.exists_cons_of_ne_nil hEnds
  refine mem_fiscalYears_iff.mpr ⟨q.incomeRow fy e, h _ ?_, List.mem_cons_self, rfl⟩
  exact List.mem_append_left _ List.mem_cons_self

/-- The two greatest keys come first. -/
theorem insertionSort_topTwo {α : Type} {l : List (Int × α)} (hKeys : (l.map Prod.fst).Nodup)
    {k : Int} {a b : α} (ha : (k, a) ∈ l) (hb : (k - 1, b) ∈ l)
    (hTop : ∀ p ∈ l, p.1 = k ∨ p.1 ≤ k - 1) :
    ∃ rest, l.insertionSort (fun p p' => p'.1 ≤ p.1) = (k, a) :: (k - 1, b) :: rest := by
  have hSorts : SortsDown Prod.fst (List.insertionSort fun p p' : Int × α => p'.1 ≤ p.1) :=
    sortsDown_insertionSort Prod.fst
  have hPerm := hSorts.perm l
  have hOrdered := hSorts.ordered l
  have hKey : ∀ p ∈ l, ∀ p' ∈ l, p.1 = p'.1 → p = p' :=
    fun p hp p' hp' hSame => List.inj_on_of_nodup_map hKeys hp hp' hSame
  have hNodup := hPerm.nodup_iff.mpr (hKeys.of_map _)
  generalize l.insertionSort (fun p p' => p'.1 ≤ p.1) = sorted at hPerm hOrdered hNodup
  have ha' := hPerm.mem_iff.mpr ha
  have hb' := hPerm.mem_iff.mpr hb
  match sorted with
  | [] => cases ha'
  | p :: rest =>
      obtain ⟨hMax, hRest⟩ := List.pairwise_cons.mp hOrdered
      have hp := hPerm.subset List.mem_cons_self
      have hFirst : p = (k, a) := by
        refine hKey p hp _ ha ?_
        rcases hTop p hp with hTop | hLow
        · exact hTop
        · rcases List.mem_cons.mp ha' with rfl | hLater
          · rfl
          · have hLe : k ≤ p.1 := hMax _ hLater
            omega
      subst hFirst
      have hSecond : (k - 1, b) ∈ rest := by
        rcases List.mem_cons.mp hb' with hSame | hLater'
        · have hImpossible := congrArg Prod.fst hSame
          simp only at hImpossible
          omega
        · exact hLater'
      match rest with
      | [] => cases hSecond
      | p :: rest =>
          have hBelow := (List.pairwise_cons.mp hRest).1
          have hp := hPerm.subset (List.mem_cons_of_mem _ List.mem_cons_self)
          have hNext : p = (k - 1, b) := by
            refine hKey p hp _ hb ?_
            rcases hTop p hp with hTop | hLow
            · have hSame := hKey p hp _ ha hTop
              subst hSame
              exact absurd List.mem_cons_self (List.nodup_cons.mp hNodup).1
            · rcases List.mem_cons.mp hSecond with rfl | hLast
              · rfl
              · exact le_antisymm hLow (hBelow _ hLast)
          exact ⟨rest, by rw [hNext]⟩

theorem screenTicker_eq (hReported : reported ≠ []) (hRows : df.Perm (x.rows reported)) :
    screenTicker S df = some (computePiotroski (x.figures.annual reported.length)
      (x.figures.annual x.before.length)) := by
  have hKeys : ((aggregateAnnual S df).map Prod.fst).Nodup := by
    rw [aggregateAnnual, List.map_map]
    exact (List.map_id _).symm ▸ List.nodup_dedup _
  have hCurrent : (x.year, yearOf S df x.year) ∈ aggregateAnnual S df := by
    have hDf : ∀ r ∈ reported.flatMap (x.figures.rows x.year), r ∈ df := fun r hr =>
      hRows.mem_iff.mpr (List.mem_append_right _ (List.mem_append_right _ hr))
    exact List.mem_map_of_mem (mem_fiscalYears_of_rows hReported hDf)
  have hBefore : (x.year - 1, yearOf S df (x.year - 1)) ∈ aggregateAnnual S df := by
    have hDf : ∀ r ∈ x.before.flatMap (x.figures.rows (x.year - 1)), r ∈ df := fun r hr =>
      hRows.mem_iff.mpr (List.mem_append_right _ (List.mem_append_left _ hr))
    exact List.mem_map_of_mem (mem_fiscalYears_of_rows x.before_ne hDf)
  have hTop : ∀ p ∈ aggregateAnnual S df, p.1 = x.year ∨ p.1 ≤ x.year - 1 := by
    intro p hp
    obtain ⟨fy, hfy, rfl⟩ := List.mem_map.mp hp
    obtain ⟨r, hr, -, hYear⟩ := mem_fiscalYears_iff.mp hfy
    rcases List.mem_append.mp (hRows.mem_iff.mp hr) with hEarlier | hLast
    · exact Or.inr (le_of_lt (x.earlier_lt r hEarlier fy hYear))
    · rcases List.mem_append.mp hLast with hOld | hNew
      · rw [fiscalYear_of_mem_rows _ _ hOld] at hYear
        exact Or.inr (Option.some.inj hYear).ge
      · rw [fiscalYear_of_mem_rows _ _ hNew] at hYear
        exact Or.inl (Option.some.inj hYear).symm
  obtain ⟨rest, hSorted⟩ := insertionSort_topTwo hKeys hCurrent hBefore hTop
  rw [screenTicker, hSorted, ← yearOf_current S hReported hRows, ← yearOf_before S hRows]

end LastYears

/-! ## The score by the number of reported quarters -/

/-- A missing figure counts as 0. -/
def amount (figure : Option ℚ) : ℚ := figure.getD 0

section Score

variable {q : Quarter} {k n : Nat}

theorem safe_number (figure : Option ℚ) : safe (figure.elim .none .number) = amount figure := by
  cases figure <;> rfl

theorem safe_times (k : Nat) (figure : Option ℚ) :
    safe (figure.elim .none fun x => .number (k * x)) = k * amount figure := by
  cases figure with
  | none => exact (mul_zero _).symm
  | some x => rfl

theorem rises_flow_iff (hk : k ≤ n) (x a : ℚ) :
    Rises (k * x) a (n * x) a ↔ k < n ∧ x / a < 0 := by
  have hCast : (k : ℚ) ≤ n := Nat.cast_le.mpr hk
  rw [Rises, mul_div_assoc, mul_div_assoc]
  constructor
  · rintro ⟨-, -, hLess⟩
    have hNegative : x / a < 0 := by
      by_contra hPositive
      exact absurd (mul_le_mul_of_nonneg_right hCast (not_lt.mp hPositive)) (not_le_of_gt hLess)
    refine ⟨lt_of_le_of_ne hk fun hSame => ?_, hNegative⟩
    rw [hSame] at hLess
    exact lt_irrefl _ hLess
  · rintro ⟨hLess, hNegative⟩
    have hDen : a ≠ 0 := (div_ne_zero_iff.mp hNegative.ne).2
    exact ⟨hDen, hDen, mul_lt_mul_of_neg_right (Nat.cast_lt.mpr hLess) hNegative⟩

theorem not_rises_self (x a : ℚ) : ¬Rises x a x a := fun h => lt_irrefl _ h.2.2

theorem not_rises_times (x a : ℚ) (hk : 0 < k) (hn : 0 < n) :
    ¬Rises (k * x) (k * a) (n * x) (n * a) := by
  rintro ⟨-, -, hLess⟩
  have hk' : (k : ℚ) ≠ 0 := Nat.cast_ne_zero.mpr hk.ne'
  have hn' : (n : ℚ) ≠ 0 := Nat.cast_ne_zero.mpr hn.ne'
  rw [mul_div_mul_left _ _ hk', mul_div_mul_left _ _ hn'] at hLess
  exact lt_irrefl _ hLess

/-- The score of `k` quarters against `n`. -/
theorem totalScore_annual (q : Quarter) (hk : 0 < k) (hLe : k ≤ n) :
    (computePiotroski (q.annual k) (q.annual n)).totalScore =
      point (0 < amount q.netIncome / amount q.totalAssets) + point (0 < amount q.operatingCashflow) +
      point (amount q.netIncome < amount q.operatingCashflow) + point (0 < amount q.sharesOutstanding) +
      (point (k < n ∧ amount q.netIncome / amount q.totalAssets < 0) +
        point (k < n ∧ amount q.revenue / amount q.totalAssets < 0)) := by
  have hPositive : (0 : ℚ) < k := Nat.cast_pos.mpr hk
  rw [totalScore_eq]
  simp only [Quarter.annual, safe_number, safe_times, rises_flow_iff hLe]
  rw [point_of_false (not_rises_self _ _), point_of_false (not_rises_self _ _),
    point_of_false (not_rises_times _ _ hk (hk.trans_le hLe)), mul_div_assoc]
  simp only [mul_pos_iff_of_pos_left hPositive, mul_lt_mul_iff_right₀ hPositive, le_refl, true_and]
  omega

end Score

/-- The score does not show how many quarters are reported exactly when a year has one quarter, or
neither the net income nor the revenue is negative to the assets. -/
theorem likeWithLike_iff (S : QuarterSort) (x : Company) :
    LikeWithLike S x ↔ x.before.length ≤ 1 ∨
      0 ≤ amount x.figures.netIncome / amount x.figures.totalAssets ∧
        0 ≤ amount x.figures.revenue / amount x.figures.totalAssets := by
  have hScore : ∀ (reported : List Nat) (df : List ResultRow), reported ≠ [] →
      df.Perm (x.rows reported) →
        (screenTicker S df).map PiotroskiResult.totalScore =
          some (computePiotroski (x.figures.annual reported.length)
            (x.figures.annual x.before.length)).totalScore := by
    intro reported df hReported hRows
    rw [screenTicker_eq S hReported hRows]
    rfl
  constructor
  · intro h
    by_contra hNot
    rw [not_or, not_le] at hNot
    obtain ⟨hLong, hSigns⟩ := hNot
    -- one quarter, and all of them
    have hSame := h [0] x.before (x.rows [0]) (x.rows x.before) (by simp) (le_of_lt hLong)
      (List.Perm.refl _) x.before_ne le_rfl (List.Perm.refl _)
    rw [hScore _ _ (by simp) (List.Perm.refl _), hScore _ _ x.before_ne (List.Perm.refl _),
      Option.some.injEq, List.length_singleton, totalScore_annual _ one_pos (le_of_lt hLong),
      totalScore_annual _ (by omega) le_rfl] at hSame
    have hNow : ∀ y : ℚ, point (x.before.length < x.before.length ∧ y < 0) = 0 :=
      fun y => point_of_false fun hBoth => lt_irrefl _ hBoth.1
    rw [hNow, hNow] at hSame
    refine hSigns ⟨?_, ?_⟩
    · by_contra hNegative
      have hIncome := point_of_true (show 1 < x.before.length ∧
        amount x.figures.netIncome / amount x.figures.totalAssets < 0 from ⟨hLong, not_le.mp hNegative⟩)
      rw [hIncome] at hSame
      omega
    · by_contra hNegative
      have hRevenue := point_of_true (show 1 < x.before.length ∧
        amount x.figures.revenue / amount x.figures.totalAssets < 0 from ⟨hLong, not_le.mp hNegative⟩)
      rw [hRevenue] at hSame
      omega
  · intro h reported reported' df df' hReported hLe hRows hReported' hLe' hRows'
    rw [hScore _ _ hReported hRows, hScore _ _ hReported' hRows',
      totalScore_annual _ (List.length_pos_iff.mpr hReported) hLe,
      totalScore_annual _ (List.length_pos_iff.mpr hReported') hLe']
    have hNone : ∀ k : Nat, 0 < k → k ≤ x.before.length →
        point (k < x.before.length ∧
            amount x.figures.netIncome / amount x.figures.totalAssets < 0) = 0 ∧
          point (k < x.before.length ∧
            amount x.figures.revenue / amount x.figures.totalAssets < 0) = 0 := by
      intro k hk hkLe
      rcases h with hShort | ⟨hIncome, hRevenue⟩
      · exact ⟨point_of_false fun hBoth => by omega, point_of_false fun hBoth => by omega⟩
      · exact ⟨point_of_false fun hBoth => absurd hBoth.2 (not_lt_of_ge hIncome),
          point_of_false fun hBoth => absurd hBoth.2 (not_lt_of_ge hRevenue)⟩
    obtain ⟨hIncome, hRevenue⟩ := hNone _ (List.length_pos_iff.mpr hReported) hLe
    obtain ⟨hIncome', hRevenue'⟩ := hNone _ (List.length_pos_iff.mpr hReported') hLe'
    rw [hIncome, hRevenue, hIncome', hRevenue']

theorem stableSort_sorts : SortsUp ResultRow.quarterEnd
    (List.insertionSort fun a b => a.quarterEnd ≤ b.quarterEnd) := sortsUp_insertionSort _

def QuarterSort.stable : QuarterSort := ⟨_, stableSort_sorts⟩

theorem fourQuarters_ne : [91, 182, 273, 365] ≠ ([] : List Nat) := by decide

theorem noRows_lt : ∀ r ∈ ([] : List ResultRow), ∀ fy, r.fiscalYear = some fy → fy < (2025 : Int) - 1 := by
  simp

/-- The same loss in every quarter. -/
def lossMaker : Company where
  figures := ⟨some 50, some (-10), some 20, some 5, some 400, some 100, some 60, some 30, some 7⟩
  year := 2025
  before := [91, 182, 273, 365]
  before_ne := fourQuarters_ne
  earlier := []
  earlier_lt := noRows_lt

/-- One quarter of a loss looks better than four. -/
theorem lossMaker_improves : ¬LikeWithLike .stable lossMaker := by
  intro h
  have hSame := h [456] [456, 547, 638, 730] (lossMaker.rows [456])
    (lossMaker.rows [456, 547, 638, 730]) (by decide) (by decide) (List.Perm.refl _) (by decide)
    (by decide) (List.Perm.refl _)
  have hOne : (screenTicker .stable (lossMaker.rows [456])).map PiotroskiResult.totalScore = some 4 := by
    decide +kernel
  have hFour : (screenTicker .stable (lossMaker.rows [456, 547, 638, 730])).map
      PiotroskiResult.totalScore = some 3 := by decide +kernel
  rw [hOne, hFour] at hSame
  exact absurd hSame (by decide)

end AsetPlatform.Screening

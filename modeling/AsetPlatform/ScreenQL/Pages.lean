import AsetPlatform.ScreenQL.ScreenRuns
import AsetPlatform.ScreenQL.Statements

/-!
# The pages of a ScreenQL answer

A client reads the pages of a query until one is short. Each page is a statement of its own that
orders by one column only, so the engine may put rows with equal sort values in another order for
each page. `pages_readOnce_iff` is exactly when the pages give every matching ticker once, whatever
the engine does: no page may end between two rows with equal sort values.
-/

set_option autoImplicit false

namespace AsetPlatform.ScreenQL

open AsetPlatform.Library AsetPlatform.Library.Sql

/-! ## One row for each ticker -/

/-- `WHERE rn = 1`: the first row of each ticker. -/
def firstOfTicker : List Row → List Row
  | [] => []
  | r :: rs => r :: (firstOfTicker rs).filter fun r' => r' "ticker" ≠ r "ticker"

/-- The column by which `rn` numbers the rows of a ticker, the latest first. -/
def rankColumn (table : String) : String :=
  if table = "stocks.company_info" then "fetched_at"
  else if table = "stocks.analysis_summary" ∨ table = "stocks.forecast_runs" then "computed_at"
  else if table = "stocks.quarterly_results" then "quarter_end"
  else "score_date"

/-- The relation that the WITH clause defines from the rows of its inner SELECT. -/
def latestRows (table : String) (rows : List Row) : List Row :=
  firstOfTicker (rows.insertionSort fun r r' =>
    Direction.desc.precedes (r (rankColumn table)) (r' (rankColumn table)) = true)

theorem mem_firstOfTicker {rows : List Row} {r : Row} (h : r ∈ firstOfTicker rows) : r ∈ rows := by
  induction rows with
  | nil => exact h
  | cons r' rs ih =>
      rcases List.mem_cons.1 h with rfl | h
      · exact List.mem_cons_self
      · exact List.mem_cons_of_mem _ (ih (List.mem_of_mem_filter h))

theorem firstOfTicker_nodup (rows : List Row) :
    ((firstOfTicker rows).map (· "ticker")).Nodup := by
  induction rows with
  | nil => exact List.nodup_nil
  | cons r rs ih =>
      rw [firstOfTicker, List.map_cons, List.nodup_cons]
      constructor
      · intro hmem
        obtain ⟨r', hr', hsame⟩ := List.mem_map.1 hmem
        exact of_decide_eq_true (List.mem_filter.1 hr').2 hsame
      · exact ih.sublist (List.filter_sublist.map _)

/-- Sources whose relations have one row for each ticker, as those of the WITH clause do. -/
structure Snapshot where
  sources : Sources
  onePerTicker : ∀ table rows, sources.warehouse table = some rows →
    (rows.map (· "ticker")).Nodup
  textTickers : ∀ table rows, sources.warehouse table = some rows →
    ∀ r ∈ rows, ∀ x, r "ticker" ≠ some (.number x)

/-- The snapshot of tables given by the rows of the inner SELECTs. -/
def Snapshot.ofTables (src : Sources)
    (htext : ∀ table rows, src.warehouse table = some rows →
      ∀ r ∈ rows, ∀ x, r "ticker" ≠ some (.number x)) : Snapshot where
  sources := { src with warehouse := fun table => (src.warehouse table).map (latestRows table) }
  onePerTicker := by
    intro table rows hrows
    obtain ⟨all, -, rfl⟩ := Option.map_eq_some_iff.1 hrows
    exact firstOfTicker_nodup _
  textTickers := by
    intro table rows hrows r hr
    obtain ⟨all, hall, rfl⟩ := Option.map_eq_some_iff.1 hrows
    exact htext table all hall r ((List.mem_insertionSort _).1 (mem_firstOfTicker hr))

/-! ## The joined rows of a snapshot -/

section Joined

variable {db : Database Alias}

theorem cell_update {a : Alias} {j : Joined Alias} {r : Row} (c : Column Alias) :
    Joined.cell (Function.update j a (some r)) c =
      if c.table = a then r c.name else j.cell c := by
  by_cases h : c.table = a
  · rw [if_pos h]
    subst h
    show (Function.update j c.table (some r) c.table).bind _ = _
    rw [Function.update_self]
    rfl
  · rw [if_neg h]
    show (Function.update j a (some r) c.table).bind _ = _
    rw [Function.update_of_ne h]
    rfl

theorem length_le_one {α : Type} {xs : List α} (hnodup : xs.Nodup) {c : α}
    (hsame : ∀ x ∈ xs, x = c) : xs.length ≤ 1 := by
  cases xs with
  | nil => exact Nat.zero_le 1
  | cons x xs =>
      cases xs with
      | nil => exact Nat.le_refl 1
      | cons y ys =>
          have hx := hsame x List.mem_cons_self
          have hy := hsame y (List.mem_cons_of_mem x List.mem_cons_self)
          exact absurd (hx.trans hy.symm ▸ List.mem_cons_self) (List.nodup_cons.1 hnodup).1

/-- A row has at most one partner in a table with one row for each ticker, and keeps its ticker. -/
theorem partners_tickers {a : Alias} (hci : a ≠ .ci)
    (hone : ∀ rows, db a = some rows → (rows.map (· "ticker")).Nodup) (j : Joined Alias) :
    ((joinCi a).partners db j).length ≤ 1 ∧
      ∀ k ∈ (joinCi a).partners db j, tickerCell k = tickerCell j := by
  have hcells : ∀ r : Row,
      Joined.cell (Function.update j a (some r)) ⟨a, "ticker"⟩ = r "ticker" ∧
        tickerCell (Function.update j a (some r)) = tickerCell j := by
    intro r
    constructor
    · rw [cell_update, if_pos rfl]
    · rw [tickerCell, cell_update, if_neg hci.symm]
      rfl
  have hticker : ∀ k ∈ (joinCi a).partners db j, tickerCell k = tickerCell j := by
    intro k hk
    obtain ⟨r, -, rfl⟩ := List.mem_map.1 (List.mem_of_mem_filter hk)
    exact (hcells r).2
  refine ⟨?_, hticker⟩
  -- the partners have different tickers, and all have the ticker of the row
  have hsame : ∀ v ∈ ((joinCi a).partners db j).map (Joined.cell · ⟨a, "ticker"⟩),
      v = tickerCell j := by
    intro v hv
    obtain ⟨k, hk, rfl⟩ := List.mem_map.1 hv
    have heq := of_decide_eq_true (List.mem_filter.1 hk).2
    obtain ⟨x, y, hx, hy, hxy⟩ := Comparison.holds3_eq_true.1 heq
    rw [← hticker k hk]
    exact hx.trans ((congrArg some (of_decide_eq_true hxy)).trans hy.symm)
  -- their tickers are among those of the table, where each stands once
  have hnodup : (((joinCi a).partners db j).map (Joined.cell · ⟨a, "ticker"⟩)).Nodup := by
    apply List.Nodup.sublist (List.filter_sublist.map _)
    rw [List.map_map]
    have hmap : ((db a).getD []).map ((Joined.cell · ⟨a, "ticker"⟩) ∘
        fun r => Function.update j a (some r)) = ((db a).getD []).map (· "ticker") := by
      apply List.map_congr_left
      intro r _
      exact (hcells r).1
    refine hmap ▸ ?_
    cases hrows : db a with
    | none => exact List.nodup_nil
    | some rows => exact hone rows hrows
  rw [← List.length_map (f := (Joined.cell · ⟨a, "ticker"⟩))]
  exact length_le_one hnodup hsame

/-- Joining a table with one row for each ticker adds no row. -/
theorem leftJoin_tickers {a : Alias} (hci : a ≠ .ci)
    (hone : ∀ rows, db a = some rows → (rows.map (· "ticker")).Nodup)
    (rows : List (Joined Alias)) :
    (leftJoin db rows (joinCi a)).map tickerCell = rows.map tickerCell := by
  induction rows with
  | nil => rfl
  | cons j rows ih =>
      obtain ⟨hlen, hticker⟩ := partners_tickers hci hone j
      rw [List.map_cons, ← ih]
      cases hpartners : (joinCi a).partners db j with
      | nil => simp only [leftJoin, List.flatMap_cons, hpartners, List.singleton_append, List.map_cons]
      | cons k ks =>
          rw [hpartners] at hlen hticker
          have hks : ks = [] := List.eq_nil_of_length_eq_zero (by
            rw [List.length_cons] at hlen
            omega)
          simp only [leftJoin, List.flatMap_cons, hpartners, hks, List.singleton_append,
            List.map_cons, hticker k List.mem_cons_self]

theorem joinedRows_tickers (hone : ∀ a rows, db a = some rows → (rows.map (· "ticker")).Nodup)
    (tables : List Alias) :
    (joinedRows db tables).map tickerCell = ((db .ci).getD []).map (· "ticker") := by
  have hfold : ∀ (as : List Alias) (rows : List (Joined Alias)), (∀ a ∈ as, a ≠ .ci) →
      (((as.map joinCi).foldl (leftJoin db) rows).map tickerCell) = rows.map tickerCell := by
    intro as
    induction as with
    | nil => exact fun _ _ => rfl
    | cons a as ih =>
        intro rows has
        rw [List.map_cons, List.foldl_cons, ih _ fun b hb => has b (List.mem_cons_of_mem a hb)]
        exact leftJoin_tickers (has a List.mem_cons_self) (hone a) rows
  rw [joinedRows, hfold]
  · rw [single, List.map_map]
    apply List.map_congr_left
    intro r _
    show Joined.cell (Function.update (fun _ => none) Alias.ci (some r)) ⟨.ci, "ticker"⟩ = _
    rw [cell_update, if_pos rfl]
  · intro a ha
    have hmem := List.mem_of_mem_filter ha
    rintro rfl
    exact absurd hmem (by decide)

end Joined

/-! ## Pages of one query -/

/-- The request for a page, the first being page 0. -/
def ScreenQLRequest.atPage (req : ScreenQLRequest) (k : Nat) : ScreenQLRequest :=
  { req with page := k + 1, page_pos := Nat.succ_pos k }

section Pages

variable (T : CharTables) (floatText : ℚ → String) (S : Snapshot) (user : UserContext)
  (req : ScreenQLRequest)

/-- The arguments of the statements for a page. -/
def pageArgs (k : Nat) : SqlArgs :=
  sqlArgs (scopedTickers T S.sources user .discovery) (req.atPage k)

def pageRows (engine : Engine Alias) (k : Nat) : List Record :=
  match computeScreen engine T floatText S.sources user (req.atPage k) with
  | .ok resp => resp.rows
  | _ => []

def queryRows (ast : ASTNode) : List (Joined Alias) :=
  askedRows ast (pageArgs T S user req 0)
    ((generateSql ast (pageArgs T S user req 0)).database S.sources)

/-- Reading the pages until one is short gives every matching ticker exactly once. -/
def ReadsOnce (engine : Engine Alias) (ast : ASTNode) : Prop :=
  ∃ rows, Collects (pageRows T floatText S user req engine) req.pageSize rows ∧
    (rows.map (·.lookup "ticker")).Nodup ∧
    ∀ v, v ∈ rows.map (·.lookup "ticker") ↔
      ∃ j ∈ queryRows T S user req ast, v = some (tickerCell j)

/-- The sort values of the rows, in order. -/
def sortKeys (ast : ASTNode) : List (Option Value) :=
  ((queryRows T S user req ast).map (·.cell (orderColumn req.sortBy))).insertionSort fun x y =>
    (orderDirection req.sortDir).precedes x y = true

/-- The query has no rows, or its statements can be executed and no page ends between two rows with
equal sort values. -/
def PagesDetermined (ast : ASTNode) : Prop :=
  queryRows T S user req ast = [] ∨
    Answerable S.sources ast (pageArgs T S user req 0) ∧
      Untied req.pageSize (sortKeys T S user req ast)

variable {T} {S user req} {ast : ASTNode}

/-! ### The rows of a query -/

theorem database_eq_some {gen : GeneratedQuery} {a : Alias} {rows : List Row}
    (h : gen.database S.sources a = some rows) :
    ∃ table, S.sources.warehouse table = some rows := by
  simp only [GeneratedQuery.database, views] at h
  split at h
  · cases h
  · rename_i table _
    split at h
    · exact ⟨table, h⟩
    · cases h

theorem queryRows_tickers (ast : ASTNode) :
    ((queryRows T S user req ast).map tickerCell).Nodup ∧
      ∀ j ∈ queryRows T S user req ast, ∀ x, tickerCell j ≠ some (.number x) := by
  have hone : ∀ a rows, (generateSql ast (pageArgs T S user req 0)).database S.sources a =
      some rows → (rows.map (· "ticker")).Nodup := by
    intro a rows hrows
    obtain ⟨table, htable⟩ := database_eq_some hrows
    exact S.onePerTicker table rows htable
  have htickers := joinedRows_tickers hone (tablesUsed ast (pageArgs T S user req 0).displayColumns)
  constructor
  · apply List.Nodup.sublist (List.filter_sublist.map _)
    rw [htickers]
    cases hrows : (generateSql ast (pageArgs T S user req 0)).database S.sources .ci with
    | none => exact List.nodup_nil
    | some rows => exact hone .ci rows hrows
  -- a number as ticker would come from a company row
  · intro j hj x hnumber
    have hmem := List.mem_map_of_mem (f := tickerCell) (List.mem_of_mem_filter hj)
    rw [htickers] at hmem
    obtain ⟨r, hr, hticker⟩ := List.mem_map.1 hmem
    cases hrows : (generateSql ast (pageArgs T S user req 0)).database S.sources .ci with
    | none =>
        rw [hrows] at hr
        cases hr
    | some rows =>
        rw [hrows] at hr
        obtain ⟨table, htable⟩ := database_eq_some hrows
        exact S.textTickers table rows htable r hr x (hticker.trans hnumber)

/-! ### What a page shows -/

def shownRow (S : Snapshot) (ast : ASTNode) (o : SqlArgs) (j : Joined Alias) : Record :=
  patchCompanyName S.sources.stockMaster (sanitizeRow (Select.project (pageColumns ast o) j))

theorem pageRows_eq (hparse : parseQuery T req.query = .ok ast) (engine : Engine Alias) (k : Nat) :
    pageRows T floatText S user req engine k =
      ((executeQuery engine S.sources (generateSql ast (pageArgs T S user req k))).1.map
        sanitizeRow).map (patchCompanyName S.sources.stockMaster) := by
  simp only [pageRows, computeScreen, ScreenQLRequest.atPage, hparse]
  rfl

theorem pageRows_refused (hparse : parseQuery T req.query = .ok ast) (engine : Engine Alias)
    (h : ¬ Answerable S.sources ast (pageArgs T S user req 0)) (k : Nat) :
    pageRows T floatText S user req engine k = [] := by
  have hrefused := (executeQuery_refused engine S.sources ast (pageArgs T S user req k) h).1
  rw [pageRows_eq floatText hparse, hrefused]
  rfl

theorem window_eq_slice {α : Type} (o : SqlArgs) (rows : List α) :
    Select.window (generateSql ast o).sql (generateSql ast o).params rows =
      slice o.pageSize rows (o.page - 1) := by
  have hlimit := limit_param ast o
  have hoffset := offset_param ast o
  show (rows.drop (((placeholder (generateSql ast o).params
      ((scopedWhere ast o.tickerFilter).2.length + 2)).bind Value.toCount?).getD 0)).take
    (((placeholder (generateSql ast o).params
      ((scopedWhere ast o.tickerFilter).2.length + 1)).bind Value.toCount?).getD 0) = _
  rw [hlimit, hoffset, Option.bind_some, Option.bind_some, Value.toCount?_ofNat,
    Value.toCount?_ofNat]
  rfl

theorem shownRow_ticker (o : SqlArgs) {j : Joined Alias} (hj : j ∈ queryRows T S user req ast) :
    (shownRow S ast o j).lookup "ticker" = some (tickerCell j) := by
  -- the ticker is the first column, and cleaning changes numbers only
  have htext := (queryRows_tickers ast).2 j hj
  obtain ⟨rest, hproject⟩ : ∃ rest, Select.project (pageColumns ast o) j =
      ("ticker", tickerCell j) :: rest := ⟨_, rfl⟩
  obtain ⟨rest', hclean⟩ := sanitizeRow_ticker (tickerCell j) rest
  rw [shownRow, hproject, hclean, patchCompanyName_ticker]
  cases hcell : tickerCell j with
  | none => rfl
  | some v =>
      cases v with
      | number x => exact absurd hcell (htext x)
      | text s => rfl

theorem pageRows_of_execute (hparse : parseQuery T req.query = .ok ast) {engine : Engine Alias}
    (h : Answerable S.sources ast (pageArgs T S user req 0)) {k : Nat}
    {list : List (Joined Alias)}
    (hexec : engine.execute ((generateSql ast (pageArgs T S user req k)).database S.sources)
        (generateSql ast (pageArgs T S user req k)).sql
        (generateSql ast (pageArgs T S user req k)).params =
      some ((Select.window (generateSql ast (pageArgs T S user req k)).sql
        (generateSql ast (pageArgs T S user req k)).params list).map
          (Select.project (pageColumns ast (pageArgs T S user req 0))))) :
    pageRows T floatText S user req engine k =
      (slice req.pageSize list k).map (shownRow S ast (pageArgs T S user req 0)) := by
  have hrows := executeQuery_fst engine S.sources ast (pageArgs T S user req k)
    sqlArgs_filter_ne h hexec
  rw [pageRows_eq floatText hparse, hrows, window_eq_slice, List.map_map, List.map_map]
  rfl

/-- Each page is cut from a list of the rows asked for, in the order of the sort column. -/
theorem pageRows_answered (hparse : parseQuery T req.query = .ok ast) (engine : Engine Alias)
    (h : Answerable S.sources ast (pageArgs T S user req 0)) (k : Nat) :
    ∃ list : List (Joined Alias),
      (InOrder (·.cell (orderColumn req.sortBy)) (orderDirection req.sortDir).precedes list ∧
        list.Perm (queryRows T S user req ast)) ∧
      pageRows T floatText S user req engine k =
        (slice req.pageSize list k).map (shownRow S ast (pageArgs T S user req 0)) := by
  have hreadable : (generateSql ast (pageArgs T S user req k)).sql.condition.Readable :=
    scopedWhere_readable ast sqlArgs_filter_ne
  obtain ⟨rows, hexec, list, hperm, hordered, rfl⟩ := engine.answers _
    (generateSql ast (pageArgs T S user req k)).sql _ hreadable ((bound_iff S.sources ast _).2 h)
  refine ⟨list, ⟨hordered _ rfl, ?_⟩, pageRows_of_execute floatText hparse h hexec⟩
  rw [matching_sql, matching_countSql] at hperm
  exact hperm

/-! ### Reading all pages -/

/-- Rows in order have the sort values of the query, in order. -/
theorem sortKeys_eq {list : List (Joined Alias)}
    (horder : InOrder (·.cell (orderColumn req.sortBy)) (orderDirection req.sortDir).precedes list)
    (hperm : list.Perm (queryRows T S user req ast)) :
    list.map (·.cell (orderColumn req.sortBy)) = sortKeys T S user req ast := by
  -- both are the same values in the same order, and a list has one sorted form
  have hkeys : (list.map (·.cell (orderColumn req.sortBy))).Pairwise fun x y =>
      (orderDirection req.sortDir).precedes x y = true := List.pairwise_map.2 horder
  have hsorted : (sortKeys T S user req ast).Pairwise fun x y =>
      (orderDirection req.sortDir).precedes x y = true := by
    have htrans : IsTrans _ fun x y => (orderDirection req.sortDir).precedes x y = true :=
      ⟨Direction.precedes_trans _⟩
    have htotal : Std.Total fun x y => (orderDirection req.sortDir).precedes x y = true :=
      ⟨fun x y => Bool.or_eq_true_iff.1 (Direction.precedes_total _ x y)⟩
    exact List.pairwise_insertionSort _ _
  apply List.Perm.eq_of_pairwise (fun x y _ _ => Direction.precedes_antisymm _ x y) hkeys hsorted
  exact (hperm.map _).trans (List.perm_insertionSort _ _).symm

/-- Rows of the query that are read once show every ticker once. -/
theorem tickers_of_perm (o : SqlArgs) {list : List (Joined Alias)}
    (hperm : list.Perm (queryRows T S user req ast)) :
    ((list.map (shownRow S ast o)).map (·.lookup "ticker")).Nodup ∧
      ∀ v, v ∈ (list.map (shownRow S ast o)).map (·.lookup "ticker") ↔
        ∃ j ∈ queryRows T S user req ast, v = some (tickerCell j) := by
  have hlookup : (list.map (shownRow S ast o)).map (·.lookup "ticker") =
      (list.map tickerCell).map some := by
    rw [List.map_map, List.map_map]
    apply List.map_congr_left
    intro j hj
    exact shownRow_ticker o (hperm.mem_iff.1 hj)
  rw [hlookup]
  constructor
  · apply List.Nodup.map (Option.some_injective _)
    exact (hperm.map tickerCell).nodup_iff.2 (queryRows_tickers ast).1
  · intro v
    rw [List.map_map, List.mem_map]
    constructor
    · rintro ⟨j, hj, rfl⟩
      exact ⟨j, hperm.mem_iff.1 hj, rfl⟩
    · rintro ⟨j, hj, rfl⟩
      exact ⟨j, hperm.mem_iff.2 hj, rfl⟩

theorem readsOnce_of_determined (hparse : parseQuery T req.query = .ok ast)
    (h : PagesDetermined T S user req ast) (engine : Engine Alias) :
    ReadsOnce T floatText S user req engine ast := by
  have hsize := req.pageSize_range.1
  by_cases hanswer : Answerable S.sources ast (pageArgs T S user req 0)
  · have huntied : Untied req.pageSize (sortKeys T S user req ast) := by
      rcases h with hnone | h
      · -- no rows, no page ends
        intro k _ hlt
        rw [sortKeys, List.length_insertionSort, hnone] at hlt
        cases hlt
      · exact h.2
    -- the engine may order the rows of each page anew
    choose lists hlists hpages using
      fun k => pageRows_answered floatText hparse engine hanswer k
    have hkeys := sortKeys_eq (hlists 0).1 (hlists 0).2
    obtain ⟨collected, hcollects, hperm⟩ := collects_perm (orderDirection req.sortDir).precedes_antisymm
      (orderDirection req.sortDir).precedes_trans (orderDirection req.sortDir).precedes_refl hsize
      (hlists 0).1 (hkeys ▸ huntied)
      fun k => ⟨(hlists k).1, (hlists k).2.trans (hlists 0).2.symm⟩
    have hfinal := hcollects.map (shownRow S ast (pageArgs T S user req 0))
    rw [← funext hpages] at hfinal
    exact ⟨_, hfinal, tickers_of_perm _ (hperm.trans (hlists 0).2)⟩
  -- statements that are refused give empty pages, which is right only for an empty result
  · have hnone : queryRows T S user req ast = [] := h.resolve_right fun h => hanswer h.1
    have hempty := pageRows_refused floatText hparse engine hanswer
    refine ⟨[], ⟨0, ?_, ?_, ?_⟩, List.nodup_nil, ?_⟩
    · intro k hk
      cases hk
    · rw [hempty]
      exact hsize
    · simp [hempty]
    · intro v
      simp [hnone]

/-! ### An engine that exchanges tied rows -/

variable (T S user req) in
/-- The rows of the query as a stable sort by the sort column leaves them. -/
def sortedRows (ast : ASTNode) : List (Joined Alias) :=
  (queryRows T S user req ast).mergeSort fun i j =>
    (orderDirection req.sortDir).precedes (i.cell (orderColumn req.sortBy))
      (j.cell (orderColumn req.sortBy))

theorem sortedRows_keys (ast : ASTNode) :
    (sortedRows T S user req ast).map (·.cell (orderColumn req.sortBy)) =
      sortKeys T S user req ast := by
  apply sortKeys_eq _ (List.mergeSort_perm _ _)
  apply List.pairwise_mergeSort
  · exact fun a b c => Direction.precedes_trans _ _ _ _
  · exact fun a b => Direction.precedes_total _ _ _

/-- The statements of all pages sort the same rows. -/
theorem sorted_page (ast : ASTNode) (i : Nat) :
    (generateSql ast (pageArgs T S user req i)).sql.sorted
        ((generateSql ast (pageArgs T S user req i)).database S.sources)
        (generateSql ast (pageArgs T S user req i)).params =
      sortedRows T S user req ast := by
  have hmatching := (matching_sql ast (pageArgs T S user req i)
    ((generateSql ast (pageArgs T S user req i)).database S.sources)).trans
      (matching_countSql ast _ _)
  simp only [Select.sorted, hmatching]
  rfl

theorem offset_page (ast : ASTNode) (i : Nat) :
    (generateSql ast (pageArgs T S user req i)).sql.offset
      (generateSql ast (pageArgs T S user req i)).params = i * req.pageSize := by
  show ((placeholder (generateSql ast (pageArgs T S user req i)).params
    ((scopedWhere ast _).2.length + 2)).bind Value.toCount?).getD 0 = _
  rw [offset_param, Option.bind_some, Value.toCount?_ofNat]
  rfl

/-- Tied rows around the end of a page are exchanged for the pages after it. -/
theorem exchanged_page {k : Nat} (hk : 0 < k)
    (hlt : k * req.pageSize < (sortKeys T S user req ast).length)
    (htied : (sortKeys T S user req ast)[k * req.pageSize - 1]? =
      (sortKeys T S user req ast)[k * req.pageSize]?) (i : Nat) :
    (generateSql ast (pageArgs T S user req i)).sql.exchanged
        ((generateSql ast (pageArgs T S user req i)).database S.sources)
        (generateSql ast (pageArgs T S user req i)).params (k * req.pageSize) =
      if i < k then sortedRows T S user req ast
      else swapAt (k * req.pageSize) (sortedRows T S user req ast) := by
  have hsize := req.pageSize_range.1
  have hlength : k * req.pageSize < (sortedRows T S user req ast).length := by
    rw [← List.length_map (f := (·.cell (orderColumn req.sortBy))), sortedRows_keys]
    exact hlt
  have hdef : (generateSql ast (pageArgs T S user req i)).sql.exchanged
      ((generateSql ast (pageArgs T S user req i)).database S.sources)
      (generateSql ast (pageArgs T S user req i)).params (k * req.pageSize) =
        if k * req.pageSize ≤ i * req.pageSize ∧ 0 < k * req.pageSize ∧
            k * req.pageSize < (sortedRows T S user req ast).length ∧
            ((sortedRows T S user req ast).map
                (·.cell (orderColumn req.sortBy)))[k * req.pageSize - 1]? =
              ((sortedRows T S user req ast).map
                (·.cell (orderColumn req.sortBy)))[k * req.pageSize]? then
          swapAt (k * req.pageSize) (sortedRows T S user req ast)
        else sortedRows T S user req ast := by
    rw [← sorted_page ast i, ← offset_page ast i]
    rfl
  rw [hdef, sortedRows_keys]
  by_cases hik : i < k
  · have hbefore : ¬ k * req.pageSize ≤ i * req.pageSize :=
      fun h => Nat.not_le.2 hik (Nat.le_of_mul_le_mul_right h hsize)
    rw [if_pos hik, if_neg fun h => hbefore h.1]
  · have hlater : k * req.pageSize ≤ i * req.pageSize :=
      Nat.mul_le_mul_right _ (Nat.not_lt.1 hik)
    rw [if_neg hik, if_pos ⟨hlater, Nat.mul_pos hk hsize, hlength, htied⟩]

/-- The pages of that engine are cut from the sorted rows and from the exchanged ones. -/
theorem pageRows_exchanging (hparse : parseQuery T req.query = .ok ast)
    (hanswer : Answerable S.sources ast (pageArgs T S user req 0)) {k : Nat} (hk : 0 < k)
    (hlt : k * req.pageSize < (sortKeys T S user req ast).length)
    (htied : (sortKeys T S user req ast)[k * req.pageSize - 1]? =
      (sortKeys T S user req ast)[k * req.pageSize]?) (i : Nat) :
    pageRows T floatText S user req (.exchanging (k * req.pageSize)) i =
      (slice req.pageSize
        (if i < k then sortedRows T S user req ast
          else swapAt (k * req.pageSize) (sortedRows T S user req ast)) i).map
        (shownRow S ast (pageArgs T S user req 0)) := by
  apply pageRows_of_execute floatText hparse hanswer
  rw [← exchanged_page hk hlt htied i]
  exact if_pos ((bound_iff S.sources ast (pageArgs T S user req i)).2 hanswer)

/-- An engine that exchanges two tied rows around the end of a page shows one of them twice. -/
theorem not_readsOnce_of_tied (hparse : parseQuery T req.query = .ok ast)
    (hanswer : Answerable S.sources ast (pageArgs T S user req 0)) {k : Nat} (hk : 0 < k)
    (hlt : k * req.pageSize < (sortKeys T S user req ast).length)
    (htied : (sortKeys T S user req ast)[k * req.pageSize - 1]? =
      (sortKeys T S user req ast)[k * req.pageSize]?) :
    ¬ ReadsOnce T floatText S user req (.exchanging (k * req.pageSize)) ast := by
  have hlength : k * req.pageSize < (sortedRows T S user req ast).length := by
    rw [← List.length_map (f := (·.cell (orderColumn req.sortBy))), sortedRows_keys]
    exact hlt
  rintro ⟨rows, hcollects, hnodup, -⟩
  -- what the pages collect is determined, and it has one ticker twice
  obtain ⟨collected, hslices, hrepeats⟩ := collects_repeats
    (fun j => (shownRow S ast (pageArgs T S user req 0) j).lookup "ticker")
    req.pageSize_range.1 hk hlength
  have hshown := hslices.map (shownRow S ast (pageArgs T S user req 0))
  rw [← funext (pageRows_exchanging floatText hparse hanswer hk hlt htied)] at hshown
  rw [hcollects.unique hshown, List.map_map] at hnodup
  exact hrepeats hnodup

/-- Whatever the engine does with tied rows, the pages show every matching ticker once exactly when
no page ends between two rows with equal sort values, or there are no rows. -/
theorem pages_readOnce_iff (hparse : parseQuery T req.query = .ok ast) :
    (∀ engine, ReadsOnce T floatText S user req engine ast) ↔ PagesDetermined T S user req ast := by
  constructor
  · intro hall
    by_cases hanswer : Answerable S.sources ast (pageArgs T S user req 0)
    · refine Or.inr ⟨hanswer, ?_⟩
      intro k hk hlt htied
      exact not_readsOnce_of_tied floatText hparse hanswer hk hlt htied (hall _)
    · -- without statements to execute every page is empty
      apply Or.inl
      obtain ⟨rows, ⟨m, -, -, hrows⟩, -, hmem⟩ := hall .stable
      have hempty : rows = [] := by
        rw [hrows, List.flatMap_eq_nil_iff]
        intro k _
        exact pageRows_refused floatText hparse _ hanswer k
      apply List.eq_nil_iff_forall_not_mem.2
      intro j hj
      have hshown := (hmem (some (tickerCell j))).2 ⟨j, hj, rfl⟩
      rw [hempty] at hshown
      cases hshown
  · intro h engine
    exact readsOnce_of_determined floatText hparse h engine

end Pages

/-! ## Two companies on two pages -/

section Example

/-- A company with a P/E ratio below 15. -/
def cheapCompany (ticker : String) (cap : ℚ) : Row := fun column =>
  if column = "ticker" then some (.text ticker)
  else if column = "pe_ratio" then some (.number ((10 : ℚ) : WithTop ℚ))
  else if column = "market_cap" then some (.number (cap : WithTop ℚ))
  else none

def twoCompanies (cap cap' : ℚ) : Sources where
  registry := .empty
  watchlist _ := ["INFY.NS", "TCS.NS"]
  holdings _ := []
  warehouse table :=
    if table = "stocks.company_info" then
      some [cheapCompany "INFY.NS" cap, cheapCompany "TCS.NS" cap']
    else none
  stockMaster := none

def twoCompaniesSnapshot (cap cap' : ℚ) : Snapshot :=
  .ofTables (twoCompanies cap cap') (by
    intro table rows hrows r hr x
    simp only [twoCompanies] at hrows
    split at hrows
    · cases hrows
      rcases List.mem_cons.1 hr with rfl | hr
      · simp [cheapCompany]
      · rw [List.mem_singleton.1 hr]
        simp [cheapCompany]
    · cases hrows)

/-- The cheap companies, one on a page. -/
def onePerPage : ScreenQLRequest :=
  { cheapStocks with pageSize := 1, pageSize_range := by decide }

theorem onePerPage_parses : parseQuery .ascii onePerPage.query = .ok (.condition cheapCondition) := by
  decide +kernel

theorem onePerPage_answerable (cap cap' : ℚ) :
    Answerable (twoCompaniesSnapshot cap cap').sources (.condition cheapCondition)
      (pageArgs .ascii (twoCompaniesSnapshot cap cap') generalUser onePerPage 0) := by
  constructor
  · exact ci_mem_tablesUsed _ _
  · intro t ht
    have hci : t = .ci := by
      rcases List.mem_append.1 ht with h | h
      · rcases List.mem_append.1 h with h | h
        · exact List.mem_singleton.1 h
        · exact List.mem_singleton.1 h
      · cases h
    rw [hci]
    exact ⟨"stocks.company_info", rfl, rfl⟩

/-- Two companies with the same market cap: the engine may show one of them on both pages. -/
theorem tiedCompanies_not_readOnce :
    parseQuery .ascii onePerPage.query = .ok (.condition cheapCondition) ∧
      ¬ ReadsOnce .ascii (fun _ => "") (twoCompaniesSnapshot 100 100) generalUser onePerPage
        (.exchanging 1) (.condition cheapCondition) := by
  refine ⟨onePerPage_parses, ?_⟩
  have hkeys : sortKeys .ascii (twoCompaniesSnapshot 100 100) generalUser onePerPage
      (.condition cheapCondition) =
        [some (.number ((100 : ℚ) : WithTop ℚ)), some (.number ((100 : ℚ) : WithTop ℚ))] := by
    decide +kernel
  apply not_readsOnce_of_tied (k := 1) _ onePerPage_parses (onePerPage_answerable 100 100)
  · decide
  · rw [hkeys]
    decide
  · rw [hkeys]
    rfl

theorem rankedCompanies_readOnce :
    parseQuery .ascii onePerPage.query = .ok (.condition cheapCondition) ∧
      ∀ engine, ReadsOnce .ascii (fun _ => "") (twoCompaniesSnapshot 100 200) generalUser onePerPage
        engine (.condition cheapCondition) := by
  refine ⟨onePerPage_parses, ?_⟩
  have hkeys : sortKeys .ascii (twoCompaniesSnapshot 100 200) generalUser onePerPage
      (.condition cheapCondition) =
        [some (.number ((200 : ℚ) : WithTop ℚ)), some (.number ((100 : ℚ) : WithTop ℚ))] := by
    decide +kernel
  apply (pages_readOnce_iff _ onePerPage_parses).2
  refine Or.inr ⟨onePerPage_answerable 100 200, ?_⟩
  -- the only page that ends between two rows is the first
  intro k hk hlt
  rw [hkeys] at hlt ⊢
  obtain rfl : k = 1 := by
    have : k * 1 < 2 := hlt
    omega
  decide +kernel

end Example

end AsetPlatform.ScreenQL

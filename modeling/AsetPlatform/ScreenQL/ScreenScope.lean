import AsetPlatform.ScreenQL.Screener

/-!
# What a ScreenQL answer shows of the universe

The route hands the user's tickers to the generator as a filter, but an empty list as no filter at
all, so that a user without tickers is answered from the whole universe. `computed_within_iff` is
exactly when a computed answer stays within the user's tickers.
-/

set_option autoImplicit false

namespace AsetPlatform.ScreenQL

open AsetPlatform.Library AsetPlatform.Library.Sql

/-! ## The tickers of a user -/

section Tickers

variable (T : CharTables)

theorem dedupFrom_nil_eq_nil_iff {ts : List String} : dedupFrom T [] ts = [] ↔ ts = [] := by
  cases ts with
  | nil => exact Iff.rfl
  | cons t ts => simp [dedupFrom]

/-- The user has tickers: some on the watchlist, some held, or those of the universe. -/
def HasTickers (src : Sources) (user : UserContext) : Prop :=
  src.watchlist user.userId ≠ [] ∨ src.holdings user.userId ≠ [] ∨
    user.role ∈ discoveryRoles ∧ fullUniverse src ≠ []

theorem portfolioTickers_eq_nil_iff (src : Sources) (userId : List Char) :
    portfolioTickers src userId = [] ↔ src.holdings userId = [] := by
  simp only [List.eq_nil_iff_forall_not_mem, portfolioTickers, List.mem_eraseDups]

theorem scopedTickers_ne_nil_iff {src : Sources} {user : UserContext} :
    scopedTickers T src user .discovery ≠ [] ↔ HasTickers src user := by
  have hportfolio := portfolioTickers_eq_nil_iff src user.userId
  simp only [scopedTickers, HasTickers]
  split
  · rename_i hrole
    rw [Ne, dedup, dedupFrom_nil_eq_nil_iff]
    simp only [List.flatten_cons, List.flatten_nil, List.append_nil, List.append_eq_nil_iff,
      hportfolio, hrole, true_and]
    tauto
  · rename_i hrole
    rw [Ne, dedup, dedupFrom_nil_eq_nil_iff]
    simp only [List.flatten_cons, List.flatten_nil, List.append_nil, List.append_eq_nil_iff,
      hportfolio, hrole, false_and, or_false]
    tauto

end Tickers

/-! ## What the statements range over -/

/-- The companies of the warehouse, each with its rows in the other tables of the query. -/
def joinedRows (db : Database Alias) (tables : List Alias) : List (Joined Alias) :=
  (([Alias.as_, .ps, .fr, .ss, .qr].filter (· ∈ tables)).map joinCi).foldl (leftJoin db)
    (single db .ci)

/-- The ticker of a row, as the filter reads it. -/
def tickerCell (j : Joined Alias) : Option Value := j.cell ⟨.ci, "ticker"⟩

section Statements

variable (ast : ASTNode) (o : SqlArgs) (db : Database Alias)

/-- The WHERE clause is true of the rows the query asks for whose ticker passes the filter. -/
theorem eval_scopedWhere (j : Joined Alias) (more : List Value) :
    (scopedWhere ast o.tickerFilter).1.eval db ((scopedWhere ast o.tickerFilter).2 ++ more) j =
        some true ↔
      ast.holds j = true ∧
        ∀ tickers ∈ o.tickerFilter, ∃ t ∈ tickers, tickerCell j = some (.text t) := by
  cases o.tickerFilter with
  | none =>
      rw [eval_scopedWhere_none]
      simp
  | some tickers =>
      rw [eval_scopedWhere_some]
      simp [tickerCell]

theorem mem_matching_countSql {j : Joined Alias} :
    j ∈ (generateSql ast o).countSql.matching db (generateSql ast o).countParams ↔
      j ∈ joinedRows db (tablesUsed ast o.displayColumns) ∧ ast.holds j = true ∧
        ∀ tickers ∈ o.tickerFilter, ∃ t ∈ tickers, tickerCell j = some (.text t) := by
  have heval := eval_scopedWhere ast o db j []
  rw [List.append_nil] at heval
  rw [Select.mem_matching, countParams_generateSql]
  exact and_congr_right fun _ => heval

theorem matching_sql :
    (generateSql ast o).sql.matching db (generateSql ast o).params =
      (generateSql ast o).countSql.matching db (generateSql ast o).countParams := by
  apply List.filter_congr
  intro j _
  have hpage := eval_scopedWhere ast o db j
    [.ofNat o.pageSize, .ofNat ((o.page - 1) * o.pageSize)]
  have hcount := eval_scopedWhere ast o db j []
  rw [List.append_nil, ← countParams_generateSql] at hcount
  exact decide_eq_decide.2 (hpage.trans hcount.symm)

end Statements

/-! ## Executing a query -/

/-- The engine can execute the statements of a query: its tables exist, and the sort column is in
one of them. -/
def Answerable (src : Sources) (ast : ASTNode) (o : SqlArgs) : Prop :=
  (orderColumn o.sortBy).table ∈ tablesUsed ast o.displayColumns ∧
    ∀ t ∈ tablesUsed ast o.displayColumns, ∃ table, aliasToIceberg t = some table ∧
      (src.warehouse table).isSome = true

section Execute

variable (engine : Engine Alias) (src : Sources) (ast : ASTNode) (o : SqlArgs)

theorem views_isSome_iff :
    (∀ t ∈ tablesUsed ast o.displayColumns,
        ((generateSql ast o).database src t).isSome = true) ↔
      ∀ t ∈ tablesUsed ast o.displayColumns, ∃ table, aliasToIceberg t = some table ∧
        (src.warehouse table).isSome = true := by
  apply forall₂_congr
  intro t ht
  simp only [GeneratedQuery.database, views]
  cases htable : aliasToIceberg t with
  | none => simp
  | some table =>
      have hmem : table ∈ (generateSql ast o).tablesUsed.filterMap aliasToIceberg :=
        List.mem_filterMap.2 ⟨t, ht, htable⟩
      simp [hmem]

theorem bound_iff :
    (generateSql ast o).sql.Bound ((generateSql ast o).database src)
      (generateSql ast o).params ↔ Answerable src ast o := by
  rw [generateSql_bound, views_isSome_iff]
  rfl

/-- Both statements are answered. -/
def executes : Bool :=
  (engine.execute ((generateSql ast o).database src) (generateSql ast o).sql
      (generateSql ast o).params).isSome &&
    (engine.execute ((generateSql ast o).database src) (generateSql ast o).countSql
      (generateSql ast o).countParams).isSome

theorem totalOf_count (n : Nat) : totalOf [[("cnt", some (.ofNat n))]] = some n :=
  Value.toCount?_ofNat n

theorem executeQuery_refused (h : ¬ Answerable src ast o) :
    executeQuery engine src (generateSql ast o) = ([], 0) ∧ executes engine src ast o = false := by
  have hnone := engine.refuses _ _ _ (mt (bound_iff src ast o).1 h)
  constructor
  · simp only [executeQuery, hnone]
    rfl
  · simp only [executes, hnone]
    rfl

/-- The answered query: rows for which the WHERE clause is true, and their number as the total. -/
theorem executeQuery_answered (hfilter : o.tickerFilter ≠ some []) (h : Answerable src ast o) :
    executes engine src ast o = true ∧
      ∃ rows, executeQuery engine src (generateSql ast o) =
          (rows, ((generateSql ast o).countSql.matching ((generateSql ast o).database src)
            (generateSql ast o).countParams).length) ∧
        ∀ r ∈ rows, ∃ j ∈ (generateSql ast o).countSql.matching
            ((generateSql ast o).database src) (generateSql ast o).countParams,
          ∃ rest, r = ("ticker", tickerCell j) :: rest := by
  have hreadable := scopedWhere_readable ast hfilter
  have hexist := (views_isSome_iff src ast o).2 h.2
  obtain ⟨rows, hrows, hpage⟩ := engine.answers _ (generateSql ast o).sql _ hreadable
    ((bound_iff src ast o).2 h)
  obtain ⟨counts, hcounts, hcount⟩ := engine.answers _ (generateSql ast o).countSql _ hreadable
    ((generateSql_countBound ast o _).2 hexist)
  have htotal := hcount.of_count rfl
  constructor
  · simp only [executes, hrows, hcounts]
    rfl
  · refine ⟨rows, ?_, ?_⟩
    · simp only [executeQuery, hrows, hcounts, htotal, Option.bind_eq_bind, Option.bind_some,
        totalOf_count]
      rfl
    · intro r hr
      obtain ⟨j, hj, rfl⟩ := hpage.of_columns rfl hr
      rw [matching_sql] at hj
      exact ⟨j, hj, _, rfl⟩

/-- The rows of an answered query are those of the page statement. -/
theorem executeQuery_fst (hfilter : o.tickerFilter ≠ some []) (h : Answerable src ast o)
    {rows : List Record}
    (hrows : engine.execute ((generateSql ast o).database src) (generateSql ast o).sql
      (generateSql ast o).params = some rows) :
    (executeQuery engine src (generateSql ast o)).1 = rows := by
  obtain ⟨counts, hcounts, hcount⟩ := engine.answers _ (generateSql ast o).countSql _
    (scopedWhere_readable ast hfilter)
    ((generateSql_countBound ast o _).2 ((views_isSome_iff src ast o).2 h.2))
  simp only [executeQuery, hrows, hcounts, hcount.of_count rfl, Option.bind_eq_bind,
    Option.bind_some, totalOf_count]
  rfl

theorem sqlArgs_filter_ne {tickers : List String} {req : ScreenQLRequest} :
    (sqlArgs tickers req).tickerFilter ≠ some [] := by
  simp only [sqlArgs]
  split
  · exact fun h => by cases h
  · rename_i h
    exact fun hnil => h (Option.some.inj hnil)

end Execute

/-! ## Cleaning keeps the ticker -/

theorem sanitizeRow_ticker (v : Option Value) (rest : Record) :
    ∃ rest', sanitizeRow (("ticker", v) :: rest) = ("ticker", sanitizeValue v) :: rest' :=
  ⟨_, rfl⟩

theorem patchCompanyName_ticker (names : Option (String → Option (Option String)))
    (v : Option Value) (rest : Record) :
    (patchCompanyName names (("ticker", v) :: rest)).lookup "ticker" = some v := by
  simp only [patchCompanyName]
  split
  · split
    · split
      · rfl
      · split <;> rfl
    · rfl
  · rfl

/-! ## Answers within the scope of the user -/

section Answers

variable (P : Platform)

/-- The statements' arguments for a request of a user. -/
def requestArgs (src : Sources) (user : UserContext) (req : ScreenQLRequest) : SqlArgs :=
  sqlArgs (scopedTickers P.chars src user .discovery) req

/-- The tickers of the rows that the total of a computed answer counts. -/
def countedTickers (src : Sources) (user : UserContext) (req : ScreenQLRequest) :
    List (Option Value) :=
  match parseQuery P.chars req.query with
  | .error _ => []
  | .ok ast =>
      let gen := generateSql ast (requestArgs P src user req)
      if executes P.engine src ast (requestArgs P src user req) then
        (gen.countSql.matching (gen.database src) gen.countParams).map tickerCell
      else []

/-- The cell is one of the tickers that `_scoped_tickers` lists for the user. -/
def InScope (src : Sources) (user : UserContext) (v : Option Value) : Prop :=
  ∃ t ∈ scopedTickers P.chars src user .discovery, v = some (.text t)

/-- Every row of the answer, and every row its total counts, is of a ticker of the user. -/
structure WithinScope (src : Sources) (user : UserContext) (req : ScreenQLRequest)
    (resp : ScreenQLResponse) : Prop where
  rows : ∀ r ∈ resp.rows, ∃ v, r.lookup "ticker" = some v ∧ InScope P src user v
  total : resp.total = (countedTickers P src user req).length
  counted : ∀ v ∈ countedTickers P src user req, InScope P src user v

/-- The user has tickers, or there is nothing to show: the query is no query, its statements cannot
be executed, or no company satisfies it. -/
def ScopeApplies (src : Sources) (user : UserContext) (req : ScreenQLRequest) : Prop :=
  HasTickers src user ∨
    ∀ ast, parseQuery P.chars req.query = .ok ast →
      Answerable src ast (requestArgs P src user req) →
      ∀ j ∈ joinedRows ((generateSql ast (requestArgs P src user req)).database src)
        (tablesUsed ast req.displayColumns), ast.holds j = false

variable {P} {src : Sources} {user : UserContext} {req : ScreenQLRequest}

theorem requestArgs_filter_ne : (requestArgs P src user req).tickerFilter ≠ some [] :=
  sqlArgs_filter_ne

theorem requestArgs_filter (h : HasTickers src user) :
    (requestArgs P src user req).tickerFilter =
      some (scopedTickers P.chars src user .discovery) :=
  if_neg ((scopedTickers_ne_nil_iff P.chars).2 h)

theorem requestArgs_filter_none (h : ¬ HasTickers src user) :
    (requestArgs P src user req).tickerFilter = none :=
  if_pos (not_not.1 (mt (scopedTickers_ne_nil_iff P.chars).1 h))

theorem not_inScope_of_not_hasTickers (h : ¬ HasTickers src user) (v : Option Value) :
    ¬ InScope P src user v := by
  rintro ⟨t, ht, -⟩
  exact h ((scopedTickers_ne_nil_iff P.chars).1 (List.ne_nil_of_mem ht))

/-- What an answered query reports. -/
theorem withinScope_of_matching {ast : ASTNode} (hparse : parseQuery P.chars req.query = .ok ast)
    (hanswer : Answerable src ast (requestArgs P src user req))
    (hmatch : ∀ j ∈ (generateSql ast (requestArgs P src user req)).countSql.matching
      ((generateSql ast (requestArgs P src user req)).database src)
      (generateSql ast (requestArgs P src user req)).countParams,
        InScope P src user (tickerCell j)) {resp : ScreenQLResponse}
    (hok : computeScreen P.engine P.chars P.floatText src user req = .ok resp) :
    WithinScope P src user req resp := by
  obtain ⟨hexec, rows, hrun, hrows⟩ := executeQuery_answered P.engine src ast
    (requestArgs P src user req) requestArgs_filter_ne hanswer
  simp only [computeScreen, hparse, Outcome.ok.injEq] at hok
  subst hok
  have hcounted : countedTickers P src user req =
      ((generateSql ast (requestArgs P src user req)).countSql.matching
        ((generateSql ast (requestArgs P src user req)).database src)
        (generateSql ast (requestArgs P src user req)).countParams).map tickerCell := by
    simp only [countedTickers, hparse, hexec, if_true]
  constructor
  · intro r hr
    rw [List.map_map, List.mem_map] at hr
    obtain ⟨raw, hraw, rfl⟩ := hr
    rw [show executeQuery P.engine src (generateSql ast (sqlArgs _ req)) = _ from hrun] at hraw
    obtain ⟨j, hj, rest, rfl⟩ := hrows raw hraw
    obtain ⟨t, ht, hcell⟩ := hmatch j hj
    obtain ⟨rest', hclean⟩ := sanitizeRow_ticker (tickerCell j) rest
    refine ⟨sanitizeValue (tickerCell j), ?_, t, ht, ?_⟩
    · rw [Function.comp_apply, hclean]
      exact patchCompanyName_ticker src.stockMaster _ rest'
    · rw [hcell]
      rfl
  · show (executeQuery P.engine src (generateSql ast (requestArgs P src user req))).2 = _
    rw [hrun, hcounted, List.length_map]
  · rw [hcounted]
    intro v hv
    obtain ⟨j, hj, rfl⟩ := List.mem_map.1 hv
    exact hmatch j hj

/-- An answer without rows shows nothing. -/
theorem withinScope_of_refused {ast : ASTNode} (hparse : parseQuery P.chars req.query = .ok ast)
    (hanswer : ¬ Answerable src ast (requestArgs P src user req)) {resp : ScreenQLResponse}
    (hok : computeScreen P.engine P.chars P.floatText src user req = .ok resp) :
    WithinScope P src user req resp := by
  obtain ⟨hrun, hexec⟩ := executeQuery_refused P.engine src ast (requestArgs P src user req) hanswer
  simp only [computeScreen, hparse, Outcome.ok.injEq] at hok
  rw [show executeQuery P.engine src (generateSql ast (sqlArgs _ req)) = _ from hrun] at hok
  subst hok
  have hcounted : countedTickers P src user req = [] := by
    simp only [countedTickers, hparse, hexec]
    rfl
  constructor
  · intro r hr
    cases hr
  · rw [hcounted]
    rfl
  · rw [hcounted]
    intro v hv
    cases hv

/-- A computed answer stays within the user's tickers exactly when the scope applies. -/
theorem computed_within_iff :
    (∀ resp, computeScreen P.engine P.chars P.floatText src user req = .ok resp →
        WithinScope P src user req resp) ↔ ScopeApplies P src user req := by
  constructor
  · intro hwithin
    by_cases hscope : HasTickers src user
    · exact Or.inl hscope
    · refine Or.inr fun ast hparse hanswer j hj => ?_
      -- a company that satisfies the query would be counted, and no ticker is in scope
      apply Bool.eq_false_iff.2
      intro hholds
      obtain ⟨hexec, -⟩ := executeQuery_answered P.engine src ast (requestArgs P src user req)
        requestArgs_filter_ne hanswer
      have hcounted : tickerCell j ∈ countedTickers P src user req := by
        simp only [countedTickers, hparse, hexec, if_true]
        apply List.mem_map_of_mem
        rw [mem_matching_countSql, requestArgs_filter_none hscope]
        exact ⟨hj, hholds, fun _ h => by cases h⟩
      have hok := computeScreen.eq_def P.engine P.chars P.floatText src user req
      rw [hparse] at hok
      exact not_inScope_of_not_hasTickers hscope _ ((hwithin _ hok).counted _ hcounted)
  · intro happlies resp hok
    cases hparse : parseQuery P.chars req.query with
    | error stop =>
        simp only [computeScreen, hparse] at hok
        cases stop <;> cases hok
    | ok ast =>
        by_cases hanswer : Answerable src ast (requestArgs P src user req)
        · apply withinScope_of_matching hparse hanswer _ hok
          intro j hj
          obtain ⟨hjoined, hholds, hfilter⟩ := (mem_matching_countSql ast _ _).1 hj
          rcases happlies with hscope | hnone
          · obtain ⟨t, ht, hcell⟩ := hfilter _ (requestArgs_filter hscope)
            exact ⟨t, ht, hcell⟩
          · rw [hnone ast hparse hanswer j hjoined] at hholds
            cases hholds
        · exact withinScope_of_refused hparse hanswer hok

end Answers

end AsetPlatform.ScreenQL

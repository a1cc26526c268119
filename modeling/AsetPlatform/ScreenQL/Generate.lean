import Mathlib.Data.List.Range
import AsetPlatform.ScreenQL.Parser

/-!
# The ScreenQL SQL generator

`generateSql` builds the page statement and the count statement of a tree. The source writes their
texts piece by piece; here they are trees whose text is `GeneratedQuery.sqlText`, and
`generateSql_readable` says that the grammar of SQL reads the condition of the text back as the
tree.

The condition means what the query says (`eval_buildWhere`): a condition on a missing value is
false. The placeholders are numbered by the order in which the recursion appends the parameters
(`placeholders_buildWhere`), and `generateSql_bound` is exactly when an engine can bind the two
statements: the table of the sort column has to be among those the query or the display columns
bring in.
-/

set_option autoImplicit false

namespace AsetPlatform.ScreenQL

open AsetPlatform.Library AsetPlatform.Library.Sql

/-- `_CTE_TEMPLATES`. -/
def cteTemplate : Alias → Option String
  | .ci => some (
      "ci_raw AS (\n  SELECT *,\n    CASE\n      WHEN exchange IN ('NSI', 'BSE')\n" ++
      "        THEN 'india'\n      WHEN exchange IS NOT NULL\n        AND exchange != ''\n" ++
      "        THEN 'us'\n      WHEN ticker LIKE '%.NS'\n        OR ticker LIKE '%.BO'\n" ++
      "        THEN 'india'\n      WHEN ticker IN (\n" ++
      "        '^NSEI', '^BSESN', '^INDIAVIX'\n      ) THEN 'india'\n      ELSE 'us'\n" ++
      "    END AS market,\n    CASE\n      WHEN pe_ratio IS NULL\n" ++
      "        OR pe_ratio <= 0\n        THEN NULL\n      WHEN earnings_growth IS NULL\n" ++
      "        OR earnings_growth <= 0\n        THEN NULL\n      ELSE pe_ratio\n" ++
      "        / (earnings_growth * 100.0)\n    END AS peg_ratio,\n" ++
      "    ROW_NUMBER() OVER (\n      PARTITION BY ticker\n      ORDER BY fetched_at DESC\n" ++
      "    ) AS rn\n  FROM company_info\n),\nci AS (\n  SELECT * FROM ci_raw WHERE rn = 1\n" ++
      ")")
  | .as_ => some (
      "as_raw AS (\n  SELECT *,\n    TRY_CAST(\n      regexp_extract(\n" ++
      "        rsi_signal, 'RSI:\\s*([\\d.]+)',1\n      ) AS DOUBLE\n    ) AS rsi_14,\n" ++
      "    ROW_NUMBER() OVER (\n      PARTITION BY ticker\n" ++
      "      ORDER BY computed_at DESC\n    ) AS rn\n  FROM analysis_summary\n),\n" ++
      "as_ AS (\n  SELECT * FROM as_raw WHERE rn = 1\n)")
  | .ps => some (
      "ps_raw AS (\n  SELECT *, ROW_NUMBER() OVER (\n    PARTITION BY ticker\n" ++
      "    ORDER BY score_date DESC\n  ) AS rn FROM piotroski_scores\n),\nps AS (\n" ++
      "  SELECT * FROM ps_raw WHERE rn = 1\n)")
  | .fr => some (
      "fr_raw AS (\n  SELECT *, ROW_NUMBER() OVER (\n    PARTITION BY ticker\n" ++
      "    ORDER BY computed_at DESC\n  ) AS rn FROM forecast_runs\n" ++
      "  WHERE horizon_months != 0\n),\nfr AS (\n  SELECT * FROM fr_raw WHERE rn = 1\n)")
  | .ss => some (
      "ss_raw AS (\n  SELECT *, ROW_NUMBER() OVER (\n    PARTITION BY ticker\n" ++
      "    ORDER BY score_date DESC\n  ) AS rn FROM sentiment_scores\n),\nss AS (\n" ++
      "  SELECT * FROM ss_raw WHERE rn = 1\n)")
  | .qr => some (
      "qr_raw AS (\n  SELECT *, ROW_NUMBER() OVER (\n    PARTITION BY ticker\n" ++
      "    ORDER BY quarter_end DESC\n  ) AS rn FROM quarterly_results\n" ++
      "  WHERE statement_type = 'income'\n),\nqr AS (\n" ++
      "  SELECT * FROM qr_raw WHERE rn = 1\n)")
  | .st => none

/-- `BASE_COLUMNS`. -/
def baseColumns : List (Column Alias) :=
  [⟨.ci, "ticker"⟩, ⟨.ci, "company_name"⟩, ⟨.ci, "sector"⟩, ⟨.ci, "market_cap"⟩,
    ⟨.ci, "current_price"⟩, ⟨.ci, "currency"⟩]

/-! ## What a tree names -/

namespace ASTNode

/-- `_collect_tables`, as a list. -/
def collectTables : ASTNode → List Alias
  | condition c => [c.fieldDef.table]
  | binaryOp _ left right => left.collectTables ++ right.collectTables

/-- `_collect_fields`. -/
def collectFields : ASTNode → List String
  | condition c => [c.fieldName]
  | binaryOp _ left right => left.collectFields ++ right.collectFields

/-- The values of the conditions from left to right, as parameters. -/
def literals : ASTNode → List Value
  | condition c => [c.value.param]
  | binaryOp _ left right => left.literals ++ right.literals

end ASTNode

def FieldDef.qualified (fd : FieldDef) : Column Alias := ⟨fd.table, fd.column⟩

/-! ## The WHERE clause -/

/-- `_build_where`: the condition, and the parameters with the values of the tree appended. -/
def buildWhere : ASTNode → List Value → Expr Alias × List Value
  | .binaryOp op left right, params =>
      let l := buildWhere left params
      let r := buildWhere right l.2
      match op with
      | .and => (.paren (.and l.1 r.1), r.2)
      | .or => (.paren (.or l.1 r.1), r.2)
  | .condition c, params =>
      let params := params ++ [c.value.param]
      let idx := params.length
      match c.operator with
      | .contains => (.existsIn ⟨.st, "ticker"⟩ ⟨.ci, "ticker"⟩ ⟨.st, "tag"⟩ idx, params)
      | .compare o =>
          -- NULL-safe
          (.paren (.and (.isNotNull c.fieldDef.qualified) (.compare c.fieldDef.qualified o idx)),
            params)

/-- The WHERE clause with the ticker filter, and its parameters. -/
def scopedWhere (ast : ASTNode) (tickerFilter : Option (List String)) :
    Expr Alias × List Value :=
  let w := buildWhere ast []
  match tickerFilter with
  | none => w
  | some tickers =>
      (.and (.paren w.1)
        (.isIn ⟨.ci, "ticker"⟩ ((List.range tickers.length).map fun i => w.2.length + i + 1)),
        w.2 ++ tickers.map .text)

/-! ## Columns, tables and order -/

/-- The display columns that are fields and not among those seen. -/
def extraColumns : List String → List String → List String
  | _, [] => []
  | seen, name :: names =>
      if (fieldCatalog.get? name).isSome ∧ name ∉ seen then
        name :: extraColumns (name :: seen) names
      else extraColumns seen names

/-- The tables of display columns. -/
def fieldTables (names : List String) : List Alias :=
  names.filterMap fun name =>
    ((fieldCatalog.get? name).map (·.table)).filter (· ≠ .st)

/-- The columns of the fields, each once, named after the field. -/
def fieldColumns : List (Column Alias) → List String → List (Column Alias × Option String)
  | _, [] => []
  | seen, name :: names =>
      match fieldCatalog.get? name with
      | none => fieldColumns seen names
      | some fd =>
          if fd.table = .st ∨ fd.qualified ∈ seen then fieldColumns seen names
          else (fd.qualified, some name) :: fieldColumns (fd.qualified :: seen) names

def orderColumn (sortBy : Option String) : Column Alias :=
  match sortBy with
  | none => ⟨.ci, "market_cap"⟩
  | some name =>
      match fieldCatalog.get? name with
      | some fd => if fd.table = .st then ⟨.ci, "ticker"⟩ else fd.qualified
      | none =>
          if name = "company_name" then ⟨.ci, "company_name"⟩
          else if name = "current_price" then ⟨.ci, "current_price"⟩
          else ⟨.ci, "market_cap"⟩

def orderDirection (sortDir : String) : Direction := if sortDir = "asc" then .asc else .desc

/-- `LEFT JOIN a ON a.ticker = ci.ticker`. -/
def joinCi (a : Alias) : Join Alias := ⟨a, ⟨a, "ticker"⟩, ⟨.ci, "ticker"⟩⟩

/-! ## The statements -/

structure GeneratedQuery where
  sql : Select Alias
  countSql : Select Alias
  params : List Value
  columnsUsed : List String
  tablesUsed : List Alias

def GeneratedQuery.sqlText (g : GeneratedQuery) : String :=
  g.sql.text Alias.text fun a => (cteTemplate a).getD ""

def GeneratedQuery.countSqlText (g : GeneratedQuery) : String :=
  g.countSql.text Alias.text fun a => (cteTemplate a).getD ""

/-- The fields of the SELECT list: those of the tree, then the display columns. -/
def fieldsUsed (ast : ASTNode) (displayColumns : List String) : List String :=
  ast.collectFields ++ extraColumns ast.collectFields displayColumns

/-- The tables of a query. -/
def tablesUsed (ast : ASTNode) (displayColumns : List String) : List Alias :=
  ast.collectTables ++ [.ci] ++ fieldTables (extraColumns ast.collectFields displayColumns)

/-- The keyword arguments of `generate_sql`. Pages are numbered from 1. -/
structure SqlArgs where
  page : Nat := 1
  pageSize : Nat := 25
  sortBy : Option String := none
  sortDir : String := "desc"
  tickerFilter : Option (List String) := none
  displayColumns : List String := []

/-- `generate_sql`. -/
def generateSql (ast : ASTNode) (o : SqlArgs) : GeneratedQuery :=
  let tables := tablesUsed ast o.displayColumns
  let fields := fieldsUsed ast o.displayColumns
  let w := scopedWhere ast o.tickerFilter
  let ctes := [Alias.ci, .as_, .ps, .fr, .ss, .qr].filter (· ∈ tables)
  let joins := ([Alias.as_, .ps, .fr, .ss, .qr].filter (· ∈ tables)).map joinCi
  let offset := (o.page - 1) * o.pageSize
  { sql :=
      { ctes := ctes
        output := .columns (baseColumns.map (·, none) ++ fieldColumns baseColumns fields)
        base := .ci
        joins := joins
        condition := w.1
        order := some (orderColumn o.sortBy, orderDirection o.sortDir)
        page := some (w.2.length + 1, w.2.length + 2) }
    countSql :=
      { ctes := ctes
        output := .count "cnt"
        base := .ci
        joins := joins
        condition := w.1
        order := none
        page := none }
    params := w.2 ++ [.ofNat o.pageSize, .ofNat offset]
    columnsUsed := fields.eraseDups
    tablesUsed := tables }

/-! ## What a query says -/

theorem fieldCatalog_entry {name : String} {fd : FieldDef}
    (h : fieldCatalog.get? name = some fd) : fd.type ≠ .array ∧ fd.table ≠ .st := by
  have hall : ∀ e ∈ fieldCatalog.entries, e.2.type ≠ .array ∧ e.2.table ≠ .st := by decide
  exact hall (name, fd) (Dict.get?_eq_some_iff.1 h)

namespace Condition

variable (c : Condition)

theorem operator_ne_contains : c.operator ≠ .contains := by
  intro h
  have hallowed := c.allowed
  rw [h] at hallowed
  have hentry := (fieldCatalog_entry c.known).1
  cases htype : c.fieldDef.type with
  | number => rw [htype] at hallowed; exact absurd hallowed (by decide)
  | text => rw [htype] at hallowed; exact absurd hallowed (by decide)
  | array => exact hentry htype

def comparison : Comparison :=
  match h : c.operator with
  | .compare o => o
  | .contains => (c.operator_ne_contains h).elim

theorem operator_eq : c.operator = .compare c.comparison := by
  simp only [comparison]
  split
  · assumption
  · exact (c.operator_ne_contains ‹_›).elim

/-- A condition holds of a row when its cell is there and compares as the condition says. -/
def holds (j : Joined Alias) : Bool :=
  (j.cell c.fieldDef.qualified).any fun v => c.comparison.holds v c.value.param

end Condition

/-- The rows a query asks for. -/
def ASTNode.holds : ASTNode → Joined Alias → Bool
  | .condition c, j => c.holds j
  | .binaryOp .and left right, j => left.holds j && right.holds j
  | .binaryOp .or left right, j => left.holds j || right.holds j

theorem buildWhere_condition (c : Condition) (params : List Value) :
    buildWhere (.condition c) params =
      (.paren (.and (.isNotNull c.fieldDef.qualified)
        (.compare c.fieldDef.qualified c.comparison (params.length + 1))),
        params ++ [c.value.param]) := by
  simp only [buildWhere, c.operator_eq, List.length_append, List.length_singleton]

/-! ## Parameters and placeholders -/

theorem buildWhere_params (ast : ASTNode) (params : List Value) :
    (buildWhere ast params).2 = params ++ ast.literals := by
  induction ast generalizing params with
  | condition c => rw [buildWhere_condition]; rfl
  | binaryOp op left right ihLeft ihRight =>
      have hright : (buildWhere right (buildWhere left params).2).2 =
          params ++ (left.literals ++ right.literals) := by
        rw [ihRight, ihLeft, List.append_assoc]
      cases op <;> exact hright

theorem placeholders_buildWhere (ast : ASTNode) (params : List Value) :
    (buildWhere ast params).1.placeholders =
      List.range' (params.length + 1) ast.literals.length := by
  induction ast generalizing params with
  | condition c => rw [buildWhere_condition]; rfl
  | binaryOp op left right ihLeft ihRight =>
      have hboth : (buildWhere left params).1.placeholders ++
          (buildWhere right (buildWhere left params).2).1.placeholders =
            List.range' (params.length + 1) (left.literals ++ right.literals).length := by
        rw [ihLeft, ihRight, buildWhere_params, List.length_append, List.length_append,
          Nat.add_right_comm, List.range'_append_1]
      cases op <;> exact hboth

theorem placeholder_append (params more : List Value) (v : Value) :
    placeholder (params ++ v :: more) (params.length + 1) = some v := by
  simp only [placeholder, Nat.add_one_ne_zero, if_false, Nat.add_sub_cancel,
    List.getElem?_append_right (Nat.le_refl _), Nat.sub_self, List.getElem?_cons_zero]

/-- The condition is never unknown, and it is true of the rows the query asks for. -/
theorem eval_buildWhere (db : Database Alias) (j : Joined Alias) (ast : ASTNode)
    (params more : List Value) :
    (buildWhere ast params).1.eval db (params ++ ast.literals ++ more) j = some (ast.holds j) := by
  induction ast generalizing params more with
  | condition c =>
      rw [buildWhere_condition]
      simp only [Expr.eval, ASTNode.literals, ASTNode.holds, Condition.holds, List.append_assoc,
        List.singleton_append, placeholder_append]
      -- a missing cell makes the left side false, so the comparison with NULL is not asked
      cases j.cell c.fieldDef.qualified with
      | none => rfl
      | some v => exact and3_true _
  | binaryOp op left right ihLeft ihRight =>
      have hleft := ihLeft params (right.literals ++ more)
      have hright := ihRight (params ++ left.literals) more
      rw [← buildWhere_params left params] at hright
      have hps : params ++ (ASTNode.binaryOp op left right).literals ++ more =
          params ++ left.literals ++ (right.literals ++ more) := by
        simp only [ASTNode.literals, List.append_assoc]
      have hps' : params ++ (ASTNode.binaryOp op left right).literals ++ more =
          (buildWhere left params).2 ++ right.literals ++ more := by
        simp only [ASTNode.literals, buildWhere_params, List.append_assoc]
      cases op with
      | and =>
          show and3 _ _ = some (left.holds j && right.holds j)
          rw [← and3_some]
          exact congrArg₂ and3 (hps ▸ hleft) (hps' ▸ hright)
      | or =>
          show or3 _ _ = some (left.holds j || right.holds j)
          rw [← or3_some]
          exact congrArg₂ or3 (hps ▸ hleft) (hps' ▸ hright)

/-! ## The ticker filter -/

section Scope

variable (ast : ASTNode)

theorem scopedWhere_none : scopedWhere ast none = buildWhere ast [] := rfl

theorem scopedWhere_params (tickerFilter : Option (List String)) :
    (scopedWhere ast tickerFilter).2 =
      ast.literals ++ (tickerFilter.getD []).map Value.text := by
  cases tickerFilter with
  | none => rw [scopedWhere_none, buildWhere_params]; simp
  | some tickers =>
      show (buildWhere ast []).2 ++ tickers.map Value.text = _
      rw [buildWhere_params]
      rfl

theorem placeholders_scopedWhere (tickerFilter : Option (List String)) :
    (scopedWhere ast tickerFilter).1.placeholders =
      List.range' 1 (scopedWhere ast tickerFilter).2.length := by
  cases tickerFilter with
  | none =>
      rw [scopedWhere_none, placeholders_buildWhere, buildWhere_params]
      rfl
  | some tickers =>
      have hfilter : (List.range tickers.length).map (fun i => ast.literals.length + i + 1) =
          List.range' (1 + ast.literals.length) tickers.length := by
        rw [List.range'_eq_map_range]
        apply List.map_congr_left
        intro i _
        omega
      show (buildWhere ast []).1.placeholders ++ (List.range tickers.length).map
          (fun i => (buildWhere ast []).2.length + i + 1) = _
      rw [scopedWhere_params, placeholders_buildWhere, buildWhere_params, List.nil_append, hfilter,
        List.length_append, List.length_map, Option.getD_some]
      exact List.range'_append_1

theorem eval_scopedWhere_none (db : Database Alias) (j : Joined Alias) (more : List Value) :
    (scopedWhere ast none).1.eval db ((scopedWhere ast none).2 ++ more) j = some true ↔
      ast.holds j = true := by
  have heval := eval_buildWhere db j ast [] more
  rw [scopedWhere_none, buildWhere_params, heval, Option.some.injEq]

/-- With a filter it is true of those rows whose ticker is listed: the filter stands beside the
bracketed query, so no OR of the query reaches past it. -/
theorem eval_scopedWhere_some (db : Database Alias) (j : Joined Alias) (more : List Value)
    (tickers : List String) :
    (scopedWhere ast (some tickers)).1.eval db ((scopedWhere ast (some tickers)).2 ++ more) j =
        some true ↔
      ast.holds j = true ∧ ∃ t ∈ tickers, j.cell ⟨.ci, "ticker"⟩ = some (.text t) := by
  have hparams : (scopedWhere ast (some tickers)).2 ++ more =
      ast.literals ++ (tickers.map Value.text ++ more) := by
    rw [scopedWhere_params, List.append_assoc]
    rfl
  have heval := eval_buildWhere db j ast [] (tickers.map Value.text ++ more)
  rw [List.nil_append] at heval
  rw [hparams]
  show and3 ((buildWhere ast []).1.eval db _ j) ((Expr.isIn _ _).eval db _ j) = some true ↔ _
  rw [and3_eq_true, heval, Option.some.injEq, Expr.eval_isIn_eq_true, buildWhere_params,
    List.nil_append]
  apply and_congr_right
  intro _
  -- the placeholder of the i-th ticker holds the i-th ticker
  have hplace : ∀ i, i < tickers.length →
      placeholder (ast.literals ++ (tickers.map Value.text ++ more)) (ast.literals.length + i + 1) =
        (tickers[i]?).map Value.text := by
    intro i hi
    simp only [placeholder, Nat.add_one_ne_zero, if_false, Nat.add_sub_cancel]
    rw [List.getElem?_append_right (Nat.le_add_right _ _), Nat.add_sub_cancel_left,
      List.getElem?_append_left (by rw [List.length_map]; exact hi), List.getElem?_map]
  constructor
  · rintro ⟨k, hk, v, hcell, hv⟩
    obtain ⟨i, hi, rfl⟩ := List.mem_map.1 hk
    rw [hplace i (List.mem_range.1 hi), Option.map_eq_some_iff] at hv
    obtain ⟨t, ht, rfl⟩ := hv
    exact ⟨t, List.mem_of_getElem? ht, hcell⟩
  · rintro ⟨t, ht, hcell⟩
    obtain ⟨i, hi⟩ := List.mem_iff_getElem?.1 ht
    have hlt : i < tickers.length := (List.getElem?_eq_some_iff.1 hi).1
    refine ⟨ast.literals.length + i + 1, List.mem_map.2 ⟨i, List.mem_range.2 hlt, rfl⟩, .text t,
      hcell, ?_⟩
    rw [hplace i hlt, hi]
    rfl

theorem buildWhere_readable (params : List Value) :
    (buildWhere ast params).1.Readable ∧ (buildWhere ast params).1.rank = 2 := by
  induction ast generalizing params with
  | condition c =>
      rw [buildWhere_condition]
      exact ⟨⟨trivial, trivial, Nat.le_succ 1, Nat.le_refl 2⟩, rfl⟩
  | binaryOp op left right ihLeft ihRight =>
      have hleft := ihLeft params
      have hright := ihRight (buildWhere left params).2
      cases op with
      | and => exact ⟨⟨hleft.1, hright.1, by omega, by omega⟩, rfl⟩
      | or => exact ⟨⟨hleft.1, hright.1, by omega⟩, rfl⟩

theorem scopedWhere_readable {tickerFilter : Option (List String)} (h : tickerFilter ≠ some []) :
    (scopedWhere ast tickerFilter).1.Readable := by
  have hquery := buildWhere_readable ast []
  cases tickerFilter with
  | none => exact hquery.1
  | some tickers =>
      refine ⟨hquery.1, ?_, Nat.le_succ 1, Nat.le_refl 2⟩
      intro hempty
      cases tickers with
      | nil => exact h rfl
      | cons t ts => simp [List.range_succ] at hempty

end Scope

/-! ## Binding -/

theorem tables_buildWhere (ast : ASTNode) (params : List Value) :
    ∀ t ∈ (buildWhere ast params).1.tables, t ∈ ast.collectTables := by
  induction ast generalizing params with
  | condition c =>
      rw [buildWhere_condition]
      intro t ht
      simpa [Expr.tables, ASTNode.collectTables, FieldDef.qualified] using ht
  | binaryOp op left right ihLeft ihRight =>
      intro t ht
      have hsplit : t ∈ (buildWhere left params).1.tables ++
          (buildWhere right (buildWhere left params).2).1.tables := by
        cases op <;> exact ht
      rcases List.mem_append.1 hsplit with h | h
      · exact List.mem_append_left _ (ihLeft params t h)
      · exact List.mem_append_right _ (ihRight _ t h)

theorem subqueryTables_buildWhere (ast : ASTNode) (params : List Value) :
    (buildWhere ast params).1.subqueryTables = [] := by
  induction ast generalizing params with
  | condition c => rw [buildWhere_condition]; rfl
  | binaryOp op left right ihLeft ihRight =>
      have hboth : (buildWhere left params).1.subqueryTables ++
          (buildWhere right (buildWhere left params).2).1.subqueryTables = [] := by
        rw [ihLeft, ihRight]
        rfl
      cases op <;> exact hboth

section Bound

variable (ast : ASTNode) (displayColumns : List String)

theorem collectTables_ne_st : ∀ t ∈ ast.collectTables, t ≠ .st := by
  induction ast with
  | condition c =>
      intro t ht
      rw [List.mem_singleton.1 ht]
      exact (fieldCatalog_entry c.known).2
  | binaryOp op left right ihLeft ihRight =>
      intro t ht
      rcases List.mem_append.1 ht with h | h
      · exact ihLeft t h
      · exact ihRight t h

theorem mem_fieldTables {names : List String} {t : Alias} :
    t ∈ fieldTables names ↔
      ∃ name ∈ names, ∃ fd, fieldCatalog.get? name = some fd ∧ fd.table = t := by
  simp only [fieldTables, List.mem_filterMap]
  apply exists_congr
  intro name
  apply and_congr_right
  intro _
  cases h : fieldCatalog.get? name with
  | none => simp
  | some fd =>
      have hst := (fieldCatalog_entry h).2
      constructor
      · intro hf
        rw [Option.map_some, Option.filter_some_pos (by simpa using hst)] at hf
        exact ⟨fd, rfl, Option.some.inj hf⟩
      · rintro ⟨fd', hfd', rfl⟩
        cases hfd'
        rw [Option.map_some, Option.filter_some_pos (by simpa using hst)]

theorem tablesUsed_ne_st : ∀ t ∈ tablesUsed ast displayColumns, t ≠ .st := by
  intro t ht
  simp only [tablesUsed, List.mem_append, List.mem_singleton, or_assoc] at ht
  rcases ht with h | rfl | h
  · exact collectTables_ne_st ast t h
  · decide
  · obtain ⟨name, -, fd, hfd, rfl⟩ := mem_fieldTables.1 h
    exact (fieldCatalog_entry hfd).2

theorem ci_mem_tablesUsed : Alias.ci ∈ tablesUsed ast displayColumns := by
  simp [tablesUsed]

theorem collectFields_table {name : String} (hname : name ∈ ast.collectFields) {fd : FieldDef}
    (hfd : fieldCatalog.get? name = some fd) : fd.table ∈ ast.collectTables := by
  induction ast with
  | condition c =>
      have hsame : some fd = some c.fieldDef := by
        rw [← hfd, ← c.known, List.mem_singleton.1 hname]
      rw [Option.some.inj hsame]
      exact List.mem_singleton.2 rfl
  | binaryOp op left right ihLeft ihRight =>
      rcases List.mem_append.1 hname with h | h
      · exact List.mem_append_left _ (ihLeft h)
      · exact List.mem_append_right _ (ihRight h)

theorem fieldsUsed_table {name : String} (hname : name ∈ fieldsUsed ast displayColumns)
    {fd : FieldDef} (hfd : fieldCatalog.get? name = some fd) :
    fd.table ∈ tablesUsed ast displayColumns := by
  simp only [tablesUsed, List.mem_append, or_assoc]
  rcases List.mem_append.1 hname with h | h
  · exact Or.inl (collectFields_table ast h hfd)
  · exact Or.inr (Or.inr (mem_fieldTables.2 ⟨name, h, fd, hfd, rfl⟩))

theorem mem_fieldColumns {seen : List (Column Alias)} {names : List String}
    {c : Column Alias × Option String} (h : c ∈ fieldColumns seen names) :
    ∃ name ∈ names, ∃ fd, fieldCatalog.get? name = some fd ∧ c = (fd.qualified, some name) := by
  induction names generalizing seen with
  | nil => cases h
  | cons name names ih =>
      -- skipped names leave the column to a later one
      have hlater : ∀ seen', c ∈ fieldColumns seen' names → ∃ n ∈ name :: names, ∃ fd,
          fieldCatalog.get? n = some fd ∧ c = (fd.qualified, some n) := by
        intro seen' hc
        obtain ⟨n, hn, hfd⟩ := ih hc
        exact ⟨n, List.mem_cons_of_mem name hn, hfd⟩
      rw [fieldColumns] at h
      cases hfd : fieldCatalog.get? name with
      | none =>
          rw [hfd] at h
          exact hlater seen h
      | some fd =>
          rw [hfd] at h
          simp only at h
          split at h
          · exact hlater seen h
          · rcases List.mem_cons.1 h with rfl | h
            · exact ⟨name, List.mem_cons_self, fd, hfd, rfl⟩
            · exact hlater _ h

variable (o : SqlArgs)

theorem mem_ctes {t : Alias} :
    t ∈ (generateSql ast o).sql.ctes ↔ t ∈ tablesUsed ast o.displayColumns := by
  have hst := tablesUsed_ne_st ast o.displayColumns t
  simp only [generateSql, List.mem_filter, decide_eq_true_eq]
  constructor
  · exact fun h => h.2
  · intro h
    refine ⟨?_, h⟩
    have hne := hst h
    cases t <;> first | decide | exact absurd rfl hne

theorem mem_fromTables {t : Alias} :
    t ∈ (generateSql ast o).sql.fromTables ↔ t ∈ tablesUsed ast o.displayColumns := by
  have hst := tablesUsed_ne_st ast o.displayColumns t
  simp only [Select.fromTables, generateSql, List.map_map, List.mem_cons, List.mem_map,
    List.mem_filter, decide_eq_true_eq, Function.comp_apply, joinCi, exists_eq_right]
  constructor
  · rintro (rfl | h)
    · exact ci_mem_tablesUsed ast o.displayColumns
    · exact h.2
  · intro h
    have hne := hst h
    cases t with
    | ci => exact Or.inl rfl
    | st => exact absurd rfl hne
    | _ => exact Or.inr ⟨by decide, h⟩

theorem tables_scopedWhere (tickerFilter : Option (List String)) :
    ∀ t ∈ (scopedWhere ast tickerFilter).1.tables, t ∈ tablesUsed ast displayColumns := by
  have hquery : ∀ t ∈ (buildWhere ast []).1.tables, t ∈ tablesUsed ast displayColumns := by
    intro t ht
    simp only [tablesUsed, List.mem_append, or_assoc]
    exact Or.inl (tables_buildWhere ast [] t ht)
  cases tickerFilter with
  | none => exact hquery
  | some tickers =>
      intro t ht
      rcases List.mem_append.1 ht with h | h
      · exact hquery t h
      · rw [List.mem_singleton.1 h]
        exact ci_mem_tablesUsed ast displayColumns

theorem subqueryTables_scopedWhere (tickerFilter : Option (List String)) :
    (scopedWhere ast tickerFilter).1.subqueryTables = [] := by
  cases tickerFilter with
  | none => exact subqueryTables_buildWhere ast []
  | some tickers =>
      show (buildWhere ast []).1.subqueryTables ++ [] = []
      rw [subqueryTables_buildWhere]
      rfl

theorem usedTables_countSql {t : Alias} (h : t ∈ (generateSql ast o).countSql.usedTables) :
    t ∈ tablesUsed ast o.displayColumns := by
  simp only [Select.usedTables, generateSql, List.nil_append, Option.map_none, Option.toList_none,
    List.append_nil, List.mem_append, List.mem_flatMap, List.mem_map, List.mem_filter,
    decide_eq_true_eq] at h
  rcases h with ⟨_, ⟨a, ⟨-, ha⟩, rfl⟩, ht⟩ | h
  · -- a join reads its own table and `ci`
    have hjoin : t = a ∨ t = .ci := by simpa [joinCi] using ht
    rcases hjoin with rfl | rfl
    · exact ha
    · exact ci_mem_tablesUsed ast o.displayColumns
  · exact tables_scopedWhere ast o.displayColumns o.tickerFilter t h

theorem usedTables_sql {t : Alias} (h : t ∈ (generateSql ast o).sql.usedTables) :
    t ∈ tablesUsed ast o.displayColumns ∨ t = (orderColumn o.sortBy).table := by
  have hsplit : t ∈ (baseColumns.map (·, (none : Option String)) ++
        fieldColumns baseColumns (fieldsUsed ast o.displayColumns)).map (·.1.table) ∨
      t ∈ (generateSql ast o).countSql.usedTables ∨ t = (orderColumn o.sortBy).table := by
    simp only [Select.usedTables, generateSql, Option.map_some, Option.toList_some,
      List.mem_append, List.mem_singleton, or_assoc] at h ⊢
    simp only [List.not_mem_nil, false_or, Option.map_none, Option.toList_none] at h ⊢
    tauto
  rcases hsplit with h | h | h
  · obtain ⟨c, hc, rfl⟩ := List.mem_map.1 h
    rcases List.mem_append.1 hc with hc | hc
    · have hbase : ∀ c ∈ baseColumns.map (·, (none : Option String)), c.1.table = .ci := by
        decide
      rw [hbase c hc]
      exact Or.inl (ci_mem_tablesUsed ast o.displayColumns)
    · obtain ⟨name, hname, fd, hfd, rfl⟩ := mem_fieldColumns hc
      exact Or.inl (fieldsUsed_table ast o.displayColumns hname hfd)
  · exact Or.inl (usedTables_countSql ast o h)
  · exact Or.inr h

theorem placeholders_sql :
    (generateSql ast o).sql.placeholders =
      List.range' 1 (generateSql ast o).params.length := by
  have hparams : (generateSql ast o).params.length =
      (scopedWhere ast o.tickerFilter).2.length + 2 := List.length_append
  have hlast : [(scopedWhere ast o.tickerFilter).2.length + 1,
      (scopedWhere ast o.tickerFilter).2.length + 2] =
        List.range' (1 + (scopedWhere ast o.tickerFilter).2.length) 2 := by
    rw [Nat.add_comm 1]
    rfl
  show (scopedWhere ast o.tickerFilter).1.placeholders ++ [_, _] = _
  rw [placeholders_scopedWhere, hparams, hlast, List.range'_append_1]

theorem limit_param :
    placeholder (generateSql ast o).params ((scopedWhere ast o.tickerFilter).2.length + 1) =
      some (.ofNat o.pageSize) :=
  placeholder_append _ _ _

theorem offset_param :
    placeholder (generateSql ast o).params ((scopedWhere ast o.tickerFilter).2.length + 2) =
      some (.ofNat ((o.page - 1) * o.pageSize)) := by
  have h := placeholder_append ((scopedWhere ast o.tickerFilter).2 ++ [.ofNat o.pageSize]) []
    (.ofNat ((o.page - 1) * o.pageSize))
  rw [List.append_assoc, List.length_append] at h
  exact h

/-- The parameters of the count statement. -/
def GeneratedQuery.countParams (g : GeneratedQuery) : List Value :=
  g.params.take (g.params.length - 2)

theorem countParams_generateSql :
    (generateSql ast o).countParams = (scopedWhere ast o.tickerFilter).2 := by
  simp only [GeneratedQuery.countParams, generateSql, List.length_append, List.length_cons,
    List.length_nil, Nat.add_sub_cancel, List.take_left]

variable (db : Database Alias)

/-- The page statement binds exactly when its tables exist and the sort column is in one of them. -/
theorem generateSql_bound :
    (generateSql ast o).sql.Bound db (generateSql ast o).params ↔
      (orderColumn o.sortBy).table ∈ tablesUsed ast o.displayColumns ∧
        ∀ t ∈ tablesUsed ast o.displayColumns, (db t).isSome = true := by
  constructor
  · intro h
    constructor
    · rw [← mem_fromTables]
      exact h.used _ (List.mem_append_right _ (List.mem_singleton.2 rfl))
    · intro t ht
      exact h.exist t ((mem_ctes ast o).2 ht)
  · rintro ⟨horder, hexist⟩
    constructor
    · intro t ht
      rw [mem_fromTables]
      rcases usedTables_sql ast o ht with h | rfl
      · exact h
      · exact horder
    · intro t ht
      rw [mem_ctes]
      rcases List.mem_append.1 ht with h | h
      · exact (mem_fromTables ast o).1 h
      · have hnone : (generateSql ast o).sql.condition.subqueryTables = [] :=
          subqueryTables_scopedWhere ast o.tickerFilter
        rw [hnone] at h
        cases h
    · intro t ht
      exact hexist t ((mem_ctes ast o).1 ht)
    · intro i hi
      rw [placeholders_sql, List.mem_range'_1] at hi
      omega
    · intro i hi
      rw [placeholders_sql]
      exact hi
    · intro p hp i hi
      cases hp
      simp only [List.mem_cons, List.not_mem_nil, or_false] at hi
      rcases hi with rfl | rfl
      · rw [limit_param, Option.bind_some, Value.toCount?_ofNat]
        rfl
      · rw [offset_param, Option.bind_some, Value.toCount?_ofNat]
        rfl

theorem generateSql_countBound :
    (generateSql ast o).countSql.Bound db (generateSql ast o).countParams ↔
      ∀ t ∈ tablesUsed ast o.displayColumns, (db t).isSome = true := by
  have hplaces : (generateSql ast o).countSql.placeholders =
      List.range' 1 (generateSql ast o).countParams.length := by
    rw [countParams_generateSql, ← placeholders_scopedWhere]
    exact List.append_nil _
  constructor
  · intro h t ht
    exact h.exist t ((mem_ctes ast o).2 ht)
  · intro hexist
    constructor
    · intro t ht
      exact (mem_fromTables ast o).2 (usedTables_countSql ast o ht)
    · intro t ht
      apply (mem_ctes ast o).2
      rcases List.mem_append.1 ht with h | h
      · exact (mem_fromTables ast o).1 h
      · have hnone : (generateSql ast o).countSql.condition.subqueryTables = [] :=
          subqueryTables_scopedWhere ast o.tickerFilter
        rw [hnone] at h
        cases h
    · intro t ht
      exact hexist t ((mem_ctes ast o).1 ht)
    · intro i hi
      rw [hplaces, List.mem_range'_1] at hi
      omega
    · intro i hi
      rw [hplaces]
      exact hi
    · intro p hp
      cases hp

end Bound

end AsetPlatform.ScreenQL

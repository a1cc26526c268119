import AsetPlatform.ScreenQL.Grammar
import AsetPlatform.ScreenQL.ScreenScope

/-!
# What the generated statements say

The count statement counts exactly the rows a query asks for and the page statement returns only
such rows (`generateSql_means`). The table of the sort column is not brought into the statement, so
`generateSql_wellFormed_iff` has a condition on it: the filter or the display columns have to name a
field of the same table. The texts of the statements do not depend on the literals of the query
(`generateSql_text_eq`).
-/

set_option autoImplicit false

namespace AsetPlatform.ScreenQL

open AsetPlatform.Library AsetPlatform.Library.Sql

/-! ## Meaning -/

section Meaning

variable (ast : ASTNode) (o : SqlArgs)

def passesFilter (tickerFilter : Option (List String)) (j : Joined Alias) : Bool :=
  match tickerFilter with
  | none => true
  | some tickers => tickers.any fun t => tickerCell j = some (.text t)

def askedRows (db : Database Alias) : List (Joined Alias) :=
  (joinedRows db (tablesUsed ast o.displayColumns)).filter fun j =>
    ast.holds j && passesFilter o.tickerFilter j

def pageColumns : List (Column Alias × Option String) :=
  baseColumns.map (·, none) ++ fieldColumns baseColumns (fieldsUsed ast o.displayColumns)

variable (db : Database Alias)

theorem passesFilter_iff {tickerFilter : Option (List String)} {j : Joined Alias} :
    passesFilter tickerFilter j = true ↔
      ∀ tickers ∈ tickerFilter, ∃ t ∈ tickers, tickerCell j = some (.text t) := by
  cases tickerFilter with
  | none => simp [passesFilter]
  | some tickers => simp [passesFilter]

theorem matching_countSql :
    (generateSql ast o).countSql.matching db (generateSql ast o).countParams =
      askedRows ast o db := by
  apply List.filter_congr
  intro j _
  have heval := eval_scopedWhere ast o db j []
  rw [List.append_nil, ← countParams_generateSql, ← passesFilter_iff, ← Bool.and_eq_true] at heval
  apply Bool.eq_iff_iff.2
  rw [decide_eq_true_eq]
  exact heval

theorem eval_query (j : Joined Alias) :
    (buildWhere ast []).1.eval db (generateSql ast o).params j = some (ast.holds j) ∧
      (buildWhere ast []).1.eval db (generateSql ast o).countParams j = some (ast.holds j) := by
  have hcount : (generateSql ast o).countParams =
      ast.literals ++ (o.tickerFilter.getD []).map Value.text := by
    rw [countParams_generateSql, scopedWhere_params]
  have hpage : (generateSql ast o).params =
      ast.literals ++ ((o.tickerFilter.getD []).map Value.text ++
        [.ofNat o.pageSize, .ofNat ((o.page - 1) * o.pageSize)]) := by
    rw [← List.append_assoc, ← scopedWhere_params]
    rfl
  constructor
  · rw [hpage]
    exact eval_buildWhere db j ast [] _
  · rw [hcount]
    exact eval_buildWhere db j ast [] _

/-- The condition built from a query is never NULL and true exactly of the rows the query describes;
so the count statement counts the rows asked for, and the page statement returns some of them. -/
theorem generateSql_means :
    (∀ j : Joined Alias,
      (buildWhere ast []).1.eval db (generateSql ast o).params j = some (ast.holds j) ∧
        (buildWhere ast []).1.eval db (generateSql ast o).countParams j = some (ast.holds j)) ∧
      (∀ rows, (generateSql ast o).countSql.Answers db (generateSql ast o).countParams rows →
        rows = [[("cnt", some (.ofNat (askedRows ast o db).length))]]) ∧
      ∀ rows, (generateSql ast o).sql.Answers db (generateSql ast o).params rows →
        ∃ js : List (Joined Alias), js.Subperm (askedRows ast o db) ∧
          rows = js.map (Select.project (pageColumns ast o)) := by
  refine ⟨eval_query ast o db, ?_, ?_⟩
  · intro rows hrows
    rw [← matching_countSql]
    exact hrows.of_count rfl
  · rintro rows ⟨sorted, hperm, -, hrows⟩
    rw [matching_sql, matching_countSql] at hperm
    refine ⟨_, ?_, hrows⟩
    have hwindow : (Select.window (generateSql ast o).sql (generateSql ast o).params sorted).Sublist
        sorted := (List.take_sublist _ _).trans (List.drop_sublist _ _)
    exact hwindow.subperm.trans hperm.subperm

end Meaning

/-! ## Well-formed statements -/

/-- A statement reads the tables it joins, defines what it reads, and has the placeholders `$1` to
`$n`. -/
structure WellFormed (s : Select Alias) (n : Nat) : Prop where
  joined : ∀ t ∈ s.usedTables, t ∈ s.fromTables
  defined : ∀ t ∈ s.fromTables ++ s.condition.subqueryTables, t ∈ s.ctes
  numbered : ∀ i, i ∈ s.placeholders ↔ 1 ≤ i ∧ i ≤ n

section WellFormed

variable (ast : ASTNode) (o : SqlArgs)

/-- The table of the sort column is that of the companies, or that of a field of the query or of a
display column. -/
def SortJoined : Prop :=
  ∀ name ∈ o.sortBy, ∀ fd, fieldCatalog.get? name = some fd →
    fd.table = .ci ∨ fd.table ∈ ast.collectTables ∨
      ∃ shown ∈ o.displayColumns, ∃ fd', fieldCatalog.get? shown = some fd' ∧ fd'.table = fd.table

theorem mem_extraColumns {seen names : List String} {name : String} :
    name ∈ extraColumns seen names ↔
      name ∈ names ∧ (fieldCatalog.get? name).isSome = true ∧ name ∉ seen := by
  induction names generalizing seen with
  | nil => simp [extraColumns]
  | cons n names ih =>
      rw [extraColumns]
      split
      · rename_i h
        rw [List.mem_cons, ih, List.mem_cons, List.mem_cons]
        by_cases hname : name = n
        · subst hname
          simp [h]
        · simp [hname]
      · rename_i h
        rw [ih, List.mem_cons]
        by_cases hname : name = n
        · subst hname
          simp only [not_and, not_not] at h
          constructor
          · exact fun hmem => ⟨Or.inl rfl, hmem.2⟩
          · exact fun hmem => absurd (h hmem.2.1) hmem.2.2
        · simp [hname]

theorem mem_tablesUsed {displayColumns : List String} {t : Alias} :
    t ∈ tablesUsed ast displayColumns ↔ t = .ci ∨ t ∈ ast.collectTables ∨
      ∃ shown ∈ displayColumns, ∃ fd, fieldCatalog.get? shown = some fd ∧ fd.table = t := by
  simp only [tablesUsed, List.mem_append, List.mem_singleton, mem_fieldTables, mem_extraColumns]
  constructor
  · rintro ((h | h) | ⟨shown, ⟨hshown, -, -⟩, fd, hfd, ht⟩)
    · exact Or.inr (Or.inl h)
    · exact Or.inl h
    · exact Or.inr (Or.inr ⟨shown, hshown, fd, hfd, ht⟩)
  · rintro (h | h | ⟨shown, hshown, fd, hfd, rfl⟩)
    · exact Or.inl (Or.inr h)
    · exact Or.inl (Or.inl h)
    · -- a display column that the query names too is no extra column
      by_cases hquery : shown ∈ ast.collectFields
      · exact Or.inl (Or.inl (collectFields_table ast hquery hfd))
      · exact Or.inr ⟨shown, ⟨hshown, by rw [hfd]; rfl, hquery⟩, fd, hfd, rfl⟩

theorem orderColumn_mem_iff :
    (orderColumn o.sortBy).table ∈ tablesUsed ast o.displayColumns ↔ SortJoined ast o := by
  have hci := ci_mem_tablesUsed ast o.displayColumns
  simp only [SortJoined]
  cases o.sortBy with
  | none =>
      constructor
      · intro _ name hname
        cases hname
      · exact fun _ => hci
  | some name =>
      simp only [orderColumn, Option.mem_def, Option.some.injEq, forall_eq']
      cases hfd : fieldCatalog.get? name with
      | some fd =>
          have hst := (fieldCatalog_entry hfd).2
          simp only [hst, if_false, FieldDef.qualified, Option.some.injEq, forall_eq',
            mem_tablesUsed]
      | none =>
          constructor
          · intro _ fd h
            cases h
          · intro _
            show (ite _ _ _ : Column Alias).table ∈ _
            split
            · exact hci
            · split <;> exact hci

/-- The statements of a query are well formed exactly when the sort column is in a joined table. -/
theorem generateSql_wellFormed_iff :
    (WellFormed (generateSql ast o).sql (generateSql ast o).params.length ∧
        WellFormed (generateSql ast o).countSql ((generateSql ast o).params.length - 2)) ↔
      SortJoined ast o := by
  have hsubquery : (scopedWhere ast o.tickerFilter).1.subqueryTables = [] :=
    subqueryTables_scopedWhere ast o.tickerFilter
  have hdefined : ∀ t ∈ (generateSql ast o).sql.fromTables ++
      (scopedWhere ast o.tickerFilter).1.subqueryTables, t ∈ (generateSql ast o).sql.ctes := by
    intro t ht
    rw [hsubquery, List.append_nil] at ht
    exact (mem_ctes ast o).2 ((mem_fromTables ast o).1 ht)
  rw [← orderColumn_mem_iff]
  constructor
  · rintro ⟨hpage, -⟩
    rw [← mem_fromTables]
    exact hpage.joined _ (List.mem_append_right _ (List.mem_singleton.2 rfl))
  · intro horder
    constructor
    · constructor
      · intro t ht
        rw [mem_fromTables]
        rcases usedTables_sql ast o ht with h | rfl
        · exact h
        · exact horder
      · exact hdefined
      · intro i
        rw [placeholders_sql, List.mem_range'_1]
        omega
    · constructor
      · intro t ht
        exact (mem_fromTables ast o).2 (usedTables_countSql ast o ht)
      · exact hdefined
      · intro i
        have hplaces : (generateSql ast o).countSql.placeholders =
            List.range' 1 ((generateSql ast o).params.length - 2) := by
          rw [show (generateSql ast o).params.length - 2 = (scopedWhere ast o.tickerFilter).2.length
            from by rw [generateSql, List.length_append]; rfl, ← placeholders_scopedWhere]
          exact List.append_nil _
        rw [hplaces, List.mem_range'_1]
        omega

/-- `pe_ratio < 15`. -/
def cheapCondition : Condition where
  fieldName := "pe_ratio"
  operator := .compare .lt
  value := .number (.int 15)
  fieldDef := ⟨.ci, "pe_ratio", .number, "P/E Ratio", "Valuation"⟩
  known := rfl
  allowed := List.mem_cons_of_mem _ List.mem_cons_self
  fits := rfl

/-- Sorted by the Sharpe ratio, the statement orders by a table that it does not join. -/
theorem sharpeSort_not_wellFormed :
    ¬ ∀ (ast : ASTNode) (o : SqlArgs),
      WellFormed (generateSql ast o).sql (generateSql ast o).params.length ∧
        WellFormed (generateSql ast o).countSql ((generateSql ast o).params.length - 2) := by
  intro h
  -- the ORDER BY names `as_`, which the statement does not join
  have hwell := (h (.condition cheapCondition) { sortBy := some "sharpe_ratio" }).1
  have hused : Alias.as_ ∈ (generateSql (.condition cheapCondition)
      { sortBy := some "sharpe_ratio" }).sql.fromTables := hwell.joined .as_ (by decide)
  revert hused
  decide

end WellFormed

/-! ## The literals stay out of the texts -/

section Literals

/-- The parameter of a literal token. -/
def TokenKind.param : TokenKind → Option Value
  | .valueNum n => some (Literal.number n).param
  | .valueStr s => some (.text (String.ofList s))
  | _ => none

/-- Two tokens that differ at most in the value of a literal. -/
inductive TokenKind.Alike : TokenKind → TokenKind → Prop where
  | same (k : TokenKind) : Alike k k
  | number (m n : NumberLit) : Alike (.valueNum m) (.valueNum n)
  | string (s t : List Char) : Alike (.valueStr s) (.valueStr t)

/-- Two trees that differ at most in the values of their conditions. -/
inductive ASTNode.Alike : ASTNode → ASTNode → Prop where
  | condition {c c' : Condition} : c.fieldName = c'.fieldName → c.operator = c'.operator →
      Alike (.condition c) (.condition c')
  | binaryOp {op : Connective} {l r l' r' : ASTNode} : Alike l l' → Alike r r' →
      Alike (.binaryOp op l r) (.binaryOp op l' r')

/-- Arguments that differ at most in the tickers listed. -/
structure SqlArgs.Alike (o o' : SqlArgs) : Prop where
  page : o.page = o'.page
  pageSize : o.pageSize = o'.pageSize
  sortBy : o.sortBy = o'.sortBy
  sortDir : o.sortDir = o'.sortDir
  displayColumns : o.displayColumns = o'.displayColumns
  filter : o.tickerFilter.map List.length = o'.tickerFilter.map List.length

/-! ### From tokens to trees -/

variable {T : CharTables}

theorem TokenKind.Alike.eq_of_param {k k' : TokenKind} (h : k.Alike k') (hk : k.param = none) :
    k' = k := by
  cases h with
  | same => rfl
  | number m n => cases hk
  | string s t => cases hk

theorem Operator.param_token (o : Operator) : o.token.param = none := by cases o <;> rfl

theorem Literal.param_token (v : Literal) : v.token.param = some v.param := by
  cases v with
  | number n => rfl
  | text s => exact congrArg (fun t => some (Value.text t)) String.ofList_toList

theorem Literal.exists_alike {v : Literal} {k : TokenKind} (h : v.token.Alike k) :
    ∃ v' : Literal, k = v'.token ∧ ∀ type, v'.fits type = v.fits type := by
  -- only a number stands for a number and a string for a string, so the type still fits
  generalize hv : v.token = kv at h
  cases h with
  | same => exact ⟨v, hv.symm, fun _ => rfl⟩
  | number m n =>
      cases v with
      | number _ => exact ⟨.number n, rfl, fun type => by cases type <;> rfl⟩
      | text _ => cases hv
  | string s t =>
      cases v with
      | number _ => cases hv
      | text _ =>
          refine ⟨.text (String.ofList t), ?_, fun type => by cases type <;> rfl⟩
          rw [Literal.token, String.toList_ofList]

theorem derives_literals {level : Level} {ts : List TokenKind} {n : ASTNode}
    (h : Derives T level ts n) : ts.filterMap TokenKind.param = n.literals := by
  induction h with
  | orSingle _ ih => exact ih
  | andSingle _ ih => exact ih
  | orMore _ _ ihLeft ihRight =>
      rw [List.filterMap_append, List.filterMap_cons_none rfl, ihLeft, ihRight]
      rfl
  | andMore _ _ ihLeft ihRight =>
      rw [List.filterMap_append, List.filterMap_cons_none rfl, ihLeft, ihRight]
      rfl
  | paren _ ih =>
      rw [List.filterMap_append, List.filterMap_cons_none rfl, ih]
      exact List.append_nil _
  -- of the three tokens of a condition only the last carries a parameter
  | condition c _ =>
      rw [List.filterMap_cons_none rfl, List.filterMap_cons_none (Operator.param_token _),
        List.filterMap_cons_some (Literal.param_token _)]
      rfl

/-- What is alike to two parts has two parts. -/
theorem alike_append {ts us vs : List TokenKind}
    (h : List.Forall₂ TokenKind.Alike (ts ++ us) vs) :
    ∃ ts' us', vs = ts' ++ us' ∧ List.Forall₂ TokenKind.Alike ts ts' ∧
      List.Forall₂ TokenKind.Alike us us' := by
  induction ts generalizing vs with
  | nil => exact ⟨[], vs, rfl, .nil, h⟩
  | cons k ts ih =>
      obtain ⟨k', vs', hk, hrest, rfl⟩ := List.forall₂_cons_left_iff.1 h
      obtain ⟨ts', us', rfl, hts, hus⟩ := ih hrest
      exact ⟨k' :: ts', us', rfl, .cons hk hts, hus⟩

theorem alike_cons {k : TokenKind} (hk : k.param = none) {ts us : List TokenKind}
    (h : List.Forall₂ TokenKind.Alike (k :: ts) us) :
    ∃ us', us = k :: us' ∧ List.Forall₂ TokenKind.Alike ts us' := by
  obtain ⟨k', us', hkind, hrest, rfl⟩ := List.forall₂_cons_left_iff.1 h
  exact ⟨us', by rw [hkind.eq_of_param hk], hrest⟩

/-- Alike sentences have alike trees. -/
theorem derives_alike {level : Level} {ts : List TokenKind} {n : ASTNode}
    (h : Derives T level ts n) {us : List TokenKind} (hus : List.Forall₂ TokenKind.Alike ts us) :
    ∃ n', Derives T level us n' ∧ n.Alike n' ∧ n'.conditions = n.conditions := by
  induction h generalizing us with
  | orSingle _ ih =>
      obtain ⟨n', hn', halike⟩ := ih hus
      exact ⟨n', .orSingle hn', halike⟩
  | andSingle _ ih =>
      obtain ⟨n', hn', halike⟩ := ih hus
      exact ⟨n', .andSingle hn', halike⟩
  | orMore _ _ ihLeft ihRight =>
      obtain ⟨us₁, us₂, rfl, hus₁, hus₂⟩ := alike_append hus
      obtain ⟨us₃, rfl, hus₃⟩ := alike_cons rfl hus₂
      obtain ⟨l, hl, hleft, hcount⟩ := ihLeft hus₁
      obtain ⟨r, hr, hright, hcount'⟩ := ihRight hus₃
      exact ⟨.binaryOp .or l r, .orMore hl hr, .binaryOp hleft hright,
        congrArg₂ (· + ·) hcount hcount'⟩
  | andMore _ _ ihLeft ihRight =>
      obtain ⟨us₁, us₂, rfl, hus₁, hus₂⟩ := alike_append hus
      obtain ⟨us₃, rfl, hus₃⟩ := alike_cons rfl hus₂
      obtain ⟨l, hl, hleft, hcount⟩ := ihLeft hus₁
      obtain ⟨r, hr, hright, hcount'⟩ := ihRight hus₃
      exact ⟨.binaryOp .and l r, .andMore hl hr, .binaryOp hleft hright,
        congrArg₂ (· + ·) hcount hcount'⟩
  | paren _ ih =>
      obtain ⟨us₁, us₂, rfl, hus₁, hus₂⟩ := alike_append hus
      obtain ⟨us₃, rfl, hus₃⟩ := alike_cons rfl hus₁
      obtain ⟨us₄, rfl, hus₄⟩ := alike_cons rfl hus₂
      cases List.forall₂_nil_left_iff.1 hus₄
      obtain ⟨n', hn', halike⟩ := ih hus₃
      exact ⟨n', .paren hn', halike⟩
  | condition c hname =>
      obtain ⟨us₁, rfl, hus₁⟩ := alike_cons rfl hus
      obtain ⟨us₂, rfl, hus₂⟩ := alike_cons (Operator.param_token _) hus₁
      obtain ⟨k, us₃, hk, hus₃, rfl⟩ := List.forall₂_cons_left_iff.1 hus₂
      cases List.forall₂_nil_left_iff.1 hus₃
      -- the value is another one of the same kind
      obtain ⟨v, rfl, hfits⟩ := Literal.exists_alike hk
      have hderives := Derives.condition (T := T) ⟨c.fieldName, c.operator, v, c.fieldDef, c.known,
        c.allowed, (hfits _).trans c.fits⟩ hname
      exact ⟨_, hderives, .condition rfl rfl, rfl⟩

theorem forall₂_kinds {ts ts' : List Token}
    (h : List.Forall₂ (fun t t' => t.kind.Alike t'.kind) ts ts') :
    List.Forall₂ TokenKind.Alike (ts.map (·.kind)) (ts'.map (·.kind)) := by
  rw [List.forall₂_map_left_iff, List.forall₂_map_right_iff]
  exact h

/-! ### From trees to statements -/

theorem ASTNode.Alike.collectTables {n n' : ASTNode} (h : n.Alike n') :
    n.collectTables = n'.collectTables := by
  induction h with
  | @condition c c' hname _ =>
      have hsame : some c.fieldDef = some c'.fieldDef := by rw [← c.known, ← c'.known, hname]
      simp only [ASTNode.collectTables, Option.some.inj hsame]
  | binaryOp _ _ ihLeft ihRight => simp only [ASTNode.collectTables, ihLeft, ihRight]

theorem ASTNode.Alike.collectFields {n n' : ASTNode} (h : n.Alike n') :
    n.collectFields = n'.collectFields := by
  induction h with
  | condition hname _ => simp only [ASTNode.collectFields, hname]
  | binaryOp _ _ ihLeft ihRight => simp only [ASTNode.collectFields, ihLeft, ihRight]

theorem ASTNode.Alike.length_literals {n n' : ASTNode} (h : n.Alike n') :
    n.literals.length = n'.literals.length := by
  induction h with
  | condition _ _ => rfl
  | binaryOp _ _ ihLeft ihRight =>
      simp only [ASTNode.literals, List.length_append, ihLeft, ihRight]

theorem ASTNode.Alike.buildWhere {n n' : ASTNode} (h : n.Alike n') {params params' : List Value}
    (hlen : params.length = params'.length) :
    (ScreenQL.buildWhere n params).1 = (ScreenQL.buildWhere n' params').1 := by
  induction h generalizing params params' with
  | @condition c c' hname hop =>
      have hsame : some c.fieldDef = some c'.fieldDef := by rw [← c.known, ← c'.known, hname]
      have hcomparison : c.comparison = c'.comparison := by
        rw [c.operator_eq, c'.operator_eq, Operator.compare.injEq] at hop
        exact hop
      simp only [buildWhere_condition, Option.some.inj hsame, hcomparison, hlen]
  -- the right side is numbered after the parameters of the left side, equally many in both trees
  | @binaryOp op l r l' r' hleft hright ihLeft ihRight =>
      have hlen' : (ScreenQL.buildWhere l params).2.length =
          (ScreenQL.buildWhere l' params').2.length := by
        rw [buildWhere_params, buildWhere_params, List.length_append, List.length_append, hlen,
          hleft.length_literals]
      have h₁ := ihLeft hlen
      have h₂ := ihRight hlen'
      cases op <;> simp only [ScreenQL.buildWhere, h₁, h₂]

theorem ASTNode.Alike.scopedWhere {n n' : ASTNode} (h : n.Alike n')
    {filter filter' : Option (List String)}
    (hlen : filter.map List.length = filter'.map List.length) :
    (ScreenQL.scopedWhere n filter).1 = (ScreenQL.scopedWhere n' filter').1 ∧
      (ScreenQL.scopedWhere n filter).2.length = (ScreenQL.scopedWhere n' filter').2.length := by
  have hwhere := h.buildWhere (Eq.refl ([] : List Value).length)
  have hliterals := h.length_literals
  constructor
  · cases filter with
    | none =>
        cases filter' with
        | none => exact hwhere
        | some _ => cases hlen
    | some tickers =>
        cases filter' with
        | none => cases hlen
        | some tickers' =>
            have htickers : tickers.length = tickers'.length := Option.some.inj hlen
            simp only [ScreenQL.scopedWhere, hwhere, buildWhere_params, List.nil_append, hliterals,
              htickers]
  · have hfilter : (filter.getD []).length = (filter'.getD []).length := by
      cases filter <;> cases filter' <;> simp_all
    simp only [scopedWhere_params, List.length_append, List.length_map, hliterals, hfilter]

theorem generateSql_alike {n n' : ASTNode} (h : n.Alike n') {o o' : SqlArgs} (ho : o.Alike o') :
    (generateSql n o).sql = (generateSql n' o').sql ∧
      (generateSql n o).countSql = (generateSql n' o').countSql := by
  -- everything else in the texts comes from field names and from the arguments
  obtain ⟨hwhere, hlength⟩ := h.scopedWhere ho.filter
  have hfields : fieldsUsed n o.displayColumns = fieldsUsed n' o'.displayColumns := by
    simp only [fieldsUsed, h.collectFields, ho.displayColumns]
  have htables : tablesUsed n o.displayColumns = tablesUsed n' o'.displayColumns := by
    simp only [tablesUsed, h.collectTables, h.collectFields, ho.displayColumns]
  simp only [generateSql, hwhere, hlength, hfields, htables, ho.sortBy, ho.sortDir, and_self]

/-! ### From queries to texts -/

section Tokens

variable {pos : Nat} {text rest : List Char} {k : TokenKind}

theorem scanOp_ne_eof (h : ScreenQL.scanOp text = some (k, rest)) : k ≠ .eof := by
  simp only [scanOp] at h
  split at h <;> cases h <;> exact TokenKind.noConfusion

theorem scanStr_ne_eof (h : scanStr text = some (k, rest)) : k ≠ .eof := by
  simp only [scanStr] at h
  split at h
  · obtain ⟨q, -, hr⟩ := Option.map_eq_some_iff.1 h
    cases hr
    exact TokenKind.noConfusion
  · cases h

theorem scanNum_ne_eof (h : scanNum T text = some (k, rest)) : k ≠ .eof := by
  simp only [scanNum] at h
  generalize (if text.head? = some '-' then text.tail else text) = unsigned at h
  generalize (if (unsigned.dropWhile T.isDigit).head? = some '.' then
    (unsigned.dropWhile T.isDigit).tail.takeWhile T.isDigit else []) = fraction at h
  by_cases hwhole : unsigned.takeWhile T.isDigit = []
  · rw [if_pos hwhole] at h
    cases h
  · rw [if_neg hwhole] at h
    by_cases hfraction : fraction = []
    · rw [if_pos hfraction] at h
      cases h
      exact TokenKind.noConfusion
    · rw [if_neg hfraction] at h
      cases h
      exact TokenKind.noConfusion

theorem scanParen_ne_eof (h : scanParen text = some (k, rest)) : k ≠ .eof := by
  simp only [scanParen] at h
  split at h <;> cases h <;> exact TokenKind.noConfusion

theorem scanWord_ne_eof (h : scanWord T text = some (k, rest)) : k ≠ .eof := by
  cases text with
  | nil => cases h
  | cons c cs =>
      simp only [scanWord] at h
      split at h
      · cases h
        simp only [wordToken]
        split <;> [skip; split <;> [skip; split]] <;> exact TokenKind.noConfusion
      · cases h

theorem matchToken_ne_eof (h : matchToken T text = some (k, rest)) : k ≠ .eof := by
  simp only [matchToken, Option.map_eq_some_iff] at h
  obtain ⟨⟨k', tail⟩, hfound, hr⟩ := h
  cases (congrArg Prod.fst hr : k' = k)
  -- the alternatives of the pattern, in their order
  simp only [Option.orElse_eq_orElse, Option.orElse_eq_or, Option.or_eq_some_iff] at hfound
  rcases hfound with h | ⟨-, h | ⟨-, h | ⟨-, h | ⟨-, h⟩⟩⟩⟩
  · exact scanOp_ne_eof h
  · exact scanStr_ne_eof h
  · exact scanNum_ne_eof h
  · exact scanParen_ne_eof h
  · exact scanWord_ne_eof h

end Tokens

theorem tokensFrom_endsInEof {pos : Nat} {text : List Char} {ts : List Token}
    (h : tokensFrom T pos text = .ok ts) : Parser.EndsInEof ⟨ts, 0⟩ := by
  induction pos, text using tokensFrom.induct T generalizing ts with
  -- the end of the text, a character that starts no token, and a token with the rest
  | case1 pos =>
      rw [tokensFrom] at h
      cases h
      exact ⟨[], _, rfl, rfl, fun t ht => by cases ht⟩
  | case2 pos c cs hmatch =>
      rw [tokensFrom] at h
      split at h
      · cases h
      · rename_i hsome
        rw [hmatch] at hsome
        cases hsome
  | case3 pos c cs kind rest hmatch ih =>
      rw [tokensFrom] at h
      split at h
      · cases h
      · rename_i kind' rest' hsome
        rw [hmatch] at hsome
        cases hsome
        cases hus : tokensFrom T (pos + ((c :: cs).length - rest.length)) rest with
        | error e =>
            rw [hus] at h
            cases h
        | ok us =>
            rw [hus] at h
            cases h
            obtain ⟨vs, e, hrest, he, hvs⟩ := ih hus
            refine ⟨⟨kind, pos⟩ :: vs, e, congrArg (⟨kind, pos⟩ :: ·) hrest, he, ?_⟩
            intro t ht
            rcases List.mem_cons.1 ht with rfl | ht
            · exact matchToken_ne_eof hmatch
            · exact hvs t ht

theorem tokenize_endsInEof {query : List Char} {ts : List Token} (h : tokenize T query = .ok ts) :
    Parser.EndsInEof ⟨ts, 0⟩ := by
  simp only [tokenize] at h
  split at h
  · cases h
  · exact tokensFrom_endsInEof h

theorem parseQuery_eq_ok_iff {query : List Char} {ts : List Token} (h : tokenize T query = .ok ts)
    {n : ASTNode} : parseQuery T query = .ok n ↔ parse T ts = .ok n := by
  simp only [parseQuery, h]

/-- Two accepted queries whose tokens differ at most in the values of literals have the same texts,
and the literals of a query are its first parameters. -/
theorem generateSql_text_eq {query query' : List Char} {ts ts' : List Token} {n n' : ASTNode}
    {o o' : SqlArgs} (hts : tokenize T query = .ok ts) (hts' : tokenize T query' = .ok ts')
    (halike : List.Forall₂ (fun t t' => t.kind.Alike t'.kind) ts ts')
    (hn : parseQuery T query = .ok n) (hn' : parseQuery T query' = .ok n') (ho : o.Alike o') :
    (generateSql n o).sqlText = (generateSql n' o').sqlText ∧
      (generateSql n o).countSqlText = (generateSql n' o').countSqlText ∧
      (generateSql n o).params = ts.filterMap (·.kind.param) ++
        (o.tickerFilter.getD []).map Value.text ++
          [.ofNat o.pageSize, .ofNat ((o.page - 1) * o.pageSize)] := by
  -- the first query is a sentence before its EOF, and so are the tokens of the second
  obtain ⟨us, e, rfl, he, hus⟩ := tokenize_endsInEof hts
  obtain ⟨us', e', rfl, he', hus'⟩ := tokenize_endsInEof hts'
  have hsentence := (parse_eq_ok_iff T he hus n).1 ((parseQuery_eq_ok_iff hts).1 hn)
  have hkinds := forall₂_kinds halike
  rw [List.map_append, List.map_append] at hkinds
  obtain ⟨vs, ws, hsplit, hvs, hws⟩ := alike_append hkinds
  have hlast := (List.append_inj' hsplit hws.length_eq).1
  -- the second query is a sentence with an alike tree, and it has no other tree
  obtain ⟨m, hm, hnm, hcount⟩ := derives_alike hsentence.1 hvs
  rw [← hlast] at hm
  have hparse := (parse_eq_ok_iff T he' hus' m).2 ⟨hm, hcount ▸ hsentence.2⟩
  have hsame := ((parseQuery_eq_ok_iff hts').1 hn').symm.trans hparse
  cases hsame
  obtain ⟨hsql, hcountSql⟩ := generateSql_alike hnm ho
  refine ⟨?_, ?_, ?_⟩
  · simp only [GeneratedQuery.sqlText, hsql]
  · simp only [GeneratedQuery.countSqlText, hcountSql]
  · have hliterals : (us ++ [e]).filterMap (·.kind.param) = n.literals := by
      have heof : e.kind.param = none := he ▸ rfl
      rw [← derives_literals hsentence.1, List.filterMap_map, List.filterMap_append,
        List.filterMap_cons_none (f := fun t : Token => t.kind.param) heof]
      exact List.append_nil _
    rw [hliterals, ← scopedWhere_params]
    rfl

def sectorCondition (s : String) : Condition where
  fieldName := "sector"
  operator := .compare .eq
  value := .text s
  fieldDef := ⟨.ci, "sector", .text, "Sector", "Identity"⟩
  known := rfl
  allowed := List.mem_cons_self
  fits := rfl

theorem hostileSector_same_text :
    (generateSql (.condition (sectorCondition "Energy")) {}).sqlText =
        (generateSql (.condition (sectorCondition "'; DROP --")) {}).sqlText ∧
      (generateSql (.condition (sectorCondition "Energy")) {}).countSqlText =
        (generateSql (.condition (sectorCondition "'; DROP --")) {}).countSqlText ∧
      (generateSql (.condition (sectorCondition "Energy")) {}).params =
        [.text "Energy", .ofNat 25, .ofNat 0] := by
  have hts : tokenize .ascii "sector = \"Energy\"".toList =
      .ok [⟨.field "sector".toList, 0⟩, ⟨.op .eq, 7⟩, ⟨.valueStr "Energy".toList, 9⟩,
        ⟨.eof, 17⟩] := by decide +kernel
  have hts' : tokenize .ascii "sector = \"'; DROP --\"".toList =
      .ok [⟨.field "sector".toList, 0⟩, ⟨.op .eq, 7⟩, ⟨.valueStr "'; DROP --".toList, 9⟩,
        ⟨.eof, 21⟩] := by decide +kernel
  have hn : parseQuery .ascii "sector = \"Energy\"".toList =
      .ok (.condition (sectorCondition "Energy")) := by decide +kernel
  have hn' : parseQuery .ascii "sector = \"'; DROP --\"".toList =
      .ok (.condition (sectorCondition "'; DROP --")) := by decide +kernel
  exact generateSql_text_eq hts hts'
    (.cons (.same _) (.cons (.same _) (.cons (.string _ _) (.cons (.same _) .nil)))) hn hn'
    ⟨rfl, rfl, rfl, rfl, rfl, rfl⟩

end Literals

end AsetPlatform.ScreenQL

import AsetPlatform.Library.Rows
import AsetPlatform.Library.Text
import Mathlib.Algebra.Order.Field.Rat

/-!
# Quarterly results

`insert_quarterly_results` of `stocks/repository.py` replaces the rows of a ticker by their quarter and
statement type, and keeps the others. Step 3c of `batch_data_refresh` in `backend/jobs/batch_refresh.py`
writes the rows of many tickers at once: it deletes all rows of the tickers and appends what came back.
A failed delete is ignored.

`batch_perm_upserts_iff` says when the two leave the same rows.
-/

set_option autoImplicit false

namespace AsetPlatform.StockData.Quarterly

open AsetPlatform.Library

/-! ## Rows -/

/-- A cell of a metric column. -/
inductive Cell where
  | null
  | nan
  | inf (negative : Bool)
  | finite (value : ℚ)
  deriving DecidableEq

/-- `_sf` of the batch refresh. -/
def Cell.sf : Cell → Cell
  | .null => .null
  | .nan => .null
  | .inf negative => .inf negative
  | .finite value => .finite value

/-- `_safe_float` of the repository. -/
def Cell.safeFloat : Cell → Cell
  | .null => .null
  | .nan => .null
  | .inf _ => .null
  | .finite value => .finite value

/-- A row, with its metric columns in the order of the schema. -/
structure QuarterRow where
  ticker : String
  quarterEnd : Nat
  fiscalYear : Option Int
  fiscalQuarter : String
  statementType : String
  metrics : List Cell
  updatedAt : Nat
  deriving DecidableEq

namespace QuarterRow

/-- `(quarter_end, statement_type)` -/
def key (r : QuarterRow) : Nat × String := (r.quarterEnd, r.statementType)

def fullKey (r : QuarterRow) : String × Nat × String := (r.ticker, r.key)

def written (clean : Cell → Cell) (now : Nat) (r : QuarterRow) : QuarterRow :=
  { r with metrics := r.metrics.map clean, updatedAt := now }

/-- No cell is infinite. -/
def Finite (r : QuarterRow) : Prop := ∀ cell ∈ r.metrics, ∀ negative, cell ≠ .inf negative

end QuarterRow

/-- The statement rows that the source returns for a ticker. Tickers are in upper case, and
`_extract_statement` puts the ticker into each row. -/
structure Result where
  ticker : String
  rows : List QuarterRow
  upper : asciiUpper ticker = ticker
  own : ∀ r ∈ rows, r.ticker = ticker

def answered (results : List Result) : List Result := results.filter fun r => !r.rows.isEmpty

/-! ## The two writes -/

section Writes

variable (now : Nat) (t : List QuarterRow) (results : List Result)

def insertQuarterlyResults (ticker : String) (df : List QuarterRow) : List QuarterRow :=
  let ticker := asciiUpper ticker
  let existing := t.filter (·.ticker = ticker)
  let kept := existing.filter fun r => r.key ∉ df.map QuarterRow.key
  t.filter (·.ticker ≠ ticker) ++ (kept ++ df).map (QuarterRow.written Cell.safeFloat now)

/-- `insert_quarterly_results` of each ticker's rows. -/
def upserts : List QuarterRow :=
  (answered results).foldl (fun t r => insertQuarterlyResults now t r.ticker r.rows) t

/-- `combined_qtr` -/
def combined : List QuarterRow := (answered results).flatMap Result.rows

/-- `affected` -/
def affected : List String := (answered results).map Result.ticker

/-- Step 3c, and whether its delete fails. -/
def batchWrite (deleteFails : Bool) : List QuarterRow :=
  -- the delete and the append are skipped when no ticker answered
  if answered results = [] then t
  else
    let t' := if deleteFails then t else t.filter (·.ticker ∉ affected results)
    t' ++ (combined results).map (QuarterRow.written Cell.sf now)

/-- No key is returned for a ticker twice over, no returned cell is infinite, and each stored row of
the tickers is returned. When the delete fails none of them is, and each is as a write would leave it. -/
structure Agrees (deleteFails : Bool) : Prop where
  once : (answered results).Pairwise fun r r' =>
    ∀ row ∈ r.rows, row.fullKey ∉ r'.rows.map QuarterRow.fullKey
  finite : ∀ row ∈ combined results, row.Finite
  stored : ∀ row ∈ t, row.ticker ∈ affected results →
    if deleteFails then
      row.fullKey ∉ (combined results).map QuarterRow.fullKey ∧
        row.written Cell.safeFloat now = row
    else row.fullKey ∈ (combined results).map QuarterRow.fullKey

end Writes

/-! ## Cells and rows -/

theorem Cell.safeFloat_idem (cell : Cell) : cell.safeFloat.safeFloat = cell.safeFloat := by
  cases cell <;> rfl

theorem Cell.sf_eq_safeFloat_iff (cell : Cell) :
    cell.sf = cell.safeFloat ↔ ∀ negative, cell ≠ .inf negative := by
  cases cell <;> simp [Cell.sf, Cell.safeFloat]

theorem Cell.safeFloat_ne_inf (cell : Cell) (negative : Bool) : cell.safeFloat ≠ .inf negative := by
  cases cell <;> simp [Cell.safeFloat]

namespace QuarterRow

variable {clean : Cell → Cell} {now : Nat} {r : QuarterRow}

@[simp]
theorem written_ticker : (r.written clean now).ticker = r.ticker := rfl

@[simp]
theorem written_key : (r.written clean now).key = r.key := rfl

@[simp]
theorem written_fullKey : (r.written clean now).fullKey = r.fullKey := rfl

theorem written_safeFloat_idem :
    (r.written Cell.safeFloat now).written Cell.safeFloat now = r.written Cell.safeFloat now := by
  simp [written, Cell.safeFloat_idem]

theorem finite_written_safeFloat : (r.written Cell.safeFloat now).Finite := by
  intro cell hcell negative
  obtain ⟨cell', -, rfl⟩ := List.mem_map.mp hcell
  exact Cell.safeFloat_ne_inf cell' negative

theorem finite_written_sf_iff : (r.written Cell.sf now).Finite ↔ r.Finite := by
  constructor
  · intro h cell hcell negative hinf
    apply h cell.sf (List.mem_map_of_mem hcell) negative
    rw [hinf]
    rfl
  · intro h cell hcell negative hinf
    obtain ⟨cell', hmem, rfl⟩ := List.mem_map.mp hcell
    apply h cell' hmem negative
    cases cell' with
    | null => cases hinf
    | nan => cases hinf
    | inf negative' => exact hinf
    | finite value => cases hinf

theorem Finite.written_eq (h : r.Finite) :
    r.written Cell.sf now = r.written Cell.safeFloat now := by
  have hcells : r.metrics.map Cell.sf = r.metrics.map Cell.safeFloat := by
    apply List.map_congr_left
    intro cell hcell
    exact (Cell.sf_eq_safeFloat_iff cell).mpr (h cell hcell)
  rw [written, written, hcells]

end QuarterRow

/-! ## The keys that are returned -/

section Keys

def keysOf (rs : List Result) : List (String × Nat × String) :=
  (rs.flatMap Result.rows).map QuarterRow.fullKey

/-- The rows that no later result returns again. -/
def survivors : List Result → List QuarterRow
  | [] => []
  | r :: rs => (r.rows.filter fun row => row.fullKey ∉ keysOf rs) ++ survivors rs

variable {r : Result} {rs : List Result} {row : QuarterRow}

theorem mem_fullKeys_iff : row.fullKey ∈ r.rows.map QuarterRow.fullKey ↔
    row.ticker = r.ticker ∧ row.key ∈ r.rows.map QuarterRow.key := by
  rw [List.mem_map, List.mem_map]
  constructor
  · rintro ⟨row', hrow', hkey⟩
    obtain ⟨hticker, hkey⟩ := Prod.mk.inj hkey
    exact ⟨hticker.symm.trans (r.own row' hrow'), row', hrow', hkey⟩
  · rintro ⟨hticker, row', hrow', hkey⟩
    exact ⟨row', hrow', Prod.ext ((r.own row' hrow').trans hticker.symm) hkey⟩

theorem keysOf_cons : keysOf (r :: rs) = r.rows.map QuarterRow.fullKey ++ keysOf rs := by
  rw [keysOf, List.flatMap_cons, List.map_append]
  rfl

theorem mem_keysOf_iff : row.fullKey ∈ keysOf rs ↔
    ∃ r ∈ rs, row.fullKey ∈ r.rows.map QuarterRow.fullKey := by
  induction rs with
  | nil => simp [keysOf]
  | cons r rs ih =>
    rw [keysOf_cons, List.mem_append, ih]
    simp only [List.mem_cons, exists_eq_or_imp]

theorem ticker_mem_of_key_mem (h : row.fullKey ∈ keysOf rs) :
    row.ticker ∈ rs.map Result.ticker := by
  obtain ⟨r, hr, hkey⟩ := mem_keysOf_iff.mp h
  rw [(mem_fullKeys_iff.mp hkey).1]
  exact List.mem_map_of_mem hr

theorem survivors_sublist (rs : List Result) : (survivors rs).Sublist (rs.flatMap Result.rows) := by
  induction rs with
  | nil => exact List.Sublist.refl _
  | cons r rs ih =>
    rw [survivors, List.flatMap_cons]
    exact List.filter_sublist.append ih

theorem survivors_eq_iff : survivors rs = rs.flatMap Result.rows ↔
    rs.Pairwise fun r r' => ∀ row ∈ r.rows, row.fullKey ∉ r'.rows.map QuarterRow.fullKey := by
  induction rs with
  | nil => simp [survivors]
  | cons r rs ih =>
    rw [survivors, List.flatMap_cons, List.pairwise_cons, ← ih]
    have hown : (r.rows.filter fun row => row.fullKey ∉ keysOf rs) = r.rows ↔
        ∀ r' ∈ rs, ∀ row ∈ r.rows, row.fullKey ∉ r'.rows.map QuarterRow.fullKey := by
      rw [List.filter_eq_self]
      simp only [decide_eq_true_eq, mem_keysOf_iff, not_exists, not_and]
      exact ⟨fun h r' hr' row hrow => h row hrow r' hr', fun h row hrow r' hr' => h r' hr' row hrow⟩
    rw [← hown]
    constructor
    · intro h
      -- the parts are sublists, so equal lengths make both of them whole
      have hlength := congrArg List.length h
      rw [List.length_append, List.length_append] at hlength
      have hfirst := (List.filter_sublist (l := r.rows)
        (p := fun row => decide (row.fullKey ∉ keysOf rs))).length_le
      have hrest := (survivors_sublist rs).length_le
      refine ⟨List.filter_sublist.eq_of_length (by omega),
        (survivors_sublist _).eq_of_length (by omega)⟩
    · rintro ⟨hfirst, hrest⟩
      rw [hfirst, hrest]

end Keys

/-! ## Upserts one after the other -/

section Upserts

variable {now : Nat} {t : List QuarterRow} {r : Result} {rs : List Result}

theorem insertQuarterlyResults_eq :
    insertQuarterlyResults now t r.ticker r.rows =
      t.filter (·.ticker ≠ r.ticker) ++
        ((t.filter fun row => row.ticker = r.ticker ∧ row.fullKey ∉ r.rows.map QuarterRow.fullKey) ++
          r.rows).map (QuarterRow.written Cell.safeFloat now) := by
  rw [insertQuarterlyResults, r.upper, List.filter_filter]
  congr 3
  apply List.filter_congr
  intro row _
  rw [← Bool.decide_and]
  apply decide_eq_decide.mpr
  rw [mem_fullKeys_iff, not_and]
  tauto

/-- The rows of a table that upserts keep, of the tickers that are upserted. -/
def keptRows (t : List QuarterRow) (rs : List Result) : List QuarterRow :=
  t.filter fun row => row.ticker ∈ rs.map Result.ticker ∧ row.fullKey ∉ keysOf rs

/-- Those of other tickers. -/
def otherRows (t : List QuarterRow) (rs : List Result) : List QuarterRow :=
  t.filter fun row => row.ticker ∉ rs.map Result.ticker

theorem otherRows_append (t t' : List QuarterRow) :
    otherRows (t ++ t') rs = otherRows t rs ++ otherRows t' rs := List.filter_append _ _

theorem keptRows_append (t t' : List QuarterRow) :
    keptRows (t ++ t') rs = keptRows t rs ++ keptRows t' rs := List.filter_append _ _

theorem otherRows_map :
    otherRows (t.map (QuarterRow.written Cell.safeFloat now)) rs =
      (otherRows t rs).map (QuarterRow.written Cell.safeFloat now) := List.filter_map

theorem keptRows_map :
    keptRows (t.map (QuarterRow.written Cell.safeFloat now)) rs =
      (keptRows t rs).map (QuarterRow.written Cell.safeFloat now) := List.filter_map

theorem perm_other_kept (t : List QuarterRow) (rs : List Result) :
    (otherRows t rs ++ keptRows t rs).Perm (t.filter fun row => row.fullKey ∉ keysOf rs) := by
  refine (perm_filter_or t ?_).trans (List.Perm.of_eq ?_)
  · intro row _ hother
    rw [decide_eq_true_eq] at hother
    rw [decide_eq_false_iff_not]
    exact fun hkept => hother hkept.1
  · apply List.filter_congr
    intro row _
    rw [← Bool.decide_or]
    apply decide_eq_decide.mpr
    have hticker : row.fullKey ∈ keysOf rs → row.ticker ∈ rs.map Result.ticker :=
      ticker_mem_of_key_mem
    tauto

theorem otherRows_cons :
    otherRows (t.filter (·.ticker ≠ r.ticker)) rs = otherRows t (r :: rs) := by
  rw [otherRows, otherRows, List.filter_filter]
  apply List.filter_congr
  intro row _
  rw [← Bool.decide_and]
  apply decide_eq_decide.mpr
  rw [List.map_cons, List.mem_cons, not_or]
  tauto

theorem perm_keptRows_cons :
    (keptRows (t.filter (·.ticker ≠ r.ticker)) rs ++
      (t.filter fun row => row.ticker = r.ticker ∧
        row.fullKey ∉ r.rows.map QuarterRow.fullKey).filter fun row => row.fullKey ∉ keysOf rs).Perm
      (keptRows t (r :: rs)) := by
  rw [keptRows, keptRows, List.filter_filter, List.filter_filter]
  refine (perm_filter_or t ?_).trans (List.Perm.of_eq ?_)
  · intro row _ hother
    rw [Bool.and_eq_true, decide_eq_true_eq, decide_eq_true_eq] at hother
    rw [← Bool.decide_and, decide_eq_false_iff_not]
    exact fun hown => hother.2 hown.2.1
  · apply List.filter_congr
    intro row _
    rw [← Bool.decide_and, ← Bool.decide_and, ← Bool.decide_or]
    apply decide_eq_decide.mpr
    rw [List.map_cons, List.mem_cons, keysOf_cons, List.mem_append, mem_fullKeys_iff]
    have hticker : row.fullKey ∈ keysOf rs → row.ticker ∈ rs.map Result.ticker :=
      ticker_mem_of_key_mem
    tauto

theorem perm_rows_cons :
    (otherRows ((t.filter fun row => row.ticker = r.ticker ∧
        row.fullKey ∉ r.rows.map QuarterRow.fullKey) ++ r.rows) rs ++
      (keptRows (t.filter (·.ticker ≠ r.ticker)) rs ++
        keptRows ((t.filter fun row => row.ticker = r.ticker ∧
          row.fullKey ∉ r.rows.map QuarterRow.fullKey) ++ r.rows) rs ++ survivors rs)).Perm
      (keptRows t (r :: rs) ++ survivors (r :: rs)) := by
  generalize hown : (t.filter fun row => row.ticker = r.ticker ∧
    row.fullKey ∉ r.rows.map QuarterRow.fullKey) = own
  generalize hothers : keptRows (t.filter (·.ticker ≠ r.ticker)) rs = others
  have hkept : (others ++ own.filter fun row => row.fullKey ∉ keysOf rs).Perm
      (keptRows t (r :: rs)) := by
    rw [← hown, ← hothers]
    exact perm_keptRows_cons
  calc otherRows (own ++ r.rows) rs ++ (others ++ keptRows (own ++ r.rows) rs ++ survivors rs)
      = otherRows (own ++ r.rows) rs ++ (others ++ (keptRows (own ++ r.rows) rs ++ survivors rs)) :=
        by rw [List.append_assoc others]
    List.Perm _ (others ++ (otherRows (own ++ r.rows) rs ++
        (keptRows (own ++ r.rows) rs ++ survivors rs))) := List.perm_append_comm_assoc _ _ _
    _ = others ++ (otherRows (own ++ r.rows) rs ++ keptRows (own ++ r.rows) rs ++
        survivors rs) := by rw [List.append_assoc (otherRows _ _)]
    List.Perm _ (others ++ (((own ++ r.rows).filter fun row => row.fullKey ∉ keysOf rs) ++
        survivors rs)) := ((perm_other_kept _ rs).append_right _).append_left _
    _ = (others ++ own.filter fun row => row.fullKey ∉ keysOf rs) ++ survivors (r :: rs) := by
        rw [List.filter_append, survivors, List.append_assoc, List.append_assoc]
    List.Perm _ (keptRows t (r :: rs) ++ survivors (r :: rs)) := hkept.append_right _

/-- Upserts leave other tickers' rows, keep what is not returned, and write what is returned last. -/
theorem perm_upserts (rs : List Result) (t : List QuarterRow) :
    (rs.foldl (fun t r => insertQuarterlyResults now t r.ticker r.rows) t).Perm
      (otherRows t rs ++
        (keptRows t rs ++ survivors rs).map (QuarterRow.written Cell.safeFloat now)) := by
  induction rs generalizing t with
  | nil => simp [otherRows, keptRows, survivors]
  | cons r rs ih =>
    rw [List.foldl_cons]
    refine (ih _).trans ?_
    rw [insertQuarterlyResults_eq, otherRows_append, keptRows_append, otherRows_cons, otherRows_map,
      keptRows_map]
    -- rows that several upserts keep are cleaned each time, which changes nothing more
    have hidem : ∀ rows : List QuarterRow,
        (rows.map (QuarterRow.written Cell.safeFloat now)).map
          (QuarterRow.written Cell.safeFloat now) =
          rows.map (QuarterRow.written Cell.safeFloat now) := by
      intro rows
      rw [List.map_map]
      apply List.map_congr_left
      intro row _
      exact QuarterRow.written_safeFloat_idem
    rw [List.map_append, List.map_append, hidem, List.append_assoc]
    apply List.Perm.append_left
    rw [← List.map_append, ← List.map_append, ← List.map_append]
    apply List.Perm.map
    exact perm_rows_cons

end Upserts

/-! ## The two compared -/

section Compare

variable {now : Nat} {t : List QuarterRow} {results : List Result}

theorem upserts_perm : (upserts now t results).Perm
    (otherRows t (answered results) ++
      (keptRows t (answered results) ++ survivors (answered results)).map
        (QuarterRow.written Cell.safeFloat now)) :=
  perm_upserts _ _

/-- Rows that are written in both ways are the same when none survives another and none is infinite,
and only then. -/
theorem written_perm_iff :
    ((combined results).map (QuarterRow.written Cell.sf now)).Perm
      ((survivors (answered results)).map (QuarterRow.written Cell.safeFloat now)) ↔
    (answered results).Pairwise (fun r r' =>
      ∀ row ∈ r.rows, row.fullKey ∉ r'.rows.map QuarterRow.fullKey) ∧
      ∀ row ∈ combined results, row.Finite := by
  rw [← survivors_eq_iff]
  constructor
  · intro hperm
    have hlength := hperm.length_eq
    rw [List.length_map, List.length_map] at hlength
    -- as many rows survive as are written, so all do
    have hall := (survivors_sublist _).eq_of_length hlength.symm
    refine ⟨hall, ?_⟩
    intro row hrow
    have hmem := hperm.mem_iff.mp (List.mem_map_of_mem hrow)
    obtain ⟨row', -, heq⟩ := List.mem_map.mp hmem
    apply QuarterRow.finite_written_sf_iff.mp
    rw [← heq]
    exact QuarterRow.finite_written_safeFloat
  -- `_sf` and `_safe_float` differ on infinite cells only
  · rintro ⟨hall, hfinite⟩
    rw [hall]
    apply List.Perm.of_eq
    apply List.map_congr_left
    intro row hrow
    exact (hfinite row hrow).written_eq

theorem batchWrite_eq (deleteFails : Bool) :
    batchWrite now t results deleteFails =
      (if deleteFails then t else otherRows t (answered results)) ++
        (combined results).map (QuarterRow.written Cell.sf now) := by
  rw [batchWrite]
  by_cases hnone : answered results = []
  · rw [if_pos hnone, otherRows, combined, hnone]
    simp
  · rw [if_neg hnone]
    rfl

theorem mem_keptRows {row : QuarterRow} :
    row ∈ keptRows t (answered results) ↔ row ∈ t ∧ row.ticker ∈ affected results ∧
      row.fullKey ∉ (combined results).map QuarterRow.fullKey := by
  rw [keptRows, List.mem_filter, decide_eq_true_eq]
  rfl

theorem key_of_mem_written {clean : Cell → Cell} {rows : List QuarterRow}
    (hrows : ∀ row ∈ rows, row ∈ combined results) {row : QuarterRow}
    (hrow : row ∈ rows.map (QuarterRow.written clean now)) :
    row.fullKey ∈ (combined results).map QuarterRow.fullKey := by
  obtain ⟨row', hmem, rfl⟩ := List.mem_map.mp hrow
  exact List.mem_map.mpr ⟨row', hrows row' hmem, rfl⟩

theorem key_of_mem_kept {row : QuarterRow}
    (hrow : row ∈ (keptRows t (answered results)).map (QuarterRow.written Cell.safeFloat now)) :
    row.fullKey ∉ (combined results).map QuarterRow.fullKey := by
  obtain ⟨row', hmem, rfl⟩ := List.mem_map.mp hrow
  exact (mem_keptRows.mp hmem).2.2

theorem batch_perm_of_deleted :
    (batchWrite now t results false).Perm (upserts now t results) ↔ Agrees now t results false := by
  have hnone : keptRows t (answered results) = [] ↔ ∀ row ∈ t, row.ticker ∈ affected results →
      row.fullKey ∈ (combined results).map QuarterRow.fullKey := by
    rw [List.eq_nil_iff_forall_not_mem]
    simp only [mem_keptRows, not_and, not_not]
  rw [batchWrite_eq, upserts_perm.congr_right, if_neg Bool.false_ne_true,
    List.perm_append_left_iff, List.map_append]
  constructor
  · intro hperm
    have hkept : keptRows t (answered results) = [] := by
      rw [List.eq_nil_iff_forall_not_mem]
      intro row hrow
      -- a kept row is among the written ones, whose keys are returned
      have hmem := List.mem_map_of_mem (f := QuarterRow.written Cell.safeFloat now) hrow
      exact key_of_mem_kept hmem (key_of_mem_written (fun _ h => h)
        (hperm.mem_iff.mpr (List.mem_append_left _ hmem)))
    rw [hkept] at hperm
    obtain ⟨honce, hfinite⟩ := written_perm_iff.mp hperm
    exact ⟨honce, hfinite, hnone.mp hkept⟩
  · intro h
    rw [hnone.mpr h.stored]
    exact written_perm_iff.mpr ⟨h.once, h.finite⟩

/-- The stored rows of the tickers. -/
def ownRows (t : List QuarterRow) (results : List Result) : List QuarterRow :=
  t.filter fun row => row.ticker ∈ affected results

theorem mem_ownRows {row : QuarterRow} :
    row ∈ ownRows t results ↔ row ∈ t ∧ row.ticker ∈ affected results := by
  rw [ownRows, List.mem_filter, decide_eq_true_eq]

theorem perm_other_own : (otherRows t (answered results) ++ ownRows t results).Perm t := by
  have hall := List.filter_append_perm (fun row => decide (row.ticker ∉ affected results)) t
  simp only [decide_not, Bool.not_not] at hall
  rw [otherRows]
  simp only [decide_not]
  exact hall

theorem keptRows_eq : keptRows t (answered results) =
    (ownRows t results).filter fun row =>
      row.fullKey ∉ (combined results).map QuarterRow.fullKey := by
  rw [keptRows, ownRows, List.filter_filter]
  apply List.filter_congr
  intro row _
  rw [← Bool.decide_and]
  exact decide_eq_decide.mpr And.comm

theorem batch_perm_of_failed :
    (batchWrite now t results true).Perm (upserts now t results) ↔ Agrees now t results true := by
  rw [batchWrite_eq, upserts_perm.congr_right, if_pos rfl,
    ← (perm_other_own.append_right _).congr_left, List.append_assoc, List.perm_append_left_iff,
    List.map_append]
  constructor
  · intro hperm
    obtain ⟨hreturned, hothers⟩ := perm_filter_parts hperm
      (p := fun row => decide (row.fullKey ∈ (combined results).map QuarterRow.fullKey))
      (fun row hrow => decide_eq_true (key_of_mem_written (fun _ h => h) hrow))
      (fun row hrow => decide_eq_false (key_of_mem_kept hrow))
      (fun row hrow =>
        decide_eq_true (key_of_mem_written (fun _ h => (survivors_sublist _).subset h) hrow))
    -- as many rows are written as survive, so that none of the stored ones is among them
    have hnone : ((ownRows t results).filter fun row =>
        row.fullKey ∈ (combined results).map QuarterRow.fullKey) = [] := by
      have hlength := hreturned.length_eq
      have hle := (survivors_sublist (answered results)).length_le
      rw [List.length_append, List.length_map, List.length_map] at hlength
      apply List.eq_nil_of_length_eq_zero
      change _ ≤ (combined results).length at hle
      omega
    rw [hnone, List.nil_append] at hreturned
    obtain ⟨honce, hfinite⟩ := written_perm_iff.mp hreturned
    refine ⟨honce, hfinite, ?_⟩
    intro row hrow hticker
    have hmem := mem_ownRows.mpr ⟨hrow, hticker⟩
    have hkey : row.fullKey ∉ (combined results).map QuarterRow.fullKey := by
      have := List.filter_eq_nil_iff.mp hnone row hmem
      simpa using this
    refine ⟨hkey, ?_⟩
    have hwritten := hothers.mem_iff.mp (List.mem_filter.mpr ⟨hmem, by simpa using hkey⟩)
    obtain ⟨row', -, rfl⟩ := List.mem_map.mp hwritten
    exact QuarterRow.written_safeFloat_idem
  · intro h
    have hstored : ∀ row ∈ ownRows t results,
        row.fullKey ∉ (combined results).map QuarterRow.fullKey ∧
          row.written Cell.safeFloat now = row := by
      intro row hrow
      obtain ⟨hmem, hticker⟩ := mem_ownRows.mp hrow
      exact h.stored row hmem hticker
    have hkept : (keptRows t (answered results)).map (QuarterRow.written Cell.safeFloat now) =
        ownRows t results := by
      rw [keptRows_eq, List.filter_eq_self.mpr fun row hrow => decide_eq_true (hstored row hrow).1]
      exact (List.map_congr_left fun row hrow => (hstored row hrow).2).trans (List.map_id _)
    rw [hkept]
    exact (written_perm_iff.mpr ⟨h.once, h.finite⟩).append_left _

/-- The batch write leaves the same rows as upserts of each ticker's rows if and only if no key is
returned twice over, no cell is infinite, and each stored row of the tickers is returned. When the
delete fails none of them may be, and each is to be as a write would leave it. -/
theorem batch_perm_upserts_iff (now : Nat) (t : List QuarterRow) (results : List Result)
    (deleteFails : Bool) :
    (batchWrite now t results deleteFails).Perm (upserts now t results) ↔
      Agrees now t results deleteFails := by
  cases deleteFails with
  | false => exact batch_perm_of_deleted
  | true => exact batch_perm_of_failed

end Compare

def incomeRow (quarterEnd : Nat) (revenue : ℚ) (updatedAt : Nat) : QuarterRow :=
  ⟨"TCS.NS", quarterEnd, some 2025, "Q1", "income", [.finite revenue], updatedAt⟩

/-- The source returns the quarter that ends on day 190, and no longer the one before. -/
def laterQuarter : Result where
  ticker := "TCS.NS"
  rows := [incomeRow 190 64 0]
  upper := by decide
  own := by decide

theorem earlier_quarter_lost :
    ¬∀ (now : Nat) (t : List QuarterRow) (results : List Result),
      (batchWrite now t results false).Perm (upserts now t results) := by
  intro hclaim
  have hperm := hclaim 200 [incomeRow 100 63 150] [laterQuarter]
  exact absurd hperm.length_eq (by decide)

end AsetPlatform.StockData.Quarterly

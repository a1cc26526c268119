import Mathlib.Data.Sum.Order
import Mathlib.Data.Nat.Cast.Order.Ring
import Mathlib.Algebra.Order.Ring.Rat
import Mathlib.Data.String.Basic
import AsetPlatform.Library.Paging

/-!
# Select statements and their three-valued meaning

A fragment of SQL: one base table, left joins, a condition with `$i` placeholders, and either a
count or an ordered and limited list of columns. Tables are named by an arbitrary type `τ`.

A statement has a text (`Select.text`), a condition that the grammar reads back as the tree it was
written from (`Expr.Readable`), a binding check (`Select.Bound`), and a meaning: `Select.matching`
are the joined rows for which the condition is true, neither false nor NULL, and `Select.Answers`
are the answers an engine may give, which leaves it the order of the rows that ORDER BY ties.
`Engine` is an engine that refuses the statements that do not bind and answers the others.
-/

set_option autoImplicit false

namespace AsetPlatform.Library.Sql

universe u

/-! ## Values and truth -/

/-- Values other than NULL. The number `⊤` is NaN, above every other number and equal to itself.
Columns are typed, so a number is never compared with a text. -/
inductive Value where
  | number (x : WithTop ℚ)
  | text (s : String)
  deriving DecidableEq

def Value.key : Value → WithTop ℚ ⊕ₗ String
  | .number x => .inlₗ x
  | .text s => .inrₗ s

theorem Value.key_injective : Function.Injective Value.key := by
  intro a b h
  cases a <;> cases b <;> simp_all [Value.key]

instance : LinearOrder Value := LinearOrder.lift' Value.key Value.key_injective

def Value.ofNat (n : Nat) : Value := .number ((n : ℚ) : WithTop ℚ)

/-- The number a LIMIT or an OFFSET reads from a value. -/
def Value.toCount? : Value → Option Nat
  | .number (some q) => if 0 ≤ q ∧ q.den = 1 then some q.num.toNat else none
  | _ => none

@[simp]
theorem Value.toCount?_ofNat (n : Nat) : (Value.ofNat n).toCount? = some n := by
  show (if 0 ≤ (n : ℚ) ∧ (n : ℚ).den = 1 then some (n : ℚ).num.toNat else none) = some n
  rw [if_pos ⟨Nat.cast_nonneg n, Rat.den_natCast n⟩, Rat.num_natCast, Int.toNat_natCast]

/-- Conjunction of truth values, `none` being unknown. -/
def and3 : Option Bool → Option Bool → Option Bool
  | some false, _ => some false
  | _, some false => some false
  | some true, some true => some true
  | _, _ => none

/-- Disjunction of truth values. -/
def or3 : Option Bool → Option Bool → Option Bool
  | some true, _ => some true
  | _, some true => some true
  | some false, some false => some false
  | _, _ => none

theorem and3_eq_true {a b : Option Bool} :
    and3 a b = some true ↔ a = some true ∧ b = some true := by
  rcases a with _ | _ | _ <;> rcases b with _ | _ | _ <;> decide

theorem or3_eq_true {a b : Option Bool} :
    or3 a b = some true ↔ a = some true ∨ b = some true := by
  rcases a with _ | _ | _ <;> rcases b with _ | _ | _ <;> decide

@[simp]
theorem and3_true (b : Option Bool) : and3 (some true) b = b := by
  rcases b with _ | _ | _ <;> rfl

@[simp]
theorem and3_some (a b : Bool) : and3 (some a) (some b) = some (a && b) := by
  cases a <;> cases b <;> rfl

@[simp]
theorem or3_some (a b : Bool) : or3 (some a) (some b) = some (a || b) := by
  cases a <;> cases b <;> rfl

/-- The comparison operators. -/
inductive Comparison where
  | gt | lt | ge | le | eq | ne
  deriving DecidableEq, Repr

namespace Comparison

def text : Comparison → String
  | gt => ">"
  | lt => "<"
  | ge => ">="
  | le => "<="
  | eq => "="
  | ne => "!="

def holds (o : Comparison) (a b : Value) : Bool :=
  match o with
  | gt => decide (b < a)
  | lt => decide (a < b)
  | ge => decide (b ≤ a)
  | le => decide (a ≤ b)
  | eq => decide (a = b)
  | ne => decide (a ≠ b)

/-- A comparison is unknown when one side is NULL. -/
def holds3 (o : Comparison) : Option Value → Option Value → Option Bool
  | some a, some b => some (o.holds a b)
  | _, _ => none

theorem holds3_eq_true {o : Comparison} {a b : Option Value} :
    o.holds3 a b = some true ↔ ∃ x y, a = some x ∧ b = some y ∧ o.holds x y = true := by
  cases a <;> cases b <;> simp [holds3]

end Comparison

/-! ## Rows and conditions -/

/-- The cells of a row by the name of their column, `none` being NULL. -/
abbrev Row := String → Option Value

/-- A result row: the named columns in order. -/
abbrev Record := List (String × Option Value)

/-- The rows of each table that exists. -/
abbrev Database (τ : Type u) := τ → Option (List Row)

variable {τ : Type u}

/-- A column with its table. -/
structure Column (τ : Type u) where
  table : τ
  name : String
  deriving DecidableEq

/-- A row of a join: the row of each joined table, none where a left join found no partner. -/
abbrev Joined (τ : Type u) := τ → Option Row

def Joined.cell (j : Joined τ) (c : Column τ) : Option Value := (j c.table).bind fun r => r c.name

/-- The value of the placeholder `$i`. -/
def placeholder (ps : List Value) (i : Nat) : Option Value := if i = 0 then none else ps[i - 1]?

/-- Conditions. `existsIn l r c i` is `EXISTS (SELECT 1 FROM t WHERE l = r AND c = $i)` for the
table `t` of `l`, and `paren` are the brackets of the text. -/
inductive Expr (τ : Type u) where
  | isNotNull (c : Column τ)
  | compare (c : Column τ) (o : Comparison) (i : Nat)
  | isIn (c : Column τ) (is : List Nat)
  | existsIn (l r c : Column τ) (i : Nat)
  | and (a b : Expr τ)
  | or (a b : Expr τ)
  | paren (a : Expr τ)
  deriving DecidableEq

namespace Expr

/-- The placeholders of a condition. -/
def placeholders : Expr τ → List Nat
  | .isNotNull _ => []
  | .compare _ _ i => [i]
  | .isIn _ is => is
  | .existsIn _ _ _ i => [i]
  | .and a b => a.placeholders ++ b.placeholders
  | .or a b => a.placeholders ++ b.placeholders
  | .paren a => a.placeholders

/-- The tables of the columns a condition reads from the row at hand. -/
def tables : Expr τ → List τ
  | .isNotNull c => [c.table]
  | .compare c _ _ => [c.table]
  | .isIn c _ => [c.table]
  | .existsIn _ r _ _ => [r.table]
  | .and a b => a.tables ++ b.tables
  | .or a b => a.tables ++ b.tables
  | .paren a => a.tables

/-- The tables a condition reads in subqueries. -/
def subqueryTables : Expr τ → List τ
  | .existsIn l _ _ _ => [l.table]
  | .and a b => a.subqueryTables ++ b.subqueryTables
  | .or a b => a.subqueryTables ++ b.subqueryTables
  | .paren a => a.subqueryTables
  | _ => []

/-- How tightly the outermost operator of a condition binds. -/
def rank : Expr τ → Nat
  | .or _ _ => 0
  | .and _ _ => 1
  | _ => 2

/-- The grammar reads the text of the condition as this tree: AND binds tighter than OR, both group
to the left, and a list of values is not empty. -/
def Readable : Expr τ → Prop
  | .isIn _ is => is ≠ []
  | .and a b => a.Readable ∧ b.Readable ∧ 1 ≤ a.rank ∧ 2 ≤ b.rank
  | .or a b => a.Readable ∧ b.Readable ∧ 1 ≤ b.rank
  | .paren a => a.Readable
  | _ => True

variable [DecidableEq τ]

/-- The truth value of a condition on a joined row. -/
def eval (db : Database τ) (ps : List Value) (j : Joined τ) : Expr τ → Option Bool
  | .isNotNull c => some (j.cell c).isSome
  | .compare c o i => o.holds3 (j.cell c) (placeholder ps i)
  | .isIn c is =>
      is.foldr (fun i t => or3 (Comparison.eq.holds3 (j.cell c) (placeholder ps i)) t) (some false)
  | .existsIn l r c i =>
      some (((db l.table).getD []).any fun row =>
        let k : Joined τ := Function.update j l.table (some row)
        and3 (Comparison.eq.holds3 (k.cell l) (k.cell r))
          (Comparison.eq.holds3 (k.cell c) (placeholder ps i)) = some true)
  | .and a b => and3 (a.eval db ps j) (b.eval db ps j)
  | .or a b => or3 (a.eval db ps j) (b.eval db ps j)
  | .paren a => a.eval db ps j

theorem eval_isIn_eq_true {db : Database τ} {ps : List Value} {j : Joined τ} {c : Column τ}
    {is : List Nat} :
    (Expr.isIn c is).eval db ps j = some true ↔
      ∃ i ∈ is, ∃ v, j.cell c = some v ∧ placeholder ps i = some v := by
  induction is with
  | nil => simp [eval]
  | cons i is ih =>
      have hcons : (Expr.isIn c (i :: is)).eval db ps j =
          or3 (Comparison.eq.holds3 (j.cell c) (placeholder ps i))
            ((Expr.isIn c is).eval db ps j) := rfl
      rw [hcons, or3_eq_true, ih, Comparison.holds3_eq_true]
      constructor
      · rintro (⟨x, y, hx, hy, hxy⟩ | ⟨k, hk, v, hv⟩)
        · have hsame : x = y := of_decide_eq_true hxy
          exact ⟨i, List.mem_cons_self, x, hx, hsame ▸ hy⟩
        · exact ⟨k, List.mem_cons_of_mem i hk, v, hv⟩
      · rintro ⟨k, hk, v, hv, hp⟩
        rcases List.mem_cons.1 hk with rfl | hk
        · exact Or.inl ⟨v, v, hv, hp, decide_eq_true rfl⟩
        · exact Or.inr ⟨k, hk, v, hv, hp⟩

end Expr

/-! ## Statements -/

inductive Direction where
  | asc
  | desc
  deriving DecidableEq, Repr

def Direction.text : Direction → String
  | .asc => "ASC"
  | .desc => "DESC"

/-- The order of ORDER BY with NULLS LAST. -/
def Direction.precedes (d : Direction) : Option Value → Option Value → Bool
  | _, none => true
  | none, some _ => false
  | some a, some b =>
      match d with
      | .asc => decide (a ≤ b)
      | .desc => decide (b ≤ a)

/-- What a statement returns: columns, each under its own name or under a given one, or the number
of rows. -/
inductive Output (τ : Type u) where
  | columns (cs : List (Column τ × Option String))
  | count (name : String)
  deriving DecidableEq

/-- `LEFT JOIN table ON left = right`. -/
structure Join (τ : Type u) where
  table : τ
  left : Column τ
  right : Column τ
  deriving DecidableEq

/-- A select statement. The tables of `ctes` are defined by its WITH clause, and `page` are the
placeholders of LIMIT and OFFSET. -/
structure Select (τ : Type u) where
  ctes : List τ
  output : Output τ
  base : τ
  joins : List (Join τ)
  condition : Expr τ
  order : Option (Column τ × Direction)
  page : Option (Nat × Nat)
  deriving DecidableEq

/-! ### Text -/

section Text

variable (name : τ → String)

def Column.text (c : Column τ) : String := name c.table ++ "." ++ c.name

def placeholderText (i : Nat) : String := "$" ++ toString i

def Expr.text : Expr τ → String
  | .isNotNull c => c.text name ++ " IS NOT NULL"
  | .compare c o i => c.text name ++ " " ++ o.text ++ " " ++ placeholderText i
  | .isIn c is => c.text name ++ " IN (" ++ ", ".intercalate (is.map placeholderText) ++ ")"
  | .existsIn l r c i =>
      "EXISTS (SELECT 1 FROM " ++ name l.table ++ " WHERE " ++ l.text name ++ " = " ++
        r.text name ++ " AND " ++ c.text name ++ " = " ++ placeholderText i ++ ")"
  | .and a b => a.text ++ " AND " ++ b.text
  | .or a b => a.text ++ " OR " ++ b.text
  | .paren a => "(" ++ a.text ++ ")"

def Output.text : Output τ → String
  | .columns cs => ", ".intercalate (cs.map fun c =>
      match c.2 with
      | none => c.1.text name
      | some shown => c.1.text name ++ " AS " ++ shown)
  | .count shown => "COUNT(*) AS " ++ shown

def Join.text (j : Join τ) : String :=
  "LEFT JOIN " ++ name j.table ++ " ON " ++ j.left.text name ++ " = " ++ j.right.text name

/-- The text of a statement. `cte` is the definition of a table in the WITH clause. -/
def Select.text (cte : τ → String) (s : Select τ) : String :=
  "WITH " ++ ",\n".intercalate (s.ctes.map cte) ++ "\nSELECT " ++ s.output.text name ++
    "\nFROM " ++ name s.base ++ "\n" ++ "\n".intercalate (s.joins.map (Join.text name)) ++
    "\nWHERE " ++ s.condition.text name ++
    (match s.order with
      | none => ""
      | some (c, d) => "\nORDER BY " ++ c.text name ++ " " ++ d.text ++ " NULLS LAST") ++
    (match s.page with
      | none => ""
      | some (l, o) => "\nLIMIT " ++ placeholderText l ++ " OFFSET " ++ placeholderText o)

end Text

/-! ### Binding -/

namespace Select

variable (s : Select τ)

/-- The tables of the FROM clause. -/
def fromTables : List τ := s.base :: s.joins.map (·.table)

/-- The tables whose columns the SELECT list, the ON and WHERE conditions and ORDER BY name. -/
def usedTables : List τ :=
  (match s.output with
    | .columns cs => cs.map (·.1.table)
    | .count _ => []) ++
  s.joins.flatMap (fun j => [j.left.table, j.right.table]) ++ s.condition.tables ++
  (s.order.map (·.1.table)).toList

/-- The placeholders of a statement. -/
def placeholders : List Nat :=
  s.condition.placeholders ++
    match s.page with
    | none => []
    | some (l, o) => [l, o]

/-- An engine can bind the statement: the tables it uses are in its FROM clause, those and the
tables of subqueries are defined by its WITH clause over tables that exist, its placeholders are
`$1` to `$n` for the `n` parameters passed, and LIMIT and OFFSET get numbers. -/
structure Bound (db : Database τ) (ps : List Value) : Prop where
  used : ∀ t ∈ s.usedTables, t ∈ s.fromTables
  defined : ∀ t ∈ s.fromTables ++ s.condition.subqueryTables, t ∈ s.ctes
  exist : ∀ t ∈ s.ctes, (db t).isSome = true
  passed : ∀ i ∈ s.placeholders, 1 ≤ i ∧ i ≤ ps.length
  needed : ∀ i ∈ List.range' 1 ps.length, i ∈ s.placeholders
  counts : ∀ p ∈ s.page, ∀ i ∈ [p.1, p.2], ((placeholder ps i).bind Value.toCount?).isSome = true

end Select

/-! ### Meaning -/

section Meaning

variable [DecidableEq τ] (db : Database τ)

/-- The rows of a table, each as a join of one table. -/
def single (t : τ) : List (Joined τ) :=
  ((db t).getD []).map fun r => Function.update (fun _ => none) t (some r)

/-- The partners of a joined row in the table of a left join. -/
def Join.partners (n : Join τ) (j : Joined τ) : List (Joined τ) :=
  (((db n.table).getD []).map fun r => Function.update j n.table (some r)).filter fun k =>
    Comparison.eq.holds3 (k.cell n.left) (k.cell n.right) = some true

/-- A left join keeps a row that has no partner. -/
def leftJoin (rows : List (Joined τ)) (n : Join τ) : List (Joined τ) :=
  rows.flatMap fun j =>
    match n.partners db j with
    | [] => [j]
    | k :: ks => k :: ks

namespace Select

variable (s : Select τ) (ps : List Value)

/-- The rows of the FROM clause. -/
def source : List (Joined τ) := s.joins.foldl (leftJoin db) (single db s.base)

/-- The rows for which the condition is true. -/
def matching : List (Joined τ) :=
  (s.source db).filter fun j => s.condition.eval db ps j = some true

/-- The result row of a joined row. -/
def project (cs : List (Column τ × Option String)) (j : Joined τ) : Record :=
  cs.map fun c => (c.2.getD c.1.name, j.cell c.1)

/-- The rows LIMIT and OFFSET keep. -/
def window {α : Type u} (rows : List α) : List α :=
  match s.page with
  | none => rows
  | some (l, o) =>
      (rows.drop (((placeholder ps o).bind Value.toCount?).getD 0)).take
        (((placeholder ps l).bind Value.toCount?).getD 0)

/-- The rows stand in an order that ORDER BY allows. -/
def Ordered (rows : List (Joined τ)) : Prop :=
  ∀ o ∈ s.order, rows.Pairwise fun j k => o.2.precedes (j.cell o.1) (k.cell o.1) = true

/-- The answers to a statement. Rows that ORDER BY ties may come in any order. -/
def Answers (rows : List Record) : Prop :=
  match s.output with
  | .count name => rows = [[(name, some (.ofNat (s.matching db ps).length))]]
  | .columns cs => ∃ sorted : List (Joined τ), sorted.Perm (s.matching db ps) ∧
      s.Ordered sorted ∧ rows = (s.window ps sorted).map (project cs)

end Select

end Meaning

/-! ## Engines -/

instance Select.Bound.decidable [DecidableEq τ] (s : Select τ) (db : Database τ)
    (ps : List Value) : Decidable (s.Bound db ps) :=
  decidable_of_iff
    ((∀ t ∈ s.usedTables, t ∈ s.fromTables) ∧
      (∀ t ∈ s.fromTables ++ s.condition.subqueryTables, t ∈ s.ctes) ∧
      (∀ t ∈ s.ctes, (db t).isSome = true) ∧
      (∀ i ∈ s.placeholders, 1 ≤ i ∧ i ≤ ps.length) ∧
      (∀ i ∈ List.range' 1 ps.length, i ∈ s.placeholders) ∧
      ∀ p ∈ s.page, ∀ i ∈ [p.1, p.2], ((placeholder ps i).bind Value.toCount?).isSome = true)
    ⟨fun ⟨h₁, h₂, h₃, h₄, h₅, h₆⟩ => ⟨h₁, h₂, h₃, h₄, h₅, h₆⟩,
      fun ⟨h₁, h₂, h₃, h₄, h₅, h₆⟩ => ⟨h₁, h₂, h₃, h₄, h₅, h₆⟩⟩

/-- An engine. A statement that does not bind raises an error (`none`), and any other whose text
reads back as its tree is answered. -/
structure Engine (τ : Type u) [DecidableEq τ] where
  execute : Database τ → Select τ → List Value → Option (List Record)
  answers : ∀ db s ps, s.condition.Readable → s.Bound db ps →
    ∃ rows, execute db s ps = some rows ∧ s.Answers db ps rows
  refuses : ∀ db s ps, ¬ s.Bound db ps → execute db s ps = none

section Answers

theorem Select.mem_of_mem_window {α : Type u} {s : Select τ} {ps : List Value} {rows : List α}
    {x : α} (h : x ∈ s.window ps rows) : x ∈ rows := by
  simp only [Select.window] at h
  split at h
  · exact h
  · exact List.mem_of_mem_drop (List.mem_of_mem_take h)

variable [DecidableEq τ] {db : Database τ} {s : Select τ} {ps : List Value}

theorem Select.mem_matching {j : Joined τ} :
    j ∈ s.matching db ps ↔ j ∈ s.source db ∧ s.condition.eval db ps j = some true := by
  simp only [Select.matching, List.mem_filter, decide_eq_true_eq]

theorem Select.Answers.of_columns {cs : List (Column τ × Option String)} {rows : List Record}
    (hout : s.output = .columns cs) (h : s.Answers db ps rows) {r : Record} (hr : r ∈ rows) :
    ∃ j ∈ s.matching db ps, r = Select.project cs j := by
  simp only [Select.Answers, hout] at h
  obtain ⟨sorted, hperm, -, hrows⟩ := h
  rw [hrows] at hr
  obtain ⟨j, hj, rfl⟩ := List.mem_map.1 hr
  exact ⟨j, hperm.mem_iff.1 (Select.mem_of_mem_window hj), rfl⟩

theorem Select.Answers.of_count {name : String} {rows : List Record}
    (hout : s.output = .count name) (h : s.Answers db ps rows) :
    rows = [[(name, some (.ofNat (s.matching db ps).length))]] := by
  simp only [Select.Answers, hout] at h
  exact h

theorem Direction.precedes_trans (d : Direction) (a b c : Option Value)
    (hab : d.precedes a b = true) (hbc : d.precedes b c = true) : d.precedes a c = true := by
  cases a <;> cases b <;> cases c <;> cases d <;> simp_all [Direction.precedes]
  · exact le_trans hab hbc
  · exact le_trans hbc hab

theorem Direction.precedes_total (d : Direction) (a b : Option Value) :
    (d.precedes a b || d.precedes b a) = true := by
  cases a <;> cases b <;> cases d <;> simp [Direction.precedes, le_total]

end Answers

section Reference

variable [DecidableEq τ] (db : Database τ) (s : Select τ) (ps : List Value)

/-- The matching rows, sorted stably by ORDER BY. -/
def Select.sorted : List (Joined τ) :=
  match s.order with
  | none => s.matching db ps
  | some o => (s.matching db ps).mergeSort fun j k => o.2.precedes (j.cell o.1) (k.cell o.1)

def Select.evaluate : List Record :=
  match s.output with
  | .count name => [[(name, some (.ofNat (s.matching db ps).length))]]
  | .columns cs => (s.window ps (s.sorted db ps)).map (Select.project cs)

theorem Select.sorted_perm : (s.sorted db ps).Perm (s.matching db ps) := by
  simp only [Select.sorted]
  split
  · exact List.Perm.refl _
  · exact List.mergeSort_perm _ _

theorem Select.sorted_ordered : s.Ordered (s.sorted db ps) := by
  intro o ho
  have horder : s.order = some o := ho
  simp only [Select.sorted, horder]
  apply List.pairwise_mergeSort
  · intro i j k
    exact o.2.precedes_trans (i.cell o.1) (j.cell o.1) (k.cell o.1)
  · intro i j
    exact o.2.precedes_total (i.cell o.1) (j.cell o.1)

theorem Select.evaluate_answers : s.Answers db ps (s.evaluate db ps) := by
  simp only [Select.Answers, Select.evaluate]
  split
  · rfl
  · exact ⟨s.sorted db ps, s.sorted_perm db ps, s.sorted_ordered db ps, rfl⟩

/-- The engine that sorts stably. -/
def Engine.stable : Engine τ where
  execute db s ps := if s.Bound db ps then some (s.evaluate db ps) else none
  answers db s ps _ hbound := ⟨s.evaluate db ps, if_pos hbound, s.evaluate_answers db ps⟩
  refuses _ _ _ hbound := if_neg hbound

/-- The rows that OFFSET skips. -/
def Select.offset : Nat :=
  match s.page with
  | none => 0
  | some (_, o) => ((placeholder ps o).bind Value.toCount?).getD 0

/-- The cell of a row by which a statement orders. -/
def Select.sortCell (o : Column τ × Direction) (j : Joined τ) : Option Value := j.cell o.1

/-- The matching rows in order. For pages from a position on, the rows around that position are
exchanged if ORDER BY ties them. -/
def Select.exchanged (b : Nat) : List (Joined τ) :=
  let rows := s.sorted db ps
  match s.order with
  | none => rows
  | some o =>
      let keys := rows.map (Select.sortCell o)
      if b ≤ s.offset ps ∧ 0 < b ∧ b < rows.length ∧ keys[b - 1]? = keys[b]? then swapAt b rows
      else rows

theorem Select.exchanged_perm (b : Nat) : (s.exchanged db ps b).Perm (s.matching db ps) := by
  have hsorted := s.sorted_perm db ps
  simp only [Select.exchanged]
  split
  · exact hsorted
  · split
    · exact (swapAt_perm b _).trans hsorted
    · exact hsorted

theorem Select.exchanged_ordered (b : Nat) : s.Ordered (s.exchanged db ps b) := by
  intro o ho
  have horder : s.order = some o := ho
  have hsorted : InOrder (Select.sortCell o) o.2.precedes (s.sorted db ps) :=
    s.sorted_ordered db ps o ho
  simp only [Select.exchanged, horder]
  split
  · rename_i h
    exact hsorted.swapAt h.2.1 h.2.2.1 h.2.2.2
  · exact hsorted

/-- The engine that exchanges the tied rows around a position for the pages from there on. -/
def Engine.exchanging (b : Nat) : Engine τ where
  execute db s ps :=
    if s.Bound db ps then
      match s.output with
      | .count name => some [[(name, some (.ofNat (s.matching db ps).length))]]
      | .columns cs => some ((s.window ps (s.exchanged db ps b)).map (Select.project cs))
    else none
  answers db s ps _ hbound := by
    simp only [if_pos hbound, Select.Answers]
    cases s.output with
    | count name => exact ⟨_, rfl, rfl⟩
    | columns cs =>
        exact ⟨_, rfl, _, s.exchanged_perm db ps b, s.exchanged_ordered db ps b, rfl⟩
  refuses _ _ _ hbound := if_neg hbound

end Reference

/-! ## Orders -/

theorem Direction.precedes_refl (d : Direction) (a : Option Value) : d.precedes a a = true := by
  have htotal := d.precedes_total a a
  rwa [Bool.or_self] at htotal

theorem Direction.precedes_antisymm (d : Direction) (a b : Option Value)
    (hab : d.precedes a b = true) (hba : d.precedes b a = true) : a = b := by
  cases a <;> cases b <;> cases d <;> simp_all [Direction.precedes]
  · exact le_antisymm hab hba
  · exact le_antisymm hba hab

end AsetPlatform.Library.Sql

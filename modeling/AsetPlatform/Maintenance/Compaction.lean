import AsetPlatform.Library.Run
import Mathlib.Data.List.Perm.Basic

/-!
# Compaction

`compact_table` of `backend/maintenance/iceberg_maintenance.py` reads all rows of a table through
DuckDB (`backend/db/duckdb_engine.py`), loads the table from the catalog, and overwrites it with the
rows it read. The read goes to the metadata file that the process remembers for the table, or else
to the file with the highest number; the overwrite commits only if the table is still at the version
that was loaded.

Other writers commit appends and deletes at any time. The metadata file of a commit is written
before the catalog's pointer moves, and stays when the commit fails.

An overwrite is checked against the version that was loaded, not against the file that was read.
`compaction_preserves_iff`: the rows are those of the other writers' commits just when each overwrite
of a compaction replaces a version with the same rows. `compaction_loses_append` is a run in which
an append lands between the read and the load.
-/

set_option autoImplicit false

namespace AsetPlatform.Maintenance

open AsetPlatform.Library

universe u

/-- A committed operation of another writer. -/
inductive TableOp (R : Type u) where
  | append (rows : List R)
  | delete (deleteFilter : R → Bool)

namespace Compaction

variable {R : Type u}

/-- The rows after an operation. -/
def effect (rows : List R) : TableOp R → List R
  | .append new => rows ++ new
  | .delete deleteFilter => rows.filter fun row => !deleteFilter row

theorem effect_perm {rows rows' : List R} (h : rows.Perm rows') (op : TableOp R) :
    (effect rows op).Perm (effect rows' op) := by
  cases op with
  | append new => exact h.append_right new
  | delete deleteFilter => exact h.filter _

/-- A metadata file of the table, with the number in its name and the rows it leads to. -/
structure MetaFile (R : Type u) where
  number : Nat
  rows : List R
  deriving DecidableEq

/-- Where the compaction is, with its variables. -/
inductive Phase (R : Type u) where
  /-- About to look up the remembered metadata file. -/
  | lookup
  /-- About to search for the file with the highest number. -/
  | globbing
  /-- About to remember a file. -/
  | storing (file : Nat)
  /-- About to read the rows of a file. -/
  | scanning (file : Nat)
  /-- About to load the table. -/
  | loading (df : List R)
  /-- About to overwrite the version that was loaded. -/
  | overwriting (arrow : List R) (base : Nat)
  /-- About to invalidate the remembered file. -/
  | invalidating
  | ended
  deriving DecidableEq

/-- The metadata files, the one the catalog points to, the one remembered in the process of the
compaction, and the compaction. `alone` is kept for the statements, no code reads it: the rows that
the other writers' operations alone have produced. -/
structure World (R : Type u) where
  files : List (MetaFile R)
  current : Nat
  metaCache : Option Nat
  phase : Phase R
  alone : List R
  current_lt : current < files.length

inductive Step (R : Type u) where
  /-- Another writer commits. -/
  | commit (op : TableOp R)
  /-- Another writer has written the metadata file of a commit that has not taken effect. -/
  | draft (op : TableOp R)
  /-- Another query of the process remembers a file. -/
  | remember (file : Nat)
  /-- A write of the process invalidates the remembered file. -/
  | forget
  | begin
  | lookup
  | glob (file : Nat)
  | store
  | scan (ok : Bool)
  | load (ok : Bool)
  | overwrite (ok : Bool)
  | invalidate

namespace World

def rowsAt (w : World R) (file : Nat) : List R := ((w.files[file]?).map (·.rows)).getD []

/-- The rows of the table. -/
def rows (w : World R) : List R := w.rowsAt w.current

def numberAt (w : World R) (file : Nat) : Nat := ((w.files[file]?).map (·.number)).getD 0

def Newest (w : World R) (file : Nat) : Prop := ∀ f ∈ w.files, f.number ≤ w.numberAt file

instance (w : World R) (file : Nat) : Decidable (w.Newest file) :=
  inferInstanceAs (Decidable (∀ f ∈ w.files, _ ≤ _))

/-- A new metadata file after the current one. -/
def write (w : World R) (rows : List R) : World R where
  files := w.files ++ [⟨w.numberAt w.current + 1, rows⟩]
  current := w.current
  metaCache := w.metaCache
  phase := w.phase
  alone := w.alone
  current_lt := by
    rw [List.length_append]
    exact Nat.lt_add_right _ w.current_lt

/-- A commit: the pointer moves to the new file. -/
def push (w : World R) (rows : List R) : World R :=
  { w.write rows with
    current := w.files.length
    current_lt := by simp [write] }

def setPhase (w : World R) (phase : Phase R) : World R := { w with phase := phase }

/-- One step, where `toArrow` is what becomes of the rows on their way through the data frame and
the Arrow table, if the conversion and the schema check of the overwrite do not raise. -/
def step (toArrow : List R → Option (List R)) (w : World R) : Step R → World R
  | .commit op => { w.push (effect w.rows op) with alone := effect w.alone op }
  | .draft op => w.write (effect w.rows op)
  | .remember file => if file < w.files.length then { w with metaCache := some file } else w
  | .forget => { w with metaCache := none }
  | .begin =>
      match w.phase with
      | .ended => w.setPhase .lookup
      | _ => w
  | .lookup =>
      match w.phase with
      | .lookup =>
          match w.metaCache with
          | some file => w.setPhase (.scanning file)
          | none => w.setPhase .globbing
      | _ => w
  | .glob file =>
      match w.phase with
      | .globbing =>
          if file < w.files.length ∧ w.Newest file then w.setPhase (.storing file) else w
      | _ => w
  | .store =>
      match w.phase with
      | .storing file => { w with metaCache := some file }.setPhase (.scanning file)
      | _ => w
  | .scan ok =>
      match w.phase with
      | .scanning file =>
          -- `read failed`, and an empty table has nothing to compact
          if ok = false ∨ w.rowsAt file = [] then w.setPhase .ended
          else w.setPhase (.loading (w.rowsAt file))
      | _ => w
  | .load ok =>
      match w.phase with
      | .loading df =>
          match toArrow df with
          | some arrow =>
              if ok then w.setPhase (.overwriting arrow w.current) else w.setPhase .ended
          | none => w.setPhase .ended
      | _ => w
  | .overwrite ok =>
      match w.phase with
      | .overwriting arrow base =>
          -- the commit requires the version that was loaded, and is not tried again
          if ok = true ∧ base = w.current then (w.push arrow).setPhase .invalidating
          else w.setPhase .ended
      | _ => w
  | .invalidate =>
      match w.phase with
      | .invalidating => { w with metaCache := none }.setPhase .ended
      | _ => w

/-! ## The property and the condition -/

/-- The table has the rows that the other writers alone have produced. -/
def Preserved (w : World R) : Prop := w.rows.Perm w.alone

instance [DecidableEq R] (w : World R) : Decidable w.Preserved :=
  inferInstanceAs (Decidable (w.rows.Perm w.alone))

/-- An overwrite that commits has the rows of the version it replaces. -/
def ReplacesSame (w : World R) : Step R → Prop
  | .overwrite true =>
      match w.phase with
      | .overwriting arrow base => base = w.current → arrow.Perm w.rows
      | _ => True
  | _ => True

/-- A table before its first compaction. -/
def fresh (w : World R) : World R := { w with phase := .ended, alone := w.rows }

theorem rows_push (w : World R) (rows : List R) : (w.push rows).rows = rows := by
  simp [World.rows, rowsAt, push, write]

theorem rows_write (w : World R) (rows : List R) : (w.write rows).rows = w.rows := by
  simp [World.rows, rowsAt, write, List.getElem?_append_left w.current_lt]

/-! ## Runs -/

/-- Every step but an overwrite keeps the rows in step with the other writers. -/
theorem preserved_step_iff (toArrow : List R → Option (List R)) {w : World R} (h : w.Preserved)
    (e : Step R) : (w.step toArrow e).Preserved ↔ w.ReplacesSame e := by
  cases e with
  | commit op =>
      have hrows : ({ w.push (effect w.rows op) with alone := effect w.alone op } : World R).rows =
          effect w.rows op := w.rows_push _
      refine iff_of_true ?_ trivial
      show ({ w.push (effect w.rows op) with alone := effect w.alone op } : World R).rows.Perm _
      rw [hrows]
      exact effect_perm h op
  | draft op =>
      refine iff_of_true ?_ trivial
      show (w.write (effect w.rows op)).rows.Perm w.alone
      rw [rows_write]
      exact h
  | remember file =>
      refine iff_of_true ?_ trivial
      simp only [step]
      split
      · exact h
      · exact h
  | overwrite ok =>
      cases ok with
      | true =>
          simp only [step, ReplacesSame]
          split
          · rename_i arrow base hphase
            simp only [true_and]
            split
            · rename_i hbase
              have hrows : ((w.push arrow).setPhase .invalidating).rows = arrow := w.rows_push arrow
              simp only [Preserved, hrows, hbase, forall_const]
              -- the other writers' rows are those that the overwrite replaces
              exact ⟨fun hnew => hnew.trans h.symm, fun hsame => hsame.trans h⟩
            · rename_i hbase
              exact iff_of_true h fun heq => absurd heq hbase
          · exact iff_of_true h trivial
      | false =>
          simp only [step, ReplacesSame]
          split
          · simp only [Bool.false_eq_true, false_and, if_false]
            exact iff_of_true h trivial
          · exact iff_of_true h trivial
  | forget => exact iff_of_true h trivial
  | begin =>
      simp only [step, ReplacesSame]
      split <;> exact iff_of_true h trivial
  | lookup =>
      simp only [step, ReplacesSame]
      split
      · split <;> exact iff_of_true h trivial
      · exact iff_of_true h trivial
  | glob file =>
      simp only [step, ReplacesSame]
      split
      · split <;> exact iff_of_true h trivial
      · exact iff_of_true h trivial
  | store =>
      simp only [step, ReplacesSame]
      split <;> exact iff_of_true h trivial
  | scan ok =>
      simp only [step, ReplacesSame]
      split
      · split <;> exact iff_of_true h trivial
      · exact iff_of_true h trivial
  | load ok =>
      simp only [step, ReplacesSame]
      split
      · split
        · split <;> exact iff_of_true h trivial
        · exact iff_of_true h trivial
      · exact iff_of_true h trivial
  | invalidate =>
      simp only [step, ReplacesSame]
      split <;> exact iff_of_true h trivial

end World

open World in
/-- In any run, whatever the other writers commit and whenever, the table always has the rows of
their commits alone just when each overwrite that commits has the rows of the version it
replaces. -/
theorem compaction_preserves_iff (toArrow : List R → Option (List R)) (w : World R)
    (es : List (Step R)) :
    EveryState (step toArrow) Preserved w.fresh es ↔
      EveryStep (step toArrow) ReplacesSame w.fresh es := by
  have hstart : w.fresh.Preserved := List.Perm.refl _
  exact everyState_iff_everyStep
    (fun s e hs hguard => (preserved_step_iff toArrow hs e).mpr hguard)
    (fun s e hs => preserved_step_iff toArrow hs e) hstart hstart

/-! ## An append in between -/

/-- A table of one row. -/
def oneRow : World Nat where
  files := [⟨0, [1]⟩]
  current := 0
  metaCache := none
  phase := .ended
  alone := [1]
  current_lt := Nat.one_pos

/-- An append commits after the rows were read and before the table is loaded. -/
def appendInBetween : List (Step Nat) :=
  [.begin, .lookup, .glob 0, .store, .scan true, .commit (.append [2]), .load true,
    .overwrite true]

/-- The appended row is gone, and the compaction reports no error. -/
theorem compaction_loses_append :
    ¬ ∀ (w : World Nat) (es : List (Step Nat)),
      EveryState (World.step some) World.Preserved w.fresh es := by
  intro hpreserved
  have hlast := (hpreserved oneRow appendInBetween).last
  exact absurd hlast (by decide)

end Compaction

end AsetPlatform.Maintenance

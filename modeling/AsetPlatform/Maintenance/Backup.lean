import AsetPlatform.Library.Dict
import AsetPlatform.Library.Run
import AsetPlatform.Library.Text
import AsetPlatform.Library.Threads
import Mathlib.Data.List.Sort

/-!
# Backups of the warehouse

`backend/maintenance/backup.py`: `run_backup` makes the directory of the day, copies the warehouse
into it with `rsync -a --delete`, copies `catalog.db` beside it, and removes the oldest directories.
`list_backups` offers what is left by date, `restore_backup` copies a directory back.

Table files are written once and never changed, so a file is its path; what is reachable from a
metadata file is a function of it. rsync lists the warehouse, then copies the listed files and
deletes the others one by one, while writers and the orphan sweep go on in the warehouse. It fails
when a listed file has vanished, or for reasons of its own, and any other call may raise as well.
-/

set_option autoImplicit false

namespace AsetPlatform.Maintenance

open AsetPlatform.Library

universe u

/-- `date.today().isoformat()`: digits and dashes. -/
structure IsoDate where
  text : List Char
  chars : ∀ c ∈ text, c.isDigit ∨ c = '-'

namespace Backup

variable {P : Type u}

def namePrefix : List Char := ['b', 'a', 'c', 'k', 'u', 'p', '-']

def isBackup (name : List Char) : Bool := namePrefix.isPrefixOf name

/-- A copy of `catalog.db`: the metadata files it points to, unless the copy broke off. -/
inductive CatalogFile (P : Type u) where
  | pointers (files : List P)
  | broken
  deriving DecidableEq

/-- A directory of backups. Older ones have the files of the warehouse in the directory itself. -/
structure Directory (P : Type u) where
  warehouse : Option (List P) := none
  loose : List P := []
  catalog : Option (CatalogFile P) := none

/-- `warehouse_src`. -/
def Directory.files (b : Directory P) : List P := b.warehouse.getD b.loose

/-- Where a run of `run_backup` is, with its variables. -/
inductive Phase (P : Type u) where
  /-- About to start rsync. -/
  | listing
  /-- In rsync, with its list of files, and whether one of them has vanished. -/
  | syncing (listed : List P) (vanished : Bool)
  /-- About to copy the catalog. -/
  | copying (listed : List P)
  /-- About to look for directories to rotate out. -/
  | sizing
  | rotating (olds : List (List Char))
  | ended (ok : Bool)

/-- The run is writing the directory of its backup. -/
def Phase.underWay : Phase P → Bool
  | listing => true
  | syncing _ _ => true
  | copying _ => true
  | _ => false

/-- A run of `run_backup`, with its argument and its directory. `before` is kept for the statements:
the directory as the run found it. -/
structure Run (P : Type u) where
  keep : Nat
  dest : List Char
  before : Option (Directory P)
  phase : Phase P

/-- The warehouse, the metadata files that the catalog points to, the day, the directories in the
backup root, and the runs. -/
structure World (P : Type u) where
  warehouse : List P
  catalog : Option (List P)
  today : IsoDate
  backups : Dict (List Char) (Directory P)
  runs : List (Run P)

/-- A step of a run that writes its directory. -/
inductive WriteStep (P : Type u) where
  | list
  | copy (file : P)
  | remove (file : P)
  | synced
  | copyCatalog
  /-- The copy of the catalog breaks off in the middle. -/
  | breakCatalog

/-- A step of the rotation, or the end of a run. -/
inductive EndStep (P : Type u) where
  | rotate
  | rmtree
  /-- The removal of a directory breaks off, with a part of it left. -/
  | cutTree (left : Directory P)
  /-- The run raises. -/
  | fail

inductive Step (P : Type u) where
  /-- A writer creates a file. -/
  | create (file : P)
  /-- A writer commits. -/
  | commit (pointers : List P)
  /-- The orphan sweep deletes a file. -/
  | cleanup (file : P)
  | newDay (date : IsoDate)
  | begin (keep : Nat)
  | write (k : Nat) (e : WriteStep P)
  | finish (k : Nat) (e : EndStep P)

/-- `dest`. -/
def destOf (date : IsoDate) : List Char := namePrefix ++ date.text

/-- Names in descending order. -/
def sortedNames (names : List (List Char)) : List (List Char) :=
  (names.filter isBackup).insertionSort fun a b => ¬a < b

namespace World

/-- The directories beyond the limit. -/
def rotatedOut (w : World P) (keep : Nat) : List (List Char) := (sortedNames w.backups.keys).drop keep

/-- The dates that `list_backups` offers. -/
def listBackups (w : World P) : List (List Char) :=
  (sortedNames w.backups.keys).map (removeAll namePrefix)

/-- What a restored system has. -/
structure Restored (P : Type u) where
  warehouse : List P
  catalog : Option (CatalogFile P)

/-- `restore_backup`. -/
def restoreBackup (w : World P) (date : List Char) : Option (Restored P) :=
  (w.backups.get? (namePrefix ++ date)).map fun b =>
    -- without a catalog in the backup the one in use stays
    ⟨b.files, b.catalog.or (w.catalog.map .pointers)⟩

def setPhase (w : World P) (k : Nat) (run : Run P) (phase : Phase P) : World P :=
  { w with runs := w.runs.set k { run with phase := phase } }

def setBackup (w : World P) (name : List Char) (b : Directory P) : World P :=
  { w with backups := w.backups.set name b }

/-- The start of a run: `dest.mkdir(exist_ok=True)`. -/
def begin (w : World P) (keep : Nat) : World P :=
  let before := w.backups.get? (destOf w.today)
  { w with
    backups := if before.isSome then w.backups else w.backups.set (destOf w.today) {}
    runs := w.runs ++ [⟨keep, destOf w.today, before, .listing⟩] }

variable [DecidableEq P]

/-- A run writes its directory `b`. -/
def write (w : World P) (k : Nat) (run : Run P) (b : Directory P) : WriteStep P → World P
  | .list =>
      match run.phase with
      | .listing =>
          -- rsync makes the directory `warehouse/`
          (w.setBackup run.dest { b with warehouse := some (b.warehouse.getD []) }).setPhase k run
            (.syncing w.warehouse false)
      | _ => w
  | .copy file =>
      match run.phase with
      | .syncing listed vanished =>
          if file ∉ listed then w
          else if file ∈ w.warehouse then
            (w.setBackup run.dest { b with warehouse := some (file :: b.files) }).setPhase k run
              (.syncing listed vanished)
          else w.setPhase k run (.syncing listed true)
      | _ => w
  | .remove file =>
      match run.phase with
      | .syncing listed vanished =>
          if file ∈ listed then w
          else
            (w.setBackup run.dest
              { b with warehouse := some (b.files.filter (· ≠ file)) }).setPhase k run
                (.syncing listed vanished)
      | _ => w
  | .synced =>
      match run.phase with
      | .syncing listed false =>
          if (∀ file ∈ listed, file ∈ b.files) ∧ ∀ file ∈ b.files, file ∈ listed then
            w.setPhase k run (.copying listed)
          else w
      | _ => w
  | .copyCatalog =>
      match run.phase with
      | .copying _ =>
          match w.catalog with
          | some pointers =>
              (w.setBackup run.dest { b with catalog := some (.pointers pointers) }).setPhase k run
                .sizing
          -- there is no `catalog.db`
          | none => w.setPhase k run .sizing
      | _ => w
  | .breakCatalog =>
      match run.phase with
      | .copying _ =>
          if w.catalog.isSome then
            (w.setBackup run.dest { b with catalog := some .broken }).setPhase k run (.ended false)
          else w
      | _ => w

def finish (w : World P) (k : Nat) (run : Run P) : EndStep P → World P
  | .rotate =>
      match run.phase with
      | .sizing => w.setPhase k run (.rotating (w.rotatedOut run.keep))
      | _ => w
  | .rmtree =>
      match run.phase with
      | .rotating (old :: olds) =>
          match w.backups.get? old with
          | some _ => { w with backups := w.backups.erase old }.setPhase k run (.rotating olds)
          -- another run has removed it: `rmtree` raises
          | none => w.setPhase k run (.ended false)
      | .rotating [] => w.setPhase k run (.ended true)
      | _ => w
  | .cutTree left =>
      match run.phase with
      | .rotating (old :: _) =>
          match w.backups.get? old with
          | some b =>
              if (∀ file ∈ left.files, file ∈ b.files) ∧
                  (left.catalog = none ∨ left.catalog = b.catalog) then
                (w.setBackup old left).setPhase k run (.ended false)
              else w
          | none => w
      | _ => w
  | .fail =>
      match run.phase with
      | .ended _ => w
      | _ => w.setPhase k run (.ended false)

def step (w : World P) : Step P → World P
  | .create file => { w with warehouse := file :: w.warehouse }
  | .commit pointers => { w with catalog := some pointers }
  | .cleanup file => { w with warehouse := w.warehouse.filter (· ≠ file) }
  | .newDay date => { w with today := date }
  | .begin keep => w.begin keep
  | .write k e =>
      match w.runs[k]? with
      | some run =>
          match w.backups.get? run.dest with
          | some b => w.write k run b e
          -- the directory has been rotated out meanwhile, and the run can only raise
          | none => w
      | none => w
  | .finish k e =>
      match w.runs[k]? with
      | some run => w.finish k run e
      | none => w

end World

end Backup

end AsetPlatform.Maintenance

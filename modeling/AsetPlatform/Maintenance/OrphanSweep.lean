import AsetPlatform.Library.Dict
import AsetPlatform.Library.Paths
import AsetPlatform.Library.Run
import Mathlib.Data.List.Sort

/-!
# The orphan sweep

`cleanup_orphans_v2` of `backend/maintenance/iceberg_maintenance.py`: expire old snapshots, collect
the files that the loaded metadata, the catalog's pointer and the newest metadata files refer to,
list the table's directory, and delete the files on the list that are in none of these and older
than a grace period.

Writers of the table go on meanwhile: they create files, and a commit moves the catalog's pointer to
new metadata. `step` is one step of the sweep, of a writer or of the clock.
-/

set_option autoImplicit false

namespace AsetPlatform.Maintenance

open AsetPlatform.Library

/-! ## Locations -/

/-- A location as the catalog and the metadata record it: a plain absolute path, or a `file://` URI
with any number of extra slashes. -/
inductive Location where
  | plain (path : AbsPath)
  | uri (slashes : Nat) (path : AbsPath)
  deriving DecidableEq

def uriScheme : List Char := ['f', 'i', 'l', 'e', ':', '/', '/']

namespace Location

/-- The file at the location. -/
def path : Location → AbsPath
  | plain path => path
  | uri _ path => path

def text : Location → List Char
  | plain path => path.text
  | uri slashes path => uriScheme ++ (List.replicate slashes '/' ++ path.text)

end Location

/-- `while s.startswith("//"): s = s[1:]`. -/
def collapseSlashes : List Char → List Char
  | '/' :: '/' :: rest => collapseSlashes ('/' :: rest)
  | s => s

/-- `_normalize_uri`. -/
def normalizeUri (cwd : AbsPath) (s : List Char) : List Char :=
  if s = [] then []
  else abspath cwd (if uriScheme.isPrefixOf s then collapseSlashes (s.drop uriScheme.length) else s)

theorem collapseSlashes_text (path : AbsPath) (n : Nat) :
    collapseSlashes (List.replicate n '/' ++ path.text) = path.text := by
  have htext : collapseSlashes path.text = path.text := by
    rcases path.text_cases with h | ⟨c, s, hc, h⟩
    · rw [h]
      rfl
    · rw [h]
      simp [collapseSlashes, hc]
  induction n with
  | zero => exact htext
  | succ n ih =>
      cases n with
      | zero => exact ih
      | succ n => exact ih

theorem normalizeUri_text (cwd : AbsPath) (location : Location) :
    normalizeUri cwd location.text = location.path.text := by
  cases location with
  | plain path =>
      have hne : path.text ≠ [] := List.cons_ne_nil _ _
      have hscheme : uriScheme.isPrefixOf path.text = false := rfl
      simp only [Location.text, Location.path, normalizeUri, hne, hscheme, if_false,
        Bool.false_eq_true, abspath_text]
  | uri slashes path =>
      have hscheme : uriScheme.isPrefixOf
          (uriScheme ++ (List.replicate slashes '/' ++ path.text)) = true :=
        List.isPrefixOf_iff_prefix.mpr (List.prefix_append _ _)
      have hne : uriScheme ++ (List.replicate slashes '/' ++ path.text) ≠ [] :=
        List.cons_ne_nil _ _
      simp only [Location.text, Location.path, normalizeUri, hne, hscheme, if_false, if_true,
        List.drop_left, collapseSlashes_text, abspath_text]

theorem normalizeUri_path (cwd path : AbsPath) : normalizeUri cwd path.text = path.text :=
  normalizeUri_text cwd (.plain path)

/-! ## The table -/

/-- A snapshot with its manifest list, its manifests and its data and delete files. -/
structure Snapshot where
  snapshotId : Int
  timestampMs : Int
  manifestList : Option Location
  manifests : List Location
  files : List Location
  deriving DecidableEq

/-- The contents of a metadata file. -/
structure TableMetadata where
  snapshots : List Snapshot
  deriving DecidableEq

/-- What the catalog points to: a metadata file, with its contents. -/
structure CatalogEntry where
  metadataLocation : Location
  metadata : TableMetadata
  deriving DecidableEq

/-- `inspect.all_files()`. -/
def TableMetadata.allFiles (tbl : TableMetadata) : List Location := tbl.snapshots.flatMap (·.files)

/-- `inspect.all_manifests()`. -/
def TableMetadata.allManifests (tbl : TableMetadata) : List Location :=
  tbl.snapshots.flatMap (·.manifests)

def TableMetadata.manifestLists (tbl : TableMetadata) : List Location :=
  tbl.snapshots.filterMap (·.manifestList)

def TableMetadata.locations (tbl : TableMetadata) : List Location :=
  tbl.allFiles ++ tbl.allManifests ++ tbl.manifestLists

/-- The files of the table's snapshots. -/
def TableMetadata.paths (tbl : TableMetadata) : List AbsPath := tbl.locations.map Location.path

/-- The files reachable from the catalog's pointer. -/
def CatalogEntry.reachable (entry : CatalogEntry) : List AbsPath :=
  entry.metadataLocation.path :: entry.metadata.paths

def TableMetadata.without (tbl : TableMetadata) (ids : List Int) : TableMetadata where
  snapshots := tbl.snapshots.filter fun s => s.snapshotId ∉ ids

theorem TableMetadata.mem_locations_without {tbl : TableMetadata} {ids : List Int} {l : Location}
    (h : l ∈ (tbl.without ids).locations) : l ∈ tbl.locations := by
  simp only [locations, allFiles, allManifests, manifestLists, without, List.mem_append,
    List.mem_flatMap, List.mem_filterMap, List.mem_filter] at h ⊢
  rcases h with (⟨s, ⟨hs, -⟩, hl⟩ | ⟨s, ⟨hs, -⟩, hl⟩) | ⟨s, ⟨hs, -⟩, hl⟩
  · exact Or.inl (Or.inl ⟨s, hs, hl⟩)
  · exact Or.inl (Or.inr ⟨s, hs, hl⟩)
  · exact Or.inr ⟨s, hs, hl⟩

/-! ## The sweep -/

/-- The arguments of `cleanup_orphans_v2`, with the working directory and the table's directory. -/
structure SweepArgs where
  cwd : AbsPath
  tableDir : AbsPath
  retainSnapshots : Nat := 5
  mtimeGraceMinutes : Int := 30
  dryRun : Bool := false
  skipBackup : Bool := false

/-- The grace period in seconds. -/
def SweepArgs.grace (args : SweepArgs) : Int := args.mtimeGraceMinutes * 60

/-- Where the sweep is, with its variables. -/
inductive SweepPhase where
  | backup
  | load
  | expire (tbl : TableMetadata)
  | reload (tbl : TableMetadata)
  | inspect (tbl : TableMetadata)
  | readPointer (tbl : TableMetadata)
  | listChain (tbl : TableMetadata) (pointer : Location)
  | walk (tbl : TableMetadata) (pointer : Location) (chain : List AbsPath)
  | filter (tbl : TableMetadata) (pointer : Location) (chain onDisk : List AbsPath)
  | unlink (candidates : List AbsPath)
  | ended
  deriving DecidableEq

/-- The files with their modification times, the catalog's entry of the table, and the sweep.
`joined` and `deleted` are kept for the statements, no code reads them: the files that commits have
added to the table since the sweep loaded it, and the files that the sweep has deleted. -/
structure World where
  now : Int
  disk : Dict AbsPath Int
  catalog : Option CatalogEntry
  sweep : SweepPhase
  joined : List AbsPath := []
  deleted : List AbsPath := []

inductive SweepStep where
  | elapse (seconds : Nat)
  /-- A writer creates a file. -/
  | create (path : AbsPath)
  /-- A writer moves the catalog's pointer. -/
  | commit (entry : CatalogEntry)
  | backup (ok : Bool)
  | load (ok : Bool)
  /-- The expiry commits new metadata at a location, or raises. -/
  | expire (outcome : Option Location)
  | reload (ok : Bool)
  | inspect (ok : Bool)
  | readPointer (ok : Bool)
  | listChain
  | walk
  | filter
  | unlink (ok : Bool)

/-- `expire_ids`: all but the latest snapshots by timestamp. -/
def expireIds (args : SweepArgs) (tbl : TableMetadata) : List Int :=
  let snapshots := tbl.snapshots.insertionSort fun a b => b.timestampMs ≤ a.timestampMs
  -- the newest first, and the first few of them stay
  let keepIds := (snapshots.take args.retainSnapshots).map (·.snapshotId)
  (snapshots.filter fun s => s.snapshotId ∉ keepIds).map (·.snapshotId)

def hasSuffix (suffix : String) (path : AbsPath) : Bool :=
  path.parts.getLast?.any fun name => suffix.toList.isSuffixOf name

/-- The newest metadata files of `metadata_dir`, by modification time. -/
def newestMetadata (args : SweepArgs) (disk : Dict AbsPath Int) : List AbsPath :=
  let files := disk.entries.filter fun f =>
    f.1.parts.dropLast = args.tableDir.parts ++ ["metadata".toList] &&
      hasSuffix ".metadata.json" f.1
  ((files.insertionSort fun a b => b.2 ≤ a.2).take (args.retainSnapshots + 5)).map (·.1)

/-- `on_disk`: the files under the table's directory with one of three suffixes. -/
def listing (args : SweepArgs) (disk : Dict AbsPath Int) : List AbsPath :=
  [".parquet", ".avro", ".metadata.json"].flatMap fun suffix =>
    disk.keys.filter fun path =>
      args.tableDir.parts.isPrefixOf path.parts &&
        args.tableDir.parts.length < path.parts.length && hasSuffix suffix path

/-- `referenced`. -/
def referenced (args : SweepArgs) (tbl : TableMetadata) (pointer : Location)
    (chain : List AbsPath) : List (List Char) :=
  tbl.locations.map (fun l => normalizeUri args.cwd l.text) ++
    normalizeUri args.cwd pointer.text :: chain.map fun path => normalizeUri args.cwd path.text

/-- `candidates`: what is listed, still there, not referenced and older than the cutoff. -/
def candidates (args : SweepArgs) (w : World) (tbl : TableMetadata) (pointer : Location)
    (chain onDisk : List AbsPath) : List AbsPath :=
  let cutoff := w.now - args.grace
  onDisk.filter fun path =>
    match w.disk.get? path with
    -- `stat` raises for a file that has gone meanwhile, which is skipped
    | none => false
    | some mtime =>
        !(referenced args tbl pointer chain).contains (normalizeUri args.cwd path.text) &&
          !(cutoff ≤ mtime)

/-- The end of the filtering: the assertion about the pointer, and the dry run. -/
def afterFilter (args : SweepArgs) (pointer : Location) (found : List AbsPath) : SweepPhase :=
  -- the guard before the deletions: the sweep is given up when the pointer is a candidate
  if found.any fun path => normalizeUri args.cwd path.text = normalizeUri args.cwd pointer.text then
    .ended
  else if args.dryRun then .ended
  else .unlink found

namespace World

def setSweep (w : World) (phase : SweepPhase) : World := { w with sweep := phase }

/-- The table as the sweep loads it: nothing has joined it since. -/
def loaded (w : World) (phase : SweepPhase) : World := { w with sweep := phase, joined := [] }

/-- A writer's commit. -/
def commit (w : World) (entry : CatalogEntry) : World :=
  -- files that the replaced table had have not joined with this commit
  let before := (w.catalog.map (·.metadata.paths)).getD []
  { w with
    catalog := some entry
    joined := entry.metadataLocation.path ::
      (entry.metadata.paths.filter fun path => path ∉ before) ++ w.joined }

/-- A new file. -/
def create (w : World) (path : AbsPath) : World := { w with disk := w.disk.set path w.now }

/-- The commit of the expiry: the current metadata without the expired snapshots. -/
def expireSnapshots (w : World) (ids : List Int) (location : Location) (base : CatalogEntry) :
    World :=
  let metadata := base.metadata.without ids
  { (w.create location.path).loaded (.reload metadata) with
    catalog := some ⟨location, metadata⟩ }

/-- `p.unlink()`. -/
def unlink (w : World) (path : AbsPath) (rest : List AbsPath) : World :=
  { w with
    disk := w.disk.erase path
    deleted := path :: w.deleted
    sweep := .unlink rest }

def step (args : SweepArgs) (w : World) : SweepStep → World
  | .elapse seconds => { w with now := w.now + seconds }
  | .create path => w.create path
  | .commit entry => w.commit entry
  | .backup ok =>
      match w.sweep with
      | .backup =>
          -- `retain_snapshots` is checked first, and a failed backup ends the sweep
          if args.retainSnapshots < 1 then w.setSweep .ended
          else if args.skipBackup || ok then w.setSweep .load
          else w.setSweep .ended
      | _ => w
  | .load ok =>
      match w.sweep with
      | .load =>
          match w.catalog with
          | some entry => if ok then w.loaded (.expire entry.metadata) else w.setSweep .ended
          | none => w.setSweep .ended
      | _ => w
  | .expire outcome =>
      match w.sweep with
      | .expire tbl =>
          -- nothing to expire: the table is not loaded again
          if expireIds args tbl = [] then w.setSweep (.inspect tbl)
          else
            match outcome, w.catalog with
            | some location, some base => w.expireSnapshots (expireIds args tbl) location base
            -- an expiry that raises is logged, and the sweep goes on
            | _, _ => w.setSweep (.inspect tbl)
      | _ => w
  | .reload ok =>
      match w.sweep with
      | .reload tbl =>
          match w.catalog with
          | some entry =>
              if ok then w.loaded (.inspect entry.metadata) else w.setSweep (.inspect tbl)
          | none => w.setSweep (.inspect tbl)
      | _ => w
  | .inspect ok =>
      match w.sweep with
      | .inspect tbl => if ok then w.setSweep (.readPointer tbl) else w.setSweep .ended
      | _ => w
  | .readPointer ok =>
      match w.sweep with
      | .readPointer tbl =>
          match w.catalog with
          | some entry =>
              -- without the pointer the sweep ends
              if ok then w.setSweep (.listChain tbl entry.metadataLocation) else w.setSweep .ended
          | none => w.setSweep .ended
      | _ => w
  | .listChain =>
      match w.sweep with
      | .listChain tbl pointer => w.setSweep (.walk tbl pointer (newestMetadata args w.disk))
      | _ => w
  | .walk =>
      match w.sweep with
      | .walk tbl pointer chain =>
          w.setSweep (.filter tbl pointer chain (listing args w.disk))
      | _ => w
  | .filter =>
      match w.sweep with
      | .filter tbl pointer chain onDisk =>
          w.setSweep (afterFilter args pointer (candidates args w tbl pointer chain onDisk))
      | _ => w
  | .unlink ok =>
      match w.sweep with
      | .unlink (path :: rest) =>
          match w.disk.get? path with
          | none => w.setSweep (.unlink rest)
          -- any other error of the deletion is logged, and the loop goes on
          | some _ => if ok then w.unlink path rest else w.setSweep (.unlink rest)
      | .unlink [] => w.setSweep .ended
      | _ => w

end World

end AsetPlatform.Maintenance

import AsetPlatform.Maintenance.SweepRuns

/-!
# Rolling the catalog back after a sweep

The sweep keeps the newest metadata files of the table besides the current one, so that the catalog
can be pointed back to one of them. Such a file is of use while the files of the current snapshot
recorded in it are there: its manifest list, its manifests and its data files.

The metadata files are chosen by their age, the snapshots whose files are referenced are those of
the loaded metadata, after its expiry. `rollback_usable_iff` says when the two agree: each file of
a kept metadata file's snapshot is referenced for another reason, or young, or not listed. In
`rollback_target_lost` the snapshot before an overwrite has expired, and its metadata file is kept
without its data.
-/

set_option autoImplicit false

namespace AsetPlatform.Maintenance

open AsetPlatform.Library

structure MetadataFile where
  currentSnapshotId : Option Int
  metadata : TableMetadata
  deriving DecidableEq

def MetadataFile.currentSnapshot (file : MetadataFile) : Option Snapshot :=
  file.currentSnapshotId.bind fun id => file.metadata.snapshots.find? fun s => s.snapshotId = id

/-- The manifest list, the manifests and the files of a snapshot. -/
def Snapshot.paths (s : Snapshot) : List AbsPath :=
  (s.manifestList.toList ++ s.manifests ++ s.files).map Location.path

/-- The metadata files of the table's history, by their paths; none is ever written again. -/
abbrev TableHistory := Dict AbsPath MetadataFile

/-- What is read after a rollback to a metadata file: the file, and those of its current snapshot. -/
def TableHistory.needed (history : TableHistory) (path : AbsPath) : List AbsPath :=
  path :: (((history.get? path).bind MetadataFile.currentSnapshot).map Snapshot.paths).getD []

namespace World

/-- Everything that is read after a rollback to the metadata file is on disk. -/
def Usable (history : TableHistory) (w : World) (path : AbsPath) : Prop :=
  ∀ file ∈ history.needed path, (w.disk.get? file).isSome

instance (history : TableHistory) (w : World) (path : AbsPath) :
    Decidable (w.Usable history path) :=
  inferInstanceAs (Decidable (∀ file ∈ history.needed path, _))

/-- The catalog's metadata is that of its file. -/
def Recorded (history : TableHistory) (w : World) : Prop :=
  ∀ entry ∈ w.catalog,
    (history.get? entry.metadataLocation.path).map (·.metadata) = some entry.metadata

instance (history : TableHistory) (w : World) : Decidable (w.Recorded history) :=
  inferInstanceAs (Decidable (∀ entry ∈ w.catalog, _ = _))

/-- The cutoff spares the file: it is referenced, not listed, or not older than the grace period. -/
def Spared (args : SweepArgs) (w : World) (tbl : TableMetadata) (pointer : Location)
    (chain onDisk : List AbsPath) (path : AbsPath) : Prop :=
  path ∈ tbl.paths ∨ path = pointer.path ∨ path ∈ chain ∨ path ∉ onDisk ∨
    ∀ mtime ∈ w.disk.get? path, w.now - args.grace ≤ mtime

instance (args : SweepArgs) (w : World) (tbl : TableMetadata) (pointer : Location)
    (chain onDisk : List AbsPath) (path : AbsPath) :
    Decidable (w.Spared args tbl pointer chain onDisk path) :=
  inferInstanceAs (Decidable (_ ∨ _ ∨ _ ∨ _ ∨ ∀ mtime ∈ w.disk.get? path, _))

/-- A file on disk is a candidate or spared. -/
theorem not_mem_candidates_iff {args : SweepArgs} {w : World} {tbl : TableMetadata}
    {pointer : Location} {chain onDisk : List AbsPath} {path : AbsPath}
    (hdisk : (w.disk.get? path).isSome) :
    path ∉ candidates args w tbl pointer chain onDisk ↔
      w.Spared args tbl pointer chain onDisk path := by
  obtain ⟨mtime, hmtime⟩ := Option.isSome_iff_exists.mp hdisk
  rw [mem_candidates_iff]
  simp only [Spared, hmtime, Option.mem_def, Option.some.injEq, exists_eq_left', forall_eq']
  constructor
  · intro h
    by_contra hnot
    push Not at hnot
    obtain ⟨htbl, hpointer, hchain, hlisted, hold⟩ := hnot
    exact h ⟨hlisted, htbl, hpointer, hchain, hold⟩
  · rintro h ⟨hlisted, htbl, hpointer, hchain, hold⟩
    rcases h with h | h | h | h | h
    · exact htbl h
    · exact hpointer h
    · exact hchain h
    · exact h hlisted
    · omega

/-! ## After the cutoff -/

/-- The sweep has taken its cutoff. -/
def Late (w : World) : Prop := w.sweep = .unlink w.sweep.found ∨ w.sweep = .ended

/-- What no step after the cutoff does: add a candidate, or delete a file that is none. -/
structure StaysLate (w w' : World) : Prop where
  late : w'.Late
  found : ∀ path ∈ w'.sweep.found, path ∈ w.sweep.found
  disk : ∀ path, path ∉ w.sweep.found → (w.disk.get? path).isSome → (w'.disk.get? path).isSome

theorem staysLate_step {w : World} (hlate : w.Late) (args : SweepArgs) (e : SweepStep) :
    w.StaysLate (w.step args e) := by
  have hidle : w.StaysLate w := ⟨hlate, fun _ h => h, fun _ _ h => h⟩
  cases e with
  | elapse seconds => exact ⟨hlate, fun _ h => h, fun _ _ h => h⟩
  | commit entry => exact ⟨hlate, fun _ h => h, fun _ _ h => h⟩
  | create new =>
      refine ⟨hlate, fun _ h => h, fun path _ h => ?_⟩
      simp only [step, create, Dict.get?_set]
      split
      · rfl
      · exact h
  | unlink ok =>
      rcases hlate with hsweep | hsweep
      · generalize w.sweep.found = found at hsweep
        cases found with
        | nil =>
            simp only [step, hsweep]
            exact ⟨Or.inr rfl, fun _ h => absurd h List.not_mem_nil, fun _ _ h => h⟩
        | cons next rest =>
            have hrest : ∀ path ∈ rest, path ∈ w.sweep.found := by
              intro path hpath
              rw [hsweep]
              exact List.mem_cons_of_mem next hpath
            have hskip : w.StaysLate (w.setSweep (.unlink rest)) :=
              ⟨Or.inl rfl, hrest, fun _ _ h => h⟩
            simp only [step, hsweep]
            split
            · exact hskip
            · split
              · refine ⟨Or.inl rfl, hrest, fun path hpath h => ?_⟩
                -- only the candidate is erased
                have hne : path ≠ next := by
                  rintro rfl
                  rw [hsweep] at hpath
                  exact hpath List.mem_cons_self
                simp only [World.unlink, Dict.get?_erase, hne, if_false]
                exact h
              · exact hskip
      · simp only [step, hsweep]
        exact hidle
  | _ =>
      have hstep : ∀ w' : World, w' = w → w.StaysLate w' := fun _ h => h ▸ hidle
      apply hstep
      rcases hlate with hsweep | hsweep
      · simp only [step]
        rw [hsweep]
      · simp only [step]
        rw [hsweep]

theorem everyState_spared {args : SweepArgs} {w : World} {kept : List AbsPath}
    (hlate : w.Late) (hspared : ∀ path ∈ kept, path ∉ w.sweep.found)
    (hdisk : ∀ path ∈ kept, (w.disk.get? path).isSome) (es : List SweepStep) :
    EveryState (World.step args) (fun s => ∀ path ∈ kept, (s.disk.get? path).isSome) w es := by
  have hkept : ∀ (s : World) (e : SweepStep),
      (s.Late ∧ (∀ path ∈ kept, path ∉ s.sweep.found) ∧
        ∀ path ∈ kept, (s.disk.get? path).isSome) →
      ((s.step args e).Late ∧ (∀ path ∈ kept, path ∉ (s.step args e).sweep.found) ∧
        ∀ path ∈ kept, ((s.step args e).disk.get? path).isSome) := by
    rintro s e ⟨hs, hfound, hthere⟩
    have hstays := staysLate_step hs args e
    exact ⟨hstays.late, fun path hpath hin => hfound path hpath (hstays.found path hin),
      fun path hpath => hstays.disk path (hfound path hpath) (hthere path hpath)⟩
  exact (everyState_of_kept hkept ⟨hlate, hspared, hdisk⟩ es).imp fun _ h => h.2.2

/-- The deletions of all candidates, one after the other. -/
def deletions (found : List AbsPath) : List SweepStep := found.map fun _ => .unlink true

theorem runFrom_deletions {args : SweepArgs} {w : World} {found : List AbsPath}
    (hsweep : w.sweep = .unlink found) {path : AbsPath}
    (hpath : path ∈ found ∨ w.disk.get? path = none) :
    (runFrom (World.step args) w (deletions found)).disk.get? path = none := by
  induction found generalizing w with
  | nil => exact hpath.resolve_left List.not_mem_nil
  | cons next rest ih =>
      rw [deletions, List.map_cons, runFrom_cons]
      apply ih
      · simp only [step, hsweep]
        split <;> rfl
      · simp only [step, hsweep, List.mem_cons] at hpath ⊢
        cases hnext : w.disk.get? next with
        | none =>
            rcases hpath with (rfl | hrest) | hgone
            · exact Or.inr hnext
            · exact Or.inl hrest
            · exact Or.inr hgone
        | some mtime =>
            simp only [if_true, World.unlink, Dict.get?_erase]
            rcases hpath with (rfl | hrest) | hgone
            · exact Or.inr (if_pos rfl)
            · exact Or.inl hrest
            · refine Or.inr ?_
              split
              · rfl
              · exact hgone

theorem everyStep_deletions (args : SweepArgs) (w : World) (found : List AbsPath) :
    EveryStep (World.step args) (WritesYoung args) w (deletions found) := by
  induction found generalizing w with
  | nil => trivial
  | cons next rest ih => exact ⟨trivial, ih _⟩

/-- The phase after the cutoff: nothing to delete in a dry run, else the candidates. -/
theorem afterFilter_candidates (args : SweepArgs) (w : World) (tbl : TableMetadata)
    (pointer : Location) (chain onDisk : List AbsPath) :
    afterFilter args pointer (candidates args w tbl pointer chain onDisk) =
      if args.dryRun then .ended
      else .unlink (candidates args w tbl pointer chain onDisk) := by
  have hguard : ((candidates args w tbl pointer chain onDisk).any fun path =>
      normalizeUri args.cwd path.text = normalizeUri args.cwd pointer.text) = false := by
    rw [List.any_eq_false]
    intro path hpath heq
    exact candidates_ne_pointer path hpath (of_decide_eq_true heq)
  simp only [afterFilter, hguard, Bool.false_eq_true, if_false]

end World

open World in
/-- Every metadata file that the sweep keeps stays usable, whatever happens after the cutoff, just
when it is usable at the cutoff and the cutoff spares the files it needs. -/
theorem rollback_usable_iff (args : SweepArgs) (history : TableHistory) (w : World)
    (es : List SweepStep) {tbl : TableMetadata} {pointer : Location} {chain onDisk : List AbsPath}
    (hcutoff : (runFrom (World.step args) w es).sweep = .filter tbl pointer chain onDisk) :
    (∀ later, EveryStep (World.step args) (WritesYoung args)
        (runFrom (World.step args) w (es ++ [.filter])) later →
      EveryState (World.step args) (fun s => ∀ path ∈ pointer.path :: chain, s.Usable history path)
        (runFrom (World.step args) w (es ++ [.filter])) later) ↔
      ∀ path ∈ pointer.path :: chain, (runFrom (World.step args) w es).Usable history path ∧
        (args.dryRun = true ∨ ∀ file ∈ history.needed path,
          (runFrom (World.step args) w es).Spared args tbl pointer chain onDisk file) := by
  rw [runFrom_append]
  generalize runFrom (World.step args) w es = s at hcutoff ⊢
  have hstep : runFrom (World.step args) s [.filter] =
      s.setSweep (if args.dryRun then .ended
        else .unlink (candidates args s tbl pointer chain onDisk)) := by
    rw [runFrom_cons, runFrom_nil]
    simp only [World.step, hcutoff, afterFilter_candidates]
  rw [hstep]
  constructor
  · intro h path hpath
    have husable : s.Usable history path := (h [] trivial).1 path hpath
    refine ⟨husable, ?_⟩
    cases hdry : args.dryRun with
    | true => exact Or.inl rfl
    | false =>
        right
        intro file hfile
        rw [← not_mem_candidates_iff (husable file hfile)]
        intro hcandidate
        -- the run in which all candidates are deleted
        simp only [hdry, Bool.false_eq_true, if_false] at h
        have hlast := (h _ (everyStep_deletions args _
          (candidates args s tbl pointer chain onDisk))).last path hpath file hfile
        rw [runFrom_deletions rfl (Or.inl hcandidate)] at hlast
        cases hlast
  · intro h later _
    have hdisk : ∀ file ∈ (pointer.path :: chain).flatMap history.needed,
        (s.disk.get? file).isSome := by
      intro file hfile
      obtain ⟨path, hpath, hneeded⟩ := List.mem_flatMap.mp hfile
      exact (h path hpath).1 file hneeded
    have hevery : EveryState (World.step args)
        (fun s => ∀ file ∈ (pointer.path :: chain).flatMap history.needed,
          (s.disk.get? file).isSome)
        (s.setSweep (if args.dryRun then .ended
          else .unlink (candidates args s tbl pointer chain onDisk))) later := by
      apply everyState_spared
      · cases args.dryRun
        · exact Or.inl rfl
        · exact Or.inr rfl
      · intro file hfile
        obtain ⟨path, hpath, hneeded⟩ := List.mem_flatMap.mp hfile
        rcases (h path hpath).2 with hdry | hspared
        · simp [hdry, World.setSweep, SweepPhase.found]
        · cases args.dryRun with
          | true => exact List.not_mem_nil
          | false => exact (not_mem_candidates_iff (hdisk file hfile)).mpr (hspared file hneeded)
      · exact hdisk
    exact hevery.imp fun t ht path hpath file hfile =>
      ht file (List.mem_flatMap.mpr ⟨path, hpath, hfile⟩)

/-! ## A table that was overwritten -/

section Sample

def oldList : AbsPath := ⟨["t".toList, "metadata".toList, "snap-1.avro".toList], by decide +kernel⟩

def expiredMetadata : AbsPath :=
  ⟨["t".toList, "metadata".toList, "00002-c.metadata.json".toList], by decide +kernel⟩

def replacedSnapshot : Snapshot := ⟨1, 0, some (.uri 1 oldList), [], [.uri 1 oldData]⟩

/-- The snapshot of an overwrite. -/
def replacingSnapshot : Snapshot := ⟨2, 1, some (.uri 1 newList), [], [.uri 1 newData]⟩

def overwriteHistory : TableHistory :=
  ⟨[(oldMetadata, ⟨some 1, ⟨[replacedSnapshot]⟩⟩),
    (newMetadata, ⟨some 2, ⟨[replacedSnapshot, replacingSnapshot]⟩⟩),
    (expiredMetadata, ⟨some 2, ⟨[replacingSnapshot]⟩⟩)], by decide +kernel⟩

/-- The table after the overwrite, which was some hours ago. -/
def overwrittenWorld : World where
  now := 0
  disk := ⟨[(oldData, -20000), (oldList, -20000), (oldMetadata, -20000), (newData, -10000),
    (newList, -10000), (newMetadata, -10000)], by decide +kernel⟩
  catalog := some ⟨.uri 1 newMetadata, ⟨[replacedSnapshot, replacingSnapshot]⟩⟩
  sweep := .backup

/-- The sweep up to its cutoff, with an expiry and without one. -/
def expiringSweep : List SweepStep :=
  [.backup true, .load true, .expire (some (.uri 1 expiredMetadata)), .reload true, .inspect true,
    .readPointer true, .listChain, .walk]

def retainingSweep : List SweepStep :=
  [.backup true, .load true, .expire none, .inspect true, .readPointer true, .listChain, .walk]

/-- With both snapshots retained, both metadata files stay usable. -/
theorem rollback_usable_retained :
    EveryState (World.step sampleArgs)
      (fun s => ∀ path ∈ [newMetadata, newMetadata, oldMetadata], s.Usable overwriteHistory path)
      (runFrom (World.step sampleArgs) overwrittenWorld (retainingSweep ++ [.filter]))
      [.unlink true, .unlink true] :=
  (@rollback_usable_iff sampleArgs overwriteHistory overwrittenWorld retainingSweep
    ⟨[replacedSnapshot, replacingSnapshot]⟩ (.uri 1 newMetadata) [newMetadata, oldMetadata]
    (listing sampleArgs overwrittenWorld.disk) (by decide +kernel)).mpr (by decide +kernel)
    [.unlink true, .unlink true] ⟨by decide +kernel, by decide +kernel, trivial⟩

/-- With one snapshot retained, the first metadata file is kept, and its data file and manifest list
are deleted. -/
theorem rollback_target_lost :
    ¬ ∀ (args : SweepArgs) (history : TableHistory) (w : World) (es later : List SweepStep)
        (tbl : TableMetadata) (pointer : Location) (chain onDisk : List AbsPath),
      w.sweep = .backup ∧ w.deleted = [] →
        EveryStep (World.step args) (World.WritesYoung args) w (es ++ .filter :: later) →
        EveryState (World.step args) (World.Recorded history) w (es ++ .filter :: later) →
        (runFrom (World.step args) w es).sweep = .filter tbl pointer chain onDisk →
        (∀ path ∈ pointer.path :: chain, (runFrom (World.step args) w es).Usable history path) →
          ∀ path ∈ pointer.path :: chain,
            (runFrom (World.step args) w (es ++ .filter :: later)).Usable history path := by
  intro husable
  have hlost := husable { sampleArgs with retainSnapshots := 1 } overwriteHistory overwrittenWorld
    expiringSweep [.unlink true, .unlink true] ⟨[replacingSnapshot]⟩ (.uri 1 expiredMetadata)
    [expiredMetadata, newMetadata, oldMetadata]
    (listing sampleArgs (overwrittenWorld.disk.set expiredMetadata 0))
    ⟨rfl, rfl⟩ (by decide +kernel)
    ⟨by decide +kernel, by decide +kernel⟩ (by decide +kernel) (by decide +kernel)
  exact absurd (hlost oldMetadata (by decide +kernel)) (by decide +kernel)

end Sample

end AsetPlatform.Maintenance

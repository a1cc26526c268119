import AsetPlatform.Maintenance.OrphanSweep

/-!
# Runs of the sweep among writers

A file that is older than the grace period and not part of the table stays out of it: a commit refers
to files of the table it replaces and to new files, which are younger. So once the candidates are
files that are not part of the table, none of the deletions hits live data, however many commits
come in between (`harmless_step`).

What the sweep takes for the table is the metadata it loaded at its beginning, and the ages are
taken at the cutoff, later. A file that a commit adds in between is no more protected by being
uncommitted and not yet by being referenced: it has to be young at the cutoff, not at its commit.
`deletions_harmless` has this condition, and `slow_sweep_deletes_live` a sweep whose cutoff comes
some minutes after a file has joined the table.
-/

set_option autoImplicit false

namespace AsetPlatform.Maintenance

open AsetPlatform.Library

namespace SweepPhase

/-- The candidates still to be deleted. -/
def found : SweepPhase → List AbsPath
  | unlink candidates => candidates
  | _ => []

/-- The metadata that was loaded, up to the cutoff. -/
def tbl? : SweepPhase → Option TableMetadata
  | expire tbl => some tbl
  | reload tbl => some tbl
  | inspect tbl => some tbl
  | readPointer tbl => some tbl
  | listChain tbl _ => some tbl
  | walk tbl _ _ => some tbl
  | filter tbl _ _ _ => some tbl
  | _ => none

/-- The pointer that was read, up to the cutoff. -/
def pointer? : SweepPhase → Option Location
  | listChain _ pointer => some pointer
  | walk _ pointer _ => some pointer
  | filter _ pointer _ _ => some pointer
  | _ => none

end SweepPhase

namespace World

/-! ## The property, the writers and the condition -/

/-- The file is not part of the table. -/
def Unreachable (w : World) (path : AbsPath) : Prop := ∀ entry ∈ w.catalog, path ∉ entry.reachable

/-- No file that the sweep has deleted is part of the table. -/
def DeletedUnreachable (w : World) : Prop := ∀ path ∈ w.deleted, w.Unreachable path

/-- The file is younger than the grace period. -/
def Young (args : SweepArgs) (w : World) (path : AbsPath) : Prop :=
  ∃ mtime, w.disk.get? path = some mtime ∧ w.now - args.grace < mtime

/-- Writers create files under new names, and commit a metadata file and snapshots whose files are
files of the table they replace or, like the metadata file, younger than the grace period; the
expiry writes its metadata file under a new name. -/
def WritesYoung (args : SweepArgs) (w : World) : SweepStep → Prop
  | .create path => w.disk.get? path = none ∧ path ∉ w.deleted
  | .commit entry =>
      w.Young args entry.metadataLocation.path ∧
        ∀ path ∈ entry.metadata.paths,
          (∃ base ∈ w.catalog, path ∈ base.metadata.paths) ∨ w.Young args path
  | .expire (some location) =>
      w.disk.get? location.path = none ∧ location.path ∉ w.deleted
  | _ => True

/-- When the cutoff is taken, no file that has joined the table since the sweep loaded it is older
than the grace period. -/
def JoinedLately (args : SweepArgs) (w : World) : SweepStep → Prop
  | .filter => w.sweep.tbl?.isSome →
      ∀ path ∈ w.joined, ∀ mtime ∈ w.disk.get? path, w.now - args.grace ≤ mtime
  | _ => True

instance (w : World) : Decidable w.DeletedUnreachable :=
  inferInstanceAs (Decidable (∀ path ∈ w.deleted, ∀ entry ∈ w.catalog, path ∉ entry.reachable))

instance (args : SweepArgs) (w : World) (path : AbsPath) : Decidable (w.Young args path) :=
  match h : w.disk.get? path with
  | none => isFalse fun ⟨_, hdisk, _⟩ => by
      rw [h] at hdisk
      cases hdisk
  | some mtime =>
      if hage : w.now - args.grace < mtime then isTrue ⟨mtime, h, hage⟩
      else isFalse fun ⟨_, hdisk, hyoung⟩ => by
        rw [h] at hdisk
        exact hage (Option.some.inj hdisk ▸ hyoung)

instance (args : SweepArgs) (w : World) : ∀ e, Decidable (w.WritesYoung args e)
  | .create path => inferInstanceAs (Decidable (w.disk.get? path = none ∧ path ∉ w.deleted))
  | .commit entry =>
      inferInstanceAs (Decidable (w.Young args entry.metadataLocation.path ∧
        ∀ path ∈ entry.metadata.paths,
          (∃ base ∈ w.catalog, path ∈ base.metadata.paths) ∨ w.Young args path))
  | .expire (some location) =>
      inferInstanceAs (Decidable (w.disk.get? location.path = none ∧ location.path ∉ w.deleted))
  | .expire none => isTrue trivial
  | .elapse _ => isTrue trivial
  | .backup _ => isTrue trivial
  | .load _ => isTrue trivial
  | .reload _ => isTrue trivial
  | .inspect _ => isTrue trivial
  | .readPointer _ => isTrue trivial
  | .listChain => isTrue trivial
  | .walk => isTrue trivial
  | .filter => isTrue trivial
  | .unlink _ => isTrue trivial

instance (args : SweepArgs) (w : World) : ∀ e, Decidable (w.JoinedLately args e)
  | .filter => inferInstanceAs (Decidable (_ →
      ∀ path ∈ w.joined, ∀ mtime ∈ w.disk.get? path, w.now - args.grace ≤ mtime))
  | .create _ => isTrue trivial
  | .commit _ => isTrue trivial
  | .expire _ => isTrue trivial
  | .elapse _ => isTrue trivial
  | .backup _ => isTrue trivial
  | .load _ => isTrue trivial
  | .reload _ => isTrue trivial
  | .inspect _ => isTrue trivial
  | .readPointer _ => isTrue trivial
  | .listChain => isTrue trivial
  | .walk => isTrue trivial
  | .unlink _ => isTrue trivial

/-! ## Steps -/

/-- What a step can do to the files, the catalog and the variables of the sweep. -/
inductive Does (args : SweepArgs) (w : World) : SweepStep → World → Prop
  | idle (e : SweepStep) : Does args w e w
  | elapsed (seconds : Nat) : Does args w (.elapse seconds) { w with now := w.now + seconds }
  | created (path : AbsPath) : Does args w (.create path) (w.create path)
  | committed (entry : CatalogEntry) : Does args w (.commit entry) (w.commit entry)
  | moved (e : SweepStep) {phase : SweepPhase}
      (hfound : ∀ path ∈ phase.found, path ∈ w.sweep.found)
      (htbl : ∀ tbl ∈ phase.tbl?, tbl ∈ w.sweep.tbl?)
      (hpointer : ∀ pointer ∈ phase.pointer?, pointer ∈ w.sweep.pointer? ∨
        ∀ entry ∈ w.catalog, entry.metadataLocation = pointer) :
      Does args w e (w.setSweep phase)
  | loaded (e : SweepStep) {phase : SweepPhase} {entry : CatalogEntry}
      (hentry : w.catalog = some entry) (hfound : phase.found = [])
      (htbl : phase.tbl? = some entry.metadata) (hpointer : phase.pointer? = none) :
      Does args w e (w.loaded phase)
  | expired (ids : List Int) (location : Location) {base : CatalogEntry}
      (hbase : w.catalog = some base) :
      Does args w (.expire (some location)) (w.expireSnapshots ids location base)
  | filtered {tbl : TableMetadata} {pointer : Location} {chain onDisk : List AbsPath}
      (hsweep : w.sweep = .filter tbl pointer chain onDisk) :
      Does args w .filter
        (w.setSweep (afterFilter args pointer (candidates args w tbl pointer chain onDisk)))
  | unlinked {path : AbsPath} {rest : List AbsPath} (hsweep : w.sweep = .unlink (path :: rest)) :
      Does args w (.unlink true) (w.unlink path rest)

section Moves

variable {args : SweepArgs} {w : World} {e : SweepStep}

theorem Does.bare {phase : SweepPhase} (hfound : phase.found = []) (htbl : phase.tbl? = none)
    (hpointer : phase.pointer? = none) : w.Does args e (w.setSweep phase) :=
  .moved e (by simp [hfound]) (by simp [htbl]) (by simp [hpointer])

theorem Does.keeps {phase : SweepPhase} (hfound : phase.found = [])
    (htbl : phase.tbl? = w.sweep.tbl?) (hpointer : phase.pointer? = w.sweep.pointer?) :
    w.Does args e (w.setSweep phase) :=
  .moved e (by simp [hfound]) (fun _ h => htbl ▸ h) fun _ h => Or.inl (hpointer ▸ h)

end Moves

theorem does_step (args : SweepArgs) (w : World) (e : SweepStep) :
    w.Does args e (w.step args e) := by
  cases e with
  | elapse seconds => exact .elapsed seconds
  | create path => exact .created path
  | commit entry => exact .committed entry
  | backup ok =>
      simp only [step]
      split
      · split
        · exact .bare rfl rfl rfl
        · split <;> exact .bare rfl rfl rfl
      · exact .idle _
  | load ok =>
      simp only [step]
      split
      · split
        · rename_i entry hentry
          split
          · exact .loaded _ hentry rfl rfl rfl
          · exact .bare rfl rfl rfl
        · exact .bare rfl rfl rfl
      · exact .idle _
  | expire outcome =>
      simp only [step]
      split
      · rename_i tbl hsweep
        split
        · exact .keeps rfl (by rw [hsweep]; rfl) (by rw [hsweep]; rfl)
        · split
          · rename_i location base hbase
            exact .expired _ location hbase
          · exact .keeps rfl (by rw [hsweep]; rfl) (by rw [hsweep]; rfl)
      · exact .idle _
  | reload ok =>
      simp only [step]
      split
      · rename_i tbl hsweep
        split
        · rename_i entry hentry
          split
          · exact .loaded _ hentry rfl rfl rfl
          · exact .keeps rfl (by rw [hsweep]; rfl) (by rw [hsweep]; rfl)
        · exact .keeps rfl (by rw [hsweep]; rfl) (by rw [hsweep]; rfl)
      · exact .idle _
  | inspect ok =>
      simp only [step]
      split
      · rename_i tbl hsweep
        split
        · exact .keeps rfl (by rw [hsweep]; rfl) (by rw [hsweep]; rfl)
        · exact .bare rfl rfl rfl
      · exact .idle _
  | readPointer ok =>
      simp only [step]
      split
      · rename_i tbl hsweep
        split
        · rename_i entry hentry
          split
          · refine .moved _ (by simp [SweepPhase.found]) (fun _ h => by rw [hsweep]; exact h) ?_
            -- the pointer that was read is the catalog's at this moment
            intro pointer hpointer
            refine Or.inr fun current hcurrent => ?_
            rw [hentry] at hcurrent
            rw [← Option.some.inj hcurrent, Option.some.inj hpointer]
          · exact .bare rfl rfl rfl
        · exact .bare rfl rfl rfl
      · exact .idle _
  | listChain =>
      simp only [step]
      split
      · rename_i hsweep
        exact .keeps rfl (by rw [hsweep]; rfl) (by rw [hsweep]; rfl)
      · exact .idle _
  | walk =>
      simp only [step]
      split
      · rename_i hsweep
        exact .keeps rfl (by rw [hsweep]; rfl) (by rw [hsweep]; rfl)
      · exact .idle _
  | filter =>
      simp only [step]
      split
      · rename_i hsweep
        exact .filtered hsweep
      · exact .idle _
  | unlink ok =>
      simp only [step]
      split
      · rename_i path rest hsweep
        -- a candidate that is gone, or that cannot be deleted, is skipped
        have hrest : ∀ p ∈ (SweepPhase.unlink rest).found, p ∈ w.sweep.found := by
          intro p hp
          rw [hsweep]
          exact List.mem_cons_of_mem path hp
        split
        · exact .moved _ hrest (fun _ h => by cases h) fun _ h => by cases h
        · cases ok with
          | true => exact .unlinked hsweep
          | false => exact .moved _ hrest (fun _ h => by cases h) fun _ h => by cases h
      · exact .bare rfl rfl rfl
      · exact .idle _

/-! ## The candidates -/

theorem mem_referenced_iff (args : SweepArgs) (tbl : TableMetadata) (pointer : Location)
    (chain : List AbsPath) (path : AbsPath) :
    normalizeUri args.cwd path.text ∈ referenced args tbl pointer chain ↔
      path ∈ tbl.paths ∨ path = pointer.path ∨ path ∈ chain := by
  simp only [referenced, TableMetadata.paths, normalizeUri_text, normalizeUri_path,
    List.mem_append, List.mem_cons, List.mem_map]
  constructor
  · rintro (⟨l, hl, htext⟩ | htext | ⟨p, hp, htext⟩)
    · exact Or.inl ⟨l, hl, AbsPath.text_injective htext⟩
    · exact Or.inr (Or.inl (AbsPath.text_injective htext))
    · exact Or.inr (Or.inr (AbsPath.text_injective htext ▸ hp))
  · rintro (⟨l, hl, rfl⟩ | rfl | hp)
    · exact Or.inl ⟨l, hl, rfl⟩
    · exact Or.inr (Or.inl rfl)
    · exact Or.inr (Or.inr ⟨path, hp, rfl⟩)

/-- A candidate is listed, referenced by nothing, on disk and older than the grace period. -/
theorem mem_candidates_iff {args : SweepArgs} {w : World} {tbl : TableMetadata} {pointer : Location}
    {chain onDisk : List AbsPath} {path : AbsPath} :
    path ∈ candidates args w tbl pointer chain onDisk ↔
      path ∈ onDisk ∧ path ∉ tbl.paths ∧ path ≠ pointer.path ∧ path ∉ chain ∧
        ∃ mtime, w.disk.get? path = some mtime ∧ mtime < w.now - args.grace := by
  simp only [candidates, List.mem_filter]
  refine and_congr_right fun _ => ?_
  cases hdisk : w.disk.get? path with
  | none => simp
  | some mtime =>
      simp only [Bool.and_eq_true, Bool.not_eq_true', decide_eq_false_iff_not,
        List.contains_eq_mem, mem_referenced_iff, not_or, not_le, Option.some.injEq,
        exists_eq_left', and_assoc, ne_eq]

/-- The assertion about the catalog's pointer never fires. -/
theorem candidates_ne_pointer {args : SweepArgs} {w : World} {tbl : TableMetadata}
    {pointer : Location} {chain onDisk : List AbsPath} :
    ∀ path ∈ candidates args w tbl pointer chain onDisk,
      normalizeUri args.cwd path.text ≠ normalizeUri args.cwd pointer.text := by
  intro path hpath heq
  rw [normalizeUri_path, normalizeUri_text] at heq
  exact (mem_candidates_iff.mp hpath).2.2.1 (AbsPath.text_injective heq)

theorem found_afterFilter {args : SweepArgs} {pointer : Location} {found : List AbsPath} :
    ∀ path ∈ (afterFilter args pointer found).found, path ∈ found := by
  intro path hpath
  simp only [afterFilter] at hpath
  split at hpath
  · cases hpath
  · split at hpath
    · cases hpath
    · exact hpath

theorem afterFilter_bare {args : SweepArgs} {pointer : Location} {found : List AbsPath} :
    (afterFilter args pointer found).tbl? = none ∧
      (afterFilter args pointer found).pointer? = none := by
  simp only [afterFilter]
  split
  · exact ⟨rfl, rfl⟩
  · split <;> exact ⟨rfl, rfl⟩

/-! ## The invariant -/

/-- The file is gone, or older than the grace period. -/
def Stale (args : SweepArgs) (w : World) (path : AbsPath) : Prop :=
  path ∈ w.deleted ∨ ∃ mtime, w.disk.get? path = some mtime ∧ mtime < w.now - args.grace

/-- The invariant: deleted files are gone, candidates are gone or old, and neither are part of the
table. -/
structure Harmless (args : SweepArgs) (w : World) : Prop where
  gone : ∀ path ∈ w.deleted, w.disk.get? path = none
  deleted : ∀ path ∈ w.deleted, w.Unreachable path
  stale : ∀ path ∈ w.sweep.found, w.Stale args path
  found : ∀ path ∈ w.sweep.found, w.Unreachable path

theorem Harmless.not_young {args : SweepArgs} {w : World} (h : w.Harmless args) {path : AbsPath}
    (hpath : path ∈ w.deleted ∨ path ∈ w.sweep.found) : ¬w.Young args path := by
  rintro ⟨mtime, hdisk, hyoung⟩
  have hstale : w.Stale args path := by
    rcases hpath with hpath | hpath
    · exact Or.inl hpath
    · exact h.stale path hpath
  rcases hstale with hgone | ⟨mtime', hdisk', hold⟩
  · rw [h.gone path hgone] at hdisk
    cases hdisk
  · obtain rfl : mtime' = mtime := Option.some.inj (hdisk'.symm.trans hdisk)
    omega

theorem Harmless.ne_new {args : SweepArgs} {w : World} (h : w.Harmless args) {new path : AbsPath}
    (hnew : w.disk.get? new = none) (hdeleted : new ∉ w.deleted)
    (hpath : path ∈ w.deleted ∨ path ∈ w.sweep.found) : path ≠ new := by
  rintro rfl
  rcases hpath with hpath | hpath
  · exact hdeleted hpath
  · rcases h.stale path hpath with hgone | ⟨mtime, hdisk, -⟩
    · exact hdeleted hgone
    · rw [hnew] at hdisk
      cases hdisk

theorem Harmless.commit {args : SweepArgs} {w : World} (h : w.Harmless args) {entry : CatalogEntry}
    (hwrites : w.WritesYoung args (.commit entry)) : (w.commit entry).Harmless args := by
  have hnone : ∀ path, path ∈ w.deleted ∨ path ∈ w.sweep.found → w.Unreachable path →
      path ∉ entry.reachable := by
    intro path hpath hunreachable hreach
    have hold := h.not_young hpath
    -- new metadata is young, and its files are young or files of the table before
    rcases List.mem_cons.mp hreach with rfl | hfile
    · exact hold hwrites.1
    · rcases hwrites.2 path hfile with ⟨base, hbase, hin⟩ | hyoung
      · exact hunreachable base hbase (List.mem_cons_of_mem _ hin)
      · exact hold hyoung
  refine ⟨h.gone, fun path hpath => ?_, h.stale, fun path hpath => ?_⟩
  · rintro new hnew
    obtain rfl : entry = new := Option.some.inj hnew
    exact hnone path (Or.inl hpath) (h.deleted path hpath)
  · rintro new hnew
    obtain rfl : entry = new := Option.some.inj hnew
    exact hnone path (Or.inr hpath) (h.found path hpath)

theorem Harmless.create {args : SweepArgs} {w : World} (h : w.Harmless args) {new : AbsPath}
    (hnew : w.disk.get? new = none) (hdeleted : new ∉ w.deleted) :
    (w.create new).Harmless args where
  gone path hpath := by
    have hne := h.ne_new hnew hdeleted (Or.inl hpath)
    simp only [World.create, Dict.get?_set, hne, if_false]
    exact h.gone path hpath
  deleted := h.deleted
  stale path hpath := by
    have hne := h.ne_new hnew hdeleted (Or.inr hpath)
    rcases h.stale path hpath with hgone | ⟨mtime, hdisk, hold⟩
    · exact Or.inl hgone
    · refine Or.inr ⟨mtime, ?_, hold⟩
      simp only [World.create, Dict.get?_set, hne, if_false]
      exact hdisk
  found := h.found

theorem mem_reachable_without {ids : List Int} {location : Location} {base : CatalogEntry}
    {path : AbsPath} (h : path ∈ (⟨location, base.metadata.without ids⟩ : CatalogEntry).reachable) :
    path = location.path ∨ path ∈ base.reachable := by
  rcases List.mem_cons.mp h with h | h
  · exact Or.inl h
  · obtain ⟨l, hl, rfl⟩ := List.mem_map.mp h
    exact Or.inr (List.mem_cons_of_mem _
      (List.mem_map_of_mem (TableMetadata.mem_locations_without hl)))

theorem Harmless.expire {args : SweepArgs} {w : World} (h : w.Harmless args) (ids : List Int)
    {location : Location} {base : CatalogEntry} (hbase : w.catalog = some base)
    (hnew : w.disk.get? location.path = none) (hdeleted : location.path ∉ w.deleted) :
    (w.expireSnapshots ids location base).Harmless args where
  gone := (h.create hnew hdeleted).gone
  deleted path hpath := by
    rintro entry hentry hreach
    obtain rfl : (⟨location, base.metadata.without ids⟩ : CatalogEntry) = entry :=
      Option.some.inj hentry
    rcases mem_reachable_without hreach with hnewFile | hold
    · exact h.ne_new hnew hdeleted (Or.inl hpath) hnewFile
    · exact h.deleted path hpath base hbase hold
  stale path hpath := by cases hpath
  found path hpath := by cases hpath

theorem Harmless.unlink {args : SweepArgs} {w : World} (h : w.Harmless args) {path : AbsPath}
    {rest : List AbsPath} (hsweep : w.sweep = .unlink (path :: rest)) :
    (w.unlink path rest).Harmless args where
  gone p hp := by
    simp only [World.unlink, Dict.get?_erase]
    split
    · rfl
    · rename_i hne
      exact h.gone p ((List.mem_cons.mp hp).resolve_left hne)
  deleted p hp := by
    rcases List.mem_cons.mp hp with rfl | hp
    · exact h.found p (by rw [hsweep]; exact List.mem_cons_self)
    · exact h.deleted p hp
  stale p hp := by
    have hbefore : p ∈ w.sweep.found := by
      rw [hsweep]
      exact List.mem_cons_of_mem path hp
    -- the deleted file may still stand on the list, it counts as gone
    by_cases hne : p = path
    · exact Or.inl (hne ▸ List.mem_cons_self)
    · rcases h.stale p hbefore with hgone | ⟨mtime, hdisk, hold⟩
      · exact Or.inl (List.mem_cons_of_mem _ hgone)
      · refine Or.inr ⟨mtime, ?_, hold⟩
        simp only [World.unlink, Dict.get?_erase, hne, if_false]
        exact hdisk
  found p hp := h.found p (by
    rw [hsweep]
    exact List.mem_cons_of_mem path hp)

/-- Up to the cutoff, the files of the table are files of the metadata that was loaded or have
joined the table since, and so is its metadata file the pointer that was read. -/
structure Covered (w : World) : Prop where
  files : ∀ tbl ∈ w.sweep.tbl?, ∀ entry ∈ w.catalog, ∀ path ∈ entry.metadata.paths,
    path ∈ tbl.paths ∨ path ∈ w.joined
  pointer : ∀ pointer ∈ w.sweep.pointer?, ∀ entry ∈ w.catalog,
    entry.metadataLocation.path = pointer.path ∨ entry.metadataLocation.path ∈ w.joined

theorem Covered.bare {w : World} (htbl : w.sweep.tbl? = none) (hpointer : w.sweep.pointer? = none) :
    w.Covered :=
  ⟨by simp [htbl], by simp [hpointer]⟩

theorem Covered.current {w : World} {entry : CatalogEntry} (hentry : w.catalog = some entry)
    (htbl : w.sweep.tbl? = some entry.metadata) (hpointer : w.sweep.pointer? = none) :
    w.Covered where
  files tbl hin current hcurrent path hpath := by
    obtain rfl : entry.metadata = tbl := Option.some.inj (htbl.symm.trans hin)
    obtain rfl : entry = current := Option.some.inj (hentry.symm.trans hcurrent)
    exact Or.inl hpath
  pointer := by simp [hpointer]

theorem Covered.commit {w : World} (h : w.Covered) (entry : CatalogEntry) :
    (w.commit entry).Covered where
  files tbl htbl new hnew path hpath := by
    obtain rfl : entry = new := Option.some.inj hnew
    -- what the replaced table did not have has joined with this commit
    have hjoined : ∀ base, w.catalog = base →
        path ∉ (base.map (·.metadata.paths)).getD [] → path ∈ (w.commit entry).joined := by
      rintro base rfl hnot
      exact List.mem_append_left _ (List.mem_cons_of_mem _
        (List.mem_filter.mpr ⟨hpath, decide_eq_true hnot⟩))
    cases hbase : w.catalog with
    | none => exact Or.inr (hjoined none hbase (by simp))
    | some base =>
        by_cases hin : path ∈ base.metadata.paths
        · rcases h.files tbl htbl base hbase path hin with hloaded | hlater
          · exact Or.inl hloaded
          · exact Or.inr (List.mem_append_right _ hlater)
        · exact Or.inr (hjoined (some base) hbase hin)
  pointer pointer _ new hnew := by
    obtain rfl : entry = new := Option.some.inj hnew
    exact Or.inr List.mem_cons_self

theorem covered_step {args : SweepArgs} {w : World} (e : SweepStep) (h : w.Covered) :
    (w.step args e).Covered := by
  have hdoes := w.does_step args e
  generalize w.step args e = w' at hdoes ⊢
  cases hdoes with
  | idle => exact h
  | elapsed seconds => exact ⟨h.files, h.pointer⟩
  | created path => exact ⟨h.files, h.pointer⟩
  | committed entry => exact h.commit entry
  | moved _ hfound htbl hpointer =>
      refine ⟨fun tbl hin => h.files tbl (htbl tbl hin), fun pointer hin entry hentry => ?_⟩
      rcases hpointer pointer hin with hbefore | hread
      · exact h.pointer pointer hbefore entry hentry
      · exact Or.inl (congrArg Location.path (hread entry hentry))
  | loaded _ hentry hfound htbl hpointer => exact .current hentry htbl hpointer
  | expired ids location hbase => exact .current rfl rfl rfl
  | filtered hsweep =>
      exact .bare afterFilter_bare.1 afterFilter_bare.2
  | unlinked hsweep => exact .bare rfl rfl

theorem harmless_step {args : SweepArgs} {w : World} (e : SweepStep) (h : w.Harmless args)
    (hcovered : w.Covered) (hwrites : w.WritesYoung args e) (hjoined : w.JoinedLately args e) :
    (w.step args e).Harmless args := by
  have hdoes := w.does_step args e
  generalize w.step args e = w' at hdoes ⊢
  cases hdoes with
  | idle => exact h
  | elapsed seconds =>
      refine ⟨h.gone, h.deleted, fun path hpath => ?_, h.found⟩
      rcases h.stale path hpath with hgone | ⟨mtime, hdisk, hold⟩
      · exact Or.inl hgone
      · exact Or.inr ⟨mtime, hdisk, by simp only; omega⟩
  | created path => exact h.create hwrites.1 hwrites.2
  | committed entry => exact h.commit hwrites
  | moved _ hfound htbl hpointer =>
      exact ⟨h.gone, h.deleted, fun path hpath => h.stale path (hfound path hpath),
        fun path hpath => h.found path (hfound path hpath)⟩
  | loaded _ hentry hfound htbl hpointer =>
      refine ⟨h.gone, h.deleted, fun path hpath => ?_, fun path hpath => ?_⟩
      all_goals
        have hnone : path ∈ ([] : List AbsPath) := hfound ▸ hpath
        cases hnone
  | expired ids location hbase => exact h.expire ids hbase hwrites.1 hwrites.2
  | filtered hsweep =>
      rename_i tbl pointer chain onDisk
      refine ⟨h.gone, h.deleted, fun path hpath => ?_, fun path hpath => ?_⟩
      · obtain ⟨-, -, -, -, hold⟩ := mem_candidates_iff.mp (found_afterFilter path hpath)
        exact Or.inr hold
      · obtain ⟨-, htbl, hpointer, -, mtime, hdisk, hold⟩ :=
          mem_candidates_iff.mp (found_afterFilter path hpath)
        intro entry hentry hreach
        -- it is referenced, or has joined the table and would have been skipped for its age
        have hlater : path ∈ w.joined := by
          rcases List.mem_cons.mp hreach with rfl | hfile
          · exact (hcovered.pointer pointer (by rw [hsweep]; rfl) entry hentry).resolve_left
              hpointer
          · exact (hcovered.files tbl (by rw [hsweep]; rfl) entry hentry path hfile).resolve_left
              htbl
        have hage := hjoined (by rw [hsweep]; rfl) path hlater mtime hdisk
        omega
  | unlinked hsweep => exact h.unlink hsweep

end World

open World in
/-- A sweep whose cutoff comes before the files that join the table meanwhile grow old deletes
nothing that is part of the table, then or at any time of the run. -/
theorem deletions_harmless (args : SweepArgs) (w : World) (es : List SweepStep)
    (hstart : w.sweep = .backup ∧ w.deleted = [])
    (hwrites : EveryStep (World.step args) (WritesYoung args) w es)
    (hjoined : EveryStep (World.step args) (JoinedLately args) w es) :
    EveryState (World.step args) DeletedUnreachable w es := by
  have hharmless : w.Harmless args :=
    ⟨by simp [hstart.2], by simp [hstart.2], by simp [hstart.1, SweepPhase.found],
      by simp [hstart.1, SweepPhase.found]⟩
  have hcovered : w.Covered :=
    ⟨by simp [hstart.1, SweepPhase.tbl?], by simp [hstart.1, SweepPhase.pointer?]⟩
  have hinv : ∀ (s : World) (e : SweepStep), s.Harmless args ∧ s.Covered →
      s.WritesYoung args e ∧ s.JoinedLately args e →
        (s.step args e).Harmless args ∧ (s.step args e).Covered := fun s e h hboth =>
    ⟨harmless_step e h.1 h.2 hboth.1 hboth.2, covered_step e h.2⟩
  exact (everyState_of_invariant hinv ⟨hharmless, hcovered⟩ (hwrites.and hjoined)).imp
    fun _ h => h.1.deleted

/-! ## Two sweeps -/

section Sample

def sampleDir : AbsPath := ⟨["t".toList], by decide +kernel⟩

def oldData : AbsPath := ⟨["t".toList, "data".toList, "old.parquet".toList], by decide +kernel⟩

def newData : AbsPath := ⟨["t".toList, "data".toList, "new.parquet".toList], by decide +kernel⟩

def newList : AbsPath := ⟨["t".toList, "metadata".toList, "snap-2.avro".toList], by decide +kernel⟩

def oldMetadata : AbsPath :=
  ⟨["t".toList, "metadata".toList, "00000-a.metadata.json".toList], by decide +kernel⟩

def newMetadata : AbsPath :=
  ⟨["t".toList, "metadata".toList, "00001-b.metadata.json".toList], by decide +kernel⟩

def sampleArgs : SweepArgs := { cwd := sampleDir, tableDir := sampleDir }

def oldSnapshot : Snapshot := ⟨1, 0, none, [], [.uri 1 oldData]⟩

def newSnapshot : Snapshot := ⟨2, 1, some (.uri 1 newList), [], [.uri 1 oldData, .uri 1 newData]⟩

/-- A table of one old data file. -/
def sampleWorld : World where
  now := 0
  disk := ⟨[(oldData, -10000), (oldMetadata, -10000)], by decide +kernel⟩
  catalog := some ⟨.uri 1 oldMetadata, ⟨[oldSnapshot]⟩⟩
  sweep := .backup

/-- A writer's commit of the new data file. -/
def commitNew : List SweepStep :=
  [.create newList, .create newMetadata,
    .commit ⟨.uri 1 newMetadata, ⟨[oldSnapshot, newSnapshot]⟩⟩]

/-- The sweep up to the reading of the metadata's files, and from there to its first deletion. -/
def sweepLoads : List SweepStep := [.backup true, .load true, .expire none, .inspect true]

def sweepDeletes : List SweepStep :=
  [.readPointer true, .listChain, .walk, .filter, .unlink true]

/-- A data file of 25 minutes is committed after the sweep has loaded the table, and the cutoff
comes two minutes later. -/
theorem quick_sweep_harmless :
    EveryState (World.step sampleArgs) World.DeletedUnreachable sampleWorld
      ([.create newData, .elapse 1500] ++ sweepLoads ++ commitNew ++ [.elapse 120] ++
        sweepDeletes) := by
  apply deletions_harmless sampleArgs
  · exact ⟨rfl, rfl⟩
  · decide +kernel
  · decide +kernel

/-- A data file of 29 minutes is committed after the sweep has loaded the table, and the cutoff
comes two minutes later: the file is deleted. -/
theorem slow_sweep_deletes_live :
    ¬ ∀ (args : SweepArgs) (w : World) (es : List SweepStep),
      w.sweep = .backup ∧ w.deleted = [] →
        EveryStep (World.step args) (World.WritesYoung args) w es →
          EveryState (World.step args) World.DeletedUnreachable w es := by
  intro hharmless
  have hlast := (hharmless sampleArgs sampleWorld
    ([.create newData, .elapse 1740] ++ sweepLoads ++ commitNew ++ [.elapse 120] ++ sweepDeletes)
    ⟨rfl, rfl⟩ (by decide +kernel)).last
  exact absurd hlast (by decide +kernel)

end Sample

end AsetPlatform.Maintenance

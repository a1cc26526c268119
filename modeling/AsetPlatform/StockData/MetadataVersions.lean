import AsetPlatform.Library.PaddedNumbers
import AsetPlatform.StockData.MetadataCache

/-!
# The newest metadata file

`_resolve_metadata` (`backend/db/duckdb_engine.py`) takes the greatest name of a metadata directory. The
names begin with the version, padded to five digits, and a uuid. `resolves_head_iff`: the file taken is
that of the highest committed version exactly if every other name sorts before it, by the leading digits
when one version has more than five digits, and by the uuids of one version.
-/

set_option autoImplicit false

namespace AsetPlatform.StockData.MetadataCache

open AsetPlatform.Library

/-! ## Directories -/

/-- A uuid in its canonical form. -/
structure Uuid where
  text : List Char
  length_eq : text.length = 36
  deriving DecidableEq

/-- A metadata file, written for a version of the table. -/
structure VersionFile where
  version : Nat
  uuid : Uuid
  deriving DecidableEq

namespace VersionFile

/-- The padding of the version. -/
def width : Nat := 5

def suffix : List Char := ".metadata.json".toList

/-- `NNNNN-uuid.metadata.json` -/
def name (f : VersionFile) : String :=
  String.ofList (padded width f.version ++ '-' :: (f.uuid.text ++ suffix))

/-- The order of the names: by the versions, or their leading digits when one is longer than the
padding, then by the uuids. -/
def SortsBefore (f g : VersionFile) : Prop :=
  PaddedBefore width f.version g.version f.uuid.text g.uuid.text

end VersionFile

/-- The files of a table: one for each committed version, and those written for commits that did not
succeed, at most one version above the highest. -/
structure TableVersions where
  committed : List VersionFile
  nonempty : committed ≠ []
  ascending : committed.Pairwise fun f g => f.version < g.version
  leftOver : List VersionFile
  leftOver_le : ∀ f ∈ leftOver, f.version ≤ (committed.getLast nonempty).version + 1

namespace TableVersions

variable (t : TableVersions)

/-- The file the catalog points at. -/
def head : VersionFile := t.committed.getLast t.nonempty

def files : List VersionFile := t.committed ++ t.leftOver

/-- The listing of the directory, in any order. -/
def Lists (names : List String) : Prop := names.Perm (t.files.map VersionFile.name)

theorem head_mem : t.head ∈ t.files := List.mem_append_left _ (List.getLast_mem _)

end TableVersions

/-! ## Names -/

namespace VersionFile

variable {f g : VersionFile}

theorem name_lt_iff : f.name < g.name ↔ f.SortsBefore g := by
  have hRest : f.uuid.text ++ suffix < g.uuid.text ++ suffix ↔ f.uuid.text < g.uuid.text := by
    rw [append_lt_append_iff (f.uuid.length_eq.trans g.uuid.length_eq.symm)]
    exact or_iff_left fun hBoth => lt_irrefl _ hBoth.2
  rw [String.lt_iff_toList_lt, name, name, String.toList_ofList, String.toList_ofList, padded_lt_iff,
    SortsBefore, PaddedBefore, PaddedBefore, hRest]

theorem name_injective (h : f.name = g.name) : f = g := by
  have hBefore : ∀ {a b : VersionFile}, a.name = b.name → ¬ a.SortsBefore b := by
    intro a b hSame hSorts
    exact absurd (name_lt_iff.mpr hSorts) (hSame ▸ lt_irrefl _)
  obtain ⟨version, uuid, hUuid⟩ := f
  obtain ⟨version', uuid', hUuid'⟩ := g
  obtain ⟨rfl, rfl⟩ := eq_of_not_paddedBefore width (hBefore h) (hBefore h.symm)
  rfl

end VersionFile

theorem scan_eq_some_iff {names : List String} {name : String} (t : String) :
    scan names t = some (metadataFile t name) ↔ name ∈ names ∧ ∀ other ∈ names, other ≤ name := by
  have hPerm : (names.mergeSort fun a b => decide (b ≤ a)).Perm names := List.mergeSort_perm _ _
  have hDescending := pairwise_descending names
  have hInj : ∀ other, metadataFile t other = metadataFile t name ↔ other = name :=
    fun other => ⟨fun h => String.append_right_inj _ |>.mp h, congrArg _⟩
  rw [scan, Option.map_eq_some_iff]
  simp only [hInj, exists_eq_right]
  cases hSorted : names.mergeSort fun a b => decide (b ≤ a) with
  | nil =>
      rw [hSorted] at hPerm
      rw [List.nil_perm.mp hPerm]
      exact iff_of_false (fun h => by cases h) fun h => absurd h.1 List.not_mem_nil
  | cons first rest =>
      rw [hSorted] at hPerm hDescending
      rw [List.head?_cons, Option.some.injEq]
      constructor
      · rintro rfl
        refine ⟨hPerm.mem_iff.mp List.mem_cons_self, fun other hOther => ?_⟩
        rcases List.mem_cons.mp (hPerm.mem_iff.mpr hOther) with rfl | hLater
        · exact le_rfl
        · exact (List.pairwise_cons.mp hDescending).1 other hLater
      · rintro ⟨hMem, hGreatest⟩
        apply le_antisymm (hGreatest first (hPerm.mem_iff.mp List.mem_cons_self))
        rcases List.mem_cons.mp (hPerm.mem_iff.mpr hMem) with rfl | hLater
        · exact le_rfl
        · exact (List.pairwise_cons.mp hDescending).1 name hLater

theorem resolveMetadata_empty (names : List String) (t : String) :
    (resolveMetadata .empty names t).1 = scan names t := by
  have hNone : lookUp .empty t = none := rfl
  rw [resolveMetadata, hNone]
  cases scan names t <;> rfl

/-- With nothing remembered, the file of the highest committed version is taken exactly if every other
name sorts before its name. -/
theorem resolves_head_iff (versions : TableVersions) {names : List String}
    (hNames : versions.Lists names) (t : String) :
    (resolveMetadata .empty names t).1 = some (metadataFile t versions.head.name) ↔
      ∀ f ∈ versions.files, f ≠ versions.head → f.SortsBefore versions.head := by
  have hMem : ∀ name, name ∈ names ↔ ∃ f ∈ versions.files, f.name = name := by
    intro name
    rw [hNames.mem_iff, List.mem_map]
  rw [resolveMetadata_empty, scan_eq_some_iff]
  constructor
  · rintro ⟨-, hGreatest⟩ f hf hne
    apply VersionFile.name_lt_iff.mp
    apply lt_of_le_of_ne (hGreatest f.name ((hMem _).mpr ⟨f, hf, rfl⟩))
    exact fun hSame => hne (VersionFile.name_injective hSame)
  · intro hBefore
    refine ⟨(hMem _).mpr ⟨versions.head, versions.head_mem, rfl⟩, fun other hOther => ?_⟩
    obtain ⟨f, hf, rfl⟩ := (hMem other).mp hOther
    by_cases hSame : f = versions.head
    · rw [hSame]
    · exact (VersionFile.name_lt_iff.mpr (hBefore f hf hSame)).le

/-- Without files of failed commits, and while no version has more than five digits, the newest file is
taken. -/
theorem sortsBefore_of_committed (versions : TableVersions) (hNone : versions.leftOver = [])
    (hHead : versions.head.version < 10 ^ VersionFile.width) :
    ∀ f ∈ versions.files, f ≠ versions.head → f.SortsBefore versions.head := by
  intro f hf hne
  rw [TableVersions.files, hNone, List.append_nil] at hf
  have hSplit := List.dropLast_append_getLast versions.nonempty
  have hAscending := versions.ascending
  rw [← hSplit] at hf hAscending
  rcases List.mem_append.mp hf with hf | hf
  · have hLt : f.version < versions.head.version :=
      (List.pairwise_append.mp hAscending).2.2 f hf _ List.mem_cons_self
    exact paddedBefore_of_lt VersionFile.width (by decide) hLt hHead
  · exact absurd (List.mem_singleton.mp hf) hne

/-! ## Two directories -/

/-- A uuid of one digit over and over. -/
def plainUuid (c : Char) : Uuid := ⟨List.replicate 36 c, List.length_replicate⟩

def twoCommits : TableVersions where
  committed := [⟨0, plainUuid '7'⟩, ⟨1, plainUuid '3'⟩]
  nonempty := List.cons_ne_nil _ _
  ascending := by decide
  leftOver := []
  leftOver_le := fun _ h => absurd h List.not_mem_nil

/-- One commit, and the file of one that did not succeed. -/
def failedCommit : TableVersions where
  committed := [⟨0, plainUuid '7'⟩]
  nonempty := List.cons_ne_nil _ _
  ascending := by decide
  leftOver := [⟨1, plainUuid '3'⟩]
  leftOver_le := by decide

theorem resolves_head_iff_twoCommits :
    (resolveMetadata .empty (twoCommits.files.map VersionFile.name) "stocks.ohlcv").1 =
        some (metadataFile "stocks.ohlcv" twoCommits.head.name) ↔
      ∀ f ∈ twoCommits.files, f ≠ twoCommits.head → f.SortsBefore twoCommits.head :=
  resolves_head_iff twoCommits (List.Perm.refl _) "stocks.ohlcv"

/-- The file of the failed commit is taken. -/
theorem resolves_failedCommit :
    (resolveMetadata .empty (failedCommit.files.map VersionFile.name) "stocks.ohlcv").1 =
        some (metadataFile "stocks.ohlcv" (VersionFile.name ⟨1, plainUuid '3'⟩)) ∧
      (resolveMetadata .empty (failedCommit.files.map VersionFile.name) "stocks.ohlcv").1 ≠
        some (metadataFile "stocks.ohlcv" failedCommit.head.name) := by
  have hBefore : VersionFile.name ⟨0, plainUuid '7'⟩ < VersionFile.name ⟨1, plainUuid '3'⟩ :=
    VersionFile.name_lt_iff.mpr
      (paddedBefore_of_lt VersionFile.width (by decide) (by decide) (by decide))
  have hNames : failedCommit.files.map VersionFile.name =
      [VersionFile.name ⟨0, plainUuid '7'⟩, VersionFile.name ⟨1, plainUuid '3'⟩] := rfl
  rw [resolveMetadata_empty, ne_eq, scan_eq_some_iff, scan_eq_some_iff, hNames]
  constructor
  · refine ⟨List.mem_cons_of_mem _ List.mem_cons_self, fun other hOther => ?_⟩
    rcases List.mem_pair.mp hOther with rfl | rfl
    · exact hBefore.le
    · exact le_rfl
  · rintro ⟨-, hGreatest⟩
    exact not_le.mpr hBefore (hGreatest _ (List.mem_cons_of_mem _ List.mem_cons_self))

end AsetPlatform.StockData.MetadataCache

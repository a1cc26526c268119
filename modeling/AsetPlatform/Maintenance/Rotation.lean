import AsetPlatform.Maintenance.Backup
import Mathlib.Data.Char
import Mathlib.Data.List.Lex
import Mathlib.Data.List.Perm.Subperm

/-!
# Rotation of the backups

A call of `run_backup` that nothing interrupts, over the directories of the backup root in the order in
which they were last made. `_rotate_backups` keeps the greatest names (`mem_kept_iff`), which are the
directories made last exactly if no other name is greater than one of theirs (`rotatesOldest_iff`).
-/

set_option autoImplicit false

namespace AsetPlatform.Maintenance.Backup

local instance lawfulName : LawfulBEq (List Char) := inferInstance

/-- The directories of the backup root, oldest first. -/
structure Root where
  made : List (List Char)
  nodup : made.Nodup

namespace Root

/-- The directory of the day is made, or made again. -/
def mkdir (root : Root) (dest : List Char) : Root where
  made := root.made.filter (· ≠ dest) ++ [dest]
  nodup := by
    refine List.nodup_append.mpr ⟨root.nodup.filter _, List.nodup_singleton _, ?_⟩
    intro a ha b hb
    rw [List.mem_singleton.mp hb]
    exact of_decide_eq_true (List.mem_filter.mp ha).2

/-- `_rotate_backups` -/
def rotateBackups (root : Root) (keep : Nat) : Root where
  made := root.made.filter fun name => name ∉ (sortedNames root.made).drop keep
  nodup := root.nodup.filter _

/-- `run_backup`, with the error text of rsync if it fails. -/
def runBackup (root : Root) (today : IsoDate) (keep : Nat) (stderr : Option (List Char)) :
    Except (List Char) (List Char) × Root :=
  match stderr with
  | some text => (.error ("Backup failed: ".toList ++ text), root.mkdir (destOf today))
  | none => (.ok (destOf today), (root.mkdir (destOf today)).rotateBackups keep)

/-- The backup directories, oldest first. -/
def backups (root : Root) : List (List Char) := root.made.filter isBackup

/-- The `keep` backup directories made last. -/
def newest (root : Root) (keep : Nat) : List (List Char) :=
  root.backups.drop (root.backups.length - keep)

/-- The call returns a directory that is there, and the backup directories that remain are those made
last. -/
def RotatesOldest (root : Root) (today : IsoDate) (keep : Nat) : Prop :=
  ∃ path left, root.runBackup today keep none = (.ok path, left) ∧ path ∈ left.made ∧
    ∀ name, name ∈ left.backups ↔ name ∈ (root.mkdir (destOf today)).newest keep

end Root

/-! ## The order of the names -/

theorem not_lt_trans {a b c : List Char} (hab : ¬ a < b) (hbc : ¬ b < c) : ¬ a < c := by
  rw [not_lt] at hab hbc ⊢
  exact hbc.trans hab

theorem perm_sortedNames (names : List (List Char)) :
    (sortedNames names).Perm (names.filter isBackup) :=
  List.perm_insertionSort _ _

theorem pairwise_sortedNames (names : List (List Char)) :
    (sortedNames names).Pairwise fun a b => ¬ a < b := by
  have hTotal : Std.Total fun a b : List Char => ¬ a < b :=
    ⟨fun a b => (lt_or_ge a b).elim (fun h => Or.inr (not_lt.mpr h.le)) fun h => Or.inl (not_lt.mpr h)⟩
  have hTrans : IsTrans (List Char) fun a b => ¬ a < b := ⟨fun _ _ _ => not_lt_trans⟩
  exact List.pairwise_insertionSort _ _

theorem nodup_sortedNames {names : List (List Char)} (h : names.Nodup) :
    (sortedNames names).Nodup :=
  (perm_sortedNames names).nodup_iff.mpr (h.filter _)

theorem lt_of_rotated {names : List (List Char)} (h : names.Nodup) {keep : Nat} {old new : List Char}
    (hOld : old ∈ (sortedNames names).drop keep) (hNew : new ∈ (sortedNames names).take keep) :
    old < new := by
  have hSplit := List.take_append_drop keep (sortedNames names)
  have hSorted := pairwise_sortedNames names
  rw [← hSplit] at hSorted
  have hNot : ¬ new < old := (List.pairwise_append.mp hSorted).2.2 new hNew old hOld
  refine lt_of_le_of_ne (not_lt.mp hNot) ?_
  have hNodup := nodup_sortedNames h
  rw [← hSplit] at hNodup
  exact fun hSame => List.disjoint_of_nodup_append hNodup hNew (hSame ▸ hOld)

/-! ## What is kept -/

namespace Root

variable (root : Root) (keep : Nat)

theorem nodup_backups : root.backups.Nodup := root.nodup.filter _

theorem nodup_newest : (root.newest keep).Nodup := root.nodup_backups.sublist (List.drop_sublist _ _)

theorem newest_subset {name : List Char} (h : name ∈ root.newest keep) : name ∈ root.backups :=
  List.mem_of_mem_drop h

theorem length_newest : (root.newest keep).length = ((sortedNames root.made).take keep).length := by
  rw [newest, List.length_drop, List.length_take, (perm_sortedNames root.made).length_eq, ← backups]
  omega

theorem mem_kept_iff {name : List Char} :
    name ∈ (root.rotateBackups keep).backups ↔ name ∈ (sortedNames root.made).take keep := by
  have hSplit := List.take_append_drop keep (sortedNames root.made)
  have hAll : name ∈ root.backups ↔
      name ∈ (sortedNames root.made).take keep ∨ name ∈ (sortedNames root.made).drop keep := by
    rw [← List.mem_append, hSplit]
    exact (perm_sortedNames root.made).mem_iff.symm
  have hNodup := nodup_sortedNames root.nodup
  rw [← hSplit] at hNodup
  have hApart := List.disjoint_of_nodup_append hNodup
  rw [backups, rotateBackups, List.filter_filter, List.mem_filter, Bool.and_eq_true, ← and_assoc,
    ← List.mem_filter, ← backups, hAll, decide_eq_true_eq]
  constructor
  · rintro ⟨hKept | hRotated, hNot⟩
    · exact hKept
    · exact absurd hRotated hNot
  · exact fun hKept => ⟨Or.inl hKept, fun hRotated => hApart hKept hRotated⟩

/-- The first names are those of the directories made last exactly if no other name is greater than
one of them. -/
theorem take_eq_newest_iff :
    (∀ name, name ∈ (sortedNames root.made).take keep ↔ name ∈ root.newest keep) ↔
      ∀ new ∈ root.newest keep, ∀ old ∈ root.backups, old ∉ root.newest keep → old < new := by
  have hAll : ∀ name, name ∈ root.backups →
      name ∈ (sortedNames root.made).take keep ∨ name ∈ (sortedNames root.made).drop keep := by
    intro name hName
    rw [← List.mem_append, List.take_append_drop]
    exact (perm_sortedNames root.made).mem_iff.mpr hName
  have hKept : ((sortedNames root.made).take keep).Nodup :=
    (nodup_sortedNames root.nodup).sublist (List.take_sublist _ _)
  constructor
  · intro hSame new hNew old hOld hNot
    rcases hAll old hOld with hFirst | hRest
    · exact absurd ((hSame old).mp hFirst) hNot
    · exact lt_of_rotated root.nodup hRest ((hSame new).mpr hNew)
  · intro hOrder
    -- a directory made last and rotated out leaves a place to one that is not
    have hSubset : root.newest keep ⊆ (sortedNames root.made).take keep := by
      intro new hNew
      by_contra hOut
      have hRest := (hAll new (root.newest_subset keep hNew)).resolve_left hOut
      have hInside : (sortedNames root.made).take keep ⊆ root.newest keep := by
        intro old hOld
        by_contra hNot
        have hBackup : old ∈ root.backups :=
          (perm_sortedNames root.made).mem_iff.mp (List.mem_of_mem_take hOld)
        exact lt_asymm (hOrder new hNew old hBackup hNot) (lt_of_rotated root.nodup hRest hOld)
      have hPerm := (hKept.subperm hInside).perm_of_length_le (root.length_newest keep).le
      exact hOut (hPerm.mem_iff.mpr hNew)
    have hPerm := ((root.nodup_newest keep).subperm hSubset).perm_of_length_le
      (root.length_newest keep).ge
    exact fun name => hPerm.mem_iff.symm

end Root

theorem isBackup_destOf (date : IsoDate) : isBackup (destOf date) = true :=
  List.isPrefixOf_iff_prefix.mpr (List.prefix_append _ _)

/-- The call leaves the directories made last exactly if no other name is greater than one of
theirs. -/
theorem rotatesOldest_iff (root : Root) (today : IsoDate) {keep : Nat} (hKeep : 1 ≤ keep) :
    root.RotatesOldest today keep ↔
      ∀ new ∈ (root.mkdir (destOf today)).newest keep,
        ∀ old ∈ (root.mkdir (destOf today)).backups,
          old ∉ (root.mkdir (destOf today)).newest keep → old < new := by
  rw [← Root.take_eq_newest_iff]
  -- the directory of the day is the last one made
  have hLast : destOf today ∈ (root.mkdir (destOf today)).newest keep := by
    have hMade : (root.mkdir (destOf today)).backups =
        (root.made.filter (· ≠ destOf today)).filter isBackup ++ [destOf today] := by
      rw [Root.backups, Root.mkdir, List.filter_append]
      exact congrArg _ (List.filter_cons_of_pos (isBackup_destOf today))
    rw [Root.newest, hMade, List.length_append, List.length_singleton, List.drop_append_of_le_length]
    · exact List.mem_append_right _ List.mem_cons_self
    · omega
  constructor
  · rintro ⟨path, left, hRun, -, hLeft⟩ name
    obtain rfl : (root.mkdir (destOf today)).rotateBackups keep = left := congrArg Prod.snd hRun
    rw [← hLeft name, Root.mem_kept_iff]
  · intro hSame
    refine ⟨destOf today, (root.mkdir (destOf today)).rotateBackups keep, rfl, ?_, ?_⟩
    · have hKept := (Root.mem_kept_iff _ keep).mpr ((hSame _).mpr hLast)
      exact (List.mem_filter.mp hKept).1
    · intro name
      rw [Root.mem_kept_iff]
      exact hSame name

/-- The 22nd of April 2026. -/
def april22 : IsoDate where
  text := "2026-04-22".toList
  chars := by decide

/-- Plain dates. -/
def datedRoot : Root where
  made := ["backup-2026-04-20".toList, "backup-2026-04-21".toList]
  nodup := by decide

theorem rotatesOldest_iff_dated :
    datedRoot.RotatesOldest april22 2 ↔
      ∀ new ∈ (datedRoot.mkdir (destOf april22)).newest 2,
        ∀ old ∈ (datedRoot.mkdir (destOf april22)).backups,
          old ∉ (datedRoot.mkdir (destOf april22)).newest 2 → old < new :=
  rotatesOldest_iff datedRoot april22 (by decide)

/-- A backup made by hand earlier on the day. -/
def suffixedRoot : Root where
  made := ["backup-2026-04-22-pre-dedupe".toList]
  nodup := by decide

/-- The call removes the directory it returns. -/
theorem not_rotatesOldest_suffixed :
    suffixedRoot.runBackup april22 1 none =
        (.ok "backup-2026-04-22".toList, suffixedRoot) ∧
      ¬ suffixedRoot.RotatesOldest april22 1 := by
  have hLeft : (suffixedRoot.runBackup april22 1 none).2.made = suffixedRoot.made := by
    decide +kernel
  have hRun : suffixedRoot.runBackup april22 1 none =
      (.ok "backup-2026-04-22".toList, suffixedRoot) := by
    refine Prod.ext rfl ?_
    cases hRoot : (suffixedRoot.runBackup april22 1 none).2 with
    | mk made nodup =>
        rw [hRoot] at hLeft
        subst hLeft
        rfl
  refine ⟨hRun, ?_⟩
  rintro ⟨path, left, hOther, hMem, -⟩
  rw [hRun] at hOther
  cases hOther
  exact absurd hMem (by decide)

end AsetPlatform.Maintenance.Backup

import AsetPlatform.Maintenance.Backup

/-!
# Runs of backups among writers

A directory is offered from the moment it is made, and a run writes it in place. It can be restored
when its catalog reaches only files that it has: after a run that means the files reachable from the
catalog as it was copied, at the end, have to be among those that rsync listed, at the beginning.

`backups_restorable` has the conditions under which every directory that no run is writing can be
restored at any time. `backups_unrestorable` has two runs without them: a commit comes between the
two copies, and a second run of the day fails half-way.
-/

set_option autoImplicit false

namespace AsetPlatform.Maintenance

open AsetPlatform.Library

universe u

namespace Backup

variable {P : Type u}

/-! ## The property and the conditions -/

def Covers (reach : P → List P) (catalog : Option (CatalogFile P)) (files : List P) : Prop :=
  match catalog with
  | some (.pointers pointers) => ∀ pointer ∈ pointers, ∀ file ∈ reach pointer, file ∈ files
  | _ => False

theorem Covers.mono {reach : P → List P} {catalog : Option (CatalogFile P)} {files files' : List P}
    (h : Covers reach catalog files) (hsub : ∀ file ∈ files, file ∈ files') :
    Covers reach catalog files' := by
  match catalog, h with
  | some (.pointers pointers), h =>
      exact fun pointer hpointer file hfile => hsub file (h pointer hpointer file hfile)

/-- A restored system whose catalog points only at metadata that is there with all its files. -/
def World.Restored.Readable (reach : P → List P) (r : World.Restored P) : Prop :=
  r.catalog = none ∨ Covers reach r.catalog r.warehouse

/-- What rsync has listed, when the catalog is about to be copied. -/
def Phase.listed? : Phase P → Option (List P)
  | copying listed => some listed
  | _ => none

/-- The directory to be removed next. -/
def Phase.old? : Phase P → Option (List Char)
  | rotating (old :: _) => some old
  | _ => none

namespace World

/-- A run is writing the directory. -/
def Busy (w : World P) (name : List Char) : Prop :=
  ∃ run ∈ w.runs, run.phase.underWay ∧ run.dest = name

/-- Every date that `list_backups` offers can be restored, but for a directory that a run is just
writing. -/
def Restorable (reach : P → List P) (w : World P) : Prop :=
  ∀ date ∈ w.listBackups, ¬w.Busy (namePrefix ++ date) →
    ∃ r ∈ w.restoreBackup date, r.Readable reach

/-- Before the first run: every directory has a date for a name, and a catalog with its files. -/
structure Begins (reach : P → List P) (w : World P) : Prop where
  runs : w.runs = []
  names : ∀ name ∈ w.backups.keys, isBackup name →
    namePrefix ++ removeAll namePrefix name = name
  covers : ∀ b ∈ w.backups.entries, isBackup b.1 → Covers reach b.2.catalog b.2.files

/-- The catalog that the directory of a run has after it was copied. -/
def copied (w : World P) (run : Run P) : Option (CatalogFile P) :=
  (w.catalog.map .pointers).or (run.before.bind (·.catalog))

/-- A run begins when no other one is writing its directory. The catalog is copied while everything
it reaches is on the list of rsync, and the copy does not break off. A run that raises while it
writes its directory leaves there all that the catalog reaches which the directory had before. A
removal that breaks off leaves a directory like that, and not one that a run is writing. -/
def Orderly (reach : P → List P) (w : World P) : Step P → Prop
  | .begin _ => ¬w.Busy (destOf w.today)
  | .write k .copyCatalog =>
      ∀ run ∈ w.runs[k]?, ∀ listed ∈ run.phase.listed?, Covers reach (w.copied run) listed
  | .write k .breakCatalog => ∀ run ∈ w.runs[k]?, run.phase.listed?.isSome → w.catalog = none
  | .finish k .fail =>
      ∀ run ∈ w.runs[k]?, run.phase.underWay →
        ∀ b ∈ w.backups.get? run.dest, Covers reach (run.before.bind (·.catalog)) b.files
  | .finish k (.cutTree left) =>
      ∀ run ∈ w.runs[k]?, ∀ old ∈ run.phase.old?,
        Covers reach left.catalog left.files ∧ ¬w.Busy old
  | _ => True

/-! ## The invariant -/

/-- The directories that no run is writing are restorable. A run that is writing one has it for
itself; until the catalog is copied, the directory has the catalog that it had before, and when it
is, all the files on the list. -/
structure Sound (reach : P → List P) (w : World P) : Prop where
  names : ∀ name, w.backups.get? name ≠ none → isBackup name →
    namePrefix ++ removeAll namePrefix name = name
  settled : ∀ name, ∀ b ∈ w.backups.get? name, isBackup name → ¬w.Busy name →
    Covers reach b.catalog b.files
  catalog : ∀ run ∈ w.runs, run.phase.underWay → ∀ b ∈ w.backups.get? run.dest,
    b.catalog = run.before.bind (·.catalog)
  listed : ∀ run ∈ w.runs, ∀ listed, run.phase = .copying listed →
    ∀ b ∈ w.backups.get? run.dest, ∀ file ∈ listed, file ∈ b.files
  alone : ∀ i j : Nat, ∀ run ∈ w.runs[i]?, ∀ run' ∈ w.runs[j]?, run.phase.underWay →
    run'.phase.underWay → run.dest = run'.dest → i = j

theorem Begins.sound {reach : P → List P} {w : World P} (h : w.Begins reach) : w.Sound reach where
  names name hname := h.names name (by
    obtain ⟨b, hb⟩ := Option.ne_none_iff_exists'.mp hname
    exact Dict.mem_keys_iff.mpr ⟨b, hb⟩)
  settled name b hb hbackup _ := h.covers (name, b) (Dict.get?_eq_some_iff.mp hb) hbackup
  catalog run hrun := absurd hrun (by simp [h.runs])
  listed run hrun := absurd hrun (by simp [h.runs])
  alone i j run hrun := absurd hrun (by simp [h.runs])

theorem exists_of_mem_listBackups {reach : P → List P} {w : World P} (h : w.Sound reach)
    {date : List Char} (hdate : date ∈ w.listBackups) :
    ∃ b, w.backups.get? (namePrefix ++ date) = some b ∧ isBackup (namePrefix ++ date) := by
  obtain ⟨name, hname, rfl⟩ := List.mem_map.mp hdate
  obtain ⟨hkey, hbackup⟩ := List.mem_filter.mp ((List.mem_insertionSort _).mp hname)
  obtain ⟨b, hb⟩ := Dict.mem_keys_iff.mp hkey
  have hsame := h.names name (by simp [hb]) hbackup
  rw [hsame]
  exact ⟨b, hb, hbackup⟩

theorem Sound.restorable {reach : P → List P} {w : World P} (h : w.Sound reach) :
    w.Restorable reach := by
  intro date hdate hfree
  obtain ⟨b, hb, hbackup⟩ := exists_of_mem_listBackups h hdate
  have hcovers := h.settled _ b hb hbackup hfree
  refine ⟨⟨b.files, b.catalog.or (w.catalog.map .pointers)⟩, ?_, Or.inr ?_⟩
  · simp [restoreBackup, hb]
  · cases hcatalog : b.catalog with
    | none =>
        rw [hcatalog] at hcovers
        cases hcovers
    | some catalog =>
        rw [hcatalog] at hcovers
        exact hcovers

/-! ## Steps -/

section Moves

variable {reach : P → List P} {w : World P} {k : Nat} {run : Run P}

/-- A run moves, changing at most its own directory, and only while it writes it. -/
theorem Sound.move {phase : Phase P} {backups : Dict (List Char) (Directory P)}
    (h : w.Sound reach) (hrun : w.runs[k]? = some run)
    (hsame : ¬run.phase.underWay → backups = w.backups)
    (hother : ∀ name, name ≠ run.dest → backups.get? name = w.backups.get? name)
    (hdest : w.backups.get? run.dest = none → backups.get? run.dest = none)
    (hmono : phase.underWay → run.phase.underWay)
    (hcatalog : phase.underWay → ∀ b ∈ backups.get? run.dest,
      b.catalog = run.before.bind (·.catalog))
    (hlisted : ∀ listed, phase = .copying listed → ∀ b ∈ backups.get? run.dest,
      ∀ file ∈ listed, file ∈ b.files)
    (hsettled : run.phase.underWay → ¬phase.underWay → ∀ b ∈ backups.get? run.dest,
      Covers reach b.catalog b.files) :
    (({ w with backups := backups } : World P).setPhase k run phase).Sound reach := by
  have hk : k < w.runs.length := (List.getElem?_eq_some_iff.mp hrun).1
  have hget : ∀ i : Nat, (w.runs.set k { run with phase := phase })[i]? =
      if i = k then some { run with phase := phase } else w.runs[i]? := by
    intro i
    rw [List.getElem?_set]
    by_cases hi : k = i
    · simp [hi.symm, hk]
    · simp [hi, Ne.symm hi]
  -- the other runs are those of before, and write other directories
  have hmem : ∀ r ∈ w.runs.set k { run with phase := phase },
      r = { run with phase := phase } ∨ ∃ i, i ≠ k ∧ w.runs[i]? = some r := by
    intro r hr
    obtain ⟨i, hi⟩ := List.getElem?_of_mem hr
    rw [hget] at hi
    split at hi
    · exact Or.inl (Option.some.inj hi).symm
    · rename_i hne
      exact Or.inr ⟨i, hne, hi⟩
  have hbackups : ∀ (r : Run P) (i : Nat), i ≠ k → w.runs[i]? = some r → r.phase.underWay →
      backups.get? r.dest = w.backups.get? r.dest := by
    intro r i hi hr hunder
    by_cases hmine : run.phase.underWay
    · apply hother
      intro heq
      exact hi (h.alone i k r hr run hrun hunder hmine heq)
    · rw [hsame hmine]
  constructor
  · intro name hname
    apply h.names name
    intro hnone
    apply hname
    by_cases hmine : name = run.dest
    · subst hmine
      exact hdest hnone
    · exact (hother name hmine).trans hnone
  · intro name b hb hbackup hfree
    by_cases hmine : name = run.dest
    · subst hmine
      by_cases hunder : run.phase.underWay
      · apply hsettled hunder _ b hb
        intro hstill
        exact hfree ⟨{ run with phase := phase }, mem_set_self hrun, hstill, rfl⟩
      · -- the run had left its directory before, and so has any other one
        have hb' : b ∈ w.backups.get? run.dest := by
          rw [← hsame hunder]
          exact hb
        apply h.settled _ b hb' hbackup
        rintro ⟨r, hr, hstill, heq⟩
        apply hfree
        refine ⟨r, mem_set_of_ne hrun hr ?_, hstill, heq⟩
        rintro rfl
        exact hunder hstill
    · rw [Option.mem_def, show (({ w with backups := backups } : World P).setPhase k run
          phase).backups = backups from rfl, hother name hmine] at hb
      apply h.settled name b hb hbackup
      rintro ⟨r, hr, hstill, heq⟩
      apply hfree
      refine ⟨r, mem_set_of_ne hrun hr ?_, hstill, heq⟩
      rintro rfl
      exact hmine heq.symm
  · intro r hr hunder b hb
    rcases hmem r hr with rfl | ⟨i, hi, hr⟩
    · exact hcatalog hunder b hb
    · apply h.catalog r (List.mem_of_getElem? hr) hunder b
      rw [← hbackups r i hi hr hunder]
      exact hb
  · intro r hr listed hphase b hb
    rcases hmem r hr with rfl | ⟨i, hi, hr⟩
    · exact hlisted listed hphase b hb
    · have hunder : r.phase.underWay := by
        rw [hphase]
        rfl
      apply h.listed r (List.mem_of_getElem? hr) listed hphase b
      rw [← hbackups r i hi hr hunder]
      exact hb
  · intro i j r hr r' hr' hunder hunder' heq
    simp only [setPhase, Option.mem_def, hget] at hr hr'
    split at hr
    · rename_i hi
      obtain rfl := Option.some.inj hr
      split at hr'
      · rename_i hj
        exact hi.trans hj.symm
      · exact hi.trans (h.alone k j run hrun r' hr' (hmono hunder) hunder' heq)
    · split at hr'
      · rename_i hj
        obtain rfl := Option.some.inj hr'
        exact (h.alone i k r hr run hrun hunder (hmono hunder') heq).trans hj.symm
      · exact h.alone i j r hr r' hr' hunder hunder' heq

theorem Sound.moveOn {phase : Phase P} (h : w.Sound reach) (hrun : w.runs[k]? = some run)
    (hbefore : run.phase.underWay = false) (hafter : phase.underWay = false) :
    (w.setPhase k run phase).Sound reach := by
  refine h.move hrun (fun _ => rfl) (fun _ _ => rfl) (fun h => h) ?_ ?_ ?_ ?_
  · simp [hafter]
  · simp [hafter]
  · rintro listed rfl
    cases hafter
  · simp [hbefore]

/-- A run changes the directory it is writing, but not its catalog. -/
theorem Sound.writeFiles {phase : Phase P} {b b' : Directory P} (h : w.Sound reach)
    (hrun : w.runs[k]? = some run) (hget : w.backups.get? run.dest = some b)
    (hbefore : run.phase.underWay = true) (hafter : phase.underWay = true)
    (hcatalog : b'.catalog = b.catalog)
    (hlisted : ∀ listed, phase = .copying listed → ∀ file ∈ listed, file ∈ b'.files) :
    ((w.setBackup run.dest b').setPhase k run phase).Sound reach := by
  have hdest : (w.backups.set run.dest b').get? run.dest = some b' := by simp
  refine h.move hrun ?_ ?_ ?_ (fun _ => hbefore) ?_ ?_ ?_
  · simp [hbefore]
  · intro name hname
    simp [hname]
  · simp [hget]
  · intro _ c hc
    obtain rfl := Option.some.inj (hdest.symm.trans hc)
    rw [hcatalog]
    exact h.catalog run (List.mem_of_getElem? hrun) hbefore b hget
  · intro listed hphase c hc
    obtain rfl := Option.some.inj (hdest.symm.trans hc)
    exact hlisted listed hphase
  · simp [hafter]

/-- A run leaves its directory, which is complete. -/
theorem Sound.leave {phase : Phase P} {b b' : Directory P} (h : w.Sound reach)
    (hrun : w.runs[k]? = some run) (hget : w.backups.get? run.dest = some b)
    (hbefore : run.phase.underWay = true) (hafter : phase.underWay = false)
    (hcovers : Covers reach b'.catalog b'.files) :
    ((w.setBackup run.dest b').setPhase k run phase).Sound reach := by
  have hdest : (w.backups.set run.dest b').get? run.dest = some b' := by simp
  refine h.move hrun ?_ ?_ ?_ ?_ ?_ ?_ ?_
  · simp [hbefore]
  · intro name hname
    simp [hname]
  · simp [hget]
  · simp [hafter]
  · simp [hafter]
  · rintro listed rfl
    cases hafter
  · intro _ _ c hc
    obtain rfl := Option.some.inj (hdest.symm.trans hc)
    exact hcovers

theorem Sound.stop {phase : Phase P} (h : w.Sound reach) (hrun : w.runs[k]? = some run)
    (hafter : phase.underWay = false)
    (hcovers : ∀ b ∈ w.backups.get? run.dest, Covers reach b.catalog b.files) :
    (w.setPhase k run phase).Sound reach := by
  refine h.move hrun (fun _ => rfl) (fun _ _ => rfl) (fun h => h) ?_ ?_ ?_ fun _ _ => hcovers
  · simp [hafter]
  · simp [hafter]
  · rintro listed rfl
    cases hafter

end Moves

variable {reach : P → List P} {w : World P}

theorem Sound.environment {w' : World P} (h : w.Sound reach) (hbackups : w'.backups = w.backups)
    (hruns : w'.runs = w.runs) : w'.Sound reach := by
  obtain ⟨warehouse, catalog, today, backups, runs⟩ := w'
  obtain rfl : backups = w.backups := hbackups
  obtain rfl : runs = w.runs := hruns
  exact ⟨h.names, h.settled, h.catalog, h.listed, h.alone⟩

theorem Sound.erase (h : w.Sound reach) (old : List Char) :
    ({ w with backups := w.backups.erase old } : World P).Sound reach := by
  have hget : ∀ {name : List Char} {b : Directory P},
      b ∈ (w.backups.erase old).get? name → b ∈ w.backups.get? name := by
    intro name b hb
    simp only [Dict.get?_erase] at hb
    split at hb
    · cases hb
    · exact hb
  refine ⟨fun name hname => h.names name ?_, fun name b hb => h.settled name b (hget hb),
    fun run hrun hunder b hb => h.catalog run hrun hunder b (hget hb),
    fun run hrun listed hphase b hb => h.listed run hrun listed hphase b (hget hb), h.alone⟩
  intro hnone
  apply hname
  simp [hnone]

theorem Sound.cut {old : List Char} {b left : Directory P} (h : w.Sound reach)
    (hget : w.backups.get? old = some b) (hfree : ¬w.Busy old)
    (hcovers : Covers reach left.catalog left.files) : (w.setBackup old left).Sound reach := by
  have hother : ∀ run ∈ w.runs, run.phase.underWay →
      (w.backups.set old left).get? run.dest = w.backups.get? run.dest := by
    intro run hrun hunder
    have hne : run.dest ≠ old := fun heq => hfree ⟨run, hrun, hunder, heq⟩
    simp [hne]
  constructor
  · intro name hname
    apply h.names name
    by_cases hold : name = old
    · simp [hold, hget]
    · simpa [setBackup, hold] using hname
  · intro name c hc hbackup hname
    by_cases hold : name = old
    · subst hold
      obtain rfl : left = c := by simpa [setBackup] using hc
      exact hcovers
    · exact h.settled name c (by simpa [setBackup, hold] using hc) hbackup hname
  · intro run hrun hunder c hc
    exact h.catalog run hrun hunder c (hother run hrun hunder ▸ hc)
  · intro run hrun listed hphase c hc
    have hunder : run.phase.underWay := by
      rw [hphase]
      rfl
    exact h.listed run hrun listed hphase c (hother run hrun hunder ▸ hc)
  · exact h.alone

/-- The start of a run in a directory that no other one is writing. -/
theorem Sound.begin (h : w.Sound reach) (keep : Nat) (hfree : ¬w.Busy (destOf w.today)) :
    (w.begin keep).Sound reach := by
  have hdash : 'b' ∉ w.today.text := by
    intro hb
    have := w.today.chars 'b' hb
    revert this
    decide
  -- the directory is there afterwards, as it was before or empty
  have hget : ∀ name, (w.begin keep).backups.get? name =
      if name = destOf w.today then some ((w.backups.get? name).getD {})
      else w.backups.get? name := by
    intro name
    simp only [World.begin]
    by_cases hname : name = destOf w.today
    · subst hname
      cases hbefore : w.backups.get? (destOf w.today) with
      | none => simp
      | some b => simp [hbefore]
    · split
      · simp
      · simp [hname]
  have hruns : ∀ run ∈ (w.begin keep).runs, run ∈ w.runs ∨
      run = ⟨keep, destOf w.today, w.backups.get? (destOf w.today), .listing⟩ := by
    intro run hrun
    exact (List.mem_append.mp hrun).imp_right List.mem_singleton.mp
  have hold : ∀ run ∈ w.runs, run.phase.underWay →
      (w.begin keep).backups.get? run.dest = w.backups.get? run.dest := by
    intro run hrun hunder
    have hne : run.dest ≠ destOf w.today := fun heq => hfree ⟨run, hrun, hunder, heq⟩
    rw [hget, if_neg hne]
  constructor
  · intro name hname hbackup
    by_cases hnew : name = destOf w.today
    · subst hnew
      exact congrArg (namePrefix ++ ·) (removeAll_append _ hdash)
    · rw [hget, if_neg hnew] at hname
      exact h.names name hname hbackup
  · intro name b hb hbackup hname
    by_cases hnew : name = destOf w.today
    · exact absurd ⟨_, List.mem_append_right _ (List.mem_singleton.mpr rfl), rfl, hnew.symm⟩ hname
    · rw [hget, if_neg hnew] at hb
      apply h.settled name b hb hbackup
      rintro ⟨run, hrun, hunder, heq⟩
      exact hname ⟨run, List.mem_append_left _ hrun, hunder, heq⟩
  · intro run hrun hunder b hb
    rcases hruns run hrun with hrun | rfl
    · rw [hold run hrun hunder] at hb
      exact h.catalog run hrun hunder b hb
    · simp only [hget, if_true, Option.mem_def, Option.some.injEq] at hb
      rw [← hb]
      cases w.backups.get? (destOf w.today) <;> rfl
  · intro run hrun listed hphase b hb
    rcases hruns run hrun with hrun | rfl
    · have hunder : run.phase.underWay := by
        rw [hphase]
        rfl
      rw [hold run hrun hunder] at hb
      exact h.listed run hrun listed hphase b hb
    · cases hphase
  · intro i j run hrun run' hrun' hunder hunder' heq
    rcases getElem?_append_singleton hrun with hi | ⟨hi, rfl⟩
    · rcases getElem?_append_singleton hrun' with hj | ⟨-, rfl⟩
      · exact h.alone i j run hi run' hj hunder hunder' heq
      · exact absurd ⟨run, List.mem_of_getElem? hi, hunder, heq⟩ hfree
    · rcases getElem?_append_singleton hrun' with hj | ⟨hj, -⟩
      · exact absurd ⟨run', List.mem_of_getElem? hj, hunder', heq.symm⟩ hfree
      · exact hi.trans hj.symm

variable [DecidableEq P]

theorem Sound.write {k : Nat} {run : Run P} {b : Directory P} (h : w.Sound reach)
    (hrun : w.runs[k]? = some run) (hget : w.backups.get? run.dest = some b) (e : WriteStep P)
    (horderly : w.Orderly reach (.write k e)) : (w.write k run b e).Sound reach := by
  have hmem := List.mem_of_getElem? hrun
  cases e with
  | list =>
      simp only [World.write]
      split
      · rename_i hphase
        exact h.writeFiles hrun hget (by rw [hphase]; rfl) rfl rfl fun _ hnot => by cases hnot
      · exact h
  | copy file =>
      simp only [World.write]
      split
      · rename_i listed vanished hphase
        have hunder : run.phase.underWay = true := by rw [hphase]; rfl
        split
        · exact h
        · split
          · exact h.writeFiles hrun hget hunder rfl rfl fun _ hnot => by cases hnot
          -- a vanished file: only the phase changes
          · refine h.move hrun (fun _ => rfl) (fun _ _ => rfl) (fun hnone => hnone)
              (fun _ => hunder) (fun _ => h.catalog run hmem hunder) ?_ ?_
            · rintro _ hnot
              cases hnot
            · exact fun _ hnot => absurd rfl hnot
      · exact h
  | remove file =>
      simp only [World.write]
      split
      · rename_i listed vanished hphase
        split
        · exact h
        · exact h.writeFiles hrun hget (by rw [hphase]; rfl) rfl rfl fun _ hnot => by cases hnot
      · exact h
  | synced =>
      simp only [World.write]
      split
      · rename_i listed hphase
        have hunder : run.phase.underWay = true := by rw [hphase]; rfl
        split
        · rename_i hsame
          refine h.move hrun (fun _ => rfl) (fun _ _ => rfl) (fun hnone => hnone)
            (fun _ => hunder) (fun _ => h.catalog run hmem hunder) ?_ ?_
          · rintro listed' hlisted c hc
            obtain rfl := Phase.copying.inj hlisted
            obtain rfl := Option.some.inj (hget.symm.trans hc)
            exact hsame.1
          · exact fun _ hnot => absurd rfl hnot
        · exact h
      · exact h
  | copyCatalog =>
      have hcopies := horderly run hrun
      simp only [World.write]
      split
      · rename_i listed hphase
        replace hcopies := hcopies listed (by rw [hphase]; rfl)
        have hunder : run.phase.underWay = true := by rw [hphase]; rfl
        have hfiles := h.listed run hmem listed hphase b hget
        split
        · rename_i pointers hcatalog
          refine h.leave hrun hget hunder rfl ?_
          have hcovers : Covers reach (some (.pointers pointers)) listed := by
            simpa [copied, hcatalog] using hcopies
          exact hcovers.mono hfiles
        · rename_i hcatalog
          refine h.stop hrun rfl fun c hc => ?_
          obtain rfl := Option.some.inj (hget.symm.trans hc)
          -- the catalog of before stays
          rw [h.catalog run hmem hunder b hget]
          have hcovers : Covers reach (run.before.bind (·.catalog)) listed := by
            simpa [copied, hcatalog] using hcopies
          exact hcovers.mono hfiles
      · exact h
  | breakCatalog =>
      have hnone := horderly run hrun
      simp only [World.write]
      split
      · rename_i listed hphase
        rw [if_neg (by simp [hnone (by rw [hphase]; rfl)])]
        exact h
      · exact h

theorem Sound.finish {k : Nat} {run : Run P} (h : w.Sound reach) (hrun : w.runs[k]? = some run)
    (e : EndStep P) (horderly : w.Orderly reach (.finish k e)) :
    (w.finish k run e).Sound reach := by
  cases e with
  | rotate =>
      simp only [World.finish]
      split
      · rename_i hphase
        exact h.moveOn hrun (by rw [hphase]; rfl) rfl
      · exact h
  | rmtree =>
      simp only [World.finish]
      split
      · rename_i old olds hphase
        have hbefore : run.phase.underWay = false := by rw [hphase]; rfl
        split
        · exact (h.erase old).moveOn hrun hbefore rfl
        · exact h.moveOn hrun hbefore rfl
      · rename_i hphase
        exact h.moveOn hrun (by rw [hphase]; rfl) rfl
      · exact h
  | cutTree left =>
      have hleft := horderly run hrun
      simp only [World.finish]
      split
      · rename_i old olds hphase
        replace hleft := hleft old (by rw [hphase]; rfl)
        split
        · rename_i b hget
          split
          · exact (h.cut hget hleft.2 hleft.1).moveOn hrun (by rw [hphase]; rfl) rfl
          · exact h
        · exact h
      · exact h
  | fail =>
      have hcovers := horderly run hrun
      simp only [World.finish]
      split
      · exact h
      · cases hunder : run.phase.underWay with
        | true =>
            refine h.stop hrun rfl fun b hget => ?_
            rw [h.catalog run (List.mem_of_getElem? hrun) hunder b hget]
            exact hcovers hunder b hget
        | false => exact h.moveOn hrun hunder rfl

theorem Sound.step (h : w.Sound reach) (e : Step P) (horderly : w.Orderly reach e) :
    (w.step e).Sound reach := by
  cases e with
  | create file => exact h.environment rfl rfl
  | commit pointers => exact h.environment rfl rfl
  | cleanup file => exact h.environment rfl rfl
  | newDay date => exact h.environment rfl rfl
  | begin keep => exact h.begin keep horderly
  | write k e =>
      simp only [World.step]
      split
      · rename_i run hrun
        split
        · rename_i b hget
          exact h.write hrun hget e horderly
        · exact h
      · exact h
  | finish k e =>
      simp only [World.step]
      split
      · rename_i run hrun
        exact h.finish hrun e horderly
      · exact h

end World

open World in
/-- Along orderly runs every backup on offer can be restored at any time, but for the directory that
a run is just writing, whatever runs have failed. -/
theorem backups_restorable [DecidableEq P] (reach : P → List P) (w : World P) (es : List (Step P))
    (hstart : w.Begins reach) (horderly : EveryStep step (Orderly reach) w es) :
    EveryState step (Restorable reach) w es := by
  have hstep : ∀ (s : World P) (e : Step P), s.Sound reach → s.Orderly reach e →
      (s.step e).Sound reach := fun _ e h ho => h.step e ho
  exact (everyState_of_invariant hstep hstart.sound horderly).imp fun _ h => h.restorable

/-! ## Two runs -/

/-- Writers commit metadata whose files they have written, and the sweep deletes what the catalog
does not reach. -/
def World.Lawful (reach : P → List P) (w : World P) : Step P → Prop
  | .commit pointers => ∀ pointer ∈ pointers, ∀ file ∈ reach pointer, file ∈ w.warehouse
  | .cleanup file => ∀ pointers ∈ w.catalog, ∀ pointer ∈ pointers, file ∉ reach pointer
  | _ => True

section Sample

instance [DecidableEq P] (reach : P → List P) (catalog : Option (CatalogFile P)) (files : List P) :
    Decidable (Covers reach catalog files) :=
  match catalog with
  | some (.pointers pointers) =>
      inferInstanceAs (Decidable (∀ pointer ∈ pointers, ∀ file ∈ reach pointer, file ∈ files))
  | some .broken => isFalse fun h => h
  | none => isFalse fun h => h

instance (w : World P) (name : List Char) : Decidable (w.Busy name) :=
  inferInstanceAs (Decidable (∃ run ∈ w.runs, run.phase.underWay ∧ run.dest = name))

instance [DecidableEq P] (reach : P → List P) (w : World P) : ∀ e, Decidable (w.Lawful reach e)
  | .commit pointers =>
      inferInstanceAs (Decidable
        (∀ pointer ∈ pointers, ∀ file ∈ reach pointer, file ∈ w.warehouse))
  | .cleanup file =>
      inferInstanceAs (Decidable
        (∀ pointers ∈ w.catalog, ∀ pointer ∈ pointers, file ∉ reach pointer))
  | .create _ => isTrue trivial
  | .newDay _ => isTrue trivial
  | .begin _ => isTrue trivial
  | .write _ _ => isTrue trivial
  | .finish _ _ => isTrue trivial

instance [DecidableEq P] (reach : P → List P) (w : World P) : ∀ e, Decidable (w.Orderly reach e)
  | .begin _ => inferInstanceAs (Decidable (¬w.Busy (destOf w.today)))
  | .write k .copyCatalog =>
      inferInstanceAs (Decidable
        (∀ run ∈ w.runs[k]?, ∀ listed ∈ run.phase.listed?, Covers reach (w.copied run) listed))
  | .write k .breakCatalog =>
      inferInstanceAs (Decidable
        (∀ run ∈ w.runs[k]?, run.phase.listed?.isSome → w.catalog = none))
  | .write _ .list => isTrue trivial
  | .write _ (.copy _) => isTrue trivial
  | .write _ (.remove _) => isTrue trivial
  | .write _ .synced => isTrue trivial
  | .finish k .fail =>
      inferInstanceAs (Decidable (∀ run ∈ w.runs[k]?, run.phase.underWay →
        ∀ b ∈ w.backups.get? run.dest, Covers reach (run.before.bind (·.catalog)) b.files))
  | .finish k (.cutTree left) =>
      inferInstanceAs (Decidable (∀ run ∈ w.runs[k]?, ∀ old ∈ run.phase.old?,
        Covers reach left.catalog left.files ∧ ¬w.Busy old))
  | .finish _ .rotate => isTrue trivial
  | .finish _ .rmtree => isTrue trivial
  | .create _ => isTrue trivial
  | .commit _ => isTrue trivial
  | .cleanup _ => isTrue trivial
  | .newDay _ => isTrue trivial

instance [DecidableEq P] (reach : P → List P) (w : World P) : Decidable (w.Restorable reach) :=
  inferInstanceAs (Decidable (∀ date ∈ w.listBackups, ¬w.Busy (namePrefix ++ date) →
    ∃ r ∈ w.restoreBackup date, r.catalog = none ∨ Covers reach r.catalog r.warehouse))

/-- The metadata file 0 reaches the data file 1, and 2 reaches 1 and 3. -/
def sampleReach : Nat → List Nat
  | 0 => [0, 1]
  | 2 => [2, 1, 3]
  | file => [file]

def sampleDateText : List Char := ['2', '0', '2', '6', '-', '0', '4', '-', '1', '6']

theorem sampleDate_chars : ∀ c ∈ sampleDateText, c.isDigit ∨ c = '-' := by
  have hall : (sampleDateText.all fun c => c.isDigit || c == '-') = true := by decide
  intro c hc
  simpa using List.all_eq_true.mp hall c hc

def sampleDate : IsoDate := ⟨sampleDateText, sampleDate_chars⟩

/-- A warehouse without backups. -/
def unsaved : World Nat where
  warehouse := [0, 1]
  catalog := some [0]
  today := sampleDate
  backups := Dict.empty
  runs := []

/-- A commit of new metadata with a new data file. -/
def commitMore : List (Step Nat) := [.create 2, .create 3, .commit [2]]

def syncFirst : List (Step Nat) :=
  [.begin 2, .write 0 .list, .write 0 (.copy 0), .write 0 (.copy 1), .write 0 .synced]

def endFirst : List (Step Nat) :=
  [.write 0 .copyCatalog, .finish 0 .rotate, .finish 0 .rmtree]

/-- A backup, a commit, and a second run of the day that fails in rsync. -/
def failedRerun : List (Step Nat) :=
  syncFirst ++ endFirst ++ commitMore ++
    [.begin 2, .write 1 .list, .write 1 (.copy 3), .finish 1 .fail]

theorem backups_restorable_rerun :
    EveryState World.step (World.Restorable sampleReach) unsaved failedRerun := by
  apply backups_restorable sampleReach
  · exact ⟨rfl, by decide, by decide⟩
  · decide +kernel

/-- A commit between rsync and the copy of the catalog. -/
def commitBetween : List (Step Nat) := syncFirst ++ commitMore ++ endFirst

/-- A second run of the day that fails after the old metadata has been swept and deleted from the
backup. -/
def spoilingRerun : List (Step Nat) :=
  [.cleanup 0, .begin 2, .write 1 .list, .write 1 (.remove 0), .finish 1 .fail]

/-- With a commit in between, the backup's catalog points to metadata that it does not have; and a
run that fails takes away what the backup before had. -/
theorem backups_unrestorable :
    (¬ ∀ (reach : Nat → List Nat) (w : World Nat) (es : List (Step Nat)),
      w.Begins reach → EveryStep World.step (World.Lawful reach) w es →
        (∀ name, ¬(runFrom World.step w es).Busy name) →
          (runFrom World.step w es).Restorable reach) ∧
      ¬ ∀ (reach : Nat → List Nat) (w : World Nat) (es rerun : List (Step Nat)),
        w.Begins reach → EveryStep World.step (World.Lawful reach) w (es ++ rerun) →
          (runFrom World.step w es).Restorable reach →
            (∀ name, ¬(runFrom World.step w (es ++ rerun)).Busy name) →
              (runFrom World.step w (es ++ rerun)).Restorable reach := by
  have hbegins : unsaved.Begins sampleReach := ⟨rfl, by decide, by decide⟩
  have hfree : ∀ {w : World Nat}, (w.runs.all fun run => !run.phase.underWay) →
      ∀ name, ¬w.Busy name := by
    rintro w hall name ⟨run, hrun, hunder, -⟩
    have := List.all_eq_true.mp hall run hrun
    simp [hunder] at this
  constructor
  · intro hclaim
    have hlast := hclaim sampleReach unsaved commitBetween hbegins (by decide +kernel)
      (hfree (by decide +kernel))
    exact absurd hlast (by decide +kernel)
  · intro hclaim
    have hlast := hclaim sampleReach unsaved (syncFirst ++ endFirst ++ commitMore) spoilingRerun
      hbegins (by decide +kernel) (by decide +kernel) (hfree (by decide +kernel))
    exact absurd hlast (by decide +kernel)

end Sample

end Backup

end AsetPlatform.Maintenance

import AsetPlatform.Billing.UsageTracker
import AsetPlatform.Library.Run
import Mathlib.Algebra.BigOperators.Group.List.Basic

/-!
# Runs of the usage counter

One call runs after the other, and the clock moves between the steps of a call. The two admin resets
appear as the bodies of their loops (`resetUserUsage_eq_run`), and `resetMonthlyUsage_eq` reduces the
second to the first.

`Conserved`: of every user and month, the counter of the month and the archived records of the month
add up to the increments made in it, on a clock `offset` seconds ahead of UTC; 19,800 is IST.
`conserved_iff`: that is so in every state of a run exactly when each call is sound. An increment is
sound when it is written in the UTC month that is also the month of the clock, and this is the month
it checked, unless the counter stood at zero or was reset; a reset is sound when the archive and the
update both take effect or both do not, unless the counter stood at zero.
-/

set_option autoImplicit false

namespace AsetPlatform.Billing.UsageTracker

open AsetPlatform.Library

/-- The store, and the increments made: of whom, and when. -/
structure World where
  store : Store
  increments : List (String × Nat)

inductive Event where
  | increment (userId : String) (checked written : Nat) (io : ResetIO) (stored : Bool)
  | quotaCheck (userId : String) (checked : Nat) (io : ResetIO)
  /-- The body of the loop of `reset_user_usage`, in a call that has read the month at `began`. -/
  | resetUser (userId : String) (began : Nat) (io : ResetIO)

namespace World

variable (w : World)

def step : Event → World
  | .increment userId checked written io stored =>
      let (store, counted) := w.store.incrementUsage userId checked written io stored
      ⟨store, if counted then w.increments ++ [(userId, written)] else w.increments⟩
  | .quotaCheck userId checked io => { w with store := (w.store.isQuotaExceeded userId checked io).1 }
  | .resetUser userId began io =>
      match w.store.users.get? userId with
      | none => w
      | some row => { w with store := (w.store.resetRow userId row (currentMonth began) io).1 }

end World

/-- A reset of listed users is a run of its loop bodies; it stops when an update raises. -/
theorem resetUserUsage_eq_run (began : Nat) (users : List (String × ResetIO)) (w : World) :
    ∃ n, runFrom World.step w ((users.take n).map fun u => .resetUser u.1 began u.2) =
      { w with store := (w.store.resetUserUsage (currentMonth began) users).1 } := by
  induction users generalizing w with
  | nil => exact ⟨0, rfl⟩
  | cons u rest ih =>
      obtain ⟨userId, io⟩ := u
      cases hRow : w.store.users.get? userId with
      | none =>
          obtain ⟨n, hRun⟩ := ih w
          refine ⟨n + 1, ?_⟩
          simp only [List.take_succ_cons, List.map_cons, runFrom_cons, World.step, hRow,
            Store.resetUserUsage]
          exact hRun
      | some row =>
          cases hReset : w.store.resetRow userId row (currentMonth began) io with
          | mk s reset =>
              have hStep : World.step w (.resetUser userId began io) = { w with store := s } := by
                simp only [World.step, hRow, hReset]
              cases reset with
              | none =>
                  refine ⟨1, ?_⟩
                  simp only [List.take_succ_cons, List.take_zero, List.map_cons, List.map_nil,
                    runFrom_cons, runFrom_nil, hStep, Store.resetUserUsage, hRow, hReset]
              | some reset =>
                  obtain ⟨n, hRun⟩ := ih { w with store := s }
                  refine ⟨n + 1, ?_⟩
                  simp only [List.take_succ_cons, List.map_cons, runFrom_cons, hStep,
                    Store.resetUserUsage, hRow, hReset]
                  exact hRun

/-! ## Accounts -/

/-- What a count under one month adds to a month. -/
def inMonth (month : String) (count : Nat) (m : String) : Nat := if month = m then count else 0

/-- What is counted of a user in a month: by the counter and by the archive. -/
def Store.counted (s : Store) (userId m : String) : Nat :=
  ((s.users.get? userId).elim 0 fun row => inMonth row.month row.count m) +
    (s.history.map fun r => if r.userId = userId then inMonth r.month r.usageCount m else 0).sum

/-- The increments of a user in a month. -/
def World.made (offset : Nat) (w : World) (userId m : String) : Nat :=
  (w.increments.map fun i =>
    if i.1 = userId then inMonth (monthText (monthAt offset i.2)) 1 m else 0).sum

/-- Each increment is counted once, in its month. -/
def Conserved (offset : Nat) (s : Store) (w : World) : Prop :=
  ∀ userId m, w.store.counted userId m = s.counted userId m + w.made offset userId m

/-- A positive counter has a month. -/
def Store.Labelled (s : Store) : Prop :=
  ∀ userId row, s.users.get? userId = some row → 0 < row.count → row.month ≠ ""

/-- The archive and the update both take effect, or both do not, when there is something to archive. -/
def ResetIO.Sound (io : ResetIO) (row : UsageRow) : Prop := row.count = 0 ∨ io.archived = io.updated

/-- The condition on the state before a call. -/
def World.Sound (offset : Nat) (w : World) : Event → Prop
  | .increment userId checked written io stored =>
      match w.store.users.get? userId with
      | none => True
      | some row =>
          if row.month = currentMonth checked then
            stored = true → (currentMonth written = row.month ∨ row.count = 0) ∧
              monthText (monthAt offset written) = currentMonth written
          else
            io.Sound row ∧ (io.updated = true → stored = true →
              monthText (monthAt offset written) = currentMonth written)
  | .quotaCheck userId checked io =>
      match w.store.users.get? userId with
      | none => True
      | some row => userId = "" ∨ row.month = currentMonth checked ∨ io.Sound row
  | .resetUser userId _ io =>
      match w.store.users.get? userId with
      | none => True
      | some row => io.Sound row

/-! ### Counts by month -/

@[simp]
theorem inMonth_zero (month m : String) : inMonth month 0 m = 0 := by
  simp only [inMonth, ite_self]

@[simp]
theorem inMonth_self (month : String) (count : Nat) : inMonth month count month = count := by
  simp only [inMonth, if_true]

theorem inMonth_of_ne {month m : String} (h : month ≠ m) (count : Nat) :
    inMonth month count m = 0 := if_neg h

theorem countOn_iff {a b i : String} {c : Nat} :
    (∀ m, inMonth b (c + 1) m = inMonth a c m + inMonth i 1 m) ↔ (b = a ∨ c = 0) ∧ i = b := by
  constructor
  · intro h
    have hI : i = b := by
      by_contra hNe
      have hAtB := h b
      rw [inMonth_self, inMonth_of_ne hNe] at hAtB
      by_cases hAB : a = b
      · rw [hAB, inMonth_self] at hAtB
        omega
      · rw [inMonth_of_ne hAB] at hAtB
        omega
    refine ⟨?_, hI⟩
    by_contra hNot
    rw [not_or] at hNot
    have hAtA := h a
    rw [inMonth_self, inMonth_of_ne hNot.1] at hAtA
    omega
  · rintro ⟨rfl | rfl, rfl⟩ m
    · by_cases hm : i = m
      · rw [hm, inMonth_self, inMonth_self, inMonth_self]
      · rw [inMonth_of_ne hm, inMonth_of_ne hm, inMonth_of_ne hm]
    · rw [inMonth_zero, Nat.zero_add, Nat.zero_add]

theorem startOver_iff {a b i : String} {c d : Nat} (hd : d = c ∨ d = 0) :
    (∀ m, inMonth b 1 m + inMonth a d m = inMonth a c m + inMonth i 1 m) ↔ d = c ∧ i = b := by
  constructor
  · intro h
    rcases hd with rfl | rfl
    · refine ⟨rfl, ?_⟩
      by_contra hNe
      have hAtB := h b
      rw [inMonth_self, inMonth_of_ne hNe] at hAtB
      omega
    · have hAtA := h a
      rw [inMonth_zero, inMonth_self, Nat.add_zero] at hAtA
      have hAtI := h i
      rw [inMonth_zero, inMonth_self, Nat.add_zero] at hAtI
      have hI : i = b := by
        by_contra hNe
        rw [inMonth_of_ne (Ne.symm hNe)] at hAtI
        omega
      subst hI
      exact ⟨by omega, rfl⟩
  · rintro ⟨rfl, rfl⟩ m
    exact Nat.add_comm _ _

theorem forall_inMonth_eq {a : String} {c d : Nat} :
    (∀ m, inMonth a d m = inMonth a c m) ↔ d = c := by
  constructor
  · intro h
    have hAtA := h a
    rwa [inMonth_self, inMonth_self] at hAtA
  · rintro rfl m
    rfl

theorem sum_archiveRows (userId a : String) (c : Nat) (tier : String) (io : ResetIO) (m : String) :
    ((archiveRows userId a c tier io).map fun r => inMonth r.month r.usageCount m).sum =
      inMonth a (if io.archived then c else 0) m := by
  simp only [archiveRows]
  by_cases hc : c = 0
  · simp [hc]
  · cases io.archived <;> simp [hc]

/-! ## A call -/

section Call

variable {offset : Nat} {s : Store} {w : World} {userId : String} {row : UsageRow}

/-- A call that changes the row of one user, archives rows of the user and increments at `times`
keeps the accounts exactly when these balance in every month. -/
theorem Conserved.exchange (h : Conserved offset s w)
    (hRow : w.store.users.get? userId = some row) (w' : World) (row' : UsageRow)
    (archived : List HistoryRow) (times : List Nat)
    (hRow' : w'.store.users.get? userId = some row')
    (hOther : ∀ key, key ≠ userId → w'.store.users.get? key = w.store.users.get? key)
    (hHistory : w'.store.history = w.store.history ++ archived)
    (hArchived : ∀ r ∈ archived, r.userId = userId)
    (hTimes : w'.increments = w.increments ++ times.map fun t => (userId, t)) :
    Conserved offset s w' ↔ ∀ m, inMonth row'.month row'.count m +
      (archived.map fun r => inMonth r.month r.usageCount m).sum =
        inMonth row.month row.count m +
          (times.map fun t => inMonth (monthText (monthAt offset t)) 1 m).sum := by
  have hArchive : ∀ key m, (archived.map fun r =>
      if r.userId = key then inMonth r.month r.usageCount m else 0).sum =
        if key = userId then (archived.map fun r => inMonth r.month r.usageCount m).sum else 0 := by
    intro key m
    split
    · rename_i hKey
      congr 1
      apply List.map_congr_left
      intro r hr
      rw [if_pos ((hArchived r hr).trans hKey.symm)]
    · rename_i hKey
      apply List.sum_eq_zero
      intro n hn
      obtain ⟨r, hr, rfl⟩ := List.mem_map.mp hn
      exact if_neg fun hSame => hKey (hSame.symm.trans (hArchived r hr))
  have hMade : ∀ key m, w'.made offset key m = w.made offset key m +
      if key = userId then (times.map fun t => inMonth (monthText (monthAt offset t)) 1 m).sum
      else 0 := by
    intro key m
    simp only [World.made, hTimes, List.map_append, List.sum_append, List.map_map,
      Function.comp_def]
    by_cases hKey : key = userId
    · simp [hKey]
    · simp [hKey, Ne.symm hKey]
  have hSelf : ∀ m, w'.store.counted userId m + inMonth row.month row.count m =
      w.store.counted userId m + inMonth row'.month row'.count m +
        (archived.map fun r => inMonth r.month r.usageCount m).sum := by
    intro m
    simp only [Store.counted, hRow, hRow', hHistory, List.map_append, List.sum_append, hArchive,
      Option.elim_some, if_true]
    omega
  have hOthers : ∀ key m, key ≠ userId → w'.store.counted key m = w.store.counted key m := by
    intro key m hKey
    simp only [Store.counted, hOther key hKey, hHistory, List.map_append, List.sum_append, hArchive,
      if_neg hKey, Nat.add_zero]
  constructor
  · intro h' m
    have hBefore := h userId m
    have hAfter := h' userId m
    have hHere := hSelf m
    rw [hMade, if_pos rfl] at hAfter
    omega
  · intro hBalance key m
    rw [hMade]
    have hBefore := h key m
    by_cases hKey : key = userId
    · subst hKey
      have hHere := hSelf m
      have := hBalance m
      rw [if_pos rfl]
      omega
    · rw [if_neg hKey, hOthers key m hKey, hBefore]
      rfl

theorem archiveRows_userId {userId a tier : String} {c : Nat} {io : ResetIO} :
    ∀ r ∈ archiveRows userId a c tier io, r.userId = userId := by
  intro r hr
  simp only [archiveRows] at hr
  split at hr
  · cases hr
  · rw [List.mem_singleton.mp hr]

/-- Under the label of a positive counter, `_maybe_reset` archives as `_archive_usage` does. -/
theorem maybeReset_of_ne {month : String} (hLabel : 0 < row.count → row.month ≠ "")
    (hMonth : row.month ≠ month) (io : ResetIO) :
    w.store.maybeReset userId row month io =
      let archived := w.store.archiveUsage userId row.month row.count row.tier io
      if io.updated then (archived.update userId 0 month, some (row.counting 0 month))
      else (archived, none) := by
  have hArchive : (if row.month ≠ "" ∧ 0 < row.count then
      w.store.archiveUsage userId row.month row.count row.tier io else w.store) =
        w.store.archiveUsage userId row.month row.count row.tier io := by
    by_cases hPos : 0 < row.count
    · rw [if_pos ⟨hLabel hPos, hPos⟩]
    · rw [if_neg fun hBoth => hPos hBoth.2, Nat.eq_zero_of_not_pos hPos,
        Store.archiveUsage_zero]
  simp only [Store.maybeReset, if_neg hMonth, hArchive]

theorem Conserved.reset_iff (h : Conserved offset s w) (hRow : w.store.users.get? userId = some row)
    (month : String) (io : ResetIO) :
    Conserved offset s { w with
      store :=
        if io.updated then
          (w.store.archiveUsage userId row.month row.count row.tier io).update userId 0 month
        else w.store.archiveUsage userId row.month row.count row.tier io } ↔ io.Sound row := by
  have hNoTimes : w.increments = w.increments ++ ([] : List Nat).map fun t => (userId, t) :=
    (List.append_nil _).symm
  have hArchived : (w.store.archiveUsage userId row.month row.count row.tier io).users.get?
      userId = some row := hRow
  unfold ResetIO.Sound
  cases hUpdated : io.updated with
  | true =>
      rw [if_pos rfl]
      have hZeroed := (Store.get?_update hArchived 0 month userId).trans (if_pos rfl)
      rw [h.exchange hRow { w with
          store := (w.store.archiveUsage userId row.month row.count row.tier io).update userId 0
            month }
        _ (archiveRows userId row.month row.count row.tier io) [] hZeroed
        (fun key hKey => Store.get?_update_of_ne hKey 0 month) (Store.update_history ..)
        archiveRows_userId hNoTimes]
      simp only [sum_archiveRows, UsageRow.counting_count, inMonth_zero, Nat.zero_add,
        List.map_nil, List.sum_nil, Nat.add_zero]
      rw [forall_inMonth_eq]
      cases io.archived with
      | true => simp
      | false => simp [eq_comm]
  | false =>
      rw [if_neg Bool.false_ne_true]
      rw [h.exchange hRow { w with
          store := w.store.archiveUsage userId row.month row.count row.tier io }
        row (archiveRows userId row.month row.count row.tier io) [] hArchived
        (fun _ _ => rfl) rfl archiveRows_userId hNoTimes]
      simp only [sum_archiveRows, List.map_nil, List.sum_nil, Nat.add_zero, Nat.add_eq_left]
      have hZero : ∀ d : Nat, (∀ m, inMonth row.month d m = 0) ↔ d = 0 := by
        intro d
        constructor
        · intro hAll
          have hHere := hAll row.month
          rwa [inMonth_self] at hHere
        · rintro rfl m
          exact inMonth_zero _ m
      rw [hZero]
      cases io.archived with
      | true => simp
      | false => simp

/-- An increment after a reset, written under a month. -/
theorem Conserved.startOver_iff (h : Conserved offset s w)
    (hRow : w.store.users.get? userId = some row) (month month' : String) (io : ResetIO)
    (written : Nat) :
    Conserved offset s
        ⟨((w.store.archiveUsage userId row.month row.count row.tier io).update userId 0
          month).update userId 1 month', w.increments ++ [(userId, written)]⟩ ↔
      (row.count = 0 ∨ io.archived = true) ∧ monthText (monthAt offset written) = month' := by
  have hArchived : (w.store.archiveUsage userId row.month row.count row.tier io).users.get?
      userId = some row := hRow
  have hZeroed := (Store.get?_update hArchived 0 month userId).trans (if_pos rfl)
  have hOne := (Store.get?_update hZeroed 1 month' userId).trans (if_pos rfl)
  have hHistory := (Store.update_history userId 1 month').trans
    (Store.update_history (s := w.store.archiveUsage userId row.month row.count row.tier io)
      userId 0 month)
  rw [h.exchange hRow _ _ (archiveRows userId row.month row.count row.tier io) [written] hOne
    (fun key hKey => (Store.get?_update_of_ne hKey 1 month').trans
      (Store.get?_update_of_ne hKey 0 month)) hHistory archiveRows_userId rfl]
  simp only [sum_archiveRows, UsageRow.counting_count, UsageRow.counting_month, List.map_cons,
    List.map_nil, List.sum_cons, List.sum_nil, Nat.add_zero]
  rw [UsageTracker.startOver_iff (ite_eq_or_eq _ _ _)]
  cases io.archived with
  | true => simp
  | false => simp [eq_comm]

/-- An increment without a reset. -/
theorem Conserved.countOn_iff (h : Conserved offset s w)
    (hRow : w.store.users.get? userId = some row) (month : String) (written : Nat) :
    Conserved offset s
        ⟨w.store.update userId (row.count + 1) month, w.increments ++ [(userId, written)]⟩ ↔
      (month = row.month ∨ row.count = 0) ∧ monthText (monthAt offset written) = month := by
  have hOn := (Store.get?_update hRow (row.count + 1) month userId).trans (if_pos rfl)
  have hHistory : (w.store.update userId (row.count + 1) month).history = w.store.history ++ [] :=
    (Store.update_history ..).trans (List.append_nil _).symm
  rw [h.exchange hRow _ _ [] [written] hOn
    (fun key hKey => Store.get?_update_of_ne hKey (row.count + 1) month) hHistory
    (fun r hr => by cases hr) rfl]
  simp only [UsageRow.counting_count, UsageRow.counting_month, List.map_cons, List.map_nil,
    List.sum_cons, List.sum_nil, Nat.add_zero]
  exact UsageTracker.countOn_iff

/-! ### The calls -/

theorem Conserved.step_iff (h : Conserved offset s w) (hLabelled : w.store.Labelled) (e : Event) :
    Conserved offset s (w.step e) ↔ w.Sound offset e := by
  cases e with
  | resetUser userId began io =>
      cases hRow : w.store.users.get? userId with
      | none =>
          simp only [World.step, World.Sound, hRow]
          exact iff_of_true h trivial
      | some row =>
          simp only [World.step, World.Sound, hRow, Store.resetRow]
          by_cases hPos : 0 < row.count
          · have hMonth : (if row.month = "" then currentMonth began else row.month) = row.month :=
              if_neg (hLabelled userId row hRow hPos)
            rw [if_pos hPos, hMonth]
            have hReset := h.reset_iff hRow (currentMonth began) io
            cases hUpdated : io.updated with
            | true =>
                rw [hUpdated, if_pos rfl] at hReset
                exact hReset
            | false =>
                rw [hUpdated, if_neg Bool.false_ne_true] at hReset
                exact hReset
          · rw [if_neg hPos]
            exact iff_of_true h (Or.inl (Nat.eq_zero_of_not_pos hPos))
  | quotaCheck userId checked io =>
      cases hRow : w.store.users.get? userId with
      | none =>
          simp only [World.step, World.Sound, hRow, Store.isQuotaExceeded, ite_self]
          exact iff_of_true h trivial
      | some row =>
          simp only [World.step, World.Sound, hRow, Store.isQuotaExceeded]
          by_cases hEmpty : userId = ""
          · simp only [hEmpty, true_or, iff_true]
            exact h
          · by_cases hMonth : row.month = currentMonth checked
            · simp only [if_neg hEmpty, Store.maybeReset, hMonth, true_or, or_true, iff_true]
              exact h
            · simp only [hEmpty, hMonth, false_or,
                maybeReset_of_ne (hLabelled userId row hRow) hMonth]
              have hReset := h.reset_iff hRow (currentMonth checked) io
              cases hUpdated : io.updated with
              | true =>
                  rw [hUpdated, if_pos rfl] at hReset
                  exact hReset
              | false =>
                  rw [hUpdated, if_neg Bool.false_ne_true] at hReset
                  exact hReset
  | increment userId checked written io stored =>
      cases hRow : w.store.users.get? userId with
      | none =>
          simp only [World.step, World.Sound, hRow, Store.incrementUsage]
          exact iff_of_true h trivial
      | some row =>
          simp only [World.step, World.Sound, hRow, Store.incrementUsage]
          by_cases hMonth : row.month = currentMonth checked
          · rw [if_pos hMonth]
            simp only [Store.maybeReset, if_pos hMonth]
            cases stored with
            | false => exact iff_of_true h fun hStored => by cases hStored
            | true =>
                refine (h.countOn_iff hRow (currentMonth written) written).trans ?_
                exact ⟨fun hBoth _ => hBoth, fun hBoth => hBoth rfl⟩
          · rw [if_neg hMonth, maybeReset_of_ne (hLabelled userId row hRow) hMonth]
            have hReset := h.reset_iff hRow (currentMonth checked) io
            cases hUpdated : io.updated with
            | false =>
                rw [hUpdated, if_neg Bool.false_ne_true] at hReset
                refine hReset.trans ?_
                exact ⟨fun hSound => ⟨hSound, fun hTrue => by cases hTrue⟩, fun hBoth => hBoth.1⟩
            | true =>
                rw [hUpdated, if_pos rfl] at hReset
                cases stored with
                | false =>
                    refine hReset.trans ?_
                    exact ⟨fun hSound => ⟨hSound, fun _ hTrue => by cases hTrue⟩,
                      fun hBoth => hBoth.1⟩
                | true =>
                    refine (h.startOver_iff hRow (currentMonth checked) (currentMonth written) io
                      written).trans ?_
                    unfold ResetIO.Sound
                    rw [hUpdated]
                    exact and_congr_right fun _ => ⟨fun hSame _ _ => hSame, fun hSame => hSame rfl rfl⟩

end Call

/-! ## Labels -/

theorem currentMonth_ne (now : Nat) : currentMonth now ≠ "" := by
  intro h
  have hText := congrArg String.toList h
  rw [currentMonth, monthText_toList] at hText
  exact List.append_ne_nil_of_right_ne_nil _ (List.cons_ne_nil _ _) hText

theorem Store.Labelled.update {s : Store} (h : s.Labelled) (userId : String) {count : Nat}
    {month : String} (hMonth : 0 < count → month ≠ "") :
    (s.update userId count month).Labelled := by
  intro key row hRow
  cases hOld : s.users.get? userId with
  | none =>
      simp only [Store.update, hOld] at hRow
      exact h key row hRow
  | some old =>
      rw [Store.get?_update hOld] at hRow
      split at hRow
      · cases hRow
        exact hMonth
      · exact h key row hRow

theorem Store.Labelled.archiveUsage {s : Store} (h : s.Labelled) (userId month : String)
    (count : Nat) (tier : String) (io : ResetIO) :
    (s.archiveUsage userId month count tier io).Labelled := h

theorem Store.Labelled.zero {s : Store} (h : s.Labelled) (userId month : String) :
    (s.update userId 0 month).Labelled :=
  h.update userId fun hPos => absurd hPos (Nat.lt_irrefl 0)

theorem Store.Labelled.maybeReset {s : Store} (h : s.Labelled) (userId : String) (row : UsageRow)
    (month : String) (io : ResetIO) : (s.maybeReset userId row month io).1.Labelled := by
  have hArchived : (if row.month ≠ "" ∧ 0 < row.count then
      s.archiveUsage userId row.month row.count row.tier io else s).Labelled := by
    split
    · exact h
    · exact h
  simp only [Store.maybeReset]
  split
  · exact h
  · split
    · exact hArchived.zero userId month
    · exact hArchived

theorem Store.Labelled.resetRow {s : Store} (h : s.Labelled) (userId : String) (row : UsageRow)
    (month : String) (io : ResetIO) : (s.resetRow userId row month io).1.Labelled := by
  simp only [Store.resetRow]
  split
  · split
    · exact (h.archiveUsage userId _ row.count row.tier io).zero userId month
    · exact h
  · exact h

theorem World.labelled_step {w : World} (h : w.store.Labelled) (e : Event) :
    (w.step e).store.Labelled := by
  cases e with
  | increment userId checked written io stored =>
      simp only [World.step, Store.incrementUsage]
      split
      · exact h
      · rename_i row hRow
        have hReset := h.maybeReset userId row (currentMonth checked) io
        split
        · rename_i s hNone
          rw [hNone] at hReset
          exact hReset
        · rename_i s row' hSome
          rw [hSome] at hReset
          split
          · exact hReset.update userId fun _ => currentMonth_ne written
          · exact hReset
  | quotaCheck userId checked io =>
      simp only [World.step, Store.isQuotaExceeded]
      split
      · exact h
      · split
        · exact h
        · rename_i row hRow
          have hReset := h.maybeReset userId row (currentMonth checked) io
          split
          · rename_i s hNone
            rw [hNone] at hReset
            exact hReset
          · rename_i s row' hSome
            rw [hSome] at hReset
            exact hReset
  | resetUser userId began io =>
      simp only [World.step]
      split
      · exact h
      · exact h.resetRow userId _ (currentMonth began) io

/-! ## Runs -/

/-- A user with five turns in January 2025. -/
def inJanuary : Store :=
  ⟨Dict.empty.set "u1" ⟨some "pro", some 5, some "2025-01"⟩, []⟩

theorem labelled_inJanuary : inJanuary.Labelled := by
  intro userId row hRow hPos
  simp only [inJanuary, Dict.get?_set, Dict.get?_empty] at hRow
  split at hRow
  · cases hRow
    decide
  · cases hRow

/-- The months of instants around the end of January 2025, in UTC and in IST. -/
theorem months_aroundFebruary :
    currentMonth 1738000000 = "2025-01" ∧ monthText (monthAt 19800 1738000000) = "2025-01" ∧
      currentMonth 1738367999 = "2025-01" ∧ currentMonth 1738368001 = "2025-02" ∧
      monthText (monthAt 19800 1738368001) = "2025-02" := by
  have hMonth : ∀ {offset seconds m : Nat} {text : String},
      monthStart m ≤ (seconds + offset) / 86400 → (seconds + offset) / 86400 < monthStart (m + 1) →
      monthText m = text → monthText (monthAt offset seconds) = text := by
    intro offset seconds m text hFrom hTo hText
    rw [monthAt, monthOf_eq hFrom hTo]
    exact hText
  refine ⟨hMonth (m := 660) ?_ ?_ ?_, hMonth (m := 660) ?_ ?_ ?_, hMonth (m := 660) ?_ ?_ ?_,
    hMonth (m := 661) ?_ ?_ ?_, hMonth (m := 661) ?_ ?_ ?_⟩ <;> decide +kernel

/-- A turn of the user. -/
def turn (checked written : Nat) : Event := .increment "u1" checked written ⟨true, true, written⟩ true

def intoFebruary : List Event := [turn 1738000000 1738000000, turn 1738368001 1738368001]

theorem sound_turns {t t' : Nat} (hJanuary : currentMonth t = "2025-01")
    (hJanuaryIst : monthText (monthAt 19800 t) = "2025-01") (hFebruary : currentMonth t' = "2025-02")
    (hFebruaryIst : monthText (monthAt 19800 t') = "2025-02") :
    EveryStep World.step (World.Sound 19800) ⟨inJanuary, []⟩ [turn t t, turn t' t'] := by
  simp [turn, World.Sound, World.step, inJanuary, Store.incrementUsage, Store.maybeReset,
    Store.update, UsageRow.month, UsageRow.count, UsageRow.counting, ResetIO.Sound, hJanuary,
    hJanuaryIst, hFebruary, hFebruaryIst]

/-- One turn that checks the month in January and writes it in February. -/
def acrossMidnight : List Event := [turn 1738367999 1738368001]

theorem not_conserved_turn {t t' : Nat} (hJanuary : currentMonth t = "2025-01")
    (hFebruary : currentMonth t' = "2025-02")
    (hFebruaryIst : monthText (monthAt 19800 t') = "2025-02") :
    ¬ Conserved 19800 inJanuary (World.step ⟨inJanuary, []⟩ (turn t t')) := by
  intro h
  have hHere := h "u1" "2025-01"
  simp [turn, World.step, World.made, inJanuary, Store.incrementUsage, Store.maybeReset,
    Store.update, Store.counted, inMonth, UsageRow.month, UsageRow.count, UsageRow.counting,
    hJanuary, hFebruary, hFebruaryIst] at hHere

end AsetPlatform.Billing.UsageTracker

import AsetPlatform.Billing.UsageTracker
import AsetPlatform.Library.Run
import AsetPlatform.Library.Threads

/-!
# Overlapping increments

Calls of `increment_usage` within one month, of any users, interleaved between the read of the user,
the archive, the reset and the write of the new count.

`counted_of_harmless`: in a run in which each reset finds no increment of the month stored, and each
write the count of the month that its call goes by, the stored counts grow by the increments made.
`harmless_of_serial`: that is so when no two calls of a user overlap.
-/

set_option autoImplicit false

namespace AsetPlatform.Billing.UsageIncrements

open AsetPlatform.Library AsetPlatform.Billing.UsageTracker

inductive Phase where
  /-- About to read the user. -/
  | reading
  /-- About to archive the count of another month. -/
  | archiving (row : UsageRow)
  /-- About to reset the counter. -/
  | resetting
  /-- About to write the count after this one. -/
  | writing (count : Nat)
  | returned
  deriving DecidableEq

structure Call where
  userId : String
  phase : Phase
  deriving DecidableEq

/-- The store, the calls, and the users of the increments that have been written. -/
structure World where
  store : UsageTracker.Store
  calls : List Call
  increments : List String

/-- A step of a call; the archive, the reset and the write take effect or not. -/
inductive Event where
  | begin (userId : String)
  | read (k : Nat)
  | archive (k : Nat) (io : ResetIO)
  | reset (k : Nat) (ok : Bool)
  | write (k : Nat) (ok : Bool)

namespace World

variable (month : String) (w : World)

def move (k : Nat) (c : Call) (phase : Phase) : World :=
  { w with calls := w.calls.set k { c with phase := phase } }

def step : Event → World
  | .begin userId => { w with calls := w.calls ++ [⟨userId, .reading⟩] }
  | .read k =>
      match w.calls[k]? with
      | some ⟨userId, .reading⟩ =>
          match w.store.users.get? userId with
          | none => w.move k ⟨userId, .reading⟩ .returned
          | some row =>
              w.move k ⟨userId, .reading⟩
                (if row.month = month then .writing row.count else .archiving row)
      | _ => w
  | .archive k io =>
      match w.calls[k]? with
      | some ⟨userId, .archiving row⟩ =>
          let store :=
            if row.month ≠ "" ∧ 0 < row.count then
              w.store.archiveUsage userId row.month row.count row.tier io
            else w.store
          { w with store := store }.move k ⟨userId, .archiving row⟩ .resetting
      | _ => w
  | .reset k ok =>
      match w.calls[k]? with
      | some ⟨userId, .resetting⟩ =>
          if ok then
            { w with store := w.store.update userId 0 month }.move k ⟨userId, .resetting⟩ (.writing 0)
          else w.move k ⟨userId, .resetting⟩ .returned
      | _ => w
  | .write k ok =>
      match w.calls[k]? with
      | some ⟨userId, .writing count⟩ =>
          if ok ∧ (w.store.users.get? userId).isSome then
            { w with
              store := w.store.update userId (count + 1) month
              increments := w.increments ++ [userId] }.move k ⟨userId, .writing count⟩ .returned
          else w.move k ⟨userId, .writing count⟩ .returned
      | _ => w

/-- The stored count of the month. -/
def monthly (userId : String) : Nat :=
  (w.store.users.get? userId).elim 0 fun row => if row.month = month then row.count else 0

/-- The stored counts have grown by the increments made. -/
def Counted (s : UsageTracker.Store) : Prop :=
  ∀ userId, w.monthly month userId =
    (World.mk s [] []).monthly month userId + w.increments.count userId

def Finished : Prop := ∀ c ∈ w.calls, c.phase = .returned

/-- The condition on the state before a step. -/
def Harmless : Event → Prop
  | .reset k true =>
      match w.calls[k]? with
      | some ⟨userId, .resetting⟩ => w.monthly month userId = 0
      | _ => True
  | .write k true =>
      match w.calls[k]? with
      | some ⟨userId, .writing count⟩ => w.monthly month userId = count
      | _ => True
  | _ => True

/-- No two calls of a user overlap. -/
def Serial : Event → Prop
  | .begin userId => ∀ c ∈ w.calls, c.userId = userId → c.phase = .returned
  | _ => True

instance Serial.decidable (e : Event) : Decidable (w.Serial e) := by
  unfold Serial
  split <;> infer_instance

instance Harmless.decidable (e : Event) : Decidable (w.Harmless month e) := by
  unfold Harmless
  split
  · split <;> infer_instance
  · split <;> infer_instance
  · infer_instance

end World

/-! ## Counts -/

section Counts

variable {month : String} {s : UsageTracker.Store} {w : World}

/-- An update of one user is the new count of that user in the month, and no one else's. -/
theorem monthly_update {userId : String} (hUser : (w.store.users.get? userId).isSome = true)
    (count : Nat) (calls : List Call) (increments : List String) (key : String) :
    (World.mk (w.store.update userId count month) calls increments).monthly month key =
      if key = userId then count else w.monthly month key := by
  obtain ⟨row, hRow⟩ := Option.isSome_iff_exists.mp hUser
  simp only [World.monthly, UsageTracker.Store.get?_update hRow]
  split
  · simp only [Option.elim_some, UsageRow.counting_month, UsageRow.counting_count, if_true]
  · rfl

theorem monthly_of_none {userId : String} (hUser : (w.store.users.get? userId).isSome = false) :
    w.monthly month userId = 0 ∧ ∀ count, w.store.update userId count month = w.store := by
  have hNone := Option.not_isSome_iff_eq_none.mp (Bool.eq_false_iff.mp hUser)
  refine ⟨?_, fun count => ?_⟩
  · simp only [World.monthly, hNone, Option.elim_none]
  · simp only [UsageTracker.Store.update, hNone]

theorem World.Counted.step (h : w.Counted month s) (e : Event) (hGuard : w.Harmless month e) :
    (w.step month e).Counted month s := by
  cases e with
  | begin userId => exact h
  | read k =>
      simp only [World.step]
      split
      · split
        · exact h
        · exact h
      · exact h
  | archive k io =>
      simp only [World.step]
      split
      · split
        · exact h
        · exact h
      · exact h
  | reset k ok =>
      simp only [World.step]
      split
      · rename_i userId hCall
        cases ok with
        | false => exact h
        | true =>
            simp only [World.Harmless, hCall] at hGuard
            rw [if_pos rfl]
            intro key
            have hBefore := h key
            cases hUser : (w.store.users.get? userId).isSome with
            | false =>
                rw [(monthly_of_none hUser).2]
                exact hBefore
            | true =>
                refine (monthly_update hUser 0 _ _ key).trans ?_
                split
                · rename_i hKey
                  subst hKey
                  rw [hGuard] at hBefore
                  exact hBefore
                · exact hBefore
      · exact h
  | write k ok =>
      simp only [World.step]
      split
      · rename_i userId count hCall
        split
        · rename_i hOk
          obtain ⟨rfl, hUser⟩ := hOk
          simp only [World.Harmless, hCall] at hGuard
          intro key
          have hBefore := h key
          show World.monthly month _ key = _ + (w.increments ++ [userId]).count key
          refine (monthly_update hUser (count + 1) _ _ key).trans ?_
          rw [List.count_append]
          split
          · rename_i hKey
            subst hKey
            rw [hGuard] at hBefore
            rw [List.count_singleton_self]
            omega
          · rename_i hKey
            rw [List.count_singleton, if_neg (by simpa using Ne.symm hKey)]
            exact hBefore
        · exact h
      · exact h

/-- In a run of harmless steps, when all calls have finished, the stored counts of the month have
grown by the increments made. -/
theorem counted_of_harmless (month : String) (s : UsageTracker.Store) (events : List Event)
    (h : EveryStep (World.step month) (World.Harmless month) ⟨s, [], []⟩ events) :
    EveryState (World.step month) (fun w => w.Finished → w.Counted month s) ⟨s, [], []⟩ events := by
  have hStart : (World.mk s [] []).Counted month s := fun _ => rfl
  have hStep : ∀ (w : World) (e : Event), w.Counted month s → w.Harmless month e →
      (w.step month e).Counted month s := fun _ e hCounted hGuard => hCounted.step e hGuard
  exact (everyState_of_invariant hStep hStart h).imp
    fun (w : World) (hCounted : w.Counted month s) (_ : w.Finished) => hCounted

end Counts

/-! ## Calls one after the other -/

/-- What the phase of a call says about the stored count of its user. -/
def CallOk (month : String) (w : World) (c : Call) : Prop :=
  match c.phase with
  | .archiving _ => w.monthly month c.userId = 0
  | .resetting => w.monthly month c.userId = 0
  | .writing count => w.monthly month c.userId = count
  | _ => True

/-- At most one call of each user is under way, and it goes by the stored count. -/
structure SerialInv (month : String) (w : World) : Prop where
  single : ∀ (i j : Nat) (c d : Call), w.calls[i]? = some c → w.calls[j]? = some d →
    c.userId = d.userId → c.phase ≠ .returned → d.phase ≠ .returned → i = j
  callOk : ∀ (i : Nat) (c : Call), w.calls[i]? = some c → CallOk month w c

namespace SerialInv

variable {month : String} {w : World} {k : Nat} {c : Call}

theorem CallOk.of_returned (h : c.phase = .returned) : CallOk month w c := by
  simp only [CallOk, h]

theorem moved (h : SerialInv month w) (hCall : w.calls[k]? = some c) (hActive : c.phase ≠ .returned)
    {store : UsageTracker.Store} {increments : List String} (phase : Phase)
    (hOther : ∀ key, key ≠ c.userId → (World.mk store (w.calls.set k { c with phase := phase })
      increments).monthly month key = w.monthly month key)
    (hOk : CallOk month ⟨store, w.calls.set k { c with phase := phase }, increments⟩
      { c with phase := phase }) :
    SerialInv month ⟨store, w.calls.set k { c with phase := phase }, increments⟩ where
  single i j a b ha hb hUser hA hB := by
    rcases getElem?_set_cases hCall ha with ⟨rfl, rfl⟩ | ⟨hi, hOldA⟩ <;>
      rcases getElem?_set_cases hCall hb with ⟨rfl, rfl⟩ | ⟨hj, hOldB⟩
    · rfl
    · exact h.single i j c b hCall hOldB hUser hActive hB
    · exact h.single i j a c hOldA hCall hUser hA hActive
    · exact h.single i j a b hOldA hOldB hUser hA hB
  callOk j d hd := by
    rcases getElem?_set_cases hCall hd with ⟨rfl, rfl⟩ | ⟨hj, hd⟩
    · exact hOk
    · by_cases hUser : d.userId = c.userId
      · -- the other calls of the user have returned
        apply CallOk.of_returned
        by_contra hNot
        exact hj (h.single j k d c hd hCall hUser hNot hActive)
      · have hOld := h.callOk j d hd
        unfold CallOk at *
        rwa [hOther d.userId hUser]

theorem begun (h : SerialInv month w) (userId : String) (hGuard : w.Serial (.begin userId)) :
    SerialInv month (w.step month (.begin userId)) where
  single i j a b ha hb hUser hA hB := by
    have hReturned : ∀ {n : Nat} {d : Call}, w.calls[n]? = some d → d.userId = userId →
        d.phase = .returned := fun hd hSame => hGuard _ (List.mem_of_getElem? hd) hSame
    rcases getElem?_append_singleton ha with ha | ⟨hi, rfl⟩ <;>
      rcases getElem?_append_singleton hb with hb | ⟨hj, rfl⟩
    · exact h.single i j a b ha hb hUser hA hB
    · exact absurd (hReturned ha hUser) hA
    · exact absurd (hReturned hb hUser.symm) hB
    · rw [hi, hj]
  callOk i a ha := by
    rcases getElem?_append_singleton ha with ha | ⟨-, rfl⟩
    · exact h.callOk i a ha
    · exact True.intro

theorem step (h : SerialInv month w) (e : Event) (hGuard : w.Serial e) :
    SerialInv month (w.step month e) := by
  cases e with
  | begin userId => exact h.begun userId hGuard
  | read k =>
      simp only [World.step]
      split
      · rename_i userId hCall
        have hActive : (Call.mk userId .reading).phase ≠ .returned := fun h => by cases h
        split
        · exact h.moved hCall hActive .returned (fun _ _ => rfl) True.intro
        · rename_i row hRow
          refine h.moved hCall hActive _ (fun _ _ => rfl) ?_
          have hMonthly : w.monthly month userId = if row.month = month then row.count else 0 := by
            simp only [World.monthly, hRow, Option.elim_some]
          by_cases hMonth : row.month = month
          · rw [if_pos hMonth] at hMonthly ⊢
            exact hMonthly
          · rw [if_neg hMonth] at hMonthly ⊢
            exact hMonthly
      · exact h
  | archive k io =>
      simp only [World.step]
      split
      · rename_i userId row hCall
        have hActive : (Call.mk userId (.archiving row)).phase ≠ .returned := fun h => by cases h
        have hOld : w.monthly month userId = 0 := h.callOk k _ hCall
        split
        · exact h.moved hCall hActive .resetting (fun _ _ => rfl) hOld
        · exact h.moved hCall hActive .resetting (fun _ _ => rfl) hOld
      · exact h
  | reset k ok =>
      simp only [World.step]
      split
      · rename_i userId hCall
        have hActive : (Call.mk userId .resetting).phase ≠ .returned := fun h => by cases h
        have hOld : w.monthly month userId = 0 := h.callOk k _ hCall
        cases ok with
        | false => exact h.moved hCall hActive .returned (fun _ _ => rfl) True.intro
        | true =>
            rw [if_pos rfl]
            cases hUser : (w.store.users.get? userId).isSome with
            | false =>
                rw [(monthly_of_none hUser).2]
                exact h.moved hCall hActive (.writing 0) (fun _ _ => rfl) hOld
            | true =>
                refine h.moved hCall hActive (.writing 0) (fun key hKey => ?_) ?_
                · exact (monthly_update hUser 0 _ _ key).trans (if_neg hKey)
                · exact (monthly_update hUser 0 _ _ userId).trans (if_pos rfl)
      · exact h
  | write k ok =>
      simp only [World.step]
      split
      · rename_i userId count hCall
        have hActive : (Call.mk userId (.writing count)).phase ≠ .returned := fun h => by cases h
        split
        · rename_i hOk
          refine h.moved hCall hActive .returned (fun key hKey => ?_) True.intro
          exact (monthly_update hOk.2 (count + 1) _ _ key).trans (if_neg hKey)
        · exact h.moved hCall hActive .returned (fun _ _ => rfl) True.intro
      · exact h

theorem harmless (h : SerialInv month w) (e : Event) : w.Harmless month e := by
  unfold World.Harmless
  split
  · rename_i k
    split
    · rename_i userId hCall
      exact h.callOk k _ hCall
    · trivial
  · rename_i k
    split
    · rename_i userId count hCall
      exact h.callOk k _ hCall
    · trivial
  · trivial

end SerialInv

theorem harmless_of_serial (month : String) (s : UsageTracker.Store) (events : List Event)
    (h : EveryStep (World.step month) World.Serial ⟨s, [], []⟩ events) :
    EveryStep (World.step month) (World.Harmless month) ⟨s, [], []⟩ events := by
  have hStart : SerialInv month ⟨s, [], []⟩ := by
    constructor
    · intro i j c d hc
      cases hc
    · intro i c hc
      cases hc
  have hStep : ∀ (w : World) (e : Event), SerialInv month w → w.Serial e →
      SerialInv month (w.step month e) := fun _ e hInv hGuard => hInv.step e hGuard
  exact everyStep_of_invariant hStep (fun _ e hInv _ => hInv.harmless e) hStart h

/-- Every increment is counted in every state, whatever fails and however the calls of different users
overlap. -/
theorem counted_of_serial (month : String) (s : UsageTracker.Store) (events : List Event)
    (h : EveryStep (World.step month) World.Serial ⟨s, [], []⟩ events) :
    EveryState (World.step month) (fun w => w.Counted month s) ⟨s, [], []⟩ events := by
  have hStart : (World.mk s [] []).Counted month s := fun _ => rfl
  have hStep : ∀ (w : World) (e : Event), w.Counted month s → w.Harmless month e →
      (w.step month e).Counted month s := fun _ e hCounted hGuard => hCounted.step e hGuard
  exact everyState_of_invariant hStep hStart (harmless_of_serial month s events h)

def twoUsers : UsageTracker.Store :=
  ⟨(Dict.empty.set "u1" ⟨some "pro", some 5, some "2025-01"⟩).set "u2"
    ⟨none, some 3, some "2025-02"⟩, []⟩

/-- The turns of two users overlap, and the reset of one is refused. -/
def sideBySide : List Event :=
  [.begin "u1", .begin "u2", .read 0, .read 1, .archive 0 ⟨true, true, 0⟩, .write 1 true,
    .begin "u2", .reset 0 false, .begin "u1", .read 2, .read 3, .archive 3 ⟨true, true, 0⟩,
    .write 2 true, .reset 3 true, .write 3 true]

theorem counted_sideBySide :
    EveryState (World.step "2025-02") (fun w => w.Counted "2025-02" twoUsers) ⟨twoUsers, [], []⟩
      sideBySide :=
  counted_of_serial "2025-02" twoUsers sideBySide (by decide +kernel)

/-- A user with five turns in the month before. -/
def lastMonth : UsageTracker.Store :=
  ⟨Dict.empty.set "u1" ⟨some "pro", some 5, some "2025-01"⟩, []⟩

/-- Two turns of the new month, the second read when the first is written. -/
def oneAfterAnother : List Event :=
  [.begin "u1", .begin "u1", .read 0, .archive 0 ⟨true, true, 0⟩, .reset 0 true, .write 0 true,
    .read 1, .write 1 true]

theorem counted_oneAfterAnother :
    EveryState (World.step "2025-02") (fun w => w.Finished → w.Counted "2025-02" lastMonth)
      ⟨lastMonth, [], []⟩ oneAfterAnother :=
  counted_of_harmless "2025-02" lastMonth oneAfterAnother (by decide +kernel)

/-- Two turns that read the same count. -/
def overlapping : List Event :=
  [.begin "u1", .begin "u1", .read 0, .archive 0 ⟨true, true, 0⟩, .reset 0 true, .write 0 true,
    .begin "u1", .read 1, .read 2, .write 1 true, .write 2 true]

/-- Three increments have been made, and two are counted. -/
theorem overlapping_loses :
    ¬ EveryState (World.step "2025-02") (fun w => w.Finished → w.Counted "2025-02" lastMonth)
      ⟨lastMonth, [], []⟩ overlapping := by
  intro h
  have hCounted := h.last (by decide +kernel : ∀ c ∈ (runFrom (World.step "2025-02")
    ⟨lastMonth, [], []⟩ overlapping).calls, c.phase = .returned) "u1"
  revert hCounted
  decide +kernel

end AsetPlatform.Billing.UsageIncrements

import AsetPlatform.Billing.StaleEvents
import AsetPlatform.Library.Run

/-!
# Redelivered events

A gateway delivers an event at least once. A delivery reads the users and decides what to write,
makes its update, and appends its ledger entry; the steps of different deliveries interleave with
each other and with the rest of the platform. `payment_transactions` has a column and an index for
the id of the gateway's event, but no handler passes the id on, so nothing tells a second delivery
from a first one.

`World.acted` and `World.rowsOf` are no part of the program. They remember which deliveries have made
their update and whose entries are in the ledger.

`redelivery_harmless` says which runs treat every event as if it had been delivered once.
-/

set_option autoImplicit false

namespace AsetPlatform.Billing

open AsetPlatform.Library

universe u v

/-! ## What a delivery decides -/

/-- What a handler goes on to write: the user, the updates and the ledger entry. -/
structure Work where
  userId : String
  updates : Updates
  entry : PaymentTransaction

/-- The ledger entry of an event. The tier before is the one that the handler has read. -/
def entryOf (userId : String) (oldTier : Tier) (updates : Updates) :
    GatewayEvent → PaymentTransaction
  | .charged entity =>
      { userId := userId, gateway := "razorpay", eventType := "charged"
        subscriptionId := entity.id, customerId := entity.customerId
        amount := updates.subscriptionTier.join.map tierPriceInr, currency := some "INR"
        tierBefore := some oldTier, tierAfter := updates.subscriptionTier.join }
  | .cancelled entity =>
      { userId := userId, gateway := "razorpay", eventType := "cancelled"
        subscriptionId := entity.id, customerId := entity.customerId
        tierBefore := some oldTier, tierAfter := some .free }
  | .paymentFailed paymentCustomerId entity =>
      { userId := userId, gateway := "razorpay", eventType := "payment_failed"
        subscriptionId := entity.id, customerId := paymentCustomerId, status := "failed" }
  | .stripeCheckout session =>
      { userId := userId, gateway := "stripe", eventType := "checkout_completed"
        subscriptionId := session.subscription, customerId := session.customer
        amount := session.amountTotal.bind fun cents =>
          if cents = 0 then none else some ((cents : ℚ) / 100)
        currency := some session.currency.toUpper
        tierBefore := some oldTier, tierAfter := updates.subscriptionTier.join }
  | .stripeSubChange sub =>
      { userId := userId, gateway := "stripe", eventType := "cancelled"
        subscriptionId := sub.id, customerId := sub.customer
        tierBefore := some oldTier, tierAfter := some .free }
  | .stripePaymentFailed invoice =>
      { userId := userId, gateway := "stripe", eventType := "payment_failed"
        subscriptionId := invoice.subscription, customerId := invoice.customer
        status := "failed" }

/-- The work on a user that an event was found to be about. -/
def workOn (plans : RazorpayPlans) (event : GatewayEvent) (user : User) : Option Work :=
  (updatesOn plans user event).map fun updates =>
    ⟨user.userId, updates, entryOf user.userId user.tierOrFree updates event⟩

/-- The work of a delivery that reads these users. A completed checkout names its user, and the
handler reads the row for the ledger only. -/
def workOf (plans : RazorpayPlans) (t : UserTable) (d : Delivery) : Option Work :=
  match d.event with
  | .stripeCheckout session =>
      session.metadataUserId.bind fun userId =>
        if userId = "" then none
        else (paidTier session.metadataTier).map fun tier =>
          -- a user who is not there counts as free in the entry
          let oldTier := ((t.getById userId).map User.tierOrFree).getD .free
          let updates := stripeCheckoutUpdates tier session
          ⟨userId, updates, entryOf userId oldTier updates (.stripeCheckout session)⟩
  | event => (resolve t d).bind (workOn plans event)

/-- Update and log, the second only where the first has not raised. -/
def Store.perform (s : Store) : Option Work → Store
  | none => s
  | some work =>
      match s.safeUpdate work.userId work.updates with
      | .ok s' => s'.logTransaction work.entry
      | .error _ => s

section Deliver

variable {plans : RazorpayPlans} {s : Store} {d : Delivery}

theorem deliver_of_return (h : handle plans d.order s d.event = .ok s) :
    s.deliver plans d = s.perform none := by
  simp only [Store.deliver, h, Store.perform]

theorem deliver_of_work {work : Work}
    (h : handle plans d.order s d.event =
      (·.logTransaction work.entry) <$> s.safeUpdate work.userId work.updates) :
    s.deliver plans d = s.perform (some work) := by
  simp only [Store.deliver, h, Store.perform]
  cases s.safeUpdate work.userId work.updates <;> rfl

end Deliver

/-- A delivery that nothing interrupts performs the work it decides on. -/
theorem deliver_eq_perform (plans : RazorpayPlans) (s : Store) (d : Delivery) :
    s.deliver plans d = s.perform (workOf plans s.users d) := by
  obtain ⟨order, event⟩ := d
  cases event with
  | charged entity =>
      simp only [workOf, resolve]
      cases hUser : findUserByRazorpay (s.users.listAll order) entity.id entity.customerId with
      | none =>
          apply deliver_of_return
          by_cases hId : truthy entity.id = false <;> simp [handle, handleCharged, hId, hUser]
      | some user =>
          simp only [Option.bind_some, workOn, updatesOn]
          by_cases hOpen : Guarded user entity
          · rw [if_pos hOpen]
            obtain ⟨hId, hOld⟩ := hOpen
            cases hTier : planIdToTier plans entity.planId with
            | none =>
                apply deliver_of_return
                simp [handle, handleCharged, hUser, hTier]
            | some tier =>
                apply deliver_of_work
                simp [handle, handleCharged, hUser, hTier, hId, hOld, chargedUpdates, entryOf]
          -- an event without an id, or of a subscription that is not the user's, is ignored
          · rw [if_neg hOpen]
            apply deliver_of_return
            unfold Guarded at hOpen
            by_cases hId : truthy entity.id = true
            · have hOld := not_not.mp (not_and.mp hOpen hId)
              simp [handle, handleCharged, hUser, hId, hOld]
            · simp [handle, handleCharged, hId]
  | cancelled entity =>
      simp only [workOf, resolve]
      cases hUser : findUserByRazorpay (s.users.listAll order) entity.id entity.customerId with
      | none =>
          apply deliver_of_return
          by_cases hId : truthy entity.id = false <;> simp [handle, handleCancelled, hId, hUser]
      | some user =>
          simp only [Option.bind_some, workOn, updatesOn]
          by_cases hOpen : Guarded user entity
          · rw [if_pos hOpen]
            obtain ⟨hId, hOld⟩ := hOpen
            apply deliver_of_work
            simp [handle, handleCancelled, hUser, hId, hOld, cancelledUpdates, entryOf]
          · rw [if_neg hOpen]
            apply deliver_of_return
            unfold Guarded at hOpen
            by_cases hId : truthy entity.id = true
            · have hOld := not_not.mp (not_and.mp hOpen hId)
              simp [handle, handleCancelled, hUser, hId, hOld]
            · simp [handle, handleCancelled, hId]
  | paymentFailed paymentCustomerId entity =>
      simp only [workOf, resolve]
      cases hUser : findUserByRazorpay (s.users.listAll order) entity.id paymentCustomerId with
      | none =>
          apply deliver_of_return
          simp [handle, handlePaymentFailed, hUser]
      | some user =>
          apply deliver_of_work
          simp [handle, handlePaymentFailed, hUser, entryOf, pastDueUpdates]
  | stripeCheckout session =>
      simp only [workOf]
      cases hUser : session.metadataUserId with
      | none =>
          apply deliver_of_return
          simp [handle, handleStripeCheckout, hUser]
      | some userId =>
          by_cases hEmpty : userId = ""
          · simp only [Option.bind_some, hEmpty, if_true]
            apply deliver_of_return
            simp [handle, handleStripeCheckout, hUser, hEmpty]
          · simp only [Option.bind_some, hEmpty, if_false]
            cases hTier : paidTier session.metadataTier with
            | none =>
                apply deliver_of_return
                simp [handle, handleStripeCheckout, hUser, hEmpty, hTier]
            | some tier =>
                apply deliver_of_work
                simp [handle, handleStripeCheckout, hUser, hEmpty, hTier, entryOf,
                  stripeCheckoutUpdates]
  | stripeSubChange sub =>
      simp only [workOf, resolve]
      cases hUser : findUserByStripe (s.users.listAll order) sub.id sub.customer with
      | none =>
          apply deliver_of_return
          simp [handle, handleStripeSubChange, hUser]
      | some user =>
          simp only [Option.bind_some, workOn, updatesOn]
          by_cases hStatus : sub.status = some "canceled" ∨ sub.status = some "unpaid"
          · simp only [hStatus, if_true, Option.map_some]
            apply deliver_of_work
            simp [handle, handleStripeSubChange, hUser, hStatus, entryOf, stripeCancelledUpdates]
          · simp only [hStatus, if_false, Option.map_none]
            apply deliver_of_return
            simp [handle, handleStripeSubChange, hUser, hStatus]
  | stripePaymentFailed invoice =>
      simp only [workOf, resolve]
      cases hUser : findUserByStripe (s.users.listAll order) invoice.subscription
          invoice.customer with
      | none =>
          apply deliver_of_return
          simp [handle, handleStripePaymentFailed, hUser]
      | some user =>
          apply deliver_of_work
          simp [handle, handleStripePaymentFailed, hUser, entryOf, pastDueUpdates]

namespace Redelivery

/-! ## Deliveries -/

/-- The deliveries of a gateway. `_log_transaction` swallows its errors, so that an entry may be
missing. -/
structure Deliveries (ι : Type u) (κ : Type v) where
  eventId : ι → κ
  event : κ → GatewayEvent
  order : ι → RowOrder := fun _ => .asStored
  recorded : ι → Bool := fun _ => true

/-- Where a delivery is. -/
inductive Phase where
  | waiting
  /-- It has read the users. -/
  | decided (work : Work)
  /-- It has made its update. -/
  | updated (work : Work)
  | returned
  | raised

structure World (ι : Type u) where
  store : Store
  phase : ι → Phase
  acted : List ι
  rowsOf : List ι

/-- The first delivery is still to come. -/
def World.start {ι : Type u} (store : Store) : World ι := ⟨store, fun _ => .waiting, [], []⟩

inductive Event (ι : Type u) where
  | read (d : ι)
  /-- The update of a delivery; the database may raise. -/
  | update (d : ι) (fails : Bool)
  | log (d : ι)
  /-- Anything else that writes users and ledger entries. -/
  | others (users : UserTable) (entries : List PaymentTransaction)

variable {ι : Type u} {κ : Type v} [DecidableEq ι] (plans : RazorpayPlans) (D : Deliveries ι κ)

/-- What a delivery delivers. -/
def delivery (d : ι) : Delivery := ⟨D.order d, D.event (D.eventId d)⟩

def setPhase (w : World ι) (d : ι) (phase : Phase) : World ι :=
  { w with phase := Function.update w.phase d phase }

def readUsers (w : World ι) (d : ι) : World ι :=
  match w.phase d with
  | .waiting =>
      match workOf plans w.store.users (delivery D d) with
      | none => setPhase w d .returned
      | some work => setPhase w d (.decided work)
  | _ => w

def makeUpdate (w : World ι) (d : ι) (fails : Bool) : World ι :=
  match w.phase d with
  | .decided work =>
      if fails then setPhase w d .raised
      else
        match w.store.safeUpdate work.userId work.updates with
        -- the user is no longer there, and `_safe_update` lets the error through
        | .error _ => setPhase w d .raised
        | .ok store => { setPhase w d (.updated work) with store := store, acted := d :: w.acted }
  | _ => w

def logEntry (w : World ι) (d : ι) : World ι :=
  match w.phase d with
  | .updated work =>
      if D.recorded d then
        { setPhase w d .returned with
          store := w.store.logTransaction work.entry, rowsOf := d :: w.rowsOf }
      -- the error of the insert is logged, and the handler returns
      else setPhase w d .returned
  | _ => w

def step (w : World ι) : Event ι → World ι
  | .read d => readUsers plans D w d
  | .update d fails => makeUpdate w d fails
  | .log d => logEntry D w d
  | .others users entries => { w with store := ⟨users, w.store.ledger ++ entries⟩ }

/-! ## Idempotence -/

/-- No event has two ledger rows. -/
def OneRowEach (w : World ι) : Prop := (w.rowsOf.map D.eventId).Nodup

def standing (user : User) : Option Tier × Role × Option SubscriptionStatus :=
  (user.subscriptionTier, user.role, user.subscriptionStatus)

/-- A delivery that has returned or made its update. -/
def Handled (w : World ι) (d : ι) : Prop := w.phase d = .returned ∨ d ∈ w.acted

/-- Another delivery of the event has been handled. -/
def Again (w : World ι) (d : ι) : Prop :=
  ∃ d', d' ≠ d ∧ D.eventId d' = D.eventId d ∧ Handled w d'

/-- An update by a further delivery changes nobody's tier, role and status. -/
def NoFurtherChange (w : World ι) : Event ι → Prop
  | .update d fails =>
      Again D w d → ∀ userId,
        ((makeUpdate w d fails).store.users.getById userId).map standing =
          (w.store.users.getById userId).map standing
  | _ => True

/-- Every event is treated as if it had been delivered once. -/
def Idempotent (w : World ι) (es : List (Event ι)) : Prop :=
  EveryState (step plans D) (OneRowEach D) w es ∧
    EveryStep (step plans D) (NoFurtherChange D) w es

/-- The row holds the tier, the role and the status that an update brings about. -/
def Holds (user : User) (updates : Updates) : Prop :=
  (∀ tier ∈ updates.subscriptionTier, user.subscriptionTier = tier ∧
      (user.role = .superuser ∨ user.role = roleForTier tier)) ∧
    ∀ status ∈ updates.subscriptionStatus, user.subscriptionStatus = status

/-- When a delivery makes its update, nobody has made one for the event whose entry is recorded as
well, and if the event has been handled the user's row holds already what is written. -/
def Meets (w : World ι) : Event ι → Prop
  | .update d false =>
      ∀ work, w.phase d = .decided work → ∀ user ∈ w.store.users.getById work.userId,
        (Again D w d → Holds user work.updates) ∧
          (D.recorded d = true → ∀ d' ∈ w.acted, D.eventId d' = D.eventId d → D.recorded d' = false)
  | _ => True

/-! ## Steps -/

section Steps

variable {plans D} {w : World ι} {d : ι}

@[simp]
theorem setPhase_phase (phase : Phase) :
    (setPhase w d phase).phase = Function.update w.phase d phase := rfl

@[simp]
theorem setPhase_store (phase : Phase) : (setPhase w d phase).store = w.store := rfl

@[simp]
theorem setPhase_acted (phase : Phase) : (setPhase w d phase).acted = w.acted := rfl

@[simp]
theorem setPhase_rowsOf (phase : Phase) : (setPhase w d phase).rowsOf = w.rowsOf := rfl

theorem updatesOn_role {user : User} {event : GatewayEvent} {updates : Updates}
    (h : updatesOn plans user event = some updates) : updates.role = none := by
  obtain ⟨_, _, _, _, _, rfl⟩ | ⟨_, _, _, rfl⟩ | ⟨_, _, _, _, rfl⟩ | ⟨_, _, _, rfl⟩ | rfl :=
    updatesOn_cases h <;> rfl

theorem workOf_role {t : UserTable} {d : Delivery} {work : Work}
    (h : workOf plans t d = some work) : work.updates.role = none := by
  have hOn {event : GatewayEvent} (h : (resolve t d).bind (workOn plans event) = some work) :
      work.updates.role = none := by
    obtain ⟨user, -, hWork⟩ := Option.bind_eq_some_iff.mp h
    obtain ⟨updates, hUpdates, rfl⟩ := Option.map_eq_some_iff.mp hWork
    exact updatesOn_role hUpdates
  obtain ⟨order, event⟩ := d
  cases event with
  | stripeCheckout session =>
      obtain ⟨userId, -, hWork⟩ := Option.bind_eq_some_iff.mp h
      simp only [Option.ite_none_left_eq_some, Option.map_eq_some_iff] at hWork
      obtain ⟨-, tier, -, rfl⟩ := hWork
      rfl
  | _ => exact hOn h

variable (plans D w d) in
theorem readUsers_cases :
    readUsers plans D w d = w ∨
      w.phase d = .waiting ∧
        (readUsers plans D w d = setPhase w d .returned ∨
          ∃ work, work.updates.role = none ∧ readUsers plans D w d = setPhase w d (.decided work)) := by
  unfold readUsers
  cases hPhase : w.phase d with
  | waiting =>
      right
      refine ⟨rfl, ?_⟩
      cases hWork : workOf plans w.store.users (delivery D d) with
      | none => exact .inl rfl
      | some work => exact .inr ⟨work, workOf_role hWork, rfl⟩
  | _ => exact .inl rfl

/-- The world after an update that goes through. -/
def afterUpdate (w : World ι) (d : ι) (work : Work) : World ι :=
  { setPhase w d (.updated work) with
    store := { w.store with users := w.store.users.modify work.userId work.updates }
    acted := d :: w.acted }

theorem makeUpdate_of_decided {work : Work} {user : User} (hPhase : w.phase d = .decided work)
    (hUser : w.store.users.getById work.userId = some user) :
    makeUpdate w d false = afterUpdate w d work := by
  simp [makeUpdate, hPhase, Store.safeUpdate, UserTable.update, hUser, Except.map, afterUpdate]

theorem makeUpdate_cases (fails : Bool) :
    makeUpdate w d fails = w ∨
      ∃ work, w.phase d = .decided work ∧
        (makeUpdate w d fails = setPhase w d .raised ∨
          fails = false ∧ (∃ user, w.store.users.getById work.userId = some user) ∧
            makeUpdate w d fails = afterUpdate w d work) := by
  cases hPhase : w.phase d with
  | decided work =>
      right
      refine ⟨work, rfl, ?_⟩
      cases fails with
      | true => exact .inl (by simp [makeUpdate, hPhase])
      | false =>
          cases hUser : w.store.users.getById work.userId with
          | none =>
              left
              simp [makeUpdate, hPhase, Store.safeUpdate, UserTable.update, hUser, Except.map]
          | some user => exact .inr ⟨rfl, ⟨user, rfl⟩, makeUpdate_of_decided hPhase hUser⟩
  | _ => exact .inl (by simp [makeUpdate, hPhase])

theorem logEntry_cases :
    logEntry D w d = w ∨
      ∃ work, w.phase d = .updated work ∧
        (D.recorded d = false ∧ logEntry D w d = setPhase w d .returned ∨
          D.recorded d = true ∧ logEntry D w d =
            { setPhase w d .returned with
              store := w.store.logTransaction work.entry, rowsOf := d :: w.rowsOf }) := by
  unfold logEntry
  cases hPhase : w.phase d with
  | updated work =>
      right
      refine ⟨work, rfl, ?_⟩
      cases hRecorded : D.recorded d with
      | true => exact .inr ⟨rfl, if_pos rfl⟩
      | false => exact .inl ⟨rfl, rfl⟩
  | _ => exact .inl rfl

/-- A delivery whose steps follow each other is the delivery of the handlers. -/
theorem run_uninterrupted (hPhase : w.phase d = .waiting) (hRecorded : D.recorded d = true) :
    (runFrom (step plans D) w [.read d, .update d false, .log d]).store =
      w.store.deliver plans (delivery D d) := by
  rw [deliver_eq_perform]
  simp only [runFrom_cons, runFrom_nil, step, readUsers, hPhase]
  cases workOf plans w.store.users (delivery D d) with
  | none => simp [makeUpdate, logEntry, Store.perform]
  | some work =>
      simp only [makeUpdate, setPhase_phase, Function.update_self, setPhase_store,
        Bool.false_eq_true, if_false, Store.perform]
      cases w.store.safeUpdate work.userId work.updates with
      | ok store => simp [logEntry, hRecorded]
      | error message => simp [logEntry]

end Steps

/-! ## The invariant -/

variable {plans D}

/-- Those that have acted, and of them those whose entry is in the ledger. -/
structure Inv (D : Deliveries ι κ) (w : World ι) : Prop where
  acted : ∀ d ∈ w.acted, (∃ work, w.phase d = .updated work) ∨ w.phase d = .returned
  updated : ∀ d work, w.phase d = .updated work → d ∈ w.acted
  rows_nodup : w.rowsOf.Nodup
  rows : ∀ d, d ∈ w.rowsOf ↔ d ∈ w.acted ∧ w.phase d = .returned ∧ D.recorded d = true
  roleless : ∀ d work, w.phase d = .decided work → work.updates.role = none

omit [DecidableEq ι] in
theorem Inv.start (store : Store) : Inv D (World.start store) where
  acted d hd := by cases hd
  updated d work h := by cases h
  rows_nodup := List.nodup_nil
  rows d := by simp [World.start]
  roleless d work h := by cases h

/-- A delivery that has not acted moves on without acting. -/
theorem Inv.setPhase {w : World ι} (h : Inv D w) {d : ι} {phase : Phase} (hd : d ∉ w.acted)
    (hUpdated : ∀ work, phase ≠ .updated work)
    (hRole : ∀ work, phase = .decided work → work.updates.role = none) :
    Inv D (setPhase w d phase) where
  acted d' hd' := by
    have hne : d' ≠ d := fun hEq => hd (hEq ▸ hd')
    simpa [Function.update_of_ne hne] using h.acted d' hd'
  updated d' work hPhase := by
    by_cases hEq : d' = d
    · subst hEq
      exact absurd (by simpa using hPhase) (hUpdated work)
    · exact h.updated d' work (by simpa [Function.update_of_ne hEq] using hPhase)
  rows_nodup := h.rows_nodup
  rows d' := by
    by_cases hEq : d' = d
    · subst hEq
      have hRow : d' ∉ w.rowsOf := fun hRow => hd ((h.rows d').mp hRow).1
      simp [hRow, hd]
    · simpa [Function.update_of_ne hEq] using h.rows d'
  roleless d' work hPhase := by
    by_cases hEq : d' = d
    · subst hEq
      exact hRole work (by simpa using hPhase)
    · exact h.roleless d' work (by simpa [Function.update_of_ne hEq] using hPhase)

omit [DecidableEq ι] in
theorem Inv.not_acted {w : World ι} (h : Inv D w) {d : ι}
    (hUpdated : ∀ work, w.phase d ≠ .updated work) (hReturned : w.phase d ≠ .returned) :
    d ∉ w.acted := by
  intro hd
  obtain ⟨work, hPhase⟩ | hPhase := h.acted d hd
  · exact hUpdated work hPhase
  · exact hReturned hPhase

theorem Inv.afterUpdate {w : World ι} (h : Inv D w) {d : ι} {work : Work}
    (hPhase : w.phase d = .decided work) : Inv D (afterUpdate w d work) where
  acted d' hd' := by
    by_cases hEq : d' = d
    · subst hEq
      exact .inl ⟨work, Function.update_self ..⟩
    · have hActed := h.acted d' ((List.mem_cons.mp hd').resolve_left hEq)
      simpa [Redelivery.afterUpdate, Function.update_of_ne hEq] using hActed
  updated d' work' hPhase' := by
    by_cases hEq : d' = d
    · exact hEq ▸ List.mem_cons_self
    · have hOld : w.phase d' = .updated work' := by
        simpa [Redelivery.afterUpdate, Function.update_of_ne hEq] using hPhase'
      exact List.mem_cons_of_mem _ (h.updated d' work' hOld)
  rows_nodup := h.rows_nodup
  rows d' := by
    by_cases hEq : d' = d
    · subst hEq
      have hRow : d' ∉ w.rowsOf := by
        intro hRow
        have hReturned := ((h.rows d').mp hRow).2.1
        simp [hPhase] at hReturned
      simp [Redelivery.afterUpdate, hRow]
    · simpa [Redelivery.afterUpdate, Function.update_of_ne hEq, hEq] using h.rows d'
  roleless d' work' hPhase' := by
    by_cases hEq : d' = d
    · subst hEq
      simp [Redelivery.afterUpdate] at hPhase'
    · exact h.roleless d' work'
        (by simpa [Redelivery.afterUpdate, Function.update_of_ne hEq] using hPhase')

theorem Inv.logEntry {w : World ι} (h : Inv D w) (d : ι) : Inv D (logEntry D w d) := by
  obtain hSame | ⟨work, hPhase, hLog⟩ := logEntry_cases (D := D) (w := w) (d := d)
  · rw [hSame]
    exact h
  have hActed : d ∈ w.acted := h.updated d work hPhase
  have hRow : d ∉ w.rowsOf := by
    intro hRow
    have hReturned := ((h.rows d).mp hRow).2.1
    simp [hPhase] at hReturned
  -- Whatever becomes of the entry, the phases are these.
  have hOthers {d' : ι} (hEq : d' ≠ d) :
      Function.update w.phase d .returned d' = w.phase d' := Function.update_of_ne hEq ..
  have hUpdated {d' : ι} {work' : Work}
      (hPhase' : Function.update w.phase d .returned d' = .updated work') : d' ∈ w.acted := by
    by_cases hEq : d' = d
    · exact hEq ▸ hActed
    · exact h.updated d' work' (hOthers hEq ▸ hPhase')
  have hReturned {d' : ι} (hd' : d' ∈ w.acted) :
      (∃ work', Function.update w.phase d .returned d' = .updated work') ∨
        Function.update w.phase d .returned d' = .returned := by
    by_cases hEq : d' = d
    · subst hEq
      exact .inr (Function.update_self ..)
    · rw [hOthers hEq]
      exact h.acted d' hd'
  have hRole {d' : ι} {work' : Work}
      (hPhase' : Function.update w.phase d .returned d' = .decided work') :
      work'.updates.role = none := by
    by_cases hEq : d' = d
    · subst hEq
      simp at hPhase'
    · exact h.roleless d' work' (hOthers hEq ▸ hPhase')
  obtain ⟨hRecorded, hLog⟩ | ⟨hRecorded, hLog⟩ := hLog
  · rw [hLog]
    refine ⟨fun _ => hReturned, fun _ _ => hUpdated, h.rows_nodup, fun d' => ?_, fun _ _ => hRole⟩
    by_cases hEq : d' = d
    · subst hEq
      simp [hRow, hRecorded]
    · simpa [hOthers hEq] using h.rows d'
  · rw [hLog]
    refine ⟨fun _ => hReturned, fun _ _ => hUpdated, List.nodup_cons.mpr ⟨hRow, h.rows_nodup⟩,
      fun d' => ?_, fun _ _ => hRole⟩
    by_cases hEq : d' = d
    · subst hEq
      simp [hActed, hRecorded]
    · simpa [hOthers hEq, hEq] using h.rows d'

theorem Inv.step {w : World ι} (h : Inv D w) (e : Event ι) : Inv D (step plans D w e) := by
  cases e with
  | read d =>
      obtain hSame | ⟨hPhase, hRead⟩ := readUsers_cases plans D w d
      · simpa only [Redelivery.step, hSame] using h
      · have hd : d ∉ w.acted := h.not_acted (by simp [hPhase]) (by simp [hPhase])
        obtain hRead | ⟨work, hRole, hRead⟩ := hRead
        · simpa only [Redelivery.step, hRead] using h.setPhase hd (by simp) (by simp)
        · simpa only [Redelivery.step, hRead] using h.setPhase hd (by simp) (by simpa using hRole)
  | update d fails =>
      -- an update that raises has not acted; one that goes through acts now
      obtain hSame | ⟨work, hPhase, hRaised | ⟨-, -, hDone⟩⟩ := makeUpdate_cases (w := w) (d := d) fails
      · simpa only [Redelivery.step, hSame] using h
      · have hd : d ∉ w.acted := h.not_acted (by simp [hPhase]) (by simp [hPhase])
        simpa only [Redelivery.step, hRaised] using h.setPhase hd (by simp) (by simp)
      · simpa only [Redelivery.step, hDone] using h.afterUpdate hPhase
  | log d => exact h.logEntry d
  | others users entries => exact ⟨h.acted, h.updated, h.rows_nodup, h.rows, h.roleless⟩

/-! ## What the condition is worth -/

/-- Of the deliveries of an event that have acted, one at most is to be recorded. -/
def OneEach (D : Deliveries ι κ) (w : World ι) : Prop :=
  ∀ d ∈ w.acted, ∀ d' ∈ w.acted, D.eventId d' = D.eventId d → D.recorded d = true →
    D.recorded d' = true → d' = d

omit [DecidableEq ι] in
theorem OneEach.oneRowEach {w : World ι} (h : Inv D w) (hOne : OneEach D w) : OneRowEach D w := by
  refine h.rows_nodup.map_on ?_
  intro d hd d' hd' hEvent
  obtain ⟨hActed, -, hRecorded⟩ := (h.rows d).mp hd
  obtain ⟨hActed', -, hRecorded'⟩ := (h.rows d').mp hd'
  exact hOne d' hActed' d hActed hEvent hRecorded' hRecorded

/-- No delivery has its entry still to write. -/
def Settled (w : World ι) : Prop := ∀ d work, w.phase d ≠ .updated work

omit [DecidableEq ι] in
theorem OneRowEach.oneEach {w : World ι} (h : Inv D w) (hSettled : Settled w)
    (hRows : OneRowEach D w) : OneEach D w := by
  intro d hd d' hd' hEvent hRecorded hRecorded'
  have hMem {d : ι} (hd : d ∈ w.acted) (hRecorded : D.recorded d = true) : d ∈ w.rowsOf := by
    have hReturned := (h.acted d hd).resolve_left fun ⟨work, hPhase⟩ => hSettled d work hPhase
    exact (h.rows d).mpr ⟨hd, hReturned, hRecorded⟩
  exact List.inj_on_of_nodup_map hRows (hMem hd' hRecorded') (hMem hd hRecorded) hEvent

theorem standing_updated_iff {user : User} {updates : Updates} (hRole : updates.role = none) :
    standing (user.updated updates) = standing user ↔ Holds user updates := by
  unfold standing Holds
  rw [User.updated_tier, User.updated_status, Prod.mk.injEq, Prod.mk.injEq, ← and_assoc]
  apply and_congr
  · cases hTier : updates.subscriptionTier with
    | none => simp [User.updated_role_of_none hTier hRole]
    | some tier =>
        rw [User.updated_role_of_tier hTier hRole]
        by_cases hSuper : user.role = .superuser
        · simp [hSuper, eq_comm]
        · simp [hSuper, eq_comm]
  · cases updates.subscriptionStatus with
    | none => simp
    | some status => simp [eq_comm]

theorem afterUpdate_same_iff {w : World ι} {d : ι} {work : Work} {user : User}
    (hUser : w.store.users.getById work.userId = some user) (hRole : work.updates.role = none) :
    (∀ userId, ((afterUpdate w d work).store.users.getById userId).map standing =
        (w.store.users.getById userId).map standing) ↔ Holds user work.updates := by
  have hId : user.userId = work.userId := UserTable.userId_of_getById hUser
  rw [← standing_updated_iff hRole]
  unfold afterUpdate
  rw [← hId]
  exact UserTable.same_modify_iff standing (UserTable.mem_of_getById hUser) work.updates

theorem Inv.noFurtherChange {w : World ι} {e : Event ι} (h : Inv D w) (hMeets : Meets D w e) :
    NoFurtherChange D w e := by
  cases e with
  | update d fails =>
      intro hAgain
      obtain hSame | ⟨work, hPhase, hRaised | ⟨rfl, ⟨user, hUser⟩, hDone⟩⟩ :=
        makeUpdate_cases (w := w) (d := d) fails
      · simp [hSame]
      · simp [hRaised]
      · rw [hDone, afterUpdate_same_iff hUser (h.roleless d work hPhase)]
        exact (hMeets work hPhase user hUser).1 hAgain
  | _ => trivial

variable (plans D) in
/-- Nothing but an update that goes through makes a delivery act. -/
theorem step_acted (w : World ι) (e : Event ι) :
    (step plans D w e).acted = w.acted ∨
      ∃ d work user, e = .update d false ∧ w.phase d = .decided work ∧
        w.store.users.getById work.userId = some user ∧
        (step plans D w e).acted = d :: w.acted := by
  cases e with
  | read d =>
      left
      obtain hSame | ⟨-, hRead | ⟨work, -, hRead⟩⟩ :=
        readUsers_cases plans D w d
      · simp only [step, hSame]
      · simp only [step, hRead, setPhase_acted]
      · simp only [step, hRead, setPhase_acted]
  | update d fails =>
      obtain hSame | ⟨work, hPhase, hRaised | ⟨rfl, ⟨user, hUser⟩, hDone⟩⟩ :=
        makeUpdate_cases (w := w) (d := d) fails
      · exact .inl (by simp only [step, hSame])
      · exact .inl (by simp only [step, hRaised, setPhase_acted])
      · exact .inr ⟨d, work, user, rfl, hPhase, hUser, by simp only [step, hDone, afterUpdate]⟩
  | log d =>
      left
      obtain hSame | ⟨work, -, ⟨-, hLog⟩ | ⟨-, hLog⟩⟩ := logEntry_cases (D := D) (w := w) (d := d)
      · simp only [step, hSame]
      · simp only [step, hLog, setPhase_acted]
      · simp only [step, hLog, setPhase_acted]
  | others users entries => exact .inl rfl

theorem OneEach.step {w : World ι} {e : Event ι} (hOne : OneEach D w) (hMeets : Meets D w e) :
    OneEach D (step plans D w e) := by
  unfold OneEach
  obtain hActed | ⟨d, work, user, rfl, hPhase, hUser, hActed⟩ := step_acted plans D w e
  · rw [hActed]
    exact hOne
  · have hNew := (hMeets work hPhase user hUser).2
    rw [hActed]
    intro d₁ hd₁ d₂ hd₂ hEvent hRecorded₁ hRecorded₂
    obtain hEq₁ | hOld₁ := List.mem_cons.mp hd₁
    · subst hEq₁
      obtain hEq₂ | hOld₂ := List.mem_cons.mp hd₂
      · exact hEq₂
      · exact absurd (hNew hRecorded₁ d₂ hOld₂ hEvent) (by simp [hRecorded₂])
    · obtain hEq₂ | hOld₂ := List.mem_cons.mp hd₂
      · subst hEq₂
        exact absurd (hNew hRecorded₂ d₁ hOld₁ hEvent.symm) (by simp [hRecorded₁])
      · exact hOne d₁ hOld₁ d₂ hOld₂ hEvent hRecorded₁ hRecorded₂

variable (plans D) in
theorem acted_subset_run (w : World ι) (es : List (Event ι)) :
    w.acted ⊆ (runFrom (step plans D) w es).acted := by
  induction es generalizing w with
  | nil => exact List.Subset.refl _
  | cons e es ih =>
      refine List.Subset.trans ?_ (ih (step plans D w e))
      obtain hActed | ⟨d, -, -, -, -, -, hActed⟩ := step_acted plans D w e
      · rw [hActed]
        exact List.Subset.refl _
      · rw [hActed]
        exact List.subset_cons_self ..

/-- A step that changes nothing further, before a world with one entry an event, meets the
condition. -/
theorem Inv.meets {w : World ι} {e : Event ι} (h : Inv D w) (hSame : NoFurtherChange D w e)
    (hOne : OneEach D (Redelivery.step plans D w e)) : Meets D w e := by
  cases e with
  | update d fails =>
      cases fails with
      | true => trivial
      | false =>
          intro work hPhase user hUser
          have hDone : makeUpdate w d false = Redelivery.afterUpdate w d work :=
            makeUpdate_of_decided hPhase hUser
          constructor
          · intro hAgain
            rw [← afterUpdate_same_iff hUser (h.roleless d work hPhase), ← hDone]
            exact hSame hAgain
          · intro hRecorded d' hd' hEvent
            by_contra hRecorded'
            have hActed : (Redelivery.step plans D w (.update d false)).acted = d :: w.acted := by
              simp only [Redelivery.step, hDone, Redelivery.afterUpdate]
            have hEq : d' = d := hOne d (hActed ▸ List.mem_cons_self) d'
              (hActed ▸ List.mem_cons_of_mem _ hd') hEvent hRecorded (by simpa using hRecorded')
            have hNot : d ∉ w.acted := h.not_acted (by simp [hPhase]) (by simp [hPhase])
            exact hNot (hEq ▸ hd')
  | _ => trivial

/-- Before a world with one entry an event all steps that change nothing further meet the
condition. -/
theorem Inv.everyStep_meets {w : World ι} {es : List (Event ι)} (h : Inv D w)
    (hSame : EveryStep (Redelivery.step plans D) (NoFurtherChange D) w es)
    (hOne : OneEach D (runFrom (Redelivery.step plans D) w es)) :
    EveryStep (Redelivery.step plans D) (Meets D) w es := by
  induction es generalizing w with
  | nil => trivial
  | cons e es ih =>
      have hLater := acted_subset_run plans D (Redelivery.step plans D w e) es
      have hNext : OneEach D (Redelivery.step plans D w e) := fun d hd d' hd' =>
        hOne d (hLater hd) d' (hLater hd')
      exact ⟨h.meets hSame.1 hNext, ih (h.step e) hSame.2 hOne⟩

/-! ## Runs -/

/-- Whatever the plans, the deliveries and the other writers: a run whose updates all meet the
condition treats every event as if it had been delivered once, and a run that does so and leaves no
entry to be written is one whose updates all meet the condition. -/
theorem redelivery_harmless (plans : RazorpayPlans) (D : Deliveries ι κ) (store : Store)
    (es : List (Event ι)) :
    (EveryStep (step plans D) (Meets D) (World.start store) es →
        Idempotent plans D (World.start store) es) ∧
      (Settled (runFrom (step plans D) (World.start store) es) →
        Idempotent plans D (World.start store) es →
        EveryStep (step plans D) (Meets D) (World.start store) es) := by
  have hStart : Inv D (World.start store) := Inv.start store
  have hOne : OneEach D (World.start store : World ι) := fun d hd => by cases hd
  constructor
  · intro hMeets
    have hStep (w : World ι) (e : Event ι) (h : Inv D w ∧ OneEach D w) (hMeets : Meets D w e) :
        Inv D (step plans D w e) ∧ OneEach D (step plans D w e) :=
      ⟨h.1.step e, h.2.step hMeets⟩
    constructor
    · have hEvery := everyState_of_invariant hStep ⟨hStart, hOne⟩ hMeets
      exact hEvery.imp fun w h => h.2.oneRowEach h.1
    · exact everyStep_of_invariant hStep (fun w e h hMeets => h.1.noFurtherChange hMeets)
        ⟨hStart, hOne⟩ hMeets
  · rintro hSettled ⟨hRows, hSame⟩
    have hInv : EveryState (step plans D) (Inv D) (World.start store) es :=
      everyState_of_kept (fun w e h => h.step e) hStart es
    exact hStart.everyStep_meets hSame (hRows.last.oneEach hInv.last hSettled)

/-- A charge, the cancellation of its subscription, and the charge once more. -/
def chargedTwice : Deliveries (Fin 3) Bool where
  eventId d := d ≠ 1
  event charge :=
    if charge then .charged ⟨some "sub_new", some "plan_premium", some "cust_1"⟩
    else .cancelled ⟨some "sub_new", some "plan_premium", some "cust_1"⟩

def oneByOne : List (Event (Fin 3)) :=
  [.read 0, .update 0 false, .log 0, .read 1, .update 1 false, .log 1,
    .read 2, .update 2 false, .log 2]

/-- The second delivery of the charge gives it a second ledger row, and the tier that was cancelled
comes back. -/
theorem second_charge_reactivates :
    ¬EveryState (step envPlans chargedTwice) (OneRowEach chargedTwice)
        (World.start upgradedStore) oneByOne ∧
      ¬EveryStep (step envPlans chargedTwice) (NoFurtherChange chargedTwice)
        (World.start upgradedStore) oneByOne := by
  constructor
  · intro hRows
    have hLast := hRows.last
    revert hLast
    unfold OneRowEach
    decide
  · intro hSame
    have hAgain : Again chargedTwice (runFrom (step envPlans chargedTwice)
        (World.start upgradedStore) (oneByOne.take 7)) 2 :=
      ⟨0, by decide, by decide, .inr (by decide)⟩
    have hUser := hSame.2.2.2.2.2.2.2.1 hAgain "u1"
    revert hUser
    decide

end Redelivery

end AsetPlatform.Billing

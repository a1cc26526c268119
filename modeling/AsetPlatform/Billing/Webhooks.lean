import AsetPlatform.Billing.UserTable
import Mathlib.Data.Rat.Defs

/-!
# Gateway webhooks

The handlers of Razorpay and Stripe events on the users table and the payment ledger. An event has
passed its signature check and is already parsed; a field that `dict.get` reads is an optional
string, `none` for JSON `null` and `some ""` for an absent key.

Each handler looks a user up, may drop the event, and otherwise makes one update and one ledger
entry. `effect` says which update that is, and `deliver_users` that the handlers do exactly it;
the results about events are derived from `effect` and never unfold a handler.
-/

set_option autoImplicit false

namespace AsetPlatform.Billing

/-! ## Store -/

/-- A ledger entry of `_log_transaction`. -/
structure PaymentTransaction where
  userId : String
  gateway : String
  eventType : String
  subscriptionId : Option String
  customerId : Option String := none
  amount : Option ℚ := none
  currency : Option String := none
  tierBefore : Option Tier := none
  tierAfter : Option Tier := none
  status : String := "success"

/-- The database as billing sees it. -/
structure Store where
  users : UserTable
  ledger : List PaymentTransaction

/-- `_safe_update`: the retries follow commit conflicts only, so what remains is one `update`. -/
def Store.safeUpdate (s : Store) (userId : String) (updates : Updates) : Except String Store :=
  (s.users.update userId updates).map fun users => { s with users := users }

/-- `_log_transaction` -/
def Store.logTransaction (s : Store) (entry : PaymentTransaction) : Store :=
  { s with ledger := s.ledger ++ [entry] }

@[simp]
theorem Store.logTransaction_users (s : Store) (entry : PaymentTransaction) :
    (s.logTransaction entry).users = s.users := rfl

/-- `TIER_PRICE_INR` -/
def tierPriceInr : Tier → ℚ
  | .free => 0
  | .pro => 499
  | .premium => 1499

/-- `TIER_PRICE_USD` -/
def tierPriceUsd : Tier → ℚ
  | .free => 0
  | .pro => 6
  | .premium => 18

/-- `(user.get("subscription_tier") or "free")` -/
def User.tierOrFree (user : User) : Tier := user.subscriptionTier.getD .free

/-! ## Lookups -/

/-- The first user with the subscription id, else the first one with the customer id. -/
def findUserBy (subOf custOf : User → Option String) (users : List User)
    (subId custId : Option String) : Option User :=
  let bySub := if truthy subId then users.find? (subOf · = subId) else none
  match bySub with
  | some user => some user
  | none => if truthy custId then users.find? (custOf · = custId) else none

/-- `_find_user_by_razorpay` -/
def findUserByRazorpay : List User → Option String → Option String → Option User :=
  findUserBy User.razorpaySubscriptionId User.razorpayCustomerId

/-- `_find_user_by_stripe` -/
def findUserByStripe : List User → Option String → Option String → Option User :=
  findUserBy User.stripeSubscriptionId User.stripeCustomerId

theorem mem_of_findUserBy {subOf custOf : User → Option String} {users : List User}
    {subId custId : Option String} {user : User}
    (h : findUserBy subOf custOf users subId custId = some user) : user ∈ users := by
  unfold findUserBy at h
  cases hSub : (if truthy subId then users.find? (subOf · = subId) else none) with
  | some found =>
      rw [hSub] at h
      obtain rfl : found = user := by simpa using h
      split at hSub
      · exact List.mem_of_find?_eq_some hSub
      · cases hSub
  | none =>
      rw [hSub] at h
      simp only at h
      split at h
      · exact List.mem_of_find?_eq_some h
      · cases h

/-! ## Plans -/

/-- The plan ids of the environment, `none` where the variable is not set. -/
structure RazorpayPlans where
  premium : Option String
  pro : Option String

/-- `_plan_id_to_tier` -/
def planIdToTier (plans : RazorpayPlans) (planId : Option String) : Option Tier :=
  if planId = plans.premium then some .premium
  else if planId = plans.pro then some .pro
  else none

/-- A tier of the checkout metadata: only the two paid ones pass. -/
def paidTier (tier : Option String) : Option Tier :=
  if tier = some "pro" then some .pro
  else if tier = some "premium" then some .premium
  else none

/-- A tier with a price. -/
def Tier.Paid (tier : Tier) : Prop := tier = .pro ∨ tier = .premium

instance (tier : Tier) : Decidable tier.Paid := inferInstanceAs (Decidable (_ ∨ _))

/-! ## Events -/

/-- The subscription entity of a Razorpay event. -/
structure RazorpayEntity where
  id : Option String := some ""
  planId : Option String := some ""
  customerId : Option String := some ""

/-- The object of a Stripe event, with the fields that the handlers read. -/
structure StripeObject where
  id : Option String := some ""
  status : Option String := some ""
  customer : Option String := some ""
  subscription : Option String := some ""
  metadataUserId : Option String := some ""
  metadataTier : Option String := some ""
  amountTotal : Option ℤ := none
  currency : String := "usd"

/-- An event the webhook routes dispatch on. -/
inductive GatewayEvent where
  /-- `subscription.charged` -/
  | charged (entity : RazorpayEntity)
  /-- `subscription.cancelled` -/
  | cancelled (entity : RazorpayEntity)
  /-- `payment.failed` -/
  | paymentFailed (paymentCustomerId : Option String) (entity : RazorpayEntity)
  /-- `checkout.session.completed` -/
  | stripeCheckout (session : StripeObject)
  /-- `customer.subscription.updated` and `customer.subscription.deleted` -/
  | stripeSubChange (sub : StripeObject)
  /-- `invoice.payment_failed` -/
  | stripePaymentFailed (invoice : StripeObject)

/-! ## Handlers -/

section Handlers

variable (plans : RazorpayPlans) (order : RowOrder) (s : Store)

/-- `_handle_charged` -/
def handleCharged (entity : RazorpayEntity) : Except String Store :=
  if truthy entity.id = false then .ok s
  else
    match findUserByRazorpay (s.users.listAll order) entity.id entity.customerId with
    | none => .ok s
    | some user =>
        -- Guard: ignore events for old/orphaned subs
        if truthy user.razorpaySubscriptionId ∧ user.razorpaySubscriptionId ≠ entity.id then .ok s
        else
          match planIdToTier plans entity.planId with
          | none => .ok s
          | some tier => do
              let s ← s.safeUpdate user.userId
                { subscriptionTier := some (some tier)
                  subscriptionStatus := some (some .active)
                  razorpaySubscriptionId := some entity.id }
              return s.logTransaction
                { userId := user.userId, gateway := "razorpay", eventType := "charged"
                  subscriptionId := entity.id, customerId := entity.customerId
                  amount := some (tierPriceInr tier), currency := some "INR"
                  tierBefore := some user.tierOrFree, tierAfter := some tier }

/-- `_handle_cancelled` -/
def handleCancelled (entity : RazorpayEntity) : Except String Store :=
  if truthy entity.id = false then .ok s
  else
    match findUserByRazorpay (s.users.listAll order) entity.id entity.customerId with
    | none => .ok s
    | some user =>
        -- Only process if this is the current subscription
        if truthy user.razorpaySubscriptionId ∧ user.razorpaySubscriptionId ≠ entity.id then .ok s
        else do
          let s ← s.safeUpdate user.userId
            { subscriptionTier := some (some .free)
              subscriptionStatus := some (some .cancelled)
              razorpaySubscriptionId := some none }
          return s.logTransaction
            { userId := user.userId, gateway := "razorpay", eventType := "cancelled"
              subscriptionId := entity.id, customerId := entity.customerId
              tierBefore := some user.tierOrFree, tierAfter := some .free }

/-- `_handle_payment_failed` -/
def handlePaymentFailed (paymentCustomerId : Option String) (entity : RazorpayEntity) :
    Except String Store :=
  match findUserByRazorpay (s.users.listAll order) entity.id paymentCustomerId with
  | none => .ok s
  | some user => do
      let s ← s.safeUpdate user.userId { subscriptionStatus := some (some .pastDue) }
      return s.logTransaction
        { userId := user.userId, gateway := "razorpay", eventType := "payment_failed"
          subscriptionId := entity.id, customerId := paymentCustomerId, status := "failed" }

/-- `_handle_stripe_checkout` -/
def handleStripeCheckout (session : StripeObject) : Except String Store :=
  match session.metadataUserId with
  | none => .ok s
  | some userId =>
      if userId = "" then .ok s
      else
        match paidTier session.metadataTier with
        | none => .ok s
        | some tier => do
            let oldTier := ((s.users.getById userId).map User.tierOrFree).getD .free
            let s ← s.safeUpdate userId
              { subscriptionTier := some (some tier)
                subscriptionStatus := some (some .active)
                stripeCustomerId := some session.customer
                stripeSubscriptionId := some session.subscription }
            -- amount_total is in cents
            let amount := session.amountTotal.bind fun cents =>
              if cents = 0 then none else some ((cents : ℚ) / 100)
            return s.logTransaction
              { userId := userId, gateway := "stripe", eventType := "checkout_completed"
                subscriptionId := session.subscription, customerId := session.customer
                amount := amount, currency := some session.currency.toUpper
                tierBefore := some oldTier, tierAfter := some tier }

/-- `_handle_stripe_sub_change` -/
def handleStripeSubChange (sub : StripeObject) : Except String Store :=
  match findUserByStripe (s.users.listAll order) sub.id sub.customer with
  | none => .ok s
  | some user =>
      if sub.status = some "canceled" ∨ sub.status = some "unpaid" then do
        let s ← s.safeUpdate user.userId
          { subscriptionTier := some (some .free)
            subscriptionStatus := some (some .cancelled)
            stripeSubscriptionId := some none }
        return s.logTransaction
          { userId := user.userId, gateway := "stripe", eventType := "cancelled"
            subscriptionId := sub.id, customerId := sub.customer
            tierBefore := some user.tierOrFree, tierAfter := some .free }
      else .ok s

/-- `_handle_stripe_payment_failed` -/
def handleStripePaymentFailed (invoice : StripeObject) : Except String Store :=
  match findUserByStripe (s.users.listAll order) invoice.subscription invoice.customer with
  | none => .ok s
  | some user => do
      let s ← s.safeUpdate user.userId { subscriptionStatus := some (some .pastDue) }
      return s.logTransaction
        { userId := user.userId, gateway := "stripe", eventType := "payment_failed"
          subscriptionId := invoice.subscription, customerId := invoice.customer
          status := "failed" }

/-- The handler of an event. -/
def handle : GatewayEvent → Except String Store
  | .charged entity => handleCharged plans order s entity
  | .cancelled entity => handleCancelled order s entity
  | .paymentFailed paymentCustomerId entity => handlePaymentFailed order s paymentCustomerId entity
  | .stripeCheckout session => handleStripeCheckout s session
  | .stripeSubChange sub => handleStripeSubChange order s sub
  | .stripePaymentFailed invoice => handleStripePaymentFailed order s invoice

end Handlers

/-- An event and the order in which its handler sees the rows. -/
structure Delivery where
  order : RowOrder
  event : GatewayEvent

/-- Deliver an event. A handler that raises has changed nothing. -/
def Store.deliver (plans : RazorpayPlans) (s : Store) (d : Delivery) : Store :=
  match handle plans d.order s d.event with
  | .ok s' => s'
  | .error _ => s

/-! ## What an event does -/

/-- The updates of an activation through Razorpay. -/
def chargedUpdates (tier : Tier) (subId : Option String) : Updates where
  subscriptionTier := some (some tier)
  subscriptionStatus := some (some .active)
  razorpaySubscriptionId := some subId

/-- The updates of a cancellation at Razorpay. -/
def cancelledUpdates : Updates where
  subscriptionTier := some (some .free)
  subscriptionStatus := some (some .cancelled)
  razorpaySubscriptionId := some none

/-- The updates of an activation through Stripe. -/
def stripeCheckoutUpdates (tier : Tier) (session : StripeObject) : Updates where
  subscriptionTier := some (some tier)
  subscriptionStatus := some (some .active)
  stripeCustomerId := some session.customer
  stripeSubscriptionId := some session.subscription

def stripeCancelledUpdates : Updates where
  subscriptionTier := some (some .free)
  subscriptionStatus := some (some .cancelled)
  stripeSubscriptionId := some none

/-- The updates of a failed payment at either gateway. -/
def pastDueUpdates : Updates where
  subscriptionStatus := some (some .pastDue)

/-- The user that an event's ids resolve to. -/
def resolve (t : UserTable) (d : Delivery) : Option User :=
  match d.event with
  | .charged entity => findUserByRazorpay (t.listAll d.order) entity.id entity.customerId
  | .cancelled entity => findUserByRazorpay (t.listAll d.order) entity.id entity.customerId
  | .paymentFailed paymentCustomerId entity =>
      findUserByRazorpay (t.listAll d.order) entity.id paymentCustomerId
  | .stripeCheckout session => session.metadataUserId.bind t.getById
  | .stripeSubChange sub => findUserByStripe (t.listAll d.order) sub.id sub.customer
  | .stripePaymentFailed invoice =>
      findUserByStripe (t.listAll d.order) invoice.subscription invoice.customer

/-- The guard of the two Razorpay handlers that have one: the event has a subscription id, and the
user stores no other. -/
def Guarded (user : User) (entity : RazorpayEntity) : Prop :=
  truthy entity.id = true ∧
    ¬(truthy user.razorpaySubscriptionId = true ∧ user.razorpaySubscriptionId ≠ entity.id)

instance (user : User) (entity : RazorpayEntity) : Decidable (Guarded user entity) :=
  inferInstanceAs (Decidable (_ ∧ ¬(_ ∧ _)))

/-- The updates that an event makes on the user it resolves to, if any. -/
def updatesOn (plans : RazorpayPlans) (user : User) : GatewayEvent → Option Updates
  | .charged entity =>
      if Guarded user entity then
        (planIdToTier plans entity.planId).map fun tier => chargedUpdates tier entity.id
      else none
  | .cancelled entity => if Guarded user entity then some cancelledUpdates else none
  | .paymentFailed _ _ => some pastDueUpdates
  | .stripeCheckout session =>
      if session.metadataUserId = some "" then none
      else (paidTier session.metadataTier).map fun tier => stripeCheckoutUpdates tier session
  | .stripeSubChange sub =>
      if sub.status = some "canceled" ∨ sub.status = some "unpaid" then some stripeCancelledUpdates
      else none
  | .stripePaymentFailed _ => some pastDueUpdates

/-- The updates that events make, each with the guard it passed. -/
theorem updatesOn_cases {plans : RazorpayPlans} {user : User} {event : GatewayEvent}
    {updates : Updates} (h : updatesOn plans user event = some updates) :
    (∃ entity tier, event = .charged entity ∧ Guarded user entity ∧
      planIdToTier plans entity.planId = some tier ∧ updates = chargedUpdates tier entity.id) ∨
    (∃ entity, event = .cancelled entity ∧ Guarded user entity ∧ updates = cancelledUpdates) ∨
    (∃ session tier, event = .stripeCheckout session ∧
      paidTier session.metadataTier = some tier ∧ updates = stripeCheckoutUpdates tier session) ∨
    (∃ sub, event = .stripeSubChange sub ∧
      (sub.status = some "canceled" ∨ sub.status = some "unpaid") ∧
      updates = stripeCancelledUpdates) ∨
    updates = pastDueUpdates := by
  cases event with
  | charged entity =>
      simp only [updatesOn, Option.ite_none_right_eq_some, Option.map_eq_some_iff] at h
      obtain ⟨hOpen, tier, hTier, rfl⟩ := h
      exact .inl ⟨entity, tier, rfl, hOpen, hTier, rfl⟩
  | cancelled entity =>
      simp only [updatesOn, Option.ite_none_right_eq_some, Option.some.injEq] at h
      exact .inr (.inl ⟨entity, rfl, h.1, h.2.symm⟩)
  | stripeCheckout session =>
      simp only [updatesOn, Option.ite_none_left_eq_some, Option.map_eq_some_iff] at h
      obtain ⟨-, tier, hTier, rfl⟩ := h
      exact .inr (.inr (.inl ⟨session, tier, rfl, hTier, rfl⟩))
  | stripeSubChange sub =>
      simp only [updatesOn, Option.ite_none_right_eq_some, Option.some.injEq] at h
      exact .inr (.inr (.inr (.inl ⟨sub, rfl, h.1, h.2.symm⟩)))
  -- a failed payment at either gateway, whatever the user stores
  | paymentFailed paymentCustomerId entity =>
      exact .inr (.inr (.inr (.inr (Option.some.inj h).symm)))
  | stripePaymentFailed invoice =>
      exact .inr (.inr (.inr (.inr (Option.some.inj h).symm)))

/-- The update an event makes and the user it makes it on. -/
def effect (plans : RazorpayPlans) (t : UserTable) (d : Delivery) : Option (String × Updates) :=
  (resolve t d).bind fun user =>
    (updatesOn plans user d.event).map fun updates => (user.userId, updates)

theorem effect_of_resolve {plans : RazorpayPlans} {t : UserTable} {d : Delivery} {user : User}
    (h : resolve t d = some user) :
    effect plans t d = (updatesOn plans user d.event).map fun updates => (user.userId, updates) := by
  simp only [effect, h, Option.bind_some]

theorem mem_of_resolve {t : UserTable} {d : Delivery} {user : User}
    (h : resolve t d = some user) : user ∈ t.rows := by
  obtain ⟨order, event⟩ := d
  cases event with
  | stripeCheckout session =>
      obtain ⟨userId, -, hRow⟩ := Option.bind_eq_some_iff.mp h
      exact UserTable.mem_of_getById hRow
  | charged entity => exact UserTable.mem_listAll.mp (mem_of_findUserBy h)
  | cancelled entity => exact UserTable.mem_listAll.mp (mem_of_findUserBy h)
  | paymentFailed paymentCustomerId entity =>
      exact UserTable.mem_listAll.mp (mem_of_findUserBy h)
  | stripeSubChange sub => exact UserTable.mem_listAll.mp (mem_of_findUserBy h)
  | stripePaymentFailed invoice => exact UserTable.mem_listAll.mp (mem_of_findUserBy h)

/-- Make an update on a table, if there is one to make. -/
def UserTable.apply (t : UserTable) : Option (String × Updates) → UserTable
  | none => t
  | some (userId, updates) => t.modify userId updates

@[simp]
theorem UserTable.apply_none (t : UserTable) : t.apply none = t := rfl

@[simp]
theorem UserTable.apply_some (t : UserTable) (userId : String) (updates : Updates) :
    t.apply (some (userId, updates)) = t.modify userId updates := rfl

theorem Store.safeUpdate_of_mem {s : Store} {user : User} (h : user ∈ s.users.rows)
    (updates : Updates) :
    s.safeUpdate user.userId updates =
      .ok { s with users := s.users.modify user.userId updates } := by
  simp only [safeUpdate, UserTable.update_of_mem h, Except.map]

theorem deliver_users_of_none {plans : RazorpayPlans} {s : Store} {d : Delivery}
    (h : resolve s.users d = none) : (s.deliver plans d).users = s.users := by
  obtain ⟨order, event⟩ := d
  unfold Store.deliver
  cases event with
  | charged entity =>
      simp only [resolve] at h
      cases hId : truthy entity.id <;> simp [handle, handleCharged, h, hId]
  | cancelled entity =>
      simp only [resolve] at h
      cases hId : truthy entity.id <;> simp [handle, handleCancelled, h, hId]
  | paymentFailed paymentCustomerId entity =>
      simp only [resolve] at h
      simp [handle, handlePaymentFailed, h]
  | stripeCheckout session =>
      simp only [resolve] at h
      simp only [handle, handleStripeCheckout]
      cases hUser : session.metadataUserId with
      | none => rfl
      | some userId =>
          have hRow : s.users.getById userId = none := by simpa [hUser] using h
          by_cases hEmpty : userId = ""
          · simp [hEmpty]
          · cases hTier : paidTier session.metadataTier with
            | none => simp [hEmpty]
            | some tier => simp [hEmpty, Store.safeUpdate, UserTable.update, hRow, Except.map]
  | stripeSubChange sub =>
      simp only [resolve] at h
      simp [handle, handleStripeSubChange, h]
  | stripePaymentFailed invoice =>
      simp only [resolve] at h
      simp [handle, handleStripePaymentFailed, h]

theorem deliver_users_of_resolve {plans : RazorpayPlans} {s : Store} {d : Delivery} {user : User}
    (h : resolve s.users d = some user) :
    (s.deliver plans d).users =
      s.users.apply ((updatesOn plans user d.event).map fun updates => (user.userId, updates)) := by
  have hMem : user ∈ s.users.rows := mem_of_resolve h
  have hUpdate := Store.safeUpdate_of_mem hMem
  obtain ⟨order, event⟩ := d
  unfold Store.deliver
  cases event with
  | charged entity =>
      simp only [resolve] at h
      simp only [handle, handleCharged, updatesOn, Guarded, h]
      by_cases hId : truthy entity.id = true
      · by_cases hOld : truthy user.razorpaySubscriptionId = true ∧
            user.razorpaySubscriptionId ≠ entity.id
        · simp [hId, hOld]
        · cases hTier : planIdToTier plans entity.planId with
          | none => simp [hId, hOld]
          | some tier => simp [hId, hOld, hUpdate, chargedUpdates]
      · simp [hId]
  | cancelled entity =>
      simp only [resolve] at h
      simp only [handle, handleCancelled, updatesOn, Guarded, h]
      by_cases hId : truthy entity.id = true
      · by_cases hOld : truthy user.razorpaySubscriptionId = true ∧
            user.razorpaySubscriptionId ≠ entity.id
        · simp [hId, hOld]
        · simp [hId, hOld, hUpdate, cancelledUpdates]
      · simp [hId]
  | paymentFailed paymentCustomerId entity =>
      simp only [resolve] at h
      simp [handle, handlePaymentFailed, updatesOn, h, hUpdate, pastDueUpdates]
  | stripeCheckout session =>
      obtain ⟨userId, hUser, hRow⟩ := Option.bind_eq_some_iff.mp h
      obtain rfl : user.userId = userId := UserTable.userId_of_getById hRow
      simp only [handle, handleStripeCheckout, updatesOn, hUser]
      by_cases hEmpty : user.userId = ""
      · simp [hEmpty]
      · cases hTier : paidTier session.metadataTier with
        | none => simp [hEmpty]
        | some tier => simp [hEmpty, hUpdate, stripeCheckoutUpdates]
  | stripeSubChange sub =>
      simp only [resolve] at h
      simp only [handle, handleStripeSubChange, updatesOn, h]
      by_cases hStatus : sub.status = some "canceled" ∨ sub.status = some "unpaid"
      · simp [hStatus, hUpdate, stripeCancelledUpdates]
      · simp [hStatus]
  | stripePaymentFailed invoice =>
      simp only [resolve] at h
      simp [handle, handleStripePaymentFailed, updatesOn, h, hUpdate, pastDueUpdates]

theorem deliver_users (plans : RazorpayPlans) (s : Store) (d : Delivery) :
    (s.deliver plans d).users = s.users.apply (effect plans s.users d) := by
  cases h : resolve s.users d with
  | none => simp [deliver_users_of_none h, effect, h]
  | some user => rw [deliver_users_of_resolve h, effect_of_resolve h]

/-- A user's row after an event: the old one, or the updated one of the user it resolves to. -/
theorem getById_deliver_cases (plans : RazorpayPlans) (s : Store) (d : Delivery)
    (userId : String) :
    (∃ user updates, resolve s.users d = some user ∧ user.userId = userId ∧
        updatesOn plans user d.event = some updates ∧
        (s.deliver plans d).users.getById userId = some (user.updated updates)) ∨
      ((∀ user ∈ resolve s.users d, user.userId = userId → updatesOn plans user d.event = none) ∧
        (s.deliver plans d).users.getById userId = s.users.getById userId) := by
  cases hResolve : resolve s.users d with
  | none =>
      right
      rw [deliver_users_of_none hResolve]
      exact ⟨by simp, rfl⟩
  | some user =>
      have hRow : s.users.getById user.userId = some user :=
        UserTable.getById_of_mem (mem_of_resolve hResolve)
      rw [deliver_users_of_resolve hResolve]
      cases hUpdates : updatesOn plans user d.event with
      | none =>
          right
          exact ⟨by simp [hUpdates], rfl⟩
      | some updates =>
          simp only [Option.map_some, UserTable.apply_some]
          by_cases hKey : user.userId = userId
          · left
            subst hKey
            refine ⟨user, updates, rfl, rfl, hUpdates, ?_⟩
            rw [UserTable.getById_modify_self, hRow, Option.map_some]
          · right
            refine ⟨?_, UserTable.getById_modify_of_ne (Ne.symm hKey) updates⟩
            intro other hOther hOtherKey
            obtain rfl : user = other := by simpa using hOther
            exact absurd hOtherKey hKey

end AsetPlatform.Billing

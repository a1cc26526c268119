import AsetPlatform.Billing.Webhooks

/-!
# Stale subscription events

An event is stale for the user it resolves to when its subscription is not the one stored for its
gateway while the user has another current subscription, at that gateway or at the other one.

`_handle_charged` and `_handle_cancelled` ignore events "for old/orphaned subs", but only while a
Razorpay subscription is stored; the payment failures and the Stripe subscription changes have no
such guard. `stale_event_unchanged_iff` says exactly which stale events leave the subscriptions of
all users alone.
-/

set_option autoImplicit false

namespace AsetPlatform.Billing

/-! ## Events and current subscriptions -/

inductive Gateway where
  | razorpay
  | stripe
  deriving DecidableEq, Repr

def Gateway.other : Gateway → Gateway
  | .razorpay => .stripe
  | .stripe => .razorpay

/-- The subscription id stored for a gateway. -/
def User.storedSub (user : User) : Gateway → Option String
  | .razorpay => user.razorpaySubscriptionId
  | .stripe => user.stripeSubscriptionId

def GatewayEvent.gateway : GatewayEvent → Gateway
  | .charged _ => .razorpay
  | .cancelled _ => .razorpay
  | .paymentFailed _ _ => .razorpay
  | .stripeCheckout _ => .stripe
  | .stripeSubChange _ => .stripe
  | .stripePaymentFailed _ => .stripe

def GatewayEvent.subId : GatewayEvent → Option String
  | .charged entity => entity.id
  | .cancelled entity => entity.id
  | .paymentFailed _ entity => entity.id
  | .stripeCheckout session => session.subscription
  | .stripeSubChange sub => sub.id
  | .stripePaymentFailed invoice => invoice.subscription

/-- An event about a subscription that exists already: every kind but a completed checkout. -/
def GatewayEvent.OfSubscription : GatewayEvent → Prop
  | .stripeCheckout _ => False
  | _ => True

/-- A delivered event that resolves to the user, is not about the user's current subscription at
its gateway, and finds another current subscription of the user. -/
structure Stale (t : UserTable) (d : Delivery) (user : User) : Prop where
  ofSubscription : d.event.OfSubscription
  resolves : resolve t d = some user
  notCurrent : ¬(truthy d.event.subId = true ∧ user.storedSub d.event.gateway = d.event.subId)
  otherCurrent : truthy (user.storedSub d.event.gateway) = true ∨
    truthy (user.storedSub d.event.gateway.other) = true

/-! ## Unchanged subscriptions -/

/-- What an event may change of a user's subscription. -/
structure SubscriptionFields where
  tier : Option Tier
  role : Role
  status : Option SubscriptionStatus
  razorpaySubscriptionId : Option String
  stripeSubscriptionId : Option String
  deriving DecidableEq

def User.subscription (user : User) : SubscriptionFields where
  tier := user.subscriptionTier
  role := user.role
  status := user.subscriptionStatus
  razorpaySubscriptionId := user.razorpaySubscriptionId
  stripeSubscriptionId := user.stripeSubscriptionId

/-- No user's tier, role, status or stored subscription ids differ between two tables. -/
def SameSubscriptions (t t' : UserTable) : Prop :=
  ∀ userId, (t'.getById userId).map User.subscription = (t.getById userId).map User.subscription

theorem SameSubscriptions.refl (t : UserTable) : SameSubscriptions t t := fun _ => rfl

theorem sameSubscriptions_modify_iff {t : UserTable} {user : User} (h : user ∈ t.rows)
    (updates : Updates) :
    SameSubscriptions t (t.modify user.userId updates) ↔
      (user.updated updates).subscription = user.subscription :=
  UserTable.same_modify_iff User.subscription h updates

/-- The user's row already says that the subscription at the gateway is cancelled. -/
def User.CancelledAt (user : User) (gateway : Gateway) : Prop :=
  user.subscriptionTier = some .free ∧ user.subscriptionStatus = some .cancelled ∧
    user.storedSub gateway = none ∧ (user.role = .superuser ∨ user.role = .general)

instance (user : User) (gateway : Gateway) : Decidable (user.CancelledAt gateway) :=
  inferInstanceAs (Decidable (_ ∧ _ ∧ _ ∧ (_ ∨ _)))

theorem updated_pastDue_same_iff (user : User) :
    (user.updated pastDueUpdates).subscription = user.subscription ↔
      user.subscriptionStatus = some .pastDue := by
  have hRole : (user.updated pastDueUpdates).role = user.role :=
    User.updated_role_of_none rfl rfl
  simp only [User.subscription, hRole, User.updated_tier, User.updated_status,
    User.updated_razorpaySub, User.updated_stripeSub, SubscriptionFields.mk.injEq]
  simp only [pastDueUpdates, Option.getD_none, Option.getD_some, and_true, true_and]
  exact eq_comm

theorem role_free_same_iff (user : User) {updates : Updates}
    (hTier : updates.subscriptionTier = some (some .free)) (hRole : updates.role = none) :
    (user.updated updates).role = user.role ↔ user.role = .superuser ∨ user.role = .general := by
  rw [User.updated_role_of_tier hTier hRole]
  cases user.role <;> simp [roleForTier]

theorem updated_cancelled_same_iff (user : User) :
    (user.updated cancelledUpdates).subscription = user.subscription ↔
      user.CancelledAt .razorpay := by
  have hRole := role_free_same_iff user (rfl : cancelledUpdates.subscriptionTier = _) rfl
  simp only [User.subscription, User.updated_tier, User.updated_status, User.updated_razorpaySub,
    User.updated_stripeSub, SubscriptionFields.mk.injEq, hRole, User.CancelledAt, User.storedSub]
  simp only [cancelledUpdates, Option.getD_none, Option.getD_some, and_true]
  grind

theorem updated_stripeCancelled_same_iff (user : User) :
    (user.updated stripeCancelledUpdates).subscription = user.subscription ↔
      user.CancelledAt .stripe := by
  have hRole := role_free_same_iff user (rfl : stripeCancelledUpdates.subscriptionTier = _) rfl
  simp only [User.subscription, User.updated_tier, User.updated_status, User.updated_razorpaySub,
    User.updated_stripeSub, SubscriptionFields.mk.injEq, hRole, User.CancelledAt, User.storedSub]
  simp only [stripeCancelledUpdates, Option.getD_none, Option.getD_some, true_and]
  grind

/-! ## Stale events -/

/-- The stale events that do no harm. A charge or a cancellation is dropped while a Razorpay
subscription is stored; nothing drops the others, so they must find written what they write. -/
def Harmless (plans : RazorpayPlans) (user : User) : GatewayEvent → Prop
  | .charged entity =>
      truthy entity.id = false ∨ truthy user.razorpaySubscriptionId = true ∨
        planIdToTier plans entity.planId = none
  | .cancelled entity =>
      truthy entity.id = false ∨ truthy user.razorpaySubscriptionId = true ∨
        user.CancelledAt .razorpay
  | .paymentFailed _ _ => user.subscriptionStatus = some .pastDue
  | .stripeCheckout _ => False
  | .stripeSubChange sub =>
      ¬(sub.status = some "canceled" ∨ sub.status = some "unpaid") ∨ user.CancelledAt .stripe
  | .stripePaymentFailed _ => user.subscriptionStatus = some .pastDue

/-- For a stale Razorpay event the guard of the handlers comes down to nothing being stored. -/
theorem guarded_iff_of_stale {user : User} {entity : RazorpayEntity}
    (hStale : ¬(truthy entity.id = true ∧ user.razorpaySubscriptionId = entity.id)) :
    Guarded user entity ↔
      truthy entity.id = true ∧ ¬truthy user.razorpaySubscriptionId = true := by
  unfold Guarded
  constructor
  · rintro ⟨hId, hGuard⟩
    refine ⟨hId, fun hStored => hGuard ⟨hStored, fun hSame => hStale ⟨hId, hSame⟩⟩⟩
  · rintro ⟨hId, hStored⟩
    exact ⟨hId, fun hGuard => hStored hGuard.1⟩

/-- The updates of a stale event leave the user's subscription alone exactly when it is
harmless. -/
theorem updatesOn_same_iff {plans : RazorpayPlans} {t : UserTable} {d : Delivery} {user : User}
    (h : Stale t d user) :
    (∀ updates ∈ updatesOn plans user d.event,
      (user.updated updates).subscription = user.subscription) ↔ Harmless plans user d.event := by
  obtain ⟨hKind, -, hNotCurrent, -⟩ := h
  obtain ⟨order, event⟩ := d
  cases event with
  | stripeCheckout session => exact absurd hKind (by simp [GatewayEvent.OfSubscription])
  | paymentFailed paymentCustomerId entity =>
      simpa [updatesOn, Harmless] using updated_pastDue_same_iff user
  | stripePaymentFailed invoice =>
      simpa [updatesOn, Harmless] using updated_pastDue_same_iff user
  | stripeSubChange sub =>
      by_cases hStatus : sub.status = some "canceled" ∨ sub.status = some "unpaid"
      · simpa [updatesOn, Harmless, hStatus] using updated_stripeCancelled_same_iff user
      · simp [updatesOn, Harmless, hStatus]
  | cancelled entity =>
      have hGuard := guarded_iff_of_stale hNotCurrent
      by_cases hOpen : Guarded user entity
      · obtain ⟨hId, hStored⟩ := hGuard.mp hOpen
        simpa [updatesOn, Harmless, hOpen, hId, hStored] using updated_cancelled_same_iff user
      · have hDropped : updatesOn plans user (.cancelled entity) = none := if_neg hOpen
        rw [hGuard, not_and, not_not] at hOpen
        by_cases hId : truthy entity.id = true
        · simp [hDropped, Harmless, hOpen hId]
        · simp [hDropped, Harmless, hId]
  | charged entity =>
      have hGuard := guarded_iff_of_stale hNotCurrent
      by_cases hOpen : Guarded user entity
      · obtain ⟨hId, hStored⟩ := hGuard.mp hOpen
        cases hTier : planIdToTier plans entity.planId with
        | none => simp [updatesOn, Harmless, hTier]
        | some tier =>
            -- The charge stores its own id where nothing was stored.
            have hNew : user.razorpaySubscriptionId ≠ entity.id := by
              intro hSame
              rw [hSame] at hStored
              exact hStored hId
            simp [updatesOn, Harmless, hOpen, hTier, hId, hStored, User.subscription,
              chargedUpdates, hNew.symm]
      · have hDropped : updatesOn plans user (.charged entity) = none := if_neg hOpen
        rw [hGuard, not_and, not_not] at hOpen
        by_cases hId : truthy entity.id = true
        · simp [hDropped, Harmless, hOpen hId]
        · simp [hDropped, Harmless, hId]

/-- A stale event leaves every user's tier, role, status and stored subscription ids unchanged
exactly when it is harmless for the user it resolves to. -/
theorem stale_event_unchanged_iff (plans : RazorpayPlans) (s : Store) (d : Delivery) (user : User)
    (hStale : Stale s.users d user) :
    SameSubscriptions s.users (s.deliver plans d).users ↔ Harmless plans user d.event := by
  rw [← updatesOn_same_iff hStale, deliver_users_of_resolve hStale.resolves]
  have hMem : user ∈ s.users.rows := mem_of_resolve hStale.resolves
  cases hUpdates : updatesOn plans user d.event with
  | none => simpa using SameSubscriptions.refl s.users
  | some updates => simpa using sameSubscriptions_modify_iff hMem updates

/-- A user who moved from one Razorpay subscription to another. -/
def upgradedUser : User where
  userId := "u1"
  email := "a@example.com"
  fullName := "A"
  role := .pro
  subscriptionTier := some .premium
  subscriptionStatus := some .active
  razorpayCustomerId := some "cust_1"
  razorpaySubscriptionId := some "sub_new"
  stripeCustomerId := none
  stripeSubscriptionId := none

def upgradedStore : Store where
  users := ⟨[upgradedUser], by decide⟩
  ledger := []

def envPlans : RazorpayPlans := ⟨some "plan_premium", some "plan_pro"⟩

/-- The charge of the replaced subscription arrives late and is dropped. -/
theorem stale_event_unchanged_lateCharge :
    SameSubscriptions upgradedStore.users (upgradedStore.deliver envPlans
      ⟨.asStored, .charged ⟨some "sub_old", some "plan_pro", some "cust_1"⟩⟩).users := by
  refine (stale_event_unchanged_iff envPlans upgradedStore
    ⟨.asStored, .charged ⟨some "sub_old", some "plan_pro", some "cust_1"⟩⟩ upgradedUser ?_).mpr ?_
  · exact ⟨trivial, by decide, by decide, by decide⟩
  · right
    left
    decide

/-- The failed payment of the replaced subscription marks its successor past due. -/
theorem stale_payment_failure_hits_successor :
    ¬∀ (plans : RazorpayPlans) (s : Store) (d : Delivery) (user : User),
      Stale s.users d user → SameSubscriptions s.users (s.deliver plans d).users := by
  intro hClaim
  have hStale : Stale upgradedStore.users
      ⟨.asStored, .paymentFailed (some "cust_1") ⟨some "sub_old", some "", some "cust_1"⟩⟩
      upgradedUser :=
    ⟨trivial, by decide, by decide, by decide⟩
  have hSame := hClaim envPlans upgradedStore _ upgradedUser hStale "u1"
  revert hSame
  decide

end AsetPlatform.Billing

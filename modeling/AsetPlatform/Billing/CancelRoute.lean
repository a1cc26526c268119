import AsetPlatform.Billing.Gateways
import AsetPlatform.Library.Run

/-!
# Cancelling a subscription

`POST /subscription/cancel` cancels at both gateways, resets the user to the free tier and clears
both stored subscription ids. The ids it clears are what the handlers compare an event with, and
the customer ids stay. A later Razorpay charge therefore passes the guard against old
subscriptions, and a completed Stripe checkout has no guard at all: either brings the tier back.
`cancellation_final_iff` says that nothing else does.
-/

set_option autoImplicit false

namespace AsetPlatform.Billing

open AsetPlatform.Library

/-! ## The route -/

/-- `cancel_subscription`. A gateway call that fails is logged and swallowed. -/
def cancelSubscription (replies : Gateway → Reply) (w : World) (userId : String) :
    Except Failure World :=
  let dbUser := w.store.users.getById userId
  let dbTier := (dbUser.map User.tierOrFree).getD .free
  let dbStatus := (dbUser.bind User.subscriptionStatus).getD .active
  if dbTier = .free ∨ dbStatus = .cancelled then .error (.http 400 "No active subscription")
  else
    let rzSubId := dbUser.bind User.razorpaySubscriptionId
    let stSubId := dbUser.bind User.stripeSubscriptionId
    let w := if truthy rzSubId then w.cancelSub .razorpay rzSubId (replies .razorpay) else w
    let w := if truthy stSubId then w.cancelSub .stripe stSubId (replies .stripe) else w
    let updated := w.store.safeUpdate userId
      { subscriptionTier := some (some .free)
        subscriptionStatus := some (some .cancelled)
        razorpaySubscriptionId := some none
        stripeSubscriptionId := some none }
    match updated with
    | .error message => .error (.raised message)
    | .ok store =>
        let gateway :=
          if truthy stSubId then "stripe" else if truthy rzSubId then "razorpay" else "unknown"
        .ok { w with
          store := store.logTransaction
            { userId := userId, gateway := gateway, eventType := "user_cancelled"
              subscriptionId := if truthy stSubId then stSubId else rzSubId
              tierBefore := some dbTier, tierAfter := some .free } }

@[simp]
theorem cancelSub_store (w : World) (g : Gateway) (id : Option String) (reply : Reply) :
    (w.cancelSub g id reply).store = w.store := by
  unfold World.cancelSub
  cases w.findSub g id with
  | none => rfl
  | some sub => by_cases h : reply = .refused <;> simp [h, World.emit, World.mapSub]

/-- The updates of the cancel route. -/
def userCancelledUpdates : Updates where
  subscriptionTier := some (some .free)
  subscriptionStatus := some (some .cancelled)
  razorpaySubscriptionId := some none
  stripeSubscriptionId := some none

theorem cancelSubscription_users {replies : Gateway → Reply} {w w' : World} {userId : String}
    (h : cancelSubscription replies w userId = .ok w') :
    w'.store.users = w.store.users.modify userId userCancelledUpdates := by
  have hStore : ∀ v : World, v.store = w.store →
      v.store.safeUpdate userId userCancelledUpdates =
        w.store.safeUpdate userId userCancelledUpdates := by
    intro v hv
    rw [hv]
  unfold cancelSubscription at h
  simp only at h
  split at h
  · cases h
  · split at h
    · cases h
    case h_2 store hUpdated =>
      cases h
      rw [Store.logTransaction_users]
      have hCalls : w.store.safeUpdate userId userCancelledUpdates = .ok store := by
        rw [← hUpdated]
        split <;> split <;> simp [userCancelledUpdates]
      cases hRow : w.store.users.getById userId with
      | none => simp [Store.safeUpdate, UserTable.update, hRow, Except.map] at hCalls
      | some row =>
          simp only [Store.safeUpdate, UserTable.update, hRow, Except.map, Except.ok.injEq]
            at hCalls
          rw [← hCalls]

/-! ## After a cancellation -/

/-- Neither on a paid tier nor active. -/
def User.Inactive (user : User) : Prop :=
  (∀ tier ∈ user.subscriptionTier, ¬tier.Paid) ∧ user.subscriptionStatus ≠ some .active

instance (user : User) : Decidable user.Inactive := inferInstanceAs (Decidable (_ ∧ _ ≠ _))

/-- The user with the id is neither on a paid tier nor active. -/
def CancelledFor (userId : String) (s : Store) : Prop :=
  ∀ row ∈ s.users.getById userId, row.Inactive

/-- A Razorpay charge on a known plan, or the completion of a Stripe checkout of a paid tier. -/
def GatewayEvent.Activates (plans : RazorpayPlans) : GatewayEvent → Prop
  | .charged entity => truthy entity.id = true ∧ planIdToTier plans entity.planId ≠ none
  | .stripeCheckout session =>
      session.metadataUserId ≠ some "" ∧ paidTier session.metadataTier ≠ none
  | _ => False

/-- The event resolves to the user and activates. -/
def Reactivates (plans : RazorpayPlans) (userId : String) (s : Store) (d : Delivery) : Prop :=
  (∃ user ∈ resolve s.users d, user.userId = userId) ∧ d.event.Activates plans

/-- With no Razorpay subscription stored, the events that leave an inactive user inactive are the
ones that do not activate. -/
theorem inactive_updatesOn_iff (plans : RazorpayPlans) {user : User} (hUser : user.Inactive)
    (hSub : user.razorpaySubscriptionId = none) (event : GatewayEvent) :
    (∀ updates ∈ updatesOn plans user event, (user.updated updates).Inactive) ↔
      ¬event.Activates plans := by
  have hGuard : ∀ entity, Guarded user entity ↔ truthy entity.id = true := by
    intro entity
    simp [Guarded, hSub]
  cases event with
  | charged entity =>
      by_cases hId : truthy entity.id = true
      · cases hTier : planIdToTier plans entity.planId with
        | none => simp [updatesOn, GatewayEvent.Activates, hTier]
        | some tier =>
            simp [updatesOn, GatewayEvent.Activates, hGuard, hId, hTier, User.Inactive,
              chargedUpdates]
      · simp [updatesOn, GatewayEvent.Activates, hGuard, hId]
  | cancelled entity =>
      by_cases hId : truthy entity.id = true
      · simp [updatesOn, GatewayEvent.Activates, hGuard, hId, User.Inactive, cancelledUpdates,
          Tier.Paid]
      · simp [updatesOn, GatewayEvent.Activates, hGuard, hId]
  | paymentFailed paymentCustomerId entity =>
      simpa [updatesOn, GatewayEvent.Activates, User.Inactive, pastDueUpdates] using hUser.1
  | stripeCheckout session =>
      by_cases hEmpty : session.metadataUserId = some ""
      · simp [updatesOn, GatewayEvent.Activates, hEmpty]
      · cases hTier : paidTier session.metadataTier with
        | none => simp [updatesOn, GatewayEvent.Activates, hTier]
        | some tier =>
            simp [updatesOn, GatewayEvent.Activates, hEmpty, hTier, User.Inactive,
              stripeCheckoutUpdates]
  | stripeSubChange sub =>
      by_cases hStatus : sub.status = some "canceled" ∨ sub.status = some "unpaid"
      · simp [updatesOn, GatewayEvent.Activates, hStatus, User.Inactive, stripeCancelledUpdates,
          Tier.Paid]
      · simp [updatesOn, GatewayEvent.Activates, hStatus]
  | stripePaymentFailed invoice =>
      simpa [updatesOn, GatewayEvent.Activates, User.Inactive, pastDueUpdates] using hUser.1

theorem razorpaySub_updatesOn {plans : RazorpayPlans} {user : User} {event : GatewayEvent}
    {updates : Updates} (hSub : user.razorpaySubscriptionId = none)
    (hUpdates : updatesOn plans user event = some updates) (hEvent : ¬event.Activates plans) :
    (user.updated updates).razorpaySubscriptionId = none := by
  rw [User.updated_razorpaySub]
  rcases updatesOn_cases hUpdates with
    ⟨entity, tier, rfl, hOpen, hTier, -⟩ | ⟨entity, -, -, rfl⟩ | ⟨session, tier, -, -, rfl⟩ |
    ⟨sub, -, -, rfl⟩ | rfl
  · -- a charge of a known plan activates
    exact absurd ⟨hOpen.1, by simp [hTier]⟩ hEvent
  · rfl
  · exact hSub
  · exact hSub
  · exact hSub

/-- The user's row exists, is inactive and stores no Razorpay subscription. -/
def CancelledRow (userId : String) (s : Store) : Prop :=
  ∃ row, s.users.getById userId = some row ∧ row.Inactive ∧ row.razorpaySubscriptionId = none

theorem cancelledFor_deliver_iff (plans : RazorpayPlans) {userId : String} {s : Store}
    (d : Delivery) (h : CancelledRow userId s) :
    CancelledFor userId (s.deliver plans d) ↔ ¬Reactivates plans userId s d := by
  obtain ⟨row, hRow, hInactive, hSub⟩ := h
  have hSame : ∀ user ∈ resolve s.users d, user.userId = userId → user = row := by
    intro user hUser hKey
    have hFound := UserTable.getById_of_mem (mem_of_resolve hUser)
    rw [hKey, hRow] at hFound
    exact (Option.some.inj hFound).symm
  rcases getById_deliver_cases plans s d userId with
    ⟨user, updates, hResolve, hKey, hUpdates, hAfter⟩ | ⟨hNone, hAfter⟩
  · obtain rfl := hSame user hResolve hKey
    have hIff := inactive_updatesOn_iff plans hInactive hSub d.event
    rw [hUpdates] at hIff
    have hReactivates : Reactivates plans userId s d ↔ d.event.Activates plans :=
      and_iff_right ⟨user, hResolve, hKey⟩
    rw [hReactivates, ← hIff]
    simp [CancelledFor, hAfter]
  · have hKept : CancelledFor userId (s.deliver plans d) := by
      intro found hFound
      rw [hAfter, hRow] at hFound
      obtain rfl := Option.some.inj hFound
      exact hInactive
    refine iff_of_true hKept ?_
    rintro ⟨⟨user, hResolve, hKey⟩, hActivates⟩
    obtain rfl := hSame user hResolve hKey
    have hIff := inactive_updatesOn_iff plans hInactive hSub d.event
    rw [hNone user hResolve hKey] at hIff
    exact hIff.mp (by simp) hActivates

theorem cancelledRow_deliver (plans : RazorpayPlans) {userId : String} {s : Store} {d : Delivery}
    (h : CancelledRow userId s) (hEvent : ¬Reactivates plans userId s d) :
    CancelledRow userId (s.deliver plans d) := by
  have hFor := (cancelledFor_deliver_iff plans d h).mpr hEvent
  obtain ⟨row, hRow, hInactive, hSub⟩ := h
  rcases getById_deliver_cases plans s d userId with
    ⟨user, updates, hResolve, hKey, hUpdates, hAfter⟩ | ⟨-, hAfter⟩
  · refine ⟨user.updated updates, hAfter, hFor _ hAfter, ?_⟩
    have hUser : user = row := by
      have hFound := UserTable.getById_of_mem (mem_of_resolve hResolve)
      rw [hKey, hRow] at hFound
      exact (Option.some.inj hFound).symm
    apply razorpaySub_updatesOn (hUser ▸ hSub) hUpdates
    intro hActivates
    exact hEvent ⟨⟨user, hResolve, hKey⟩, hActivates⟩
  · exact ⟨row, hAfter.trans hRow, hInactive, hSub⟩

theorem cancelledRow_of_cancel {replies : Gateway → Reply} {w w' : World} {userId : String}
    (h : cancelSubscription replies w userId = .ok w') : CancelledRow userId w'.store := by
  have hUsers := cancelSubscription_users h
  cases hRow : w.store.users.getById userId with
  | none => simp [cancelSubscription, hRow] at h
  | some row =>
      refine ⟨row.updated userCancelledUpdates, ?_, ?_, ?_⟩
      · rw [hUsers, UserTable.getById_modify_self, hRow, Option.map_some]
      · simp [User.Inactive, userCancelledUpdates, Tier.Paid]
      · simp [userCancelledUpdates]

/-- After a successful cancellation the user stays off the paid tiers and inactive through a
sequence of events exactly when none of them reactivates the user. -/
theorem cancellation_final_iff (plans : RazorpayPlans) (replies : Gateway → Reply)
    (w w' : World) (userId : String) (ds : List Delivery)
    (hCancel : cancelSubscription replies w userId = .ok w') :
    EveryState (Store.deliver plans) (CancelledFor userId) w'.store ds ↔
      EveryStep (Store.deliver plans) (fun s d => ¬Reactivates plans userId s d) w'.store ds := by
  have hRow := cancelledRow_of_cancel hCancel
  have hStart : CancelledFor userId w'.store := by
    obtain ⟨row, hFound, hInactive, -⟩ := hRow
    intro found hAgain
    rw [hFound] at hAgain
    obtain rfl := Option.some.inj hAgain
    exact hInactive
  exact everyState_iff_everyStep (fun s d h => cancelledRow_deliver plans h)
    (fun s d h => cancelledFor_deliver_iff plans d h) hRow hStart

/-- The event is about a subscription or a checkout session that exists. -/
def World.Knows (w : World) : GatewayEvent → Prop
  | .stripeCheckout session =>
      ∃ started ∈ w.sessions, session.metadataUserId = some started.userId ∧
        session.customer = started.customerId
  | event => ∃ sub ∈ w.subs event.gateway, event.subId = some sub.id

/-- A premium user with a live Razorpay subscription. -/
def premiumWorld : World :=
  { World.start upgradedStore.users with
    subs := fun
      | .razorpay => [⟨"sub_new", "u1", some "cust_1", "plan_premium", .active⟩]
      | .stripe => [] }

/-- The world after the user's cancellation. -/
def cancelledWorld : World :=
  { premiumWorld.cancelSub .razorpay (some "sub_new") .ok with
    store := ⟨premiumWorld.store.users.modify "u1" userCancelledUpdates,
      [{ userId := "u1", gateway := "razorpay", eventType := "user_cancelled"
         subscriptionId := some "sub_new", tierBefore := some .premium
         tierAfter := some .free }]⟩ }

theorem cancelSubscription_premiumWorld :
    cancelSubscription (fun _ => .ok) premiumWorld "u1" = .ok cancelledWorld := rfl

/-- A failed payment of the cancelled subscription does not bring it back. -/
theorem cancellation_final_failedPayment :
    EveryState (Store.deliver envPlans) (CancelledFor "u1") cancelledWorld.store
      [⟨.asStored, .paymentFailed (some "cust_1") ⟨some "sub_new", some "", some ""⟩⟩] := by
  refine (cancellation_final_iff envPlans (fun _ => .ok) premiumWorld cancelledWorld "u1" _
    cancelSubscription_premiumWorld).mpr ?_
  rw [everyStep_cons]
  exact ⟨fun h => h.2, everyStep_nil _ _ _⟩

/-- A charge that was in flight when its subscription was cancelled makes the user premium and
active again. -/
theorem charge_in_flight_reactivates :
    ¬∀ (plans : RazorpayPlans) (replies : Gateway → Reply) (w w' : World) (userId : String)
      (ds : List Delivery), cancelSubscription replies w userId = .ok w' →
        (∀ d ∈ ds, w.Knows d.event) →
        EveryState (Store.deliver plans) (CancelledFor userId) w'.store ds := by
  intro hClaim
  let charge : Delivery :=
    ⟨.asStored, .charged ⟨some "sub_new", some "plan_premium", some "cust_1"⟩⟩
  have hKnown : ∀ d ∈ [charge], premiumWorld.Knows d.event := by
    intro d hd
    obtain rfl := List.mem_singleton.mp hd
    exact ⟨_, List.mem_singleton.mpr rfl, rfl⟩
  have hRun := hClaim envPlans (fun _ => .ok) premiumWorld cancelledWorld "u1" [charge]
    cancelSubscription_premiumWorld hKnown
  have hLast : CancelledFor "u1" (cancelledWorld.store.deliver envPlans charge) := hRun.last
  revert hLast
  unfold CancelledFor
  decide

end AsetPlatform.Billing

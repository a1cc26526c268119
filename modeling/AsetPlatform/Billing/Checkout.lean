import AsetPlatform.Billing.CancelRoute

/-!
# Checkout

`POST /subscription/checkout` on both gateways. A Razorpay checkout edits the stored subscription
when the gateway says it is active, and otherwise cancels it and creates a new one; a Stripe
checkout modifies the stored subscription, or starts a session that the customer completes at
Stripe. Errors of an edit, a modification or a cancellation are swallowed.

A route returns the world it leaves with its response or failure: what a request did before it
failed stays done.
-/

set_option autoImplicit false

namespace AsetPlatform.Billing

/-! ## Configuration -/

structure BillingConfig where
  razorpayKeyId : String
  stripeSecretKey : String
  plans : RazorpayPlans
  stripePricePremium : Option String
  stripePricePro : Option String

def Tier.text : Tier → String
  | .free => "free"
  | .pro => "pro"
  | .premium => "premium"

/-- `TIER_ORDER` -/
def Tier.order : Tier → Nat
  | .free => 0
  | .pro => 1
  | .premium => 2

/-- `_get_razorpay_plan_id` -/
def getRazorpayPlanId (cfg : BillingConfig) (tier : Tier) : Except Failure String :=
  let planId :=
    match tier with
    | .free => none
    | .pro => cfg.plans.pro
    | .premium => cfg.plans.premium
  if planId.getD "" = "" then .error (.http 400 ("Plan not configured for tier: " ++ tier.text))
  else .ok (planId.getD "")

/-- `_get_stripe_price_id` -/
def getStripePriceId (cfg : BillingConfig) (tier : Tier) : Except Failure String :=
  let priceId :=
    match tier with
    | .free => none
    | .pro => cfg.stripePricePro
    | .premium => cfg.stripePricePremium
  if priceId.getD "" = "" then
    .error (.http 400 ("Stripe price not configured for tier: " ++ tier.text))
  else .ok (priceId.getD "")

structure CheckoutResponse where
  gateway : Gateway
  upgraded : Bool := false
  subscriptionId : Option String := none
  keyId : Option String := none
  planId : Option String := none
  checkoutUrl : Option String := none

abbrev Outcome := World × Except Failure CheckoutResponse

/-! ## Razorpay -/

structure RazorpayCustomer where
  id : String
  email : String

/-- What `customer.create` comes to. -/
inductive CustomerReply where
  | created (id : String)
  | alreadyExists
  | failed

/-- What Razorpay answers to one checkout request. `customerPage` is `customer.all` from an
offset, `none` where it raises; `newId` is the id of a subscription it creates. -/
structure RazorpayReplies where
  createCustomer : CustomerReply
  customerPage : Nat → Option (List RazorpayCustomer)
  fetches : Bool
  edit : Reply
  cancel : Reply
  create : Reply
  newId : String

def searchCustomers (page : Nat → Option (List RazorpayCustomer)) (email : String) :
    List Nat → Except Failure (Option String)
  | [] => .ok none
  | skip :: rest =>
      match page skip with
      | none => .error (.raised "customer.all")
      -- an empty page ends the search
      | some [] => .ok none
      | some items =>
          match items.find? (·.email = email) with
          | none => searchCustomers page email rest
          | some customer =>
              if customer.id = "" then searchCustomers page email rest
              else .ok (some customer.id)

/-- The id of a new customer, or of the one that exists under the caller's e-mail address. -/
def createCustomer (replies : RazorpayReplies) (email : String) : Except Failure String :=
  match replies.createCustomer with
  | .created id => .ok id
  | .failed => .error (.raised "customer.create")
  | .alreadyExists =>
      match searchCustomers replies.customerPage email [0, 50, 100, 150] with
      | .error failure => .error failure
      | .ok (some id) => .ok id
      | .ok none =>
          .error (.raised
            ("Razorpay customer exists but could not be found by email: " ++ email))

/-- The customer id of a Razorpay checkout; a new one is stored on the user. -/
def razorpayCustomer (replies : RazorpayReplies) (w : World) (r : CheckoutRequest) :
    World × Except Failure (Option String) :=
  let rzCustId := r.dbUser.bind User.razorpayCustomerId
  -- the customer of an earlier checkout is used again
  if truthy rzCustId then (w, .ok rzCustId)
  else
    match createCustomer replies r.user.email with
    | .error failure => (w, .error failure)
    | .ok id =>
        match w.store.safeUpdate r.user.userId { razorpayCustomerId := some (some id) } with
        | .error message => (w, .error (.raised message))
        | .ok store => ({ w with store := store }, .ok (some id))

/-- `_fetch_rz_sub_status` -/
def fetchRzSubStatus (replies : RazorpayReplies) (w : World) (subId : Option String) :
    Option GatewayStatus :=
  if replies.fetches then (w.findSub .razorpay subId).map GatewaySub.status else none

/-- The stored subscription is one to edit: Razorpay says it is active or authenticated. -/
def Editable (replies : RazorpayReplies) (w : World) (r : CheckoutRequest) : Prop :=
  let rzSubId := r.dbUser.bind User.razorpaySubscriptionId
  truthy rzSubId = true ∧
    (fetchRzSubStatus replies w rzSubId = some .active ∨
      fetchRzSubStatus replies w rzSubId = some .authenticated)

instance (replies : RazorpayReplies) (w : World) (r : CheckoutRequest) :
    Decidable (Editable replies w r) :=
  inferInstanceAs (Decidable (_ ∧ (_ ∨ _)))

/-- The tier of the row that the request read. -/
def CheckoutRequest.oldTier (r : CheckoutRequest) : Tier := (r.dbUser.map User.tierOrFree).getD .free

/-- The edit of a Razorpay checkout: the world after it, the subscription id that the route goes on
with, and whether it upgraded. Any error forgets the subscription id. -/
def editRazorpay (replies : RazorpayReplies) (w : World) (r : CheckoutRequest) (planId : String) :
    World × Option String × Bool :=
  let rzSubId := r.dbUser.bind User.razorpaySubscriptionId
  if Editable replies w r then
    let w := w.editSub .razorpay rzSubId planId replies.edit
    -- `rz_sub_id = None`: a new subscription is created, and nothing is cancelled
    if replies.edit ≠ .ok then (w, none, false)
    else
      let updated := w.store.safeUpdate r.user.userId
        { subscriptionTier := some (some r.tier), subscriptionStatus := some (some .active) }
      match updated with
      -- the edit has been made, so the route answers that it upgraded
      | .error _ => (w, none, true)
      | .ok store =>
          let store := store.logTransaction
            { userId := r.user.userId, gateway := "razorpay", eventType := "upgrade"
              subscriptionId := rzSubId, amount := some (tierPriceInr r.tier)
              currency := some "INR", tierBefore := some r.oldTier, tierAfter := some r.tier }
          ({ w with store := store }, rzSubId, true)
  else (w, rzSubId, false)

/-- The other half of a Razorpay checkout: cancel the subscription, create and store a new one. -/
def replaceRazorpay (cfg : BillingConfig) (replies : RazorpayReplies) (w : World)
    (r : CheckoutRequest) (custId : Option String) (planId : String) (rzSubId : Option String) :
    Outcome :=
  -- a failed cancellation is logged only
  let w := if truthy rzSubId then w.cancelSub .razorpay rzSubId replies.cancel else w
  if replies.create = .refused ∨ ¬w.FreshId .razorpay replies.newId then
    (w, .error (.raised "subscription.create"))
  else
    let w := w.addSub .razorpay ⟨replies.newId, r.user.userId, custId, planId, .created⟩
    -- created at the gateway, but the response did not arrive
    if replies.create = .lost then (w, .error (.raised "subscription.create"))
    else
      match w.store.safeUpdate r.user.userId
          { razorpaySubscriptionId := some (some replies.newId) } with
      | .error message => (w, .error (.raised message))
      | .ok store =>
          ({ w with store := store },
            .ok { gateway := .razorpay, subscriptionId := some replies.newId
                  keyId := some cfg.razorpayKeyId, planId := some planId })

/-- `_checkout_razorpay` -/
def checkoutRazorpay (cfg : BillingConfig) (replies : RazorpayReplies) (w : World)
    (r : CheckoutRequest) : Outcome :=
  if cfg.razorpayKeyId = "" then (w, .error (.http 503 "Razorpay not configured"))
  else
    match razorpayCustomer replies w r with
    | (w, .error failure) => (w, .error failure)
    | (w, .ok custId) =>
        match getRazorpayPlanId cfg r.tier with
        | .error failure => (w, .error failure)
        | .ok planId =>
            match editRazorpay replies w r planId with
            | (w, rzSubId, true) =>
                (w, .ok { gateway := .razorpay, upgraded := true, subscriptionId := rzSubId
                          keyId := some cfg.razorpayKeyId, planId := some planId })
            | (w, rzSubId, false) => replaceRazorpay cfg replies w r custId planId rzSubId

/-! ## Stripe -/

/-- What Stripe answers to one checkout request. -/
structure StripeReplies where
  createCustomer : Option String
  retrieves : Bool
  modify : Reply
  createSession : Reply
  url : String

/-- The customer id of a Stripe checkout; a new one is stored on the user. -/
def stripeCustomer (replies : StripeReplies) (w : World) (r : CheckoutRequest) :
    World × Except Failure (Option String) :=
  let stCustId := r.dbUser.bind User.stripeCustomerId
  -- as at Razorpay
  if truthy stCustId then (w, .ok stCustId)
  else
    match replies.createCustomer with
    | none => (w, .error (.raised "Customer.create"))
    | some id =>
        match w.store.safeUpdate r.user.userId { stripeCustomerId := some (some id) } with
        | .error message => (w, .error (.raised message))
        | .ok store => ({ w with store := store }, .ok (some id))

/-- The status texts of Stripe that a modification accepts. -/
def modifiableStatus : GatewayStatus → Option String
  | .active => some "active"
  | .trialing => some "trialing"
  | _ => none

/-- The modification of a Stripe checkout, and whether it upgraded. Any error is swallowed. -/
def modifyStripe (replies : StripeReplies) (w : World) (r : CheckoutRequest)
    (stCustId : Option String) (priceId : String) : World × Bool :=
  let stSubId := r.dbUser.bind User.stripeSubscriptionId
  let existing := if truthy stSubId ∧ replies.retrieves then w.findSub .stripe stSubId else none
  match existing with
  | none => (w, false)
  | some sub =>
      match modifiableStatus sub.status with
      | none => (w, false)
      | some status =>
          let w := w.editSub .stripe stSubId priceId replies.modify
          let w :=
            -- a modification that took effect is announced by an event
            if replies.modify = .refused then w
            else
              w.emit (.stripeSubChange
                { id := some sub.id, status := some status, customer := sub.customerId })
          if replies.modify ≠ .ok then (w, false)
          else
            let updated := w.store.safeUpdate r.user.userId
              { subscriptionTier := some (some r.tier), subscriptionStatus := some (some .active) }
            match updated with
            | .error _ => (w, false)
            | .ok store =>
                let store := store.logTransaction
                  { userId := r.user.userId, gateway := "stripe", eventType := "upgrade"
                    subscriptionId := stSubId, customerId := stCustId
                    amount := some (tierPriceUsd r.tier), currency := some "USD"
                    tierBefore := some r.oldTier, tierAfter := some r.tier }
                ({ w with store := store }, true)

/-- Start a checkout session for a new subscription. -/
def startSession (replies : StripeReplies) (w : World) (r : CheckoutRequest)
    (stCustId : Option String) (priceId : String) : Outcome :=
  if replies.createSession = .refused then (w, .error (.raised "Session.create"))
  else
    -- the session stays open until the user pays or leaves
    let w := { w with sessions := w.sessions ++ [⟨r.user.userId, r.tier, stCustId, priceId⟩] }
    if replies.createSession = .lost then (w, .error (.raised "Session.create"))
    else (w, .ok { gateway := .stripe, checkoutUrl := some replies.url })

/-- `_checkout_stripe` -/
def checkoutStripe (cfg : BillingConfig) (replies : StripeReplies) (w : World)
    (r : CheckoutRequest) : Outcome :=
  if cfg.stripeSecretKey = "" then (w, .error (.http 503 "Stripe not configured"))
  else
    match stripeCustomer replies w r with
    | (w, .error failure) => (w, .error failure)
    | (w, .ok stCustId) =>
        match getStripePriceId cfg r.tier with
        | .error failure => (w, .error failure)
        | .ok priceId =>
            match modifyStripe replies w r stCustId priceId with
            | (w, true) => (w, .ok { gateway := .stripe, upgraded := true })
            | (w, false) => startSession replies w r stCustId priceId

/-! ## The route -/

/-- The check at the start of `checkout`: a same or lower tier is refused to an active user. -/
def checkoutAllowed (dbUser : Option User) (tier : Tier) : Except Failure Unit :=
  let dbTier := (dbUser.map User.tierOrFree).getD .free
  let dbStatus := (dbUser.bind User.subscriptionStatus).getD .active
  if tier.order ≤ dbTier.order ∧ (dbStatus = .active ∨ dbStatus = .authenticated) then
    .error (.http 400 "Already on this tier or higher")
  else .ok ()

/-- What the gateways answer to one checkout request. -/
structure CheckoutReplies where
  razorpay : RazorpayReplies
  stripe : StripeReplies

/-- `checkout` after its check. -/
def checkout (cfg : BillingConfig) (replies : CheckoutReplies) (w : World) (r : CheckoutRequest) :
    Outcome :=
  match r.gateway with
  | .stripe => checkoutStripe cfg replies.stripe w r
  | .razorpay => checkoutRazorpay cfg replies.razorpay w r

end AsetPlatform.Billing

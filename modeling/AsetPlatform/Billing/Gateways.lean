import AsetPlatform.Billing.StaleEvents

/-!
# The gateways behind billing

The subscriptions that Razorpay and Stripe hold, the calls that billing makes on them, and the
`World` in which requests, gateways and webhooks meet.

Any gateway call may fail. The caller sees one exception either way, but a call whose reply was
lost has taken effect at the gateway, while a refused one has not. Gateways hand out each
subscription id once and never an empty one; a creation under any other id is refused.
-/

set_option autoImplicit false

namespace AsetPlatform.Billing

/-! ## Subscriptions -/

/-- The life of a subscription at its gateway. -/
inductive GatewayStatus where
  | created
  | authenticated
  | trialing
  | active
  | pastDue
  | halted
  | cancelled
  deriving DecidableEq, Repr

/-- A subscription at a gateway. `owner` is the user it was created for. -/
structure GatewaySub where
  id : String
  owner : String
  customerId : Option String
  planId : String
  status : GatewayStatus
  deriving DecidableEq, Repr

def GatewaySub.Live (sub : GatewaySub) : Prop := sub.status ≠ .cancelled

instance (sub : GatewaySub) : Decidable sub.Live := inferInstanceAs (Decidable (_ ≠ _))

/-- The subscription with another status. -/
def GatewaySub.withStatus (status : GatewayStatus) (sub : GatewaySub) : GatewaySub :=
  { sub with status := status }

/-- The subscription on another plan. -/
def GatewaySub.withPlan (planId : String) (sub : GatewaySub) : GatewaySub :=
  { sub with planId := planId }

/-- A Stripe checkout session that the customer may still complete. -/
structure CheckoutSession where
  userId : String
  tier : Tier
  customerId : Option String
  priceId : String
  deriving DecidableEq, Repr

/-- The authenticated caller: `get_current_user` refuses an empty user id. -/
structure UserContext where
  userId : String
  email : String
  userId_ne : userId ≠ ""

/-- A checkout request in progress, with the row as it read it. The body's tier is one of the two
paid ones. -/
structure CheckoutRequest where
  user : UserContext
  tier : Tier
  gateway : Gateway
  dbUser : Option User
  tier_paid : tier.Paid

/-- What an endpoint fails with: an `HTTPException`, or any other exception. -/
inductive Failure where
  | http (statusCode : Nat) (detail : String)
  | raised (message : String)

/-- The database, the gateways and what is under way. `emitted` are the events that the gateways
have emitted; each may be delivered at any later time, in any order and any number of times.
`awaiting` are the Stripe subscriptions whose completed checkout is not handled yet. -/
structure World where
  store : Store
  subs : Gateway → List GatewaySub
  sessions : List CheckoutSession
  emitted : List GatewayEvent
  awaiting : List String
  requests : List CheckoutRequest

/-- The users table with no gateway activity so far. -/
def World.start (users : UserTable) : World where
  store := ⟨users, []⟩
  subs _ := []
  sessions := []
  emitted := []
  awaiting := []
  requests := []

/-- The gateway has a live subscription with the id that was created for the user. -/
def World.LiveFor (w : World) (userId : String) (g : Gateway) (id : String) : Prop :=
  ∃ sub ∈ w.subs g, sub.id = id ∧ sub.owner = userId ∧ sub.Live

/-! ## Calls -/

/-- What a gateway call came to. -/
inductive Reply where
  | ok
  | refused
  | lost
  deriving DecidableEq, Repr

namespace World

variable (w : World)

/-- The subscription with an id. -/
def findSub (g : Gateway) (id : Option String) : Option GatewaySub :=
  (w.subs g).find? (some ·.id = id)

/-- Replace the subscriptions with an id at a gateway. -/
def mapSub (g : Gateway) (id : String) (f : GatewaySub → GatewaySub) : World :=
  { w with
    subs := Function.update w.subs g
      ((w.subs g).map fun sub => if sub.id = id then f sub else sub) }

def emit (event : GatewayEvent) : World := { w with emitted := w.emitted ++ [event] }

/-- The event of a cancelled subscription. -/
def cancelEvent (sub : GatewaySub) : Gateway → GatewayEvent
  | .razorpay => .cancelled ⟨some sub.id, some sub.planId, sub.customerId⟩
  | .stripe =>
      .stripeSubChange { id := some sub.id, status := some "canceled", customer := sub.customerId }

/-- `subscription.cancel` -/
def cancelSub (g : Gateway) (id : Option String) (reply : Reply) : World :=
  match w.findSub g id with
  | none => w
  | some sub =>
      if reply = .refused then w
      else (w.mapSub g sub.id (.withStatus .cancelled)).emit (cancelEvent sub g)

/-- `subscription.edit` and `Subscription.modify`: move a subscription to another plan. -/
def editSub (g : Gateway) (id : Option String) (planId : String) (reply : Reply) : World :=
  match w.findSub g id with
  | none => w
  | some sub =>
      if reply = .refused then w else w.mapSub g sub.id (.withPlan planId)

/-- The gateway can create a subscription under the id. -/
def FreshId (g : Gateway) (id : String) : Prop := id ≠ "" ∧ ∀ sub ∈ w.subs g, sub.id ≠ id

instance (g : Gateway) (id : String) : Decidable (w.FreshId g id) :=
  inferInstanceAs (Decidable (_ ∧ _))

def addSub (g : Gateway) (sub : GatewaySub) : World :=
  { w with subs := Function.update w.subs g (w.subs g ++ [sub]) }

end World

/-! ## Live subscriptions under the calls -/

section Live

variable {w : World}

theorem World.mapSub_subs_of_ne {g g' : Gateway} (h : g' ≠ g) (id : String)
    (f : GatewaySub → GatewaySub) : (w.mapSub g id f).subs g' = w.subs g' := by
  simp [mapSub, Function.update_of_ne h]

/-- A change of subscriptions that keeps ids and owners, and revives none, leaves live only what
was live. -/
theorem World.liveFor_of_mapSub {g g' : Gateway} {id id' userId : String}
    {f : GatewaySub → GatewaySub} (h : (w.mapSub g id f).LiveFor userId g' id')
    (hId : ∀ sub, (f sub).id = sub.id) (hOwner : ∀ sub, (f sub).owner = sub.owner)
    (hLive : ∀ sub, (f sub).Live → sub.Live) : w.LiveFor userId g' id' := by
  obtain ⟨sub, hMem, rfl, rfl, hSub⟩ := h
  by_cases hg : g' = g
  · subst hg
    simp only [mapSub, Function.update_self, List.mem_map] at hMem
    obtain ⟨old, hOld, rfl⟩ := hMem
    by_cases hOldId : old.id = id
    · simp only [hOldId, if_true] at hSub ⊢
      exact ⟨old, hOld, (hId old).symm, (hOwner old).symm, hLive old hSub⟩
    · simp only [hOldId, if_false] at hSub ⊢
      exact ⟨old, hOld, rfl, rfl, hSub⟩
  · rw [mapSub_subs_of_ne hg] at hMem
    exact ⟨sub, hMem, rfl, rfl, hSub⟩

theorem World.mem_of_findSub {g : Gateway} {id : Option String} {sub : GatewaySub}
    (h : w.findSub g id = some sub) : sub ∈ w.subs g ∧ some sub.id = id :=
  ⟨List.mem_of_find?_eq_some h, by simpa using List.find?_some h⟩

theorem World.cancelSub_cases (w : World) (g : Gateway) (id : Option String) (reply : Reply) :
    (w.cancelSub g id reply = w ∧ (reply = .refused ∨ ∀ sub ∈ w.subs g, some sub.id ≠ id)) ∨
      ∃ sub ∈ w.subs g, some sub.id = id ∧ w.cancelSub g id reply =
        (w.mapSub g sub.id (.withStatus .cancelled)).emit (cancelEvent sub g) := by
  unfold cancelSub
  cases hFind : w.findSub g id with
  | none =>
      left
      refine ⟨rfl, .inr ?_⟩
      intro sub hMem
      simpa using List.find?_eq_none.mp hFind sub hMem
  | some sub =>
      by_cases hReply : reply = .refused
      · left
        simp [hReply]
      · right
        obtain ⟨hMem, hId⟩ := mem_of_findSub hFind
        exact ⟨sub, hMem, hId, by simp [hReply]⟩

theorem World.editSub_cases (w : World) (g : Gateway) (id : Option String) (planId : String)
    (reply : Reply) :
    w.editSub g id planId reply = w ∨
      ∃ subId, w.editSub g id planId reply = w.mapSub g subId (.withPlan planId) := by
  unfold editSub
  cases w.findSub g id with
  | none => exact .inl rfl
  | some sub =>
      by_cases hReply : reply = .refused
      · left
        simp [hReply]
      · right
        exact ⟨sub.id, by simp [hReply]⟩

theorem World.liveFor_of_cancelSub {g g' : Gateway} {id : Option String} {reply : Reply}
    {userId id' : String} (h : (w.cancelSub g id reply).LiveFor userId g' id') :
    w.LiveFor userId g' id' := by
  rcases cancelSub_cases w g id reply with ⟨hSame, -⟩ | ⟨sub, -, -, hCancel⟩
  · rwa [hSame] at h
  · rw [hCancel] at h
    have hMap : (w.mapSub g sub.id (.withStatus .cancelled)).LiveFor userId g' id' := h
    apply liveFor_of_mapSub hMap (fun _ => rfl) (fun _ => rfl)
    intro _ hDead
    exact absurd rfl hDead

theorem World.liveFor_of_editSub {g g' : Gateway} {id : Option String} {planId : String}
    {reply : Reply} {userId id' : String}
    (h : (w.editSub g id planId reply).LiveFor userId g' id') : w.LiveFor userId g' id' := by
  rcases editSub_cases w g id planId reply with hSame | ⟨subId, hEdit⟩
  · rwa [hSame] at h
  · rw [hEdit] at h
    exact liveFor_of_mapSub h (fun _ => rfl) (fun _ => rfl) (fun _ hSub => hSub)

theorem World.not_liveFor_mapSub_cancelled {g : Gateway} {id userId : String} :
    ¬(w.mapSub g id (.withStatus .cancelled)).LiveFor userId g id := by
  rintro ⟨sub, hMem, hId, -, hLive⟩
  simp only [mapSub, Function.update_self, List.mem_map] at hMem
  obtain ⟨old, -, rfl⟩ := hMem
  by_cases hOld : old.id = id
  · simp [hOld, GatewaySub.Live, GatewaySub.withStatus] at hLive
  · simp [hOld] at hId

theorem World.not_liveFor_cancelSub {g : Gateway} {id userId : String} {reply : Reply}
    (hReply : reply ≠ .refused) : ¬(w.cancelSub g (some id) reply).LiveFor userId g id := by
  rcases cancelSub_cases w g (some id) reply with ⟨hSame, hRefused | hNone⟩ | ⟨sub, -, hId, hCancel⟩
  · exact absurd hRefused hReply
  · rw [hSame]
    rintro ⟨sub, hMem, rfl, -⟩
    exact hNone sub hMem rfl
  · obtain rfl := Option.some.inj hId
    rw [hCancel]
    exact not_liveFor_mapSub_cancelled

theorem World.liveFor_addSub {g g' : Gateway} {sub : GatewaySub} {userId id : String} :
    (w.addSub g sub).LiveFor userId g' id ↔
      w.LiveFor userId g' id ∨ (g' = g ∧ sub.id = id ∧ sub.owner = userId ∧ sub.Live) := by
  unfold LiveFor addSub
  by_cases hg : g' = g
  · subst hg
    simp only [Function.update_self, List.mem_append, List.mem_singleton, true_and]
    constructor
    · rintro ⟨s, hMem | rfl, h⟩
      · exact .inl ⟨s, hMem, h⟩
      · exact .inr h
    · rintro (⟨s, hMem, h⟩ | h)
      · exact ⟨s, .inl hMem, h⟩
      · exact ⟨sub, .inr rfl, h⟩
  · simp [hg]

end Live

end AsetPlatform.Billing

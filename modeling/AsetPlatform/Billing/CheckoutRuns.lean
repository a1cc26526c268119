import AsetPlatform.Billing.Checkout

/-!
# Runs of checkouts

Requests, gateways and webhooks interleave: a request reads the user's row when it begins and does
its work when it finishes; in between and afterwards other requests run, customers pay, complete
Stripe sessions, and emitted events arrive.

A user is quiet when no request of theirs is in progress and every Stripe checkout they completed
has been handled. `one_live_subscription` shows that along orderly runs a quiet user has at most
one live subscription, the stored one. A run is orderly when a Stripe session is completed only by
a user with no live subscription, and a Razorpay checkout creates one only when its creation and
the cancellation it replaces take effect and nothing else of the user is live. The routes do not
see to either: `second_gateway_bills_twice`.
-/

set_option autoImplicit false

namespace AsetPlatform.Billing

open AsetPlatform.Library

/-! ## Steps -/

inductive CheckoutStep where
  /-- A checkout request arrives. -/
  | begin (user : UserContext) (tier : Tier) (tier_paid : tier.Paid) (gateway : Gateway)
  /-- The `k`-th request in progress runs to its end. -/
  | finish (k : Nat) (replies : CheckoutReplies)
  /-- A gateway moves a live subscription to another status, charging it when it is active. -/
  | advance (g : Gateway) (id : String) (status : GatewayStatus)
  /-- The customer completes the `k`-th Stripe session. -/
  | complete (k : Nat) (newId : String)
  /-- The `k`-th emitted event is delivered, once more or for the first time. -/
  | deliver (k : Nat) (order : RowOrder)

/-- A live subscription in another status; no status brings a dead one back. -/
def GatewaySub.advance (status : GatewayStatus) (sub : GatewaySub) : GatewaySub :=
  if sub.Live ∧ status ≠ .cancelled then sub.withStatus status else sub

def CheckoutSession.completedEvent (session : CheckoutSession) (newId : String) : GatewayEvent :=
  .stripeCheckout
    { customer := session.customerId, subscription := some newId
      metadataUserId := some session.userId, metadataTier := some session.tier.text }

def GatewaySub.chargedEvent (sub : GatewaySub) : GatewayEvent :=
  .charged ⟨some sub.id, some sub.planId, sub.customerId⟩

/-- The completed checkouts that are still not handled after an event was. -/
def stillAwaiting (awaiting : List String) : GatewayEvent → List String
  | .stripeCheckout session => awaiting.filter (some · ≠ session.subscription)
  | _ => awaiting

def World.step (cfg : BillingConfig) (w : World) : CheckoutStep → World
  | .begin user tier tier_paid gateway =>
      let dbUser := w.store.users.getById user.userId
      match checkoutAllowed dbUser tier with
      | .error _ => w
      | .ok () => { w with requests := w.requests ++ [⟨user, tier, gateway, dbUser, tier_paid⟩] }
  | .finish k replies =>
      match w.requests[k]? with
      | none => w
      | some r => (checkout cfg replies { w with requests := w.requests.eraseIdx k } r).1
  | .advance g id status =>
      match w.findSub g (some id) with
      | none => w
      | some sub =>
          let w := w.mapSub g id (.advance status)
          if g = .razorpay ∧ status = .active ∧ sub.Live then w.emit sub.chargedEvent else w
  | .complete k newId =>
      match w.sessions[k]? with
      | none => w
      | some session =>
          if w.FreshId .stripe newId then
            let w := w.addSub .stripe
              ⟨newId, session.userId, session.customerId, session.priceId, .active⟩
            { w with
              sessions := w.sessions.eraseIdx k
              emitted := w.emitted ++ [session.completedEvent newId]
              awaiting := w.awaiting ++ [newId] }
          else w
  | .deliver k order =>
      match w.emitted[k]? with
      | none => w
      | some event =>
          { w with
            store := w.store.deliver cfg.plans ⟨order, event⟩
            awaiting := stillAwaiting w.awaiting event }

/-! ## The property and the condition -/

def World.NoLive (w : World) (userId : String) (g : Gateway) : Prop :=
  ∀ sub ∈ w.subs g, sub.owner = userId → ¬sub.Live

instance (w : World) (userId : String) (g : Gateway) : Decidable (w.NoLive userId g) :=
  inferInstanceAs (Decidable (∀ sub ∈ w.subs g, _ → ¬sub.Live))

/-- The subscription id stored on a user for a gateway, if the user exists. -/
def Store.storedSub (s : Store) (userId : String) (g : Gateway) : Option (Option String) :=
  (s.users.getById userId).map (·.storedSub g)

/-- No request of the user is in progress, and every completed checkout of theirs is handled. -/
def World.Quiet (w : World) (userId : String) : Prop :=
  (∀ r ∈ w.requests, r.user.userId ≠ userId) ∧
    ∀ sub ∈ w.subs .stripe, sub.owner = userId → sub.id ∉ w.awaiting

/-- A quiet user has at most one live subscription, and it is the one stored on the user. -/
def World.OneLive (w : World) : Prop :=
  ∀ userId, w.Quiet userId →
    (∀ g id g' id', w.LiveFor userId g id → w.LiveFor userId g' id' → g = g' ∧ id = id') ∧
      ∀ g id, w.LiveFor userId g id → w.store.storedSub userId g = some (some id)

/-- The end of a Razorpay checkout that leaves nothing else live: it edits the stored subscription,
it creates none, or it creates one when the user has no live subscription but the stored one that
it read, whose cancellation takes effect. -/
def ReplacesSafely (w : World) (r : CheckoutRequest) (replies : RazorpayReplies) : Prop :=
  (Editable replies w r ∧ replies.edit = .ok) ∨ replies.create = .refused ∨
    (replies.create = .ok ∧ w.NoLive r.user.userId .stripe ∧
      (w.NoLive r.user.userId .razorpay ∨
        (w.store.storedSub r.user.userId .razorpay =
            some (r.dbUser.bind User.razorpaySubscriptionId) ∧
          ¬Editable replies w r ∧ replies.cancel ≠ .refused)))

instance (w : World) (r : CheckoutRequest) (replies : RazorpayReplies) :
    Decidable (ReplacesSafely w r replies) :=
  inferInstanceAs (Decidable (_ ∨ _ ∨ (_ ∧ _ ∧ (_ ∨ (_ ∧ ¬_ ∧ _ ≠ _)))))

/-- An orderly step: sessions are completed by users with no live subscription, and Razorpay
checkouts replace safely. -/
def World.Orderly (w : World) : CheckoutStep → Prop
  | .finish k replies =>
      ∀ r ∈ w.requests[k]?, r.gateway = .razorpay → ReplacesSafely w r replies.razorpay
  | .complete k _ =>
      ∀ session ∈ w.sessions[k]?,
        w.NoLive session.userId .razorpay ∧ w.NoLive session.userId .stripe
  | _ => True

/-! ## The invariant -/

/-- What an emitted event says is so: a cancelled Razorpay subscription is dead, a changed Stripe
subscription was not cancelled, and a completed checkout was of a paid tier by an existing user and
made a live subscription. -/
def World.Truthful (w : World) : GatewayEvent → Prop
  | .cancelled entity =>
      ∃ sub ∈ w.subs .razorpay, entity.id = some sub.id ∧
        ∀ userId, ¬w.LiveFor userId .razorpay sub.id
  | .stripeSubChange sub => sub.status ≠ some "canceled" ∧ sub.status ≠ some "unpaid"
  | .stripeCheckout session =>
      ∃ userId id, session.metadataUserId = some userId ∧ userId ≠ "" ∧
        paidTier session.metadataTier ≠ none ∧ session.subscription = some id ∧
        w.LiveFor userId .stripe id ∧ w.store.storedSub userId .stripe ≠ none
  | _ => True

/-- Every live subscription is stored on its owner, or is a completed Stripe checkout that is not
handled yet; no user owns two; and what the gateways emitted is true of them. -/
structure World.Consistent (w : World) : Prop where
  razorpay_stored : ∀ userId id, w.LiveFor userId .razorpay id →
    w.store.storedSub userId .razorpay = some (some id)
  stripe_stored : ∀ userId id, w.LiveFor userId .stripe id →
    id ∈ w.awaiting ∨ w.store.storedSub userId .stripe = some (some id)
  unique : ∀ userId g id g' id', w.LiveFor userId g id → w.LiveFor userId g' id' →
    g = g' ∧ id = id'
  owner_unique : ∀ userId userId' g id, w.LiveFor userId g id → w.LiveFor userId' g id →
    userId = userId'
  id_ne : ∀ g, ∀ sub ∈ w.subs g, sub.id ≠ ""
  truthful : ∀ event ∈ w.emitted, w.Truthful event
  session_user : ∀ session ∈ w.sessions, session.userId ≠ "" ∧ session.tier.Paid ∧
    w.store.storedSub session.userId .stripe ≠ none
  request_user : ∀ r ∈ w.requests, r.dbUser ≠ none →
    w.store.storedSub r.user.userId .razorpay ≠ none

theorem World.not_liveFor_iff_noLive {w : World} {userId : String} {g : Gateway} :
    (∀ id, ¬w.LiveFor userId g id) ↔ w.NoLive userId g := by
  constructor
  · intro h sub hMem hOwner hLive
    exact h sub.id ⟨sub, hMem, rfl, hOwner, hLive⟩
  · rintro h id ⟨sub, hMem, -, hOwner, hLive⟩
    exact h sub hMem hOwner hLive

theorem consistent_start (users : UserTable) : (World.start users).Consistent where
  razorpay_stored := by
    rintro userId id ⟨sub, hMem, -⟩
    cases hMem
  stripe_stored := by
    rintro userId id ⟨sub, hMem, -⟩
    cases hMem
  unique := by
    rintro userId g id g' id' ⟨sub, hMem, -⟩
    cases hMem
  owner_unique := by
    rintro userId userId' g id ⟨sub, hMem, -⟩
    cases hMem
  id_ne := by
    intro g sub hMem
    cases hMem
  truthful := by
    intro event hMem
    cases hMem
  session_user := by
    intro session hMem
    cases hMem
  request_user := by
    intro r hMem
    cases hMem

theorem World.Consistent.oneLive {w : World} (h : w.Consistent) : w.OneLive := by
  intro userId hQuiet
  refine ⟨fun g id g' id' => h.unique userId g id g' id', ?_⟩
  intro g id hLive
  cases g with
  | razorpay => exact h.razorpay_stored userId id hLive
  | stripe =>
      rcases h.stripe_stored userId id hLive with hAwaiting | hStored
      · obtain ⟨sub, hMem, rfl, hOwner, -⟩ := hLive
        exact absurd hAwaiting (hQuiet.2 sub hMem hOwner)
      · exact hStored

/-! ## Changes of the store -/

/-- Two stores have the same users with the same stored subscription ids. -/
def SameStored (s s' : Store) : Prop := ∀ userId g, s'.storedSub userId g = s.storedSub userId g

/-- What is true of the subscriptions stays true of another store with the same rows. -/
theorem World.Truthful.keepRows {w w' : World} {event : GatewayEvent} (hTrue : w.Truthful event)
    (hSubs : w'.subs = w.subs)
    (hRows : ∀ userId g, w.store.storedSub userId g ≠ none → w'.store.storedSub userId g ≠ none) :
    w'.Truthful event := by
  have hLiveFor : ∀ userId g id, w'.LiveFor userId g id ↔ w.LiveFor userId g id := by
    intro userId g id
    rw [World.LiveFor, World.LiveFor, hSubs]
  cases event with
  | stripeCheckout session =>
      obtain ⟨userId, id, hUser, hNe, hPaid, hSub, hLive, hRow⟩ := hTrue
      exact ⟨userId, id, hUser, hNe, hPaid, hSub, (hLiveFor _ _ _).mpr hLive, hRows _ _ hRow⟩
  | cancelled entity =>
      obtain ⟨sub, hMem, hEntity, hDead⟩ := hTrue
      exact ⟨sub, hSubs ▸ hMem, hEntity, fun userId => mt (hLiveFor _ _ _).mp (hDead userId)⟩
  | charged entity => trivial
  | paymentFailed paymentCustomerId entity => trivial
  | stripeSubChange sub => exact hTrue
  | stripePaymentFailed invoice => trivial

theorem World.Consistent.withStore {w : World} {s : Store} (h : w.Consistent)
    (hSame : SameStored w.store s) : World.Consistent { w with store := s } where
  razorpay_stored := by
    intro userId id hLive
    rw [hSame]
    exact h.razorpay_stored userId id hLive
  stripe_stored := by
    intro userId id hLive
    rw [hSame]
    exact h.stripe_stored userId id hLive
  unique := h.unique
  owner_unique := h.owner_unique
  id_ne := h.id_ne
  truthful := by
    intro event hMem
    have hTrue := h.truthful event hMem
    cases event with
    | stripeCheckout session =>
        obtain ⟨userId, id, hUser, hNe, hPaid, hSub, hLive, hRow⟩ := hTrue
        refine ⟨userId, id, hUser, hNe, hPaid, hSub, hLive, ?_⟩
        rw [hSame]
        exact hRow
    | charged entity => trivial
    | cancelled entity => exact hTrue
    | paymentFailed paymentCustomerId entity => trivial
    | stripeSubChange sub => exact hTrue
    | stripePaymentFailed invoice => trivial
  session_user := by
    intro session hMem
    obtain ⟨hNe, hPaid, hRow⟩ := h.session_user session hMem
    refine ⟨hNe, hPaid, ?_⟩
    rw [hSame]
    exact hRow
  request_user := by
    intro r hMem hRead
    rw [hSame]
    exact h.request_user r hMem hRead

/-- An update that succeeds writes the stored ids that it names and keeps the others. -/
theorem storedSub_of_safeUpdate {s s' : Store} {userId : String} {updates : Updates}
    (h : s.safeUpdate userId updates = .ok s') (key : String) (g : Gateway) :
    s'.storedSub key g =
      (s.users.getById key).map fun row =>
        if key = userId then (row.updated updates).storedSub g else row.storedSub g := by
  unfold Store.safeUpdate UserTable.update at h
  cases hRow : s.users.getById userId with
  | none => simp [hRow, Except.map] at h
  | some row =>
      rw [hRow] at h
      obtain rfl : { s with users := s.users.modify userId updates } = s' := by
        simpa [Except.map] using h
      unfold Store.storedSub
      rw [UserTable.getById_modify, Option.map_map]
      congr 1
      funext found
      by_cases hKey : key = userId <;> simp [hKey]

theorem sameStored_of_safeUpdate {s s' : Store} {userId : String} {updates : Updates}
    (h : s.safeUpdate userId updates = .ok s') (hRz : updates.razorpaySubscriptionId = none)
    (hSt : updates.stripeSubscriptionId = none) : SameStored s s' := by
  intro key g
  rw [storedSub_of_safeUpdate h]
  unfold Store.storedSub
  congr 1
  funext row
  by_cases hKey : key = userId
  · cases g <;> simp [hKey, User.storedSub, hRz, hSt]
  · simp [hKey]

theorem storedSub_ne_none_of_safeUpdate {s s' : Store} {userId : String} {updates : Updates}
    (h : s.safeUpdate userId updates = .ok s') (g : Gateway) : s.storedSub userId g ≠ none := by
  unfold Store.safeUpdate UserTable.update at h
  cases hRow : s.users.getById userId with
  | none => simp [hRow, Except.map] at h
  | some row => simp [Store.storedSub, hRow]

theorem exists_safeUpdate {s : Store} {userId : String} {g : Gateway}
    (h : s.storedSub userId g ≠ none) (updates : Updates) :
    ∃ s', s.safeUpdate userId updates = .ok s' := by
  unfold Store.storedSub at h
  cases hRow : s.users.getById userId with
  | none => simp [hRow] at h
  | some row => exact ⟨_, by simp [Store.safeUpdate, UserTable.update, hRow, Except.map]; rfl⟩

/-! ## Changes at the gateways -/

theorem World.Consistent.emit {w : World} {event : GatewayEvent} (h : w.Consistent)
    (hTrue : w.Truthful event) : (w.emit event).Consistent :=
  { h with
    truthful := by
      intro other hMem
      rcases List.mem_append.mp hMem with hOld | hNew
      · exact h.truthful other hOld
      · rw [List.mem_singleton.mp hNew]
        exact hTrue }

/-- A change of subscriptions that keeps ids, owners and the life of the live ones keeps what is
live. -/
theorem World.liveFor_mapSub_of_liveFor {w : World} {g g' : Gateway} {id id' userId : String}
    {f : GatewaySub → GatewaySub} (h : w.LiveFor userId g' id')
    (hId : ∀ sub, (f sub).id = sub.id) (hOwner : ∀ sub, (f sub).owner = sub.owner)
    (hLive : g' = g → ∀ sub, sub.Live → (f sub).Live) :
    (w.mapSub g id f).LiveFor userId g' id' := by
  obtain ⟨sub, hMem, rfl, rfl, hSub⟩ := h
  by_cases hg : g' = g
  · subst hg
    by_cases hSubId : sub.id = id
    · refine ⟨f sub, ?_, hId sub, hOwner sub, hLive rfl sub hSub⟩
      simp only [mapSub, Function.update_self, List.mem_map]
      exact ⟨sub, hMem, by simp [hSubId]⟩
    · refine ⟨sub, ?_, rfl, rfl, hSub⟩
      simp only [mapSub, Function.update_self, List.mem_map]
      exact ⟨sub, hMem, by simp [hSubId]⟩
  · refine ⟨sub, ?_, rfl, rfl, hSub⟩
    rwa [mapSub_subs_of_ne hg]

theorem World.exists_mapSub_iff {w : World} {g g' : Gateway} {id : String}
    {f : GatewaySub → GatewaySub} (hId : ∀ sub, (f sub).id = sub.id) (P : String → Prop) :
    (∃ sub ∈ (w.mapSub g id f).subs g', P sub.id) ↔ ∃ sub ∈ w.subs g', P sub.id := by
  by_cases hg : g' = g
  · subst hg
    simp only [mapSub, Function.update_self, List.mem_map, exists_exists_and_eq_and]
    apply exists_congr
    intro sub
    by_cases hSub : sub.id = id <;> simp [hSub, hId]
  · rw [mapSub_subs_of_ne hg]

/-- A change of subscriptions that keeps ids and owners, revives none, and lets no Stripe
subscription die keeps the invariant. -/
theorem World.Consistent.mapSub {w : World} (h : w.Consistent) (g : Gateway) (id : String)
    {f : GatewaySub → GatewaySub} (hId : ∀ sub, (f sub).id = sub.id)
    (hOwner : ∀ sub, (f sub).owner = sub.owner) (hDead : ∀ sub, (f sub).Live → sub.Live)
    (hLive : g = .stripe → ∀ sub, sub.Live → (f sub).Live) : (w.mapSub g id f).Consistent where
  razorpay_stored := fun userId id' hNow =>
    h.razorpay_stored userId id' (liveFor_of_mapSub hNow hId hOwner hDead)
  stripe_stored := fun userId id' hNow =>
    h.stripe_stored userId id' (liveFor_of_mapSub hNow hId hOwner hDead)
  unique := fun userId g₁ id₁ g₂ id₂ h₁ h₂ =>
    h.unique userId g₁ id₁ g₂ id₂ (liveFor_of_mapSub h₁ hId hOwner hDead)
      (liveFor_of_mapSub h₂ hId hOwner hDead)
  owner_unique := fun userId userId' g₁ id₁ h₁ h₂ =>
    h.owner_unique userId userId' g₁ id₁ (liveFor_of_mapSub h₁ hId hOwner hDead)
      (liveFor_of_mapSub h₂ hId hOwner hDead)
  id_ne := by
    intro g' sub hMem hEmpty
    obtain ⟨old, hOld, hOldId⟩ :=
      (exists_mapSub_iff hId (· = "")).mp ⟨sub, hMem, hEmpty⟩
    exact h.id_ne g' old hOld hOldId
  truthful := by
    intro event hMem
    have hTrue := h.truthful event hMem
    cases event with
    | cancelled entity =>
        obtain ⟨sub, hSub, hEntity, hNone⟩ := hTrue
        have hFound : ∃ sub ∈ w.subs .razorpay, entity.id = some sub.id ∧
            ∀ userId, ¬w.LiveFor userId .razorpay sub.id := ⟨sub, hSub, hEntity, hNone⟩
        obtain ⟨sub', hSub', hEntity', hNone'⟩ := (exists_mapSub_iff hId fun subId =>
          entity.id = some subId ∧ ∀ userId, ¬w.LiveFor userId .razorpay subId).mpr hFound
        refine ⟨sub', hSub', hEntity', ?_⟩
        intro userId hNow
        exact hNone' userId (liveFor_of_mapSub hNow hId hOwner hDead)
    | stripeCheckout session =>
        obtain ⟨userId, subId, hUser, hNe, hPaid, hSub, hSubLive, hRow⟩ := hTrue
        refine ⟨userId, subId, hUser, hNe, hPaid, hSub, ?_, hRow⟩
        exact liveFor_mapSub_of_liveFor hSubLive hId hOwner fun hg => hLive hg.symm
    | charged entity => trivial
    | paymentFailed paymentCustomerId entity => trivial
    | stripeSubChange sub => exact hTrue
    | stripePaymentFailed invoice => trivial
  session_user := h.session_user
  request_user := h.request_user

theorem World.Consistent.editSub {w : World} (h : w.Consistent) (g : Gateway)
    (id : Option String) (planId : String) (reply : Reply) :
    (w.editSub g id planId reply).Consistent := by
  rcases editSub_cases w g id planId reply with hSame | ⟨subId, hEdit⟩
  · rwa [hSame]
  · rw [hEdit]
    exact h.mapSub g subId (fun _ => rfl) (fun _ => rfl) (fun _ hSub => hSub)
      fun _ _ hSub => hSub

theorem World.Consistent.cancelSub {w : World} (h : w.Consistent) (id : Option String)
    (reply : Reply) : (w.cancelSub .razorpay id reply).Consistent := by
  rcases cancelSub_cases w .razorpay id reply with ⟨hSame, -⟩ | ⟨sub, hMem, -, hCancel⟩
  · rwa [hSame]
  · rw [hCancel]
    apply World.Consistent.emit
    · refine h.mapSub .razorpay sub.id (fun _ => rfl) (fun _ => rfl) ?_ ?_
      · intro _ hNow
        exact absurd rfl hNow
      · intro hStripe
        cases hStripe
    · -- The emitted event names a subscription that is still listed, now dead.
      refine ⟨sub.withStatus .cancelled, ?_, rfl, fun _ => not_liveFor_mapSub_cancelled⟩
      simp only [World.mapSub, Function.update_self, List.mem_map]
      exact ⟨sub, hMem, by simp⟩

theorem World.Consistent.advance {w : World} (h : w.Consistent) (cfg : BillingConfig) (g : Gateway)
    (id : String) (status : GatewayStatus) : (w.step cfg (.advance g id status)).Consistent := by
  have hMap : (w.mapSub g id (.advance status)).Consistent := by
    have hStays : ∀ sub, (GatewaySub.advance status sub).Live ↔ sub.Live := by
      intro sub
      unfold GatewaySub.advance
      split
      case isTrue hMoves => exact iff_of_true hMoves.2 hMoves.1
      case isFalse => exact Iff.rfl
    refine h.mapSub g id ?_ ?_ (fun sub => (hStays sub).mp) (fun _ sub => (hStays sub).mpr)
    · intro sub
      unfold GatewaySub.advance
      split <;> rfl
    · intro sub
      unfold GatewaySub.advance
      split <;> rfl
  simp only [World.step]
  split
  · exact h
  · split
    · exact hMap.emit (by simp [GatewaySub.chargedEvent, World.Truthful])
    · exact hMap

/-! ## A new subscription -/

section AddSub

variable {w : World} {g : Gateway} (sub : GatewaySub)

theorem World.Consistent.addSub_unique (h : w.Consistent)
    (hNone : ∀ g' id, ¬w.LiveFor sub.owner g' id) (userId : String) (g₁ : Gateway) (id₁ : String)
    (g₂ : Gateway) (id₂ : String) (h₁ : (w.addSub g sub).LiveFor userId g₁ id₁)
    (h₂ : (w.addSub g sub).LiveFor userId g₂ id₂) : g₁ = g₂ ∧ id₁ = id₂ := by
  rcases liveFor_addSub.mp h₁ with hOld₁ | ⟨rfl, rfl, hOwner₁, -⟩
  · rcases liveFor_addSub.mp h₂ with hOld₂ | ⟨-, -, rfl, -⟩
    · exact h.unique userId g₁ id₁ g₂ id₂ hOld₁ hOld₂
    · exact absurd hOld₁ (hNone g₁ id₁)
  · rcases liveFor_addSub.mp h₂ with hOld₂ | ⟨rfl, rfl, -, -⟩
    · rw [← hOwner₁] at hOld₂
      exact absurd hOld₂ (hNone g₂ id₂)
    · exact ⟨rfl, rfl⟩

theorem World.Consistent.addSub_owner_unique (h : w.Consistent) (hFresh : w.FreshId g sub.id)
    (userId userId' : String) (g' : Gateway) (id : String)
    (h₁ : (w.addSub g sub).LiveFor userId g' id) (h₂ : (w.addSub g sub).LiveFor userId' g' id) :
    userId = userId' := by
  have hNew : ∀ u, ¬w.LiveFor u g sub.id := by
    rintro u ⟨old, hMem, hId, -⟩
    exact hFresh.2 old hMem hId
  rcases liveFor_addSub.mp h₁ with hOld₁ | ⟨rfl, rfl, hOwner₁, -⟩
  · rcases liveFor_addSub.mp h₂ with hOld₂ | ⟨rfl, rfl, -, -⟩
    · exact h.owner_unique userId userId' g' id hOld₁ hOld₂
    · exact absurd hOld₁ (hNew userId)
  · rcases liveFor_addSub.mp h₂ with hOld₂ | ⟨-, -, hOwner₂, -⟩
    · exact absurd hOld₂ (hNew userId')
    · exact hOwner₁.symm.trans hOwner₂

theorem World.Consistent.addSub_id_ne (h : w.Consistent) (hFresh : w.FreshId g sub.id)
    (g' : Gateway) (other : GatewaySub) (hMem : other ∈ (w.addSub g sub).subs g') :
    other.id ≠ "" := by
  by_cases hg : g' = g
  · subst hg
    simp only [World.addSub, Function.update_self, List.mem_append, List.mem_singleton] at hMem
    rcases hMem with hOld | rfl
    · exact h.id_ne g' other hOld
    · exact hFresh.1
  · simp only [World.addSub, Function.update_of_ne hg] at hMem
    exact h.id_ne g' other hMem

theorem World.Truthful.addSub {event : GatewayEvent} (h : w.Truthful event)
    (hFresh : w.FreshId g sub.id) : (w.addSub g sub).Truthful event := by
  cases event with
  | cancelled entity =>
      obtain ⟨old, hMem, hEntity, hDead⟩ := h
      refine ⟨old, ?_, hEntity, ?_⟩
      · by_cases hg : Gateway.razorpay = g
        · subst hg
          simp only [World.addSub, Function.update_self, List.mem_append]
          exact .inl hMem
        · simpa only [World.addSub, Function.update_of_ne hg] using hMem
      · intro userId hLive
        rcases liveFor_addSub.mp hLive with hOld | ⟨rfl, hId, -, -⟩
        · exact hDead userId hOld
        · exact hFresh.2 old hMem hId.symm
  | stripeCheckout session =>
      obtain ⟨userId, id, hUser, hNe, hPaid, hSub, hLive, hRow⟩ := h
      exact ⟨userId, id, hUser, hNe, hPaid, hSub, liveFor_addSub.mpr (.inl hLive), hRow⟩
  | charged entity => trivial
  | paymentFailed paymentCustomerId entity => trivial
  | stripeSubChange sub => exact h
  | stripePaymentFailed invoice => trivial

end AddSub

theorem paidTier_text {tier : Tier} (h : tier.Paid) : paidTier (some tier.text) ≠ none := by
  rcases h with rfl | rfl <;> decide

theorem World.Consistent.complete {w : World} (h : w.Consistent) (cfg : BillingConfig) (k : Nat)
    (newId : String) (hOrderly : w.Orderly (.complete k newId)) :
    (w.step cfg (.complete k newId)).Consistent := by
  simp only [World.step]
  cases hSession : w.sessions[k]? with
  | none => exact h
  | some session =>
      by_cases hFresh : w.FreshId .stripe newId
      case neg => simpa only [hFresh, if_false] using h
      case pos =>
        simp only [hFresh, if_true]
        obtain ⟨hNoRz, hNoSt⟩ := hOrderly session hSession
        -- the condition on the run: nothing of this customer is live at either gateway
        have hNone : ∀ g id, ¬w.LiveFor session.userId g id := by
          intro g
          cases g with
          | razorpay => exact not_liveFor_iff_noLive.mpr hNoRz
          | stripe => exact not_liveFor_iff_noLive.mpr hNoSt
        obtain ⟨hUser, hPaid, hRow⟩ := h.session_user session (List.mem_of_getElem? hSession)
        let sub : GatewaySub :=
          ⟨newId, session.userId, session.customerId, session.priceId, .active⟩
        have hLive : (w.addSub .stripe sub).LiveFor session.userId .stripe newId :=
          liveFor_addSub.mpr (.inr ⟨rfl, rfl, rfl, GatewayStatus.noConfusion⟩)
        have hOldOrNew : ∀ userId g id, (w.addSub .stripe sub).LiveFor userId g id →
            w.LiveFor userId g id ∨ (g = .stripe ∧ newId = id) := by
          intro userId g id hNow
          rcases liveFor_addSub.mp hNow with hOld | ⟨hg, hId, -⟩
          · exact .inl hOld
          · exact .inr ⟨hg, hId⟩
        exact
          { razorpay_stored := by
              intro userId id hNow
              rcases hOldOrNew userId .razorpay id hNow with hOld | ⟨hg, -⟩
              · exact h.razorpay_stored userId id hOld
              · cases hg
            stripe_stored := by
              intro userId id hNow
              rcases hOldOrNew userId .stripe id hNow with hOld | ⟨-, rfl⟩
              · rcases h.stripe_stored userId id hOld with hAwaiting | hStored
                · exact .inl (List.mem_append.mpr (.inl hAwaiting))
                · exact .inr hStored
              -- the new one is stored when the event about it arrives
              · exact .inl (List.mem_append.mpr (.inr (List.mem_singleton.mpr rfl)))
            unique := h.addSub_unique sub hNone
            owner_unique := h.addSub_owner_unique sub hFresh
            id_ne := h.addSub_id_ne sub hFresh
            truthful := by
              intro event hMem
              rcases List.mem_append.mp hMem with hOld | hNew
              · exact (h.truthful event hOld).addSub sub hFresh
              · rw [List.mem_singleton.mp hNew]
                exact ⟨session.userId, newId, rfl, hUser, paidTier_text hPaid, rfl, hLive, hRow⟩
            session_user := fun other hMem =>
              h.session_user other (List.mem_of_mem_eraseIdx hMem)
            request_user := h.request_user }

/-! ## Events arrive -/

/-- An event that does not cancel the stored Razorpay subscription leaves it stored. -/
theorem razorpaySub_updated {plans : RazorpayPlans} {user : User} {event : GatewayEvent}
    {updates : Updates} {id : String} (hUpdates : updatesOn plans user event = some updates)
    (hStored : user.razorpaySubscriptionId = some id) (hId : id ≠ "")
    (hEvent : ∀ entity, event = .cancelled entity → entity.id ≠ some id) :
    (user.updated updates).razorpaySubscriptionId = some id := by
  have hSame : ∀ entity, Guarded user entity → entity.id = some id := by
    rintro entity ⟨-, hGuard⟩
    by_contra hOther
    apply hGuard
    rw [hStored]
    exact ⟨by simpa [truthy] using hId, Ne.symm hOther⟩
  rw [User.updated_razorpaySub]
  rcases updatesOn_cases hUpdates with
    ⟨entity, tier, -, hOpen, -, rfl⟩ | ⟨entity, rfl, hOpen, -⟩ | ⟨session, tier, -, -, rfl⟩ |
    ⟨sub, -, -, rfl⟩ | rfl
  · exact hSame entity hOpen
  · exact absurd (hSame entity hOpen) (hEvent entity rfl)
  · exact hStored
  · exact hStored
  · exact hStored

/-- An event that neither cancels at Stripe nor completes another checkout leaves the stored Stripe
subscription stored. -/
theorem stripeSub_updated {plans : RazorpayPlans} {user : User} {event : GatewayEvent}
    {updates : Updates} {id : String} (hUpdates : updatesOn plans user event = some updates)
    (hStored : user.stripeSubscriptionId = some id)
    (hChange : ∀ sub, event = .stripeSubChange sub →
      sub.status ≠ some "canceled" ∧ sub.status ≠ some "unpaid")
    (hCheckout : ∀ session, event = .stripeCheckout session → session.subscription = some id) :
    (user.updated updates).stripeSubscriptionId = some id := by
  rw [User.updated_stripeSub]
  rcases updatesOn_cases hUpdates with
    ⟨entity, tier, -, -, -, rfl⟩ | ⟨entity, -, -, rfl⟩ | ⟨session, tier, rfl, -, rfl⟩ |
    ⟨sub, rfl, hStatus, -⟩ | rfl
  · exact hStored
  · exact hStored
  · exact hCheckout session rfl
  · obtain ⟨hCanceled, hUnpaid⟩ := hChange sub rfl
    exact absurd hStatus (by simp [hCanceled, hUnpaid])
  · exact hStored

theorem storedSub_deliver_eq_none_iff (plans : RazorpayPlans) (s : Store) (d : Delivery)
    (userId : String) (g : Gateway) :
    (s.deliver plans d).storedSub userId g = none ↔ s.storedSub userId g = none := by
  unfold Store.storedSub
  rcases getById_deliver_cases plans s d userId with
    ⟨user, updates, hResolve, hKey, -, hAfter⟩ | ⟨-, hAfter⟩
  · have hRow := UserTable.getById_of_mem (mem_of_resolve hResolve)
    rw [hKey] at hRow
    simp [hAfter, hRow]
  · rw [hAfter]

/-- A stored subscription stays stored when the event's updates leave it there. -/
theorem storedSub_deliver {plans : RazorpayPlans} {s : Store} {d : Delivery} {userId id : String}
    {g : Gateway} (hStored : s.storedSub userId g = some (some id))
    (hUpdated : ∀ user ∈ resolve s.users d, user.storedSub g = some id → user.userId = userId →
      ∀ updates ∈ updatesOn plans user d.event, (user.updated updates).storedSub g = some id) :
    (s.deliver plans d).storedSub userId g = some (some id) := by
  unfold Store.storedSub at hStored ⊢
  -- either the event updates this user, or it leaves the row alone
  rcases getById_deliver_cases plans s d userId with
    ⟨user, updates, hResolve, hKey, hUpdates, hAfter⟩ | ⟨-, hAfter⟩
  · have hRow := UserTable.getById_of_mem (mem_of_resolve hResolve)
    rw [hKey] at hRow
    have hOld : user.storedSub g = some id := by simpa [hRow] using hStored
    rw [hAfter, Option.map_some, hUpdated user hResolve hOld hKey updates hUpdates]
  · rw [hAfter]
    exact hStored

/-- A true completed checkout stores its subscription on the user it names. -/
theorem storedSub_deliver_checkout {plans : RazorpayPlans} {s : Store} {order : RowOrder}
    {session : StripeObject} {userId id : String} (hUser : session.metadataUserId = some userId)
    (hNe : userId ≠ "") (hPaid : paidTier session.metadataTier ≠ none)
    (hSub : session.subscription = some id) (hRow : s.storedSub userId .stripe ≠ none) :
    (s.deliver plans ⟨order, .stripeCheckout session⟩).storedSub userId .stripe =
      some (some id) := by
  obtain ⟨tier, hTier⟩ := Option.ne_none_iff_exists'.mp hPaid
  have hUpdates : ∀ user, updatesOn plans user (.stripeCheckout session) =
      some (stripeCheckoutUpdates tier session) := by
    intro user
    simp [updatesOn, hUser, hNe, hTier]
  unfold Store.storedSub at hRow ⊢
  cases hFound : s.users.getById userId with
  | none => simp [hFound] at hRow
  | some row =>
      have hResolve : resolve s.users ⟨order, .stripeCheckout session⟩ = some row := by
        simp [resolve, hUser, hFound]
      have hKey : row.userId = userId := UserTable.userId_of_getById hFound
      rcases getById_deliver_cases plans s ⟨order, .stripeCheckout session⟩ userId with
        ⟨user, updates, -, -, hGiven, hAfter⟩ | ⟨hNone, -⟩
      · rw [hUpdates user] at hGiven
        obtain rfl := Option.some.inj hGiven
        rw [hAfter]
        simp [User.storedSub, stripeCheckoutUpdates, hSub]
      · have hNothing := hNone row hResolve hKey
        rw [hUpdates row] at hNothing
        cases hNothing

section Delivery

variable {w : World} {event : GatewayEvent} {userId id : String} (cfg : BillingConfig)
  (order : RowOrder)

theorem World.Consistent.razorpayStored_deliver (h : w.Consistent) (hTrue : w.Truthful event)
    (hLive : w.LiveFor userId .razorpay id) :
    (w.store.deliver cfg.plans ⟨order, event⟩).storedSub userId .razorpay = some (some id) := by
  apply storedSub_deliver (h.razorpay_stored userId id hLive)
  intro user _ hOld _ updates hUpdates
  have hNe : id ≠ "" := by
    obtain ⟨sub, hMem, rfl, -⟩ := hLive
    exact h.id_ne _ sub hMem
  refine razorpaySub_updated hUpdates hOld hNe ?_
  rintro entity rfl hEntity
  -- only a cancellation would clear it, and a true one names a dead subscription
  obtain ⟨dead, -, hDeadId, hDead⟩ := hTrue
  rw [hEntity] at hDeadId
  obtain rfl := Option.some.inj hDeadId
  exact hDead userId hLive

/-- A true event leaves a live Stripe subscription stored. -/
theorem World.Consistent.stripeStored_deliver (h : w.Consistent) (hTrue : w.Truthful event)
    (hLive : w.LiveFor userId .stripe id)
    (hStored : w.store.storedSub userId .stripe = some (some id)) :
    (w.store.deliver cfg.plans ⟨order, event⟩).storedSub userId .stripe = some (some id) := by
  apply storedSub_deliver hStored
  intro user hResolve hOld hKey updates hUpdates
  refine stripeSub_updated hUpdates hOld ?_ ?_
  · rintro sub rfl
    exact hTrue
  · rintro session rfl
    obtain ⟨named, subId, hUser, -, -, hSub, hSubLive, -⟩ := hTrue
    -- the session names the user whose row it resolves to
    have hNamed : named = userId := by
      have hRow : w.store.users.getById named = some user := by
        simpa [resolve, hUser] using hResolve
      rw [← hKey, UserTable.userId_of_getById hRow]
    subst hNamed
    rw [hSub, (h.unique named _ _ _ _ hSubLive hLive).2]

/-- A true event that ends the wait for a live Stripe subscription stores it. -/
theorem World.Consistent.awaited_deliver (h : w.Consistent) (hTrue : w.Truthful event)
    (hLive : w.LiveFor userId .stripe id) (hAwaiting : id ∈ w.awaiting)
    (hEnds : id ∉ stillAwaiting w.awaiting event) :
    (w.store.deliver cfg.plans ⟨order, event⟩).storedSub userId .stripe = some (some id) := by
  cases event with
  | stripeCheckout session =>
      obtain ⟨named, subId, hUser, hNe, hPaid, hSub, hSubLive, hRow⟩ := hTrue
      -- no longer awaited, so this is the event that was awaited
      have hSame : subId = id := by
        by_contra hOther
        apply hEnds
        simpa [stillAwaiting, hSub, hAwaiting] using Ne.symm hOther
      subst hSame
      obtain rfl := h.owner_unique _ _ _ _ hSubLive hLive
      exact storedSub_deliver_checkout hUser hNe hPaid hSub hRow
  | charged entity => exact absurd hAwaiting hEnds
  | cancelled entity => exact absurd hAwaiting hEnds
  | paymentFailed paymentCustomerId entity => exact absurd hAwaiting hEnds
  | stripeSubChange sub => exact absurd hAwaiting hEnds
  | stripePaymentFailed invoice => exact absurd hAwaiting hEnds

theorem World.Consistent.deliver (h : w.Consistent) (k : Nat) :
    (w.step cfg (.deliver k order)).Consistent := by
  simp only [World.step]
  cases hEvent : w.emitted[k]? with
  | none => exact h
  | some event =>
      have hTrue := h.truthful event (List.mem_of_getElem? hEvent)
      have hRows : ∀ userId g, w.store.storedSub userId g ≠ none →
          (w.store.deliver cfg.plans ⟨order, event⟩).storedSub userId g ≠ none := by
        intro userId g hRow hNone
        exact hRow ((storedSub_deliver_eq_none_iff _ _ _ _ _).mp hNone)
      exact
        { razorpay_stored := fun userId id hLive => h.razorpayStored_deliver cfg order hTrue hLive
          stripe_stored := by
            intro userId id hLive
            rcases h.stripe_stored userId id hLive with hAwaiting | hStored
            · by_cases hStill : id ∈ stillAwaiting w.awaiting event
              · exact .inl hStill
              · exact .inr (h.awaited_deliver cfg order hTrue hLive hAwaiting hStill)
            · exact .inr (h.stripeStored_deliver cfg order hTrue hLive hStored)
          unique := h.unique
          owner_unique := h.owner_unique
          id_ne := h.id_ne
          truthful := fun other hMem => (h.truthful other hMem).keepRows rfl hRows
          session_user := by
            intro session hMem
            obtain ⟨hNe, hPaid, hRow⟩ := h.session_user session hMem
            exact ⟨hNe, hPaid, hRows _ _ hRow⟩
          request_user := fun r hMem hRead => hRows _ _ (h.request_user r hMem hRead) }

end Delivery

/-! ## Requests -/

/-- Storing a new customer id keeps the stored subscriptions, and succeeds for existing users
only. -/
theorem storeCustomer_cases (w : World) (userId id : String) (updates : Updates) (g : Gateway)
    (hRazorpay : updates.razorpaySubscriptionId = none)
    (hStripe : updates.stripeSubscriptionId = none) :
    ∃ s result,
      (match w.store.safeUpdate userId updates with
        | .error message => (w, .error (.raised message))
        | .ok store => ({ w with store := store }, .ok (some id))) =
        (({ w with store := s }, result) : World × Except Failure (Option String)) ∧
      SameStored w.store s ∧
      ((∃ custId, result = .ok custId) → w.store.storedSub userId g ≠ none) := by
  cases hUpdate : w.store.safeUpdate userId updates with
  | error message =>
      refine ⟨w.store, .error (.raised message), rfl, fun _ _ => rfl, ?_⟩
      rintro ⟨custId, hOk⟩
      cases hOk
  | ok store =>
      exact ⟨store, .ok (some id), rfl, sameStored_of_safeUpdate hUpdate hRazorpay hStripe,
        fun _ => storedSub_ne_none_of_safeUpdate hUpdate g⟩

/-- A Razorpay checkout's customer step changes the store only, keeps the stored ids, and succeeds
for existing users only. -/
theorem razorpayCustomer_cases {replies : RazorpayReplies} {w : World} {r : CheckoutRequest} :
    ∃ s result, razorpayCustomer replies w r = ({ w with store := s }, result) ∧
      SameStored w.store s ∧
      ((∃ custId, result = .ok custId) →
        r.dbUser ≠ none ∨ w.store.storedSub r.user.userId .razorpay ≠ none) := by
  simp only [razorpayCustomer]
  by_cases hCust : truthy (r.dbUser.bind User.razorpayCustomerId) = true
  · refine ⟨w.store, .ok (r.dbUser.bind User.razorpayCustomerId), by simp [hCust],
      fun _ _ => rfl, fun _ => .inl ?_⟩
    intro hNone
    simp [hNone] at hCust
  · simp only [hCust]
    cases hNew : createCustomer replies r.user.email with
    | error failure =>
        refine ⟨w.store, .error failure, rfl, fun _ _ => rfl, ?_⟩
        rintro ⟨custId, hOk⟩
        cases hOk
    | ok id =>
        obtain ⟨s, result, hStep, hSame, hUser⟩ := storeCustomer_cases w r.user.userId id
          { razorpayCustomerId := some (some id) } .razorpay rfl rfl
        exact ⟨s, result, hStep, hSame, fun hOk => .inr (hUser hOk)⟩

theorem stripeCustomer_cases {replies : StripeReplies} {w : World} {r : CheckoutRequest} :
    ∃ s result, stripeCustomer replies w r = ({ w with store := s }, result) ∧
      SameStored w.store s ∧
      ((∃ custId, result = .ok custId) →
        r.dbUser ≠ none ∨ w.store.storedSub r.user.userId .stripe ≠ none) := by
  simp only [stripeCustomer]
  by_cases hCust : truthy (r.dbUser.bind User.stripeCustomerId) = true
  · refine ⟨w.store, .ok (r.dbUser.bind User.stripeCustomerId), by simp [hCust],
      fun _ _ => rfl, fun _ => .inl ?_⟩
    intro hNone
    simp [hNone] at hCust
  · simp only [hCust]
    cases hNew : replies.createCustomer with
    | none =>
        refine ⟨w.store, .error (.raised "Customer.create"), rfl, fun _ _ => rfl, ?_⟩
        rintro ⟨custId, hOk⟩
        cases hOk
    | some id =>
        obtain ⟨s, result, hStep, hSame, hUser⟩ := storeCustomer_cases w r.user.userId id
          { stripeCustomerId := some (some id) } .stripe rfl rfl
        exact ⟨s, result, hStep, hSame, fun hOk => .inr (hUser hOk)⟩

/-- The edit of a Razorpay checkout keeps the invariant, the stored ids and the dead ones. Without
an upgrade it has either done nothing or failed on an editable subscription. -/
theorem editRazorpay_cases {replies : RazorpayReplies} {w : World} {r : CheckoutRequest}
    {planId : String} {w' : World} {rzSubId : Option String} {upgraded : Bool}
    (h : w.Consistent) (hEdit : editRazorpay replies w r planId = (w', rzSubId, upgraded)) :
    w'.Consistent ∧ SameStored w.store w'.store ∧
      (∀ userId g id, w'.LiveFor userId g id → w.LiveFor userId g id) ∧
      (upgraded = false →
        (¬Editable replies w r ∧ rzSubId = r.dbUser.bind User.razorpaySubscriptionId) ∨
          (Editable replies w r ∧ replies.edit ≠ .ok ∧ rzSubId = none)) := by
  have hSub := h.editSub .razorpay (r.dbUser.bind User.razorpaySubscriptionId) planId replies.edit
  have hStore : (w.editSub .razorpay (r.dbUser.bind User.razorpaySubscriptionId) planId
      replies.edit).store = w.store := by
    rcases World.editSub_cases w .razorpay (r.dbUser.bind User.razorpaySubscriptionId) planId
      replies.edit with hSame | ⟨subId, hMap⟩
    · rw [hSame]
    · rw [hMap]
      rfl
  have hLive : ∀ userId g id, (w.editSub .razorpay (r.dbUser.bind User.razorpaySubscriptionId)
      planId replies.edit).LiveFor userId g id → w.LiveFor userId g id :=
    fun _ _ _ => World.liveFor_of_editSub
  unfold editRazorpay at hEdit
  by_cases hEditable : Editable replies w r
  · by_cases hOk : replies.edit = .ok
    · simp only [hEditable, if_true, hOk, ne_eq, not_true_eq_false, if_false] at hEdit
      rw [hOk] at hSub hStore hLive
      split at hEdit
      · cases hEdit
        exact ⟨hSub, fun _ _ => by rw [hStore], hLive, by simp⟩
      case h_2 store hUpdate =>
        cases hEdit
        have hKept := sameStored_of_safeUpdate hUpdate rfl rfl
        refine ⟨hSub.withStore hKept, ?_, hLive, by simp⟩
        rwa [hStore] at hKept
    · simp only [hEditable, if_true, ne_eq, hOk, not_false_eq_true, Prod.mk.injEq] at hEdit
      obtain ⟨rfl, rfl, rfl⟩ := hEdit
      exact ⟨hSub, fun _ _ => by rw [hStore], hLive, fun _ => .inr ⟨hEditable, hOk, rfl⟩⟩
  · simp only [hEditable, if_false, Prod.mk.injEq] at hEdit
    obtain ⟨rfl, rfl, rfl⟩ := hEdit
    exact ⟨h, fun _ _ => rfl, fun _ _ _ hNow => hNow, fun _ => .inl ⟨hEditable, rfl⟩⟩

/-- A new subscription of a user for whom nothing is live, stored on the user's row. -/
theorem World.Consistent.addRazorpay {v : World} {sub : GatewaySub} {store : Store}
    (h : v.Consistent) (hRow : v.store.storedSub sub.owner .razorpay ≠ none)
    (hNone : ∀ g id, ¬v.LiveFor sub.owner g id) (hFresh : v.FreshId .razorpay sub.id)
    (hUpdate : v.store.safeUpdate sub.owner { razorpaySubscriptionId := some (some sub.id) } =
      .ok store) :
    World.Consistent { v.addSub .razorpay sub with store := store } := by
  -- what is live was live before, or is the new subscription
  have hOldOrNew : ∀ userId g id, (v.addSub .razorpay sub).LiveFor userId g id →
      v.LiveFor userId g id ∨
        (g = .razorpay ∧ sub.id = id ∧ sub.owner = userId) := by
    intro userId g id hNow
    rcases World.liveFor_addSub.mp hNow with hOld | ⟨hg, hId, hOwner, -⟩
    · exact .inl hOld
    · exact .inr ⟨hg, hId, hOwner⟩
  have hStored := storedSub_of_safeUpdate hUpdate
  have hKeepsStripe : ∀ userId, store.storedSub userId .stripe =
      v.store.storedSub userId .stripe := by
    intro userId
    rw [hStored]
    unfold Store.storedSub
    congr 1
    funext row
    by_cases hKey : userId = sub.owner <;> simp [hKey, User.storedSub]
  have hRows : ∀ userId g, v.store.storedSub userId g ≠ none →
      store.storedSub userId g ≠ none := by
    intro userId g hOld hNew
    rw [hStored] at hNew
    apply hOld
    simpa [Store.storedSub] using hNew
  exact
    { razorpay_stored := by
        intro userId id hNow
        rw [hStored]
        rcases hOldOrNew userId .razorpay id hNow with hOld | ⟨-, rfl, rfl⟩
        -- another user's: this one had nothing live
        · have hOther : userId ≠ sub.owner := by
            rintro rfl
            exact hNone .razorpay id hOld
          simpa [hOther, Store.storedSub] using h.razorpay_stored userId id hOld
        · obtain ⟨row, hFound⟩ : ∃ row, v.store.users.getById sub.owner = some row := by
            rw [← Option.ne_none_iff_exists']
            intro hMissing
            simp [Store.storedSub, hMissing] at hRow
          simp [hFound, User.storedSub]
      stripe_stored := by
        intro userId id hNow
        rw [hKeepsStripe]
        rcases hOldOrNew userId .stripe id hNow with hOld | ⟨hg, -⟩
        · exact h.stripe_stored userId id hOld
        · cases hg
      unique := h.addSub_unique sub hNone
      owner_unique := h.addSub_owner_unique sub hFresh
      id_ne := h.addSub_id_ne sub hFresh
      truthful := fun event hMem =>
        ((h.truthful event hMem).addSub sub hFresh).keepRows rfl hRows
      session_user := by
        intro session hMem
        obtain ⟨hNe, hPaid, hHasRow⟩ := h.session_user session hMem
        exact ⟨hNe, hPaid, hRows _ _ hHasRow⟩
      request_user := fun other hMem hRead =>
        hRows _ _ (h.request_user other hMem hRead) }

/-- Creating the new subscription of an existing user keeps the invariant, if the gateway creates
none or if it answers and nothing else of the user is live by then. -/
theorem consistent_replaceRazorpay {cfg : BillingConfig} {replies : RazorpayReplies} {w : World}
    {r : CheckoutRequest} {custId : Option String} {planId : String} {rzSubId : Option String}
    (h : w.Consistent) (hRow : w.store.storedSub r.user.userId .razorpay ≠ none)
    (hSafe : replies.create = .refused ∨ (replies.create = .ok ∧ ∀ g id,
      ¬(if truthy rzSubId then w.cancelSub .razorpay rzSubId replies.cancel else w).LiveFor
        r.user.userId g id)) :
    (replaceRazorpay cfg replies w r custId planId rzSubId).1.Consistent := by
  unfold replaceRazorpay
  have hStore : (if truthy rzSubId then w.cancelSub .razorpay rzSubId replies.cancel else w).store
      = w.store := by
    split
    · exact cancelSub_store _ _ _ _
    · rfl
  have hCancelled : (if truthy rzSubId then w.cancelSub .razorpay rzSubId replies.cancel
      else w).Consistent := by
    split
    · exact h.cancelSub rzSubId replies.cancel
    · exact h
  rw [← hStore] at hRow
  -- From here on only the world after the cancellation matters.
  generalize (if truthy rzSubId then w.cancelSub .razorpay rzSubId replies.cancel else w) = v
    at hSafe hRow hCancelled ⊢
  simp only
  by_cases hCreate : replies.create = .refused ∨ ¬v.FreshId .razorpay replies.newId
  · simpa only [hCreate, if_true] using hCancelled
  · rw [not_or, not_not] at hCreate
    obtain ⟨hNotRefused, hFresh⟩ := hCreate
    rcases hSafe with hRefused | ⟨hOk, hNone⟩
    · exact absurd hRefused hNotRefused
    · simp only [hOk, hFresh]
      let sub : GatewaySub := ⟨replies.newId, r.user.userId, custId, planId, .created⟩
      obtain ⟨store, hUpdate⟩ :=
        exists_safeUpdate hRow { razorpaySubscriptionId := some (some replies.newId) }
      have hAdded : (v.addSub .razorpay sub).store.safeUpdate r.user.userId
          { razorpaySubscriptionId := some (some replies.newId) } = .ok store := hUpdate
      simp only [reduceCtorEq, not_true_eq_false, or_self, if_false]
      rw [hAdded]
      have hStored : World.Consistent { v.addSub .razorpay sub with store := store } :=
        hCancelled.addRazorpay hRow hNone hFresh hUpdate
      exact hStored

/-- A safe end of a Razorpay checkout leaves nothing of the user live before the creation. -/
theorem noLive_of_replacesSafely {replies : RazorpayReplies} {w w' : World} {r : CheckoutRequest}
    {rzSubId : Option String} (h : w.Consistent) (hSafe : ReplacesSafely w r replies)
    (hLive : ∀ userId g id, w'.LiveFor userId g id → w.LiveFor userId g id)
    (hEdit : (¬Editable replies w r ∧ rzSubId = r.dbUser.bind User.razorpaySubscriptionId) ∨
      (Editable replies w r ∧ replies.edit ≠ .ok ∧ rzSubId = none)) :
    replies.create = .refused ∨ (replies.create = .ok ∧ ∀ g id,
      ¬(if truthy rzSubId then w'.cancelSub .razorpay rzSubId replies.cancel else w').LiveFor
        r.user.userId g id) := by
  have hBack : ∀ g id, (if truthy rzSubId then w'.cancelSub .razorpay rzSubId replies.cancel
      else w').LiveFor r.user.userId g id → w.LiveFor r.user.userId g id := by
    intro g id hNow
    apply hLive
    split at hNow
    · exact World.liveFor_of_cancelSub hNow
    · exact hNow
  rcases hSafe with ⟨hEditable, hOk⟩ | hRefused | ⟨hOk, hStripe, hRazorpay⟩
  -- an edit that was to succeed has not come to this point
  · rcases hEdit with ⟨hNot, -⟩ | ⟨-, hFailed, -⟩
    · exact absurd hEditable hNot
    · exact absurd hOk hFailed
  · exact .inl hRefused
  · refine .inr ⟨hOk, ?_⟩
    intro g id hNow
    have hThen := hBack g id hNow
    cases g with
    | stripe => exact World.not_liveFor_iff_noLive.mpr hStripe id hThen
    | razorpay =>
        rcases hRazorpay with hNone | ⟨hStored, hNotEditable, hCancel⟩
        · exact World.not_liveFor_iff_noLive.mpr hNone id hThen
        · -- The live subscription is the stored one, which was just cancelled.
          rw [h.razorpay_stored _ id hThen] at hStored
          have hRead : rzSubId = some id := by
            rcases hEdit with ⟨-, hSame⟩ | ⟨hEditable, -⟩
            · rw [hSame]
              exact (Option.some.inj hStored).symm
            · exact absurd hEditable hNotEditable
          have hNe : id ≠ "" := by
            obtain ⟨sub, hMem, rfl, -⟩ := hThen
            exact h.id_ne _ sub hMem
          have hTruthy : truthy rzSubId = true := by simpa [hRead, truthy] using hNe
          simp only [hTruthy, if_true] at hNow
          rw [hRead] at hNow
          exact World.not_liveFor_cancelSub hCancel hNow

theorem consistent_checkoutRazorpay {cfg : BillingConfig} {replies : RazorpayReplies} {w : World}
    {r : CheckoutRequest} (h : w.Consistent)
    (hRead : r.dbUser ≠ none → w.store.storedSub r.user.userId .razorpay ≠ none)
    (hSafe : ReplacesSafely w r replies) :
    (checkoutRazorpay cfg replies w r).1.Consistent := by
  unfold checkoutRazorpay
  split
  · exact h
  · obtain ⟨s, result, hCustomer, hSame, hUser⟩ := @razorpayCustomer_cases replies w r
    have hAfter : World.Consistent { w with store := s } := h.withStore hSame
    rw [hCustomer]
    cases result with
    | error failure => exact hAfter
    | ok custId =>
        have hRow : s.storedSub r.user.userId .razorpay ≠ none := by
          rw [hSame]
          rcases hUser ⟨custId, rfl⟩ with hDbUser | hRow
          · exact hRead hDbUser
          · exact hRow
        simp only
        cases getRazorpayPlanId cfg r.tier with
        | error failure => exact hAfter
        | ok planId =>
            simp only
            rcases hEdit : editRazorpay replies { w with store := s } r planId with
              ⟨w', rzSubId, upgraded⟩
            obtain ⟨hEdited, hKept, hLive, hOutcome⟩ := editRazorpay_cases hAfter hEdit
            cases upgraded with
            | true => exact hEdited
            | false =>
                simp only
                apply consistent_replaceRazorpay hEdited
                · rw [hKept]
                  exact hRow
                · exact noLive_of_replacesSafely h hSafe hLive (hOutcome rfl)

theorem consistent_modifyStripe {replies : StripeReplies} {w : World} {r : CheckoutRequest}
    {stCustId : Option String} {priceId : String} (h : w.Consistent) :
    (modifyStripe replies w r stCustId priceId).1.Consistent ∧
      SameStored w.store (modifyStripe replies w r stCustId priceId).1.store := by
  have hDone : w.Consistent ∧ SameStored w.store w.store := ⟨h, fun _ _ => rfl⟩
  unfold modifyStripe
  simp only
  split
  · exact hDone
  case h_2 sub _ =>
    split
    · exact hDone
    case h_2 status hStatus =>
      have hTrue : ∀ v : World, v.Truthful (.stripeSubChange
          { id := some sub.id, status := some status, customer := sub.customerId }) := by
        intro v
        unfold modifiableStatus at hStatus
        split at hStatus <;> cases hStatus <;> simp [World.Truthful]
      have hEdited :=
        h.editSub .stripe (r.dbUser.bind User.stripeSubscriptionId) priceId replies.modify
      have hStore : (w.editSub .stripe (r.dbUser.bind User.stripeSubscriptionId) priceId
          replies.modify).store = w.store := by
        rcases World.editSub_cases w .stripe (r.dbUser.bind User.stripeSubscriptionId) priceId
          replies.modify with hSame | ⟨subId, hMap⟩
        · rw [hSame]
        · rw [hMap]
          rfl
      -- only the invariant and the store of the edited world matter
      generalize w.editSub .stripe (r.dbUser.bind User.stripeSubscriptionId) priceId
        replies.modify = v at hEdited hStore ⊢
      have hEmitted : (if replies.modify = .refused then v else v.emit (.stripeSubChange
          { id := some sub.id, status := some status, customer := sub.customerId })).Consistent ∧
          (if replies.modify = .refused then v else v.emit (.stripeSubChange
          { id := some sub.id, status := some status, customer := sub.customerId })).store
            = w.store := by
        split
        · exact ⟨hEdited, hStore⟩
        · exact ⟨hEdited.emit (hTrue v), hStore⟩
      generalize (if replies.modify = .refused then v else v.emit (.stripeSubChange
          { id := some sub.id, status := some status, customer := sub.customerId })) = u
        at hEmitted ⊢
      obtain ⟨hConsistent, hSameStore⟩ := hEmitted
      split
      · exact ⟨hConsistent, fun _ _ => by rw [hSameStore]⟩
      · split
        · exact ⟨hConsistent, fun _ _ => by rw [hSameStore]⟩
        case h_2 store hUpdate =>
          have hKept := sameStored_of_safeUpdate hUpdate rfl rfl
          refine ⟨hConsistent.withStore hKept, ?_⟩
          rwa [hSameStore] at hKept

theorem consistent_startSession {replies : StripeReplies} {w : World} {r : CheckoutRequest}
    {stCustId : Option String} {priceId : String} (h : w.Consistent)
    (hRow : w.store.storedSub r.user.userId .stripe ≠ none) :
    (startSession replies w r stCustId priceId).1.Consistent := by
  have hStarted : World.Consistent
      { w with sessions := w.sessions ++ [⟨r.user.userId, r.tier, stCustId, priceId⟩] } :=
    { h with
      session_user := by
        intro session hMem
        rcases List.mem_append.mp hMem with hOld | hNew
        · exact h.session_user session hOld
        · rw [List.mem_singleton.mp hNew]
          exact ⟨r.user.userId_ne, r.tier_paid, hRow⟩ }
  unfold startSession
  split
  · exact h
  · simp only
    split <;> exact hStarted

theorem consistent_checkoutStripe {cfg : BillingConfig} {replies : StripeReplies} {w : World}
    {r : CheckoutRequest} (h : w.Consistent)
    (hRead : r.dbUser ≠ none → w.store.storedSub r.user.userId .stripe ≠ none) :
    (checkoutStripe cfg replies w r).1.Consistent := by
  unfold checkoutStripe
  split
  · exact h
  · obtain ⟨s, result, hCustomer, hSame, hUser⟩ := @stripeCustomer_cases replies w r
    have hAfter : World.Consistent { w with store := s } := h.withStore hSame
    rw [hCustomer]
    cases result with
    | error failure => exact hAfter
    | ok stCustId =>
        have hRow : s.storedSub r.user.userId .stripe ≠ none := by
          rw [hSame]
          rcases hUser ⟨stCustId, rfl⟩ with hDbUser | hRow
          · exact hRead hDbUser
          · exact hRow
        simp only
        cases getStripePriceId cfg r.tier with
        | error failure => exact hAfter
        | ok priceId =>
            simp only
            obtain ⟨hModified, hKept⟩ :=
              @consistent_modifyStripe replies { w with store := s } r stCustId priceId hAfter
            rcases hModify : modifyStripe replies { w with store := s } r stCustId priceId with
              ⟨w', upgraded⟩
            rw [hModify] at hModified hKept
            cases upgraded with
            | true => exact hModified
            | false =>
                simp only
                apply consistent_startSession hModified
                rw [hKept]
                exact hRow

theorem storedSub_ne_none_iff {s : Store} {userId : String} (g : Gateway) :
    s.storedSub userId g ≠ none ↔ s.users.getById userId ≠ none := by
  simp [Store.storedSub]

theorem World.Consistent.finish {w : World} (h : w.Consistent) (cfg : BillingConfig) (k : Nat)
    (replies : CheckoutReplies) (hOrderly : w.Orderly (.finish k replies)) :
    (w.step cfg (.finish k replies)).Consistent := by
  simp only [World.step]
  cases hRequest : w.requests[k]? with
  | none => exact h
  | some r =>
      have hTaken : World.Consistent { w with requests := w.requests.eraseIdx k } :=
        { h with
          request_user := fun other hMem =>
            h.request_user other (List.mem_of_mem_eraseIdx hMem) }
      have hRead := h.request_user r (List.mem_of_getElem? hRequest)
      simp only [checkout]
      cases hGateway : r.gateway with
      | razorpay =>
          exact consistent_checkoutRazorpay hTaken hRead (hOrderly r hRequest hGateway)
      | stripe =>
          apply consistent_checkoutStripe hTaken
          intro hDbUser
          exact (storedSub_ne_none_iff .stripe).mpr
            ((storedSub_ne_none_iff .razorpay).mp (hRead hDbUser))

theorem World.Consistent.begin {w : World} (h : w.Consistent) (cfg : BillingConfig)
    (user : UserContext) (tier : Tier) (tier_paid : tier.Paid) (gateway : Gateway) :
    (w.step cfg (.begin user tier tier_paid gateway)).Consistent := by
  simp only [World.step]
  split
  · exact h
  · exact
      { h with
        request_user := by
          intro r hMem hRead
          rcases List.mem_append.mp hMem with hOld | hNew
          · exact h.request_user r hOld hRead
          · rw [List.mem_singleton.mp hNew] at hRead ⊢
            exact (storedSub_ne_none_iff .razorpay).mpr hRead }

theorem World.Consistent.step {w : World} (h : w.Consistent) (cfg : BillingConfig)
    (step : CheckoutStep) (hOrderly : w.Orderly step) : (w.step cfg step).Consistent := by
  cases step with
  | begin user tier tier_paid gateway => exact h.begin cfg user tier tier_paid gateway
  | finish k replies => exact h.finish cfg k replies hOrderly
  | advance g id status => exact h.advance cfg g id status
  | complete k newId => exact h.complete cfg k newId hOrderly
  | deliver k order => exact h.deliver cfg order k

def liveConfig : BillingConfig where
  razorpayKeyId := "rzp_key"
  stripeSecretKey := "sk_key"
  plans := envPlans
  stripePricePremium := some "price_premium"
  stripePricePro := some "price_pro"

/-- A free user whom both gateways know as a customer. -/
def freeUser : User where
  userId := "u1"
  email := "a@example.com"
  fullName := "A"
  role := .general
  subscriptionTier := some .free
  subscriptionStatus := some .active
  razorpayCustomerId := some "cust_1"
  razorpaySubscriptionId := none
  stripeCustomerId := some "cus_1"
  stripeSubscriptionId := none

def freeUsers : UserTable := ⟨[freeUser], by decide⟩

def freeContext : UserContext := ⟨"u1", "a@example.com", by decide⟩

/-- Both gateways answer every call; a new Razorpay subscription gets the given id. -/
def answering (newId : String) : CheckoutReplies where
  razorpay := ⟨.failed, fun _ => none, true, .ok, .ok, .ok, newId⟩
  stripe := ⟨none, true, .ok, .ok, "url"⟩

/-- A Razorpay checkout, its first charge, and an upgrade by an edit of the subscription. -/
def upgradeRun : List CheckoutStep :=
  [.begin freeContext .pro (.inl rfl) .razorpay, .finish 0 (answering "sub_1"),
    .advance .razorpay "sub_1" .active, .deliver 0 .asStored,
    .begin freeContext .premium (.inr rfl) .razorpay, .finish 0 (answering "sub_2")]

/-- A Razorpay subscriber upgrades through Stripe. -/
def switchRun : List CheckoutStep :=
  [.begin freeContext .pro (.inl rfl) .razorpay, .finish 0 (answering "sub_1"),
    .advance .razorpay "sub_1" .active, .deliver 0 .asStored,
    .begin freeContext .premium (.inr rfl) .stripe, .finish 0 (answering "sub_2"),
    .complete 0 "sub_3", .deliver 1 .asStored]

end AsetPlatform.Billing

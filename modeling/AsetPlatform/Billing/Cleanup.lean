import AsetPlatform.Billing.CheckoutRuns
import AsetPlatform.Library.Threads

/-!
# The cleanup of subscriptions

`cleanup_subscriptions` reads the users, then the first page of Razorpay's subscriptions, and then
goes through the page and cancels each active subscription that no user stored when the users were
read and whose customer is one of theirs. Checkouts, webhooks and other cleanups go on meanwhile; a
checkout creates its subscription at the gateway before it stores the id on the user.

`Cleanup.since` is no part of the program. It remembers to which id a user's current subscription
was changed after the cleanup had read the users.

`cancels_orphans_iff` says which runs cancel no current subscription, and which cleanups that nothing
disturbs leave no orphan.
-/

set_option autoImplicit false

namespace AsetPlatform.Billing.SubscriptionCleanup

open AsetPlatform.Library

/-! ## A checkout in two parts -/

/-- `replaceRazorpay` up to the creation, with the id that is still to be stored. -/
def createRazorpay (replies : RazorpayReplies) (w : World) (r : CheckoutRequest)
    (custId : Option String) (planId : String) (rzSubId : Option String) : World × Option String :=
  let w := if truthy rzSubId then w.cancelSub .razorpay rzSubId replies.cancel else w
  if replies.create = .refused ∨ ¬w.FreshId .razorpay replies.newId then (w, none)
  else
    let w := w.addSub .razorpay ⟨replies.newId, r.user.userId, custId, planId, .created⟩
    if replies.create = .lost then (w, none) else (w, some replies.newId)

/-- `_checkout_razorpay` up to the creation. -/
def placeRazorpay (cfg : BillingConfig) (replies : RazorpayReplies) (w : World)
    (r : CheckoutRequest) : World × Option String :=
  if cfg.razorpayKeyId = "" then (w, none)
  else
    match razorpayCustomer replies w r with
    | (w, .error _) => (w, none)
    | (w, .ok custId) =>
        match getRazorpayPlanId cfg r.tier with
        | .error _ => (w, none)
        | .ok planId =>
            match editRazorpay replies w r planId with
            | (w, _, true) => (w, none)
            | (w, rzSubId, false) => createRazorpay replies w r custId planId rzSubId

/-- The update at the end of a checkout; one that raises changes nothing. -/
def storeNew (w : World) (userId newId : String) : World :=
  match w.store.safeUpdate userId { razorpaySubscriptionId := some (some newId) } with
  | .error _ => w
  | .ok store => { w with store := store }

/-- The second part, if there is one. -/
def storePlaced (userId : String) : World × Option String → World
  | (w, none) => w
  | (w, some newId) => storeNew w userId newId

theorem replaceRazorpay_eq (cfg : BillingConfig) (replies : RazorpayReplies) (w : World)
    (r : CheckoutRequest) (custId : Option String) (planId : String) (rzSubId : Option String) :
    (replaceRazorpay cfg replies w r custId planId rzSubId).1 =
      storePlaced r.user.userId (createRazorpay replies w r custId planId rzSubId) := by
  unfold replaceRazorpay createRazorpay
  simp only
  -- the cancellation comes first in both
  generalize (if truthy rzSubId = true then w.cancelSub .razorpay rzSubId replies.cancel else w) = v
  by_cases hRefused : replies.create = .refused ∨ ¬v.FreshId .razorpay replies.newId
  · rw [if_pos hRefused, if_pos hRefused]
    rfl
  · rw [if_neg hRefused, if_neg hRefused]
    by_cases hLost : replies.create = .lost
    · rw [if_pos hLost, if_pos hLost]
      rfl
    · rw [if_neg hLost, if_neg hLost]
      simp only [storePlaced, storeNew]
      cases (v.addSub .razorpay _).store.safeUpdate r.user.userId _ with
      | error message => rfl
      | ok store => rfl

/-- With nothing between them the two parts are the checkout. -/
theorem checkoutRazorpay_eq (cfg : BillingConfig) (replies : RazorpayReplies) (w : World)
    (r : CheckoutRequest) :
    (checkoutRazorpay cfg replies w r).1 =
      storePlaced r.user.userId (placeRazorpay cfg replies w r) := by
  unfold checkoutRazorpay placeRazorpay
  split
  · rfl
  · cases hCustomer : razorpayCustomer replies w r with
    | mk w' customer =>
        cases customer with
        | error failure => rfl
        | ok custId =>
            cases getRazorpayPlanId cfg r.tier with
            | error failure => rfl
            | ok planId =>
                simp only
                cases hEdit : editRazorpay replies w' r planId with
                | mk w'' rest =>
                    obtain ⟨rzSubId, upgraded⟩ := rest
                    cases upgraded with
                    | true => rfl
                    | false => exact replaceRazorpay_eq cfg replies w'' r custId planId rzSubId

/-! ## The cleanup -/

inductive Classification where
  | matched
  | orphaned
  | unlinked
  deriving DecidableEq, Repr

inductive TriageAction where
  | keep
  | willCancel
  | cancelled
  | cancelFailed
  | manualReview
  deriving DecidableEq, Repr

structure TriageEntry where
  subId : String
  customerId : Option String
  status : GatewayStatus
  classification : Classification
  action : TriageAction

/-- A cleanup under way: the keys of its two maps, and the subscriptions it has still to go through,
`none` before it has fetched them. -/
structure Cleanup where
  dryRun : Bool
  subToUser : List String
  custToUser : List String
  items : Option (List GatewaySub) := none
  triage : List TriageEntry := []
  cleaned : Nat := 0
  failed : Bool := false
  since : String → Option (Option String) := fun _ => none

/-- The subscription id of a row, unless it is empty. -/
def currentOf (user : User) : Option String := user.razorpaySubscriptionId.filter (· ≠ "")

/-- The customer id of a row, unless it is empty. -/
def customerOf (user : User) : Option String := user.razorpayCustomerId.filter (· ≠ "")

/-- The lookup maps. -/
def Cleanup.ofUsers (dryRun : Bool) (allUsers : List User) : Cleanup where
  dryRun := dryRun
  subToUser := allUsers.filterMap currentOf
  custToUser := allUsers.filterMap customerOf

/-- `_ACTIVE_STATUSES` -/
def isActive (status : GatewayStatus) : Bool := status = .active ∨ status = .authenticated

def classify (c : Cleanup) (sub : GatewaySub) : Classification :=
  if sub.id ∈ c.subToUser then .matched
  else if sub.customerId.any (· ∈ c.custToUser) then .orphaned
  else .unlinked

/-- `triage.append` -/
def Cleanup.report (c : Cleanup) (sub : GatewaySub) (classification : Classification)
    (action : TriageAction) : Cleanup :=
  { c with
    triage := c.triage ++ [⟨sub.id, sub.customerId, sub.status, classification, action⟩] }

/-- One round of the loop. -/
def triageItem (w : World) (c : Cleanup) (sub : GatewaySub) (reply : Reply) : World × Cleanup :=
  if isActive sub.status = false then (w, c)
  else
    match classify c sub with
    | .matched => (w, c.report sub .matched .keep)
    | .orphaned =>
        if c.dryRun then (w, c.report sub .orphaned .willCancel)
        else
          let w := w.cancelSub .razorpay (some sub.id) reply
          if reply = .ok then
            (w, { c.report sub .orphaned .cancelled with cleaned := c.cleaned + 1 })
          -- the exception is caught; the gateway may have cancelled all the same
          else (w, c.report sub .orphaned .cancelFailed)
    | .unlinked => (w, c.report sub .unlinked .manualReview)

/-- The order in which Razorpay lists its subscriptions. -/
structure SubOrder where
  arrange : List GatewaySub → List GatewaySub
  perm : ∀ subs, (arrange subs).Perm subs

/-- `subscription.all` with a count of 100. -/
def firstPage (order : SubOrder) (subs : List GatewaySub) : List GatewaySub :=
  (order.arrange subs).take 100

/-! ## Runs -/

/-- The world, the checkouts that have created a subscription and not stored it, and the cleanups. -/
structure State where
  world : World
  placed : List (String × String)
  cleanups : List Cleanup

inductive Step where
  /-- A cleanup reads the users. -/
  | begin (dryRun : Bool) (order : RowOrder)
  /-- The `k`-th cleanup fetches its page. -/
  | fetch (k : Nat) (order : SubOrder) (fails : Bool)
  /-- The `k`-th cleanup goes through one more subscription. -/
  | next (k : Nat) (reply : Reply)
  | checkout (e : CheckoutStep)
  /-- The `k`-th request in progress, one at Razorpay, runs up to the creation. -/
  | place (k : Nat) (replies : RazorpayReplies)
  /-- The `j`-th created subscription is stored. -/
  | store (j : Nat)
  /-- Anything else that changes users and subscriptions. -/
  | others (world : World)

def currentSub (t : UserTable) (userId : String) : Option String :=
  (t.getById userId).bind currentOf

/-- What a cleanup does not see of a change of the users. -/
def Cleanup.missed (t t' : UserTable) (c : Cleanup) : Cleanup :=
  { c with
    since := fun userId =>
      if currentSub t' userId = currentSub t userId then c.since userId
      else some (currentSub t' userId) }

/-- Another world, which no cleanup looks at. -/
def State.move (s : State) (w : World) : State :=
  { s with
    world := w
    cleanups := s.cleanups.map (Cleanup.missed s.world.store.users w.store.users) }

def placeStep (cfg : BillingConfig) (s : State) (k : Nat) (replies : RazorpayReplies) : State :=
  match s.world.requests[k]? with
  | none => s
  | some r =>
      if r.gateway = .razorpay then
        let w := { s.world with requests := s.world.requests.eraseIdx k }
        match placeRazorpay cfg replies w r with
        | (w, none) => s.move w
        | (w, some newId) =>
            { s.move w with placed := s.placed ++ [(r.user.userId, newId)] }
      else s

def step (cfg : BillingConfig) (s : State) : Step → State
  | .begin dryRun order =>
      { s with
        cleanups := s.cleanups ++ [.ofUsers dryRun (s.world.store.users.listAll order)] }
  | .fetch k order fails =>
      match s.cleanups[k]? with
      | none => s
      | some c =>
          if c.items ≠ none then s
          else if fails then
            -- the fetch raises: the answer is the error, and the loop has nothing to do
            { s with cleanups := s.cleanups.set k { c with items := some [], failed := true } }
          else
            { s with
              cleanups := s.cleanups.set k
                { c with items := some (firstPage order (s.world.subs .razorpay)) } }
  | .next k reply =>
      match s.cleanups[k]? with
      | none => s
      | some c =>
          match c.items with
          | none => s
          | some [] => s
          | some (sub :: rest) =>
              match triageItem s.world { c with items := some rest } sub reply with
              | (w, c) => { s with world := w, cleanups := s.cleanups.set k c }
  | .checkout e => s.move (s.world.step cfg e)
  | .place k replies => placeStep cfg s k replies
  | .store j =>
      match s.placed[j]? with
      | none => s
      | some (userId, newId) =>
          { s.move (storeNew s.world userId newId) with placed := s.placed.eraseIdx j }
  | .others w => s.move w

/-! ## What is cancelled -/

/-- A subscription that a cleanup cancels: active, of a customer it knows, and in no row it has read. -/
def Doomed (c : Cleanup) (sub : GatewaySub) : Prop :=
  c.dryRun = false ∧ isActive sub.status = true ∧ classify c sub = .orphaned

instance (c : Cleanup) (sub : GatewaySub) : Decidable (Doomed c sub) :=
  inferInstanceAs (Decidable (_ ∧ _ ∧ _))

/-- The step takes the subscription next in a cleanup's page to be an orphan and cancels it. -/
def Cancels (s : State) (e : Step) (c : Cleanup) (sub : GatewaySub) : Prop :=
  ∃ k reply rest, e = .next k reply ∧ s.cleanups[k]? = some c ∧ c.items = some (sub :: rest) ∧
    Doomed c sub ∧ reply ≠ .refused

/-- No subscription that a cleanup cancels is at that moment the current one of a user. -/
def OrphansOnly (s : State) (e : Step) : Prop :=
  ∀ c sub, Cancels s e c sub → ∀ userId, currentSub s.world.store.users userId ≠ some sub.id

/-- No subscription that a cleanup cancels is what a user's current one was last changed to since the
cleanup had read the users. -/
def NotStoredSince (s : State) (e : Step) : Prop :=
  ∀ c sub, Cancels s e c sub → ∀ userId, c.since userId ≠ some (some sub.id)

section Next

variable {w : World} {c : Cleanup} {sub : GatewaySub} {reply : Reply}

theorem cancelSub_store (w : World) (g : Gateway) (id : Option String) (reply : Reply) :
    (w.cancelSub g id reply).store = w.store := by
  obtain ⟨hSame, -⟩ | ⟨sub, -, -, hCancel⟩ := World.cancelSub_cases w g id reply
  · rw [hSame]
  · rw [hCancel]
    rfl

theorem triageItem_world :
    (triageItem w c sub reply).1 =
      if Doomed c sub then w.cancelSub .razorpay (some sub.id) reply else w := by
  unfold triageItem
  by_cases hDoomed : Doomed c sub
  · rw [if_pos hDoomed]
    obtain ⟨hDry, hActive, hClass⟩ := hDoomed
    by_cases hReply : reply = .ok <;> simp [hActive, hClass, hDry, hReply]
  · rw [if_neg hDoomed]
    by_cases hActive : isActive sub.status = true
    · cases hClass : classify c sub with
      | matched => simp [hActive]
      | unlinked => simp [hActive]
      | orphaned =>
          have hDry : c.dryRun = true := by simpa [Doomed, hActive, hClass] using hDoomed
          simp [hActive, hDry]
    · simp [hActive]

/-- Two states of a cleanup that has read the users and missed the same changes since. -/
structure SameReading (c c' : Cleanup) : Prop where
  dryRun : c'.dryRun = c.dryRun
  subToUser : c'.subToUser = c.subToUser
  custToUser : c'.custToUser = c.custToUser
  since : c'.since = c.since

theorem Doomed.congr {c c' : Cleanup} (h : SameReading c c') {sub : GatewaySub} :
    Doomed c' sub ↔ Doomed c sub := by
  simp only [Doomed, classify, h.dryRun, h.subToUser, h.custToUser]

theorem triageItem_cleanup :
    SameReading c (triageItem w c sub reply).2 ∧ (triageItem w c sub reply).2.items = c.items := by
  unfold triageItem
  split
  · exact ⟨⟨rfl, rfl, rfl, rfl⟩, rfl⟩
  · split
    · exact ⟨⟨rfl, rfl, rfl, rfl⟩, rfl⟩
    · split
      · exact ⟨⟨rfl, rfl, rfl, rfl⟩, rfl⟩
      · split <;> exact ⟨⟨rfl, rfl, rfl, rfl⟩, rfl⟩
    · exact ⟨⟨rfl, rfl, rfl, rfl⟩, rfl⟩

/-- `cleaned` counts the subscriptions that are reported as cancelled. -/
def Counted (c : Cleanup) : Prop :=
  c.cleaned = c.triage.countP fun entry => entry.action = .cancelled

/-- A step through the page: the subscription is cancelled if it is doomed, and the cleanup goes on
with the rest. -/
theorem step_next {cfg : BillingConfig} {s : State} {k : Nat} {rest : List GatewaySub}
    (hc : s.cleanups[k]? = some c) (hItems : c.items = some (sub :: rest)) :
    ∃ c', SameReading c c' ∧ c'.items = some rest ∧ step cfg s (.next k reply) =
      { s with
        world := if Doomed c sub then s.world.cancelSub .razorpay (some sub.id) reply else s.world
        cleanups := s.cleanups.set k c' } := by
  obtain ⟨hSame, hRest⟩ := @triageItem_cleanup s.world { c with items := some rest } sub reply
  refine ⟨_, ⟨hSame.dryRun, hSame.subToUser, hSame.custToUser, hSame.since⟩, hRest, ?_⟩
  have hDoomed : Doomed { c with items := some rest } sub ↔ Doomed c sub :=
    Doomed.congr ⟨rfl, rfl, rfl, rfl⟩
  simp only [step, hc, hItems, triageItem_world, hDoomed]

end Next

/-! ## What a cleanup knows -/

/-- A user's current subscription is in the map, unless it was changed since. -/
structure Tracks (t : UserTable) (c : Cleanup) : Prop where
  changed : ∀ userId sub, c.since userId = some sub → currentSub t userId = sub
  same : ∀ userId subId, c.since userId = none → currentSub t userId = some subId →
    subId ∈ c.subToUser

theorem mem_subToUser {t : UserTable} {order : RowOrder} {dryRun : Bool} {subId : String} :
    subId ∈ (Cleanup.ofUsers dryRun (t.listAll order)).subToUser ↔
      ∃ userId, currentSub t userId = some subId := by
  simp only [Cleanup.ofUsers, List.mem_filterMap, UserTable.mem_listAll]
  constructor
  · rintro ⟨user, hUser, hSub⟩
    exact ⟨user.userId, by rw [currentSub, UserTable.getById_of_mem hUser, Option.bind_some, hSub]⟩
  · rintro ⟨userId, hSub⟩
    obtain ⟨user, hUser, hCurrent⟩ := Option.bind_eq_some_iff.mp hSub
    exact ⟨user, UserTable.mem_of_getById hUser, hCurrent⟩

theorem tracks_ofUsers (t : UserTable) (dryRun : Bool) (order : RowOrder) :
    Tracks t (.ofUsers dryRun (t.listAll order)) where
  changed userId sub h := by cases h
  same userId subId _ hCurrent := mem_subToUser.mpr ⟨userId, hCurrent⟩

theorem Tracks.missed {t : UserTable} {c : Cleanup} (h : Tracks t c) (t' : UserTable) :
    Tracks t' (c.missed t t') where
  changed userId sub hSince := by
    simp only [Cleanup.missed] at hSince
    split at hSince
    · rename_i hSame
      rw [hSame]
      exact h.changed userId sub hSince
    · exact Option.some.inj hSince
  same userId subId hSince hCurrent := by
    simp only [Cleanup.missed] at hSince
    split at hSince
    · rename_i hSame
      exact h.same userId subId hSince (hSame ▸ hCurrent)
    · cases hSince

theorem Tracks.congr {t : UserTable} {c c' : Cleanup} (h : Tracks t c) (hSame : SameReading c c') :
    Tracks t c' := by
  constructor
  · rw [hSame.since]
    exact h.changed
  · rw [hSame.since, hSame.subToUser]
    exact h.same

/-- Every cleanup under way. -/
def AllTrack (s : State) : Prop := ∀ c ∈ s.cleanups, Tracks s.world.store.users c

theorem AllTrack.move {s : State} (h : AllTrack s) (w : World) : AllTrack (s.move w) := by
  intro c hc
  obtain ⟨c', hc', rfl⟩ := List.mem_map.mp hc
  exact (h c' hc').missed w.store.users

theorem AllTrack.step {cfg : BillingConfig} {s : State} (h : AllTrack s) (e : Step) :
    AllTrack (step cfg s e) := by
  cases e with
  | begin dryRun order =>
      exact forall_mem_append_singleton h (tracks_ofUsers s.world.store.users dryRun order)
  | fetch k order fails =>
      simp only [SubscriptionCleanup.step]
      cases hk : s.cleanups[k]? with
      | none => exact h
      | some c =>
          have hc : Tracks s.world.store.users c := h c (List.mem_of_getElem? hk)
          simp only
          split
          · exact h
          · split
            · exact forall_mem_set h (hc.congr ⟨rfl, rfl, rfl, rfl⟩)
            · exact forall_mem_set h (hc.congr ⟨rfl, rfl, rfl, rfl⟩)
  | next k reply =>
      cases hk : s.cleanups[k]? with
      | none => simpa only [SubscriptionCleanup.step, hk] using h
      | some c =>
          have hc : Tracks s.world.store.users c := h c (List.mem_of_getElem? hk)
          match hItems : c.items with
          | none => simpa only [SubscriptionCleanup.step, hk, hItems] using h
          | some [] => simpa only [SubscriptionCleanup.step, hk, hItems] using h
          | some (sub :: rest) =>
              obtain ⟨c', hSame, -, hStep⟩ := @step_next c sub reply cfg s k rest hk hItems
              rw [hStep]
              have hStore : (if Doomed c sub then s.world.cancelSub .razorpay (some sub.id) reply
                  else s.world).store = s.world.store := by
                split
                · exact cancelSub_store ..
                · rfl
              simp only [AllTrack, hStore]
              exact forall_mem_set h (hc.congr hSame)
  | checkout e => exact h.move _
  | place k replies =>
      simp only [SubscriptionCleanup.step, placeStep]
      split
      · exact h
      · split
        · split
          · exact h.move _
          · exact h.move _
        · exact h
  | store j =>
      simp only [SubscriptionCleanup.step]
      split
      · exact h
      · exact h.move _
  | others w => exact h.move w

theorem orphansOnly_iff {s : State} (h : AllTrack s) (e : Step) :
    OrphansOnly s e ↔ NotStoredSince s e := by
  refine forall_congr' fun c => forall_congr' fun sub => forall_congr' fun hCancels =>
    forall_congr' fun userId => not_congr ?_
  obtain ⟨k, reply, rest, -, hk, -, ⟨-, -, hClass⟩, -⟩ := hCancels
  have hc : Tracks s.world.store.users c := h c (List.mem_of_getElem? hk)
  have hNew : sub.id ∉ c.subToUser := by
    intro hMem
    simp [classify, hMem] at hClass
  constructor
  · intro hCurrent
    cases hSince : c.since userId with
    | none => exact absurd (hc.same userId sub.id hSince hCurrent) hNew
    -- changed since the reading, and to this subscription
    | some stored => rw [← hc.changed userId stored hSince, hCurrent]
  · exact hc.changed userId (some sub.id)

theorem run_orphansOnly_iff (cfg : BillingConfig) (w : World) (es : List Step) :
    EveryStep (step cfg) OrphansOnly ⟨w, [], []⟩ es ↔
      EveryStep (step cfg) NotStoredSince ⟨w, [], []⟩ es :=
  everyStep_congr (fun _ e h => h.step e) (fun _ e h => orphansOnly_iff h e)
    (fun _ hc => by cases hc)

/-! ## A cleanup that nothing disturbs -/

def KnownCustomer (t : UserTable) (customerId : Option String) : Prop :=
  ∃ user ∈ t.rows, ∃ id, customerId = some id ∧ customerOf user = some id

/-- An active subscription of a known customer that is no user's current one. -/
def Orphan (t : UserTable) (sub : GatewaySub) : Prop :=
  isActive sub.status = true ∧ KnownCustomer t sub.customerId ∧
    ∀ userId, currentSub t userId ≠ some sub.id

def NoOrphanLeft (w : World) : Prop := ∀ sub ∈ w.subs .razorpay, ¬Orphan w.store.users sub

/-- Each orphan is on the first page of the gateway's list. -/
def OnFirstPage (w : World) (order : SubOrder) : Prop :=
  ∀ sub ∈ w.subs .razorpay, Orphan w.store.users sub →
    ∃ item ∈ firstPage order (w.subs .razorpay), Orphan w.store.users item ∧ item.id = sub.id

/-- The steps of one cleanup from its start to its return, with all cancellations succeeding. -/
def undisturbed (w : World) (order : RowOrder) (listing : SubOrder) : List Step :=
  [.begin false order, .fetch 0 listing false] ++
    List.replicate (firstPage listing (w.subs .razorpay)).length (.next 0 .ok)

section Undisturbed

variable {cfg : BillingConfig} {w : World}

theorem active_cancelSub_iff (id : String) (sub : GatewaySub) :
    (sub ∈ (w.cancelSub .razorpay (some id) .ok).subs .razorpay ∧ isActive sub.status = true) ↔
      (sub ∈ w.subs .razorpay ∧ isActive sub.status = true) ∧ sub.id ≠ id := by
  obtain ⟨hSame, hNone⟩ | ⟨old, -, hId, hCancel⟩ :=
    World.cancelSub_cases w .razorpay (some id) .ok
  · rw [hSame]
    have hOther := hNone.resolve_left (by simp)
    constructor
    · intro h
      exact ⟨h, fun hEq => hOther sub h.1 (by rw [hEq])⟩
    · exact And.left
  · obtain rfl := Option.some.inj hId
    rw [hCancel]
    simp only [World.emit, World.mapSub, Function.update_self, List.mem_map]
    constructor
    · rintro ⟨⟨before, hBefore, rfl⟩, hActive⟩
      by_cases hEq : before.id = old.id
      · simp [hEq, GatewaySub.withStatus, isActive] at hActive
      · simp only [hEq, if_false] at hActive ⊢
        exact ⟨⟨hBefore, hActive⟩, hEq⟩
    · rintro ⟨⟨hMem, hActive⟩, hNe⟩
      exact ⟨⟨sub, hMem, if_neg hNe⟩, hActive⟩

theorem run_next (items : List GatewaySub) {s : State} {c : Cleanup} (hc : s.cleanups = [c])
    (hItems : c.items = some items) :
    let s' := runFrom (step cfg) s (List.replicate items.length (.next 0 .ok))
    (∃ c', s'.cleanups = [c'] ∧ c'.items = some []) ∧ s'.world.store = s.world.store ∧
      ∀ sub, (sub ∈ s'.world.subs .razorpay ∧ isActive sub.status = true) ↔
        (sub ∈ s.world.subs .razorpay ∧ isActive sub.status = true) ∧
          ∀ item ∈ items, Doomed c item → sub.id ≠ item.id := by
  -- over the page; what the cleanup has read stays, so the same subscriptions are doomed
  induction items generalizing s c with
  | nil => exact ⟨⟨c, hc, hItems⟩, rfl, by simp⟩
  | cons item rest ih =>
      obtain ⟨c', hSame, hRest, hStep⟩ :=
        @step_next c item .ok cfg s 0 rest (by simp [hc]) hItems
      have hOne : (step cfg s (.next 0 .ok)).cleanups = [c'] := by
        rw [hStep, hc]
        rfl
      obtain ⟨hDone, hStore, hActive⟩ := ih hOne hRest
      simp only [List.length_cons, List.replicate_succ, runFrom_cons]
      refine ⟨hDone, ?_, ?_⟩
      · rw [hStore, hStep]
        simp only
        split
        · exact cancelSub_store ..
        · rfl
      · intro sub
        rw [hActive, hStep]
        simp only [List.forall_mem_cons, Doomed.congr hSame]
        by_cases hDoomed : Doomed c item
        · rw [if_pos hDoomed, active_cancelSub_iff, and_assoc]
          simp [hDoomed]
        · simp [hDoomed]

theorem doomed_iff_orphan {t : UserTable} {order : RowOrder} {sub : GatewaySub} :
    Doomed (.ofUsers false (t.listAll order)) sub ↔ Orphan t sub := by
  have hKnown : (sub.customerId.any
      (· ∈ (Cleanup.ofUsers false (t.listAll order)).custToUser)) = true ↔
      KnownCustomer t sub.customerId := by
    rw [Option.any_eq_true]
    simp only [Cleanup.ofUsers, List.mem_filterMap, UserTable.mem_listAll, decide_eq_true_eq]
    constructor
    · rintro ⟨id, hId, user, hUser, hCust⟩
      exact ⟨user, hUser, id, hId, hCust⟩
    · rintro ⟨user, hUser, id, hId, hCust⟩
      exact ⟨id, hId, user, hUser, hCust⟩
  have hCurrent : sub.id ∉ (Cleanup.ofUsers false (t.listAll order)).subToUser ↔
      ∀ userId, currentSub t userId ≠ some sub.id := by
    rw [mem_subToUser, not_exists]
  have hOrphaned : classify (.ofUsers false (t.listAll order)) sub = .orphaned ↔
      sub.id ∉ (Cleanup.ofUsers false (t.listAll order)).subToUser ∧
        sub.customerId.any (· ∈ (Cleanup.ofUsers false (t.listAll order)).custToUser) = true := by
    unfold classify
    split
    · simp [*]
    · split <;> simp [*]
  unfold Doomed Orphan
  rw [hOrphaned, hKnown, hCurrent]
  constructor
  · rintro ⟨-, hActive, hNew, hCust⟩
    exact ⟨hActive, hCust, hNew⟩
  · rintro ⟨hActive, hCust, hNew⟩
    exact ⟨rfl, hActive, hNew, hCust⟩

variable (cfg w)

theorem undisturbed_returns (order : RowOrder) (listing : SubOrder) :
    ∃ c, (runFrom (step cfg) ⟨w, [], []⟩ (undisturbed w order listing)).cleanups = [c] ∧
      c.items = some [] := by
  rw [undisturbed, runFrom_append]
  exact (run_next (firstPage listing (w.subs .razorpay)) rfl rfl).1

theorem noOrphanLeft_iff (order : RowOrder) (listing : SubOrder) :
    NoOrphanLeft (runFrom (step cfg) ⟨w, [], []⟩ (undisturbed w order listing)).world ↔
      OnFirstPage w listing := by
  rw [undisturbed, runFrom_append]
  obtain ⟨-, hStore, hActive⟩ := @run_next cfg (firstPage listing (w.subs .razorpay))
    (runFrom (step cfg) ⟨w, [], []⟩ [.begin false order, .fetch 0 listing false]) _ rfl rfl
  have hUsers : (runFrom (step cfg) ⟨w, [], []⟩
      [.begin false order, .fetch 0 listing false]).world = w := rfl
  have hDoomed (sub : GatewaySub) : Doomed
      { Cleanup.ofUsers false (w.store.users.listAll order) with
        items := some (firstPage listing (w.subs .razorpay)) } sub ↔ Orphan w.store.users sub := by
    rw [← doomed_iff_orphan]
    exact Doomed.congr ⟨rfl, rfl, rfl, rfl⟩
  unfold NoOrphanLeft OnFirstPage
  rw [hStore, hUsers]
  rw [hUsers] at hActive
  constructor
  · intro hNone sub hSub hOrphan
    by_contra hPage
    push Not at hPage
    -- what is on no page is still there, and still active
    have hLeft := (hActive sub).mpr ⟨⟨hSub, hOrphan.1⟩, fun item hItem hDoom hEq =>
      hPage item hItem ((hDoomed item).mp hDoom) hEq.symm⟩
    exact hNone sub hLeft.1 hOrphan
  · intro hPage sub hSub hOrphan
    obtain ⟨⟨hBefore, -⟩, hKept⟩ := (hActive sub).mp ⟨hSub, hOrphan.1⟩
    obtain ⟨item, hItem, hDoom, hEq⟩ := hPage sub hBefore hOrphan
    exact hKept item hItem ((hDoomed item).mpr hDoom) hEq.symm

end Undisturbed

/-! ## Both parts -/

/-- Along every run no current subscription is cancelled exactly when none that is cancelled was
stored behind the cleanup's back, and a cleanup that nothing disturbs leaves no orphan exactly when
all are on the first page. -/
theorem cancels_orphans_iff (cfg : BillingConfig) (w : World) :
    (∀ es : List Step, EveryStep (step cfg) OrphansOnly ⟨w, [], []⟩ es ↔
        EveryStep (step cfg) NotStoredSince ⟨w, [], []⟩ es) ∧
      ∀ (order : RowOrder) (listing : SubOrder),
        (∃ c, (runFrom (step cfg) ⟨w, [], []⟩ (undisturbed w order listing)).cleanups = [c] ∧
          c.items = some []) ∧
        (NoOrphanLeft (runFrom (step cfg) ⟨w, [], []⟩ (undisturbed w order listing)).world ↔
          OnFirstPage w listing) :=
  ⟨run_orphansOnly_iff cfg w, fun order listing =>
    ⟨undisturbed_returns cfg w order listing, noOrphanLeft_iff cfg w order listing⟩⟩

/-- A user of Razorpay without a subscription. -/
def lostUser : User where
  userId := "u1"
  email := "a@example.com"
  fullName := "A"
  role := .general
  subscriptionTier := some .free
  subscriptionStatus := none
  razorpayCustomerId := some "cust_1"
  razorpaySubscriptionId := none
  stripeCustomerId := none
  stripeSubscriptionId := none

/-- The subscription was created by a checkout that never got to hear of it, and is charged. -/
def lostWorld : World :=
  { World.start ⟨[lostUser], by decide⟩ with
    subs := fun
      | .razorpay => [⟨"sub_1", "u1", some "cust_1", "plan_pro", .active⟩]
      | .stripe => []
    emitted := [.charged ⟨some "sub_1", some "plan_pro", some "cust_1"⟩] }

def asListed : SubOrder := ⟨id, fun subs => .refl subs⟩

/-- The charge arrives after the cleanup has read the users: the subscription it stores is
cancelled. -/
theorem charged_meanwhile_cancelled :
    ¬EveryStep (step ⟨"key", "key", envPlans, none, none⟩) OrphansOnly ⟨lostWorld, [], []⟩
      [.begin false .asStored, .checkout (.deliver 0 .asStored), .fetch 0 asListed false,
        .next 0 .ok] := by
  intro hRun
  refine hRun.2.2.2.1 _ _ ⟨0, .ok, [], rfl, rfl, rfl, ?_, by decide⟩ "u1" ?_
  · decide
  · decide

end AsetPlatform.Billing.SubscriptionCleanup

import AsetPlatform.Accounts.OAuthIdentity
import AsetPlatform.Accounts.UserRoutes
import AsetPlatform.Billing.RoleWrites

/-!
# Role and tier

The user routes, OAuth logins, checkouts, cancellations and webhooks on one table of accounts. A
tier that billing writes brings its role along; a role that a superuser gives, on creation or by an
edit, stays as it was given, and an OAuth login creates the account with the column's old default.

`role_follows_tier`: everyone but the superusers has the role of their tier, unless their role was
set since the tier last changed, and no step but a role edit takes the role from a superuser.
-/

set_option autoImplicit false

namespace AsetPlatform.Accounts

open AsetPlatform.Library AsetPlatform.Billing

/-! ## The billing columns -/

namespace AccountTable

variable (t : AccountTable)

/-- The table as billing sees it. -/
def users : UserTable where
  rows := t.rows.map Account.toUser
  nodup := by
    rw [List.map_map]
    exact t.ids

end AccountTable

/-- An account with the billing columns of a row. -/
def Account.withBilling (a : Account) (u : User) : Account :=
  { a with
    role := u.role
    subscriptionTier := u.subscriptionTier
    subscriptionStatus := u.subscriptionStatus
    razorpayCustomerId := u.razorpayCustomerId
    razorpaySubscriptionId := u.razorpaySubscriptionId
    stripeCustomerId := u.stripeCustomerId
    stripeSubscriptionId := u.stripeSubscriptionId }

/-- An account with its billing columns as billing left them. -/
def Account.afterBilling (users : UserTable) (a : Account) : Account :=
  match users.getById a.userId with
  | none => a
  | some u => a.withBilling u

theorem Account.afterBilling_kept (users : UserTable) (a : Account) :
    (a.afterBilling users).userId = a.userId ∧ (a.afterBilling users).email = a.email ∧
      (a.Fits → (a.afterBilling users).Fits) := by
  unfold afterBilling
  cases users.getById a.userId with
  | none => exact ⟨rfl, rfl, id⟩
  | some u => exact ⟨rfl, rfl, fun h => ⟨h.1, h.2, h.3, h.4, h.5, h.6, h.7⟩⟩

namespace AccountTable

variable (t : AccountTable)

/-- The table with the billing columns as billing left them. -/
def withUsers (users : UserTable) : AccountTable where
  rows := t.rows.map fun a => a.afterBilling users
  ids := by
    simp only [List.map_map, Function.comp_def, (Account.afterBilling_kept users _).1]
    exact t.ids
  emails := by
    simp only [List.map_map, Function.comp_def, (Account.afterBilling_kept users _).2.1]
    exact t.emails
  widths := by
    intro a hMem
    obtain ⟨b, hb, rfl⟩ := List.mem_map.mp hMem
    exact (Account.afterBilling_kept users b).2.2 (t.widths b hb)

variable {t}

theorem users_getById_of_mem {a : Account} (h : a ∈ t.rows) :
    t.users.getById a.userId = some a.toUser :=
  UserTable.getById_of_mem (List.mem_map_of_mem h)

end AccountTable

/-! ## Runs -/

namespace RoleTier

/-- The accounts, the requests of the superusers, and billing; the users that `billing` holds are
replaced by the accounts at each of its steps. `roleSet` remembers whose role was set since their
tier last changed: by a superuser, or to the default of an OAuth login. -/
structure World where
  routes : UserRoutes.World
  billing : Billing.World
  roleSet : List String

inductive Event where
  | route (e : UserRoutes.Event)
  | oauth (c : OAuthCall)
  | checkout (e : CheckoutStep)
  | cancel (replies : Gateway → Reply) (userId : String)
  | webhook (d : Delivery)

namespace World

variable (rules : PasswordRules) (cfg : BillingConfig) (w : World)

def table : AccountTable := w.routes.table

/-- Whose role a request sets: a new user's, unless it is the role of the free tier, and that of a
user whose role is edited. -/
def roleOf : UserRequest → Option String
  | .create body newId => if body.role = .general then none else some newId
  | .update userId body => body.role.map fun _ => userId
  | .delete _ _ => none

/-- Whose role the step sets: the target of such a request's write, or a user that an OAuth login
creates. -/
def setsRole : Event → Option String
  | .route (.advance k) =>
      match w.routes.requests[k]? with
      | some (request, .write) =>
          if (UserRoutes.written rules w.table request).toBool then roleOf request else none
      | _ => none
  | .oauth c =>
      match w.table.getOrCreateByOauth c with
      | .error _ => none
      | .ok (a, _) => if w.table.getById a.userId = none then some a.userId else none
  | _ => none

/-- Billing as it works on the accounts. -/
def billingNow : Billing.World :=
  { w.billing with store := { w.billing.store with users := w.table.users } }

/-- What billing leaves: a user whose tier changed has the role of the new one. -/
def afterBilling (b : Billing.World) : World :=
  let table := w.table.withUsers b.store.users
  { routes := { w.routes with table := table }
    billing := b
    roleSet := w.roleSet.filter fun userId =>
      (w.table.getById userId).map (·.subscriptionTier) =
        (table.getById userId).map (·.subscriptionTier) }

def step (e : Event) : World :=
  match e with
  | .route e =>
      { w with
        routes := w.routes.step rules e
        roleSet := (w.setsRole rules (.route e)).toList ++ w.roleSet }
  | .oauth c =>
      match w.table.getOrCreateByOauth c with
      | .error _ => w
      | .ok (_, table) =>
          { w with
            routes := { w.routes with table := table }
            roleSet := (w.setsRole rules (.oauth c)).toList ++ w.roleSet }
  | .checkout e => w.afterBilling (w.billingNow.step cfg e)
  | .cancel replies userId =>
      match cancelSubscription replies w.billingNow userId with
      | .error _ => w
      | .ok b => w.afterBilling b
  | .webhook d =>
      w.afterBilling
        { w.billingNow with store := w.billingNow.store.deliver cfg.plans d }

/-! ## The property -/

/-- Everyone whose role was not set since their tier last changed is a superuser or has the role of
the tier. -/
def Synced : Prop :=
  ∀ a ∈ w.table.rows, a.userId ∉ w.roleSet → a.role ≠ .superuser →
    a.role = roleForTier a.subscriptionTier

instance : Decidable w.Synced :=
  inferInstanceAs (Decidable (∀ a ∈ w.table.rows, a.userId ∉ w.roleSet → a.role ≠ .superuser →
    a.role = roleForTier a.subscriptionTier))

/-- Nothing but an edit of their role takes the role from a superuser. -/
def SuperusersKept (e : Event) : Prop :=
  ∀ a ∈ w.table.rows, a.role = .superuser → w.setsRole rules e ≠ some a.userId →
    ∀ b ∈ (w.step rules cfg e).table.rows, b.userId = a.userId → b.role = .superuser

/-- A row of the table after a step comes from one of the same user before, whose role it keeps as
billing does, or it is new or its role was set. -/
def Traced (e : Event) : Prop :=
  ∀ b ∈ (w.step rules cfg e).table.rows,
    (∃ a ∈ w.table.rows, a.userId = b.userId ∧ Follows a.toUser b.toUser ∧
      (b.subscriptionTier = a.subscriptionTier → a.userId ∈ w.roleSet →
        b.userId ∈ (w.step rules cfg e).roleSet)) ∨
      b.userId ∈ (w.step rules cfg e).roleSet ∧ w.setsRole rules e = some b.userId ∨
      b.role = roleForTier b.subscriptionTier ∧ ∀ a ∈ w.table.rows, a.userId ≠ b.userId

variable {rules cfg w}

theorem Synced.step {e : Event} (h : w.Synced) (hTraced : w.Traced rules cfg e) :
    (w.step rules cfg e).Synced := by
  intro b hb hFree hNot
  rcases hTraced b hb with ⟨a, ha, hId, hFollows, hSet⟩ | ⟨hIn, -⟩ | ⟨hRole, -⟩
  · rcases hFollows.role with hSuper | hTier | ⟨hSameTier, hSameRole⟩
    · exact absurd hSuper hNot
    · exact hTier
    · have hFreeBefore : a.userId ∉ w.roleSet := fun hIn => hFree (hSet hSameTier hIn)
      rw [hSameTier, hSameRole]
      exact h a ha hFreeBefore fun hSuper => hNot (hSameRole.trans hSuper)
  · exact absurd hIn hFree
  · exact hRole

theorem superusersKept_of_traced {e : Event} (hTraced : w.Traced rules cfg e) :
    w.SuperusersKept rules cfg e := by
  intro a ha hSuper hNotSet b hb hSame
  rcases hTraced b hb with ⟨a', ha', hId, hFollows, -⟩ | ⟨-, hSets⟩ | ⟨-, hNew⟩
  · obtain rfl := AccountTable.eq_of_userId ha' ha (hId.trans hSame)
    exact hFollows.superuser.mpr hSuper
  · rw [hSame] at hSets
    exact absurd hSets hNotSet
  · exact absurd hSame.symm (hNew a ha)

/-! ## Every step is traced -/

theorem traced_of_same {e : Event} (hTable : (w.step rules cfg e).table = w.table)
    (hSet : w.roleSet ⊆ (w.step rules cfg e).roleSet) : w.Traced rules cfg e := by
  intro b hb
  rw [hTable] at hb
  exact .inl ⟨b, hb, rfl, .refl _, fun _ hIn => hSet hIn⟩

theorem follows_account_updated (a : Account) {updates : AccountUpdates}
    (h : updates.role = none) : Follows a.toUser (a.updated updates).toUser := by
  have hUser := follows_updated a.toUser h
  exact ⟨hUser.superuser, hUser.role⟩

/-- The write of a request. -/
theorem traced_route (w : World) (e : UserRoutes.Event) : w.Traced rules cfg (.route e) := by
  have hKeep : w.roleSet ⊆ (w.step rules cfg (.route e)).roleSet :=
    List.subset_append_right _ _
  rcases UserRoutes.World.step_table rules w.routes e with hSame | ⟨k, request, rfl, hGet, hOk⟩
  · exact traced_of_same hSame hKeep
  · have hSets : w.setsRole rules (.route (.advance k)) = roleOf request := by
      have hBool : (UserRoutes.written rules w.table request).toBool = true := by
        rw [table, hOk]
        rfl
      simp only [setsRole, hGet, hBool, if_true]
    have hIn : ∀ {userId}, roleOf request = some userId →
        userId ∈ (w.step rules cfg (.route (.advance k))).roleSet ∧
          w.setsRole rules (.route (.advance k)) = some userId := by
      intro userId hRole
      refine ⟨?_, hSets.trans hRole⟩
      simp only [step, hSets, hRole, Option.toList_some, List.cons_append, List.mem_cons, true_or]
    have hOld : ∀ b ∈ w.table.rows, ∃ a ∈ w.table.rows, a.userId = b.userId ∧
        Follows a.toUser b.toUser ∧ (b.subscriptionTier = a.subscriptionTier →
          a.userId ∈ w.roleSet → b.userId ∈ (w.step rules cfg (.route (.advance k))).roleSet) :=
      fun b hb => ⟨b, hb, rfl, .refl _, fun _ hMem => hKeep hMem⟩
    intro b hb
    cases request with
    | create body newId =>
        simp only [UserRoutes.written, AccountTable.create] at hOk
        cases hEmail : w.routes.table.getByEmail body.email with
        | some a =>
            rw [hEmail] at hOk
            cases hOk
        | none =>
            rw [hEmail] at hOk
            obtain ⟨hAdmits, hRows⟩ := AccountTable.rows_of_insert hOk
            have hMem : b ∈ w.routes.table.rows ++ [_] := hRows ▸ hb
            rcases List.mem_append.mp hMem with hMem | hMem
            · exact .inl (hOld b hMem)
            · obtain rfl := List.mem_singleton.mp hMem
              by_cases hRole : body.role = .general
              · refine .inr (.inr ⟨hRole, fun a ha => (hAdmits.1 a ha).1⟩)
              · exact .inr (.inl (hIn (by rw [roleOf, if_neg hRole])))
    | update userId body =>
        simp only [UserRoutes.written, AccountTable.update] at hOk
        cases hRow : w.routes.table.getById userId with
        | none =>
            rw [hRow] at hOk
            cases hOk
        | some a =>
            rw [hRow] at hOk
            have hMem : b ∈ w.routes.table.replaced (a.updated body.updates) :=
              (AccountTable.rows_of_replace hOk).2 ▸ hb
            rcases AccountTable.mem_replaced hMem with rfl | ⟨hMem, -⟩
            · cases hRole : body.role with
              | none =>
                  exact .inl ⟨a, AccountTable.mem_of_getById hRow, rfl,
                    follows_account_updated a hRole, fun _ hMem => hKeep hMem⟩
              | some role =>
                  have hId := AccountTable.userId_of_getById hRow
                  refine .inr (.inl (hIn ?_))
                  rw [roleOf, hRole, Option.map_some, Account.updated_userId, hId]
            · exact .inl (hOld b hMem)
    | delete userId callerId =>
        simp only [UserRoutes.written, AccountTable.delete] at hOk
        cases hRow : w.routes.table.getById userId with
        | none =>
            rw [hRow] at hOk
            cases hOk
        | some a =>
            rw [hRow] at hOk
            have hMem : b ∈ w.routes.table.replaced { a with isActive := false } :=
              (AccountTable.rows_of_replace hOk).2 ▸ hb
            rcases AccountTable.mem_replaced hMem with rfl | ⟨hMem, -⟩
            · exact .inl ⟨a, AccountTable.mem_of_getById hRow, rfl, .refl _,
                fun _ hMem => hKeep hMem⟩
            · exact .inl (hOld b hMem)

theorem traced_oauth (w : World) (c : OAuthCall) : w.Traced rules cfg (.oauth c) := by
  cases hResult : w.table.getOrCreateByOauth c with
  | error message =>
      have hStep : w.step rules cfg (.oauth c) = w := by simp only [step, hResult]
      exact traced_of_same (by rw [hStep]) (by rw [hStep]; exact List.Subset.refl _)
  | ok result =>
      obtain ⟨a, t'⟩ := result
      have hTable : (w.step rules cfg (.oauth c)).table = t' := by
        show (w.step rules cfg (.oauth c)).routes.table = t'
        simp only [step, hResult]
      have hKeep : w.roleSet ⊆ (w.step rules cfg (.oauth c)).roleSet := by
        simp only [step, hResult]
        exact List.subset_append_right _ _
      intro b hb
      rw [hTable] at hb
      rcases AccountTable.getOrCreateByOauth_cases hResult with
        ⟨-, rfl⟩ | ⟨-, b', hb', -, rfl, -, hRows⟩ | ⟨-, -, rfl, hAdmits, hRows⟩
      · exact .inl ⟨b, hb, rfl, .refl _, fun _ hMem => hKeep hMem⟩
      · rw [hRows] at hb
        rcases AccountTable.mem_replaced hb with rfl | ⟨hMem, -⟩
        · exact .inl ⟨b', hb', rfl, .refl _, fun _ hMem => hKeep hMem⟩
        · exact .inl ⟨b, hMem, rfl, .refl _, fun _ hMem => hKeep hMem⟩
      · rw [hRows] at hb
        rcases List.mem_append.mp hb with hMem | hMem
        · exact .inl ⟨b, hMem, rfl, .refl _, fun _ hMem => hKeep hMem⟩
        · obtain rfl := List.mem_singleton.mp hMem
          have hNew : w.table.getById c.newRow.userId = none := by
            refine List.find?_eq_none.mpr fun a ha hId => ?_
            exact (hAdmits.1 a ha).1 (of_decide_eq_true hId)
          have hSets : w.setsRole rules (.oauth c) = some c.newRow.userId := by
            simp only [setsRole, hResult, hNew, if_true]
          refine .inr (.inl ⟨?_, hSets⟩)
          simp only [step, hResult, hSets, Option.toList_some, List.cons_append, List.mem_cons,
            true_or]

theorem traced_afterBilling {e : Event} {b : Billing.World}
    (hStep : w.step rules cfg e = w.afterBilling b)
    (hWrites : TierWrites w.table.users b.store.users) : w.Traced rules cfg e := by
  intro row hRow
  rw [hStep] at hRow ⊢
  obtain ⟨a, ha, rfl⟩ := List.mem_map.mp hRow
  obtain ⟨u, hUser, hFollows⟩ := hWrites.follows (AccountTable.users_getById_of_mem ha)
  have hAfter : a.afterBilling b.store.users = a.withBilling u := by
    simp only [Account.afterBilling, hUser]
  rw [hAfter] at hRow ⊢
  refine .inl ⟨a, ha, rfl, ⟨hFollows.superuser, hFollows.role⟩, fun hTier hIn => ?_⟩
  have hBefore : w.table.getById a.userId = some a := AccountTable.getById_of_mem ha
  have hNow : (w.table.withUsers b.store.users).getById a.userId = some (a.withBilling u) :=
    AccountTable.getById_of_mem hRow
  simp only [World.afterBilling, List.mem_filter, decide_eq_true_eq]
  refine ⟨hIn, ?_⟩
  show (w.table.getById a.userId).map _ = ((w.table.withUsers b.store.users).getById a.userId).map _
  rw [hBefore, hNow, Option.map_some, Option.map_some, hTier]

theorem traced_step (w : World) (e : Event) : w.Traced rules cfg e := by
  cases e with
  | route e => exact traced_route w e
  | oauth c => exact traced_oauth w c
  | checkout e => exact traced_afterBilling rfl (tierWrites_step cfg w.billingNow e)
  | cancel replies userId =>
      cases hCancel : cancelSubscription replies w.billingNow userId with
      | error failure =>
          have hStep : w.step rules cfg (.cancel replies userId) = w := by
            simp only [step, hCancel]
          exact traced_of_same (by rw [hStep]) (by rw [hStep]; exact List.Subset.refl _)
      | ok b =>
          exact traced_afterBilling (by simp only [step, hCancel])
            (tierWrites_cancelSubscription hCancel)
  | webhook d => exact traced_afterBilling rfl (tierWrites_deliver cfg.plans w.billingNow.store d)

/-- In every run from a synchronised start the role follows the tier in every state, and superusers
keep their role. -/
theorem role_follows_tier (rules : PasswordRules) (cfg : BillingConfig) (w : World)
    (es : List Event) (hStart : w.Synced) :
    EveryState (step rules cfg) Synced w es ∧
      EveryStep (step rules cfg) (SuperusersKept rules cfg) w es := by
  have hStep : ∀ (v : World) (e : Event), v.Synced → (v.step rules cfg e).Synced :=
    fun v e h => h.step (traced_step v e)
  exact ⟨everyState_of_kept hStep hStart es,
    everyStep_of_forall (fun v e => superusersKept_of_traced (traced_step v e)) w es⟩

/-- A superuser and a user on no tier, with billing as it starts. -/
def smallWorld : World where
  routes :=
    { table :=
        { rows := [UserRoutes.member "s1" .superuser true, UserRoutes.member "u1" .general true]
          ids := by decide +kernel
          emails := by decide +kernel
          widths := by decide +kernel }
      requests := [] }
  billing := .start ⟨[], List.nodup_nil⟩
  roleSet := []

/-- Both pay, a user is created and logs in with Google, and the first user cancels. -/
def tierRun : List Event :=
  [.webhook ⟨.asStored, .stripeCheckout
      { metadataUserId := some "u1", metadataTier := some "pro", subscription := some "sub1" }⟩,
    .webhook ⟨.asStored, .stripeCheckout
      { metadataUserId := some "s1", metadataTier := some "premium", subscription := some "sub2" }⟩,
    .route (.begin (.create ⟨"new@example.com", "Secret1!", "New", .general⟩ "n1")),
    .route (.advance 0), .route (.advance 0),
    .oauth ⟨⟨"google", "G1"⟩, "new@example.com", "New", none, "n2", "t"⟩,
    .cancel (fun _ => .ok) "u1"]

theorem role_follows_tier_tierRun :
    EveryState (step UserRoutes.demoRules liveConfig) Synced smallWorld tierRun ∧
      EveryStep (step UserRoutes.demoRules liveConfig)
        (SuperusersKept UserRoutes.demoRules liveConfig) smallWorld tierRun :=
  role_follows_tier UserRoutes.demoRules liveConfig smallWorld tierRun (by decide +kernel)

/-- Everyone but the superusers has the role of their tier. -/
def AllSynced (w : World) : Prop :=
  ∀ a ∈ w.table.rows, a.role ≠ .superuser → a.role = roleForTier a.subscriptionTier

instance (w : World) : Decidable w.AllSynced :=
  inferInstanceAs (Decidable (∀ a ∈ w.table.rows, a.role ≠ .superuser →
    a.role = roleForTier a.subscriptionTier))

/-- A superuser gives a user on no tier the role `pro`. -/
theorem granted_role_without_tier :
    ¬∀ (rules : PasswordRules) (cfg : BillingConfig) (w : World) (es : List Event), w.AllSynced →
      EveryState (step rules cfg) AllSynced w es := by
  intro h
  have hRun := h UserRoutes.demoRules liveConfig smallWorld
    [.route (.begin (.update "u1" { role := some .pro })), .route (.advance 0),
      .route (.advance 0)] (by decide +kernel)
  exact absurd hRun.last (by decide +kernel)

end World

end RoleTier

end AsetPlatform.Accounts

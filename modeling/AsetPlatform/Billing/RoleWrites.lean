import AsetPlatform.Billing.CheckoutRuns

/-!
# What billing does to roles

Every request and every webhook changes the users table by updates that set no role themselves
(`TierWrites`). The role of a row therefore follows its tier: a superuser keeps the role, and anyone
else has the role of the new tier, or the tier and the role of before (`Follows`).
-/

set_option autoImplicit false

namespace AsetPlatform.Billing

/-- One update without a role. -/
def TierWrite (t t' : UserTable) : Prop :=
  ∃ userId updates, updates.role = none ∧ t' = t.modify userId updates

/-- Any number of updates without a role. -/
def TierWrites : UserTable → UserTable → Prop := Relation.ReflTransGen TierWrite

theorem TierWrites.refl (t : UserTable) : TierWrites t t := Relation.ReflTransGen.refl

theorem TierWrites.trans {t t' t'' : UserTable} (h : TierWrites t t') (h' : TierWrites t' t'') :
    TierWrites t t'' := Relation.ReflTransGen.trans h h'

theorem tierWrites_modify (t : UserTable) (userId : String) {updates : Updates}
    (h : updates.role = none) : TierWrites t (t.modify userId updates) :=
  Relation.ReflTransGen.single ⟨userId, updates, h, rfl⟩

/-! ## Requests and webhooks -/

theorem tierWrites_safeUpdate {s s' : Store} {userId : String} {updates : Updates}
    (h : s.safeUpdate userId updates = .ok s') (hRole : updates.role = none) :
    TierWrites s.users s'.users := by
  unfold Store.safeUpdate UserTable.update at h
  cases hRow : s.users.getById userId with
  | none => simp [hRow, Except.map] at h
  | some row =>
      simp only [hRow, Except.map, Except.ok.injEq] at h
      rw [← h]
      exact tierWrites_modify s.users userId hRole

theorem role_updatesOn {plans : RazorpayPlans} {user : User} {event : GatewayEvent}
    {updates : Updates} (h : updatesOn plans user event = some updates) : updates.role = none := by
  rcases updatesOn_cases h with ⟨_, _, -, -, -, rfl⟩ | ⟨_, -, -, rfl⟩ | ⟨_, _, -, -, rfl⟩ |
    ⟨_, -, -, rfl⟩ | rfl <;> rfl

theorem tierWrites_deliver (plans : RazorpayPlans) (s : Store) (d : Delivery) :
    TierWrites s.users (s.deliver plans d).users := by
  cases hUser : resolve s.users d with
  | none =>
      rw [deliver_users_of_none hUser]
      exact .refl _
  | some user =>
      rw [deliver_users_of_resolve hUser]
      cases hUpdates : updatesOn plans user d.event with
      | none => exact .refl _
      | some updates => exact tierWrites_modify s.users user.userId (role_updatesOn hUpdates)

theorem tierWrites_cancelSubscription {replies : Gateway → Reply} {w w' : World} {userId : String}
    (h : cancelSubscription replies w userId = .ok w') :
    TierWrites w.store.users w'.store.users := by
  rw [cancelSubscription_users h]
  exact tierWrites_modify _ userId rfl

@[simp]
theorem editSub_store (w : World) (g : Gateway) (id : Option String) (planId : String)
    (reply : Reply) : (w.editSub g id planId reply).store = w.store := by
  rcases World.editSub_cases w g id planId reply with hSame | ⟨subId, hMap⟩
  · rw [hSame]
  · rw [hMap]
    rfl

@[simp]
theorem emit_store (w : World) (event : GatewayEvent) : (w.emit event).store = w.store := rfl

theorem tierWrites_razorpayCustomer (replies : RazorpayReplies) (w : World) (r : CheckoutRequest) :
    TierWrites w.store.users (razorpayCustomer replies w r).1.store.users := by
  simp only [razorpayCustomer]
  split
  · exact .refl _
  · split
    · exact .refl _
    · split
      · exact .refl _
      case h_2 store hUpdate => exact tierWrites_safeUpdate hUpdate rfl

theorem tierWrites_editRazorpay (replies : RazorpayReplies) (w : World) (r : CheckoutRequest)
    (planId : String) : TierWrites w.store.users (editRazorpay replies w r planId).1.store.users := by
  simp only [editRazorpay]
  split
  · split
    · rw [editSub_store]
      exact .refl _
    · split
      · rw [editSub_store]
        exact .refl _
      case h_2 store hUpdate =>
        rw [editSub_store] at hUpdate
        have hWrites := tierWrites_safeUpdate hUpdate rfl
        exact hWrites
  · exact .refl _

theorem tierWrites_replaceRazorpay (cfg : BillingConfig) (replies : RazorpayReplies) (w : World)
    (r : CheckoutRequest) (custId : Option String) (planId : String) (rzSubId : Option String) :
    TierWrites w.store.users
      (replaceRazorpay cfg replies w r custId planId rzSubId).1.store.users := by
  have hStore : (if truthy rzSubId then w.cancelSub .razorpay rzSubId replies.cancel else w).store =
      w.store := by
    split
    · exact cancelSub_store _ _ _ _
    · rfl
  unfold replaceRazorpay
  rw [← hStore]
  generalize (if truthy rzSubId then w.cancelSub .razorpay rzSubId replies.cancel else w) = v
  simp only
  split
  · exact .refl _
  · split
    · exact .refl _
    · split
      · exact .refl _
      case h_2 store hUpdate => exact tierWrites_safeUpdate hUpdate rfl

theorem tierWrites_checkoutRazorpay (cfg : BillingConfig) (replies : RazorpayReplies) (w : World)
    (r : CheckoutRequest) :
    TierWrites w.store.users (checkoutRazorpay cfg replies w r).1.store.users := by
  have hCustomer := tierWrites_razorpayCustomer replies w r
  unfold checkoutRazorpay
  split
  · exact .refl _
  · rcases hStep : razorpayCustomer replies w r with ⟨v, result⟩
    rw [hStep] at hCustomer
    cases result with
    | error failure => exact hCustomer
    | ok custId =>
        cases getRazorpayPlanId cfg r.tier with
        | error failure => exact hCustomer
        | ok planId =>
            have hEdit := hCustomer.trans (tierWrites_editRazorpay replies v r planId)
            simp only
            rcases hEdited : editRazorpay replies v r planId with ⟨v', rzSubId, upgraded⟩
            rw [hEdited] at hEdit
            cases upgraded with
            | true => exact hEdit
            | false =>
                exact hEdit.trans (tierWrites_replaceRazorpay cfg replies v' r custId planId rzSubId)

theorem tierWrites_stripeCustomer (replies : StripeReplies) (w : World) (r : CheckoutRequest) :
    TierWrites w.store.users (stripeCustomer replies w r).1.store.users := by
  simp only [stripeCustomer]
  split
  · exact .refl _
  · split
    · exact .refl _
    · split
      · exact .refl _
      case h_2 store hUpdate => exact tierWrites_safeUpdate hUpdate rfl

theorem tierWrites_modifyStripe (replies : StripeReplies) (w : World) (r : CheckoutRequest)
    (stCustId : Option String) (priceId : String) :
    TierWrites w.store.users (modifyStripe replies w r stCustId priceId).1.store.users := by
  unfold modifyStripe
  simp only
  split
  · exact .refl _
  · split
    · exact .refl _
    · by_cases hOk : replies.modify = .ok
      · simp only [hOk, reduceCtorEq, ne_eq, not_true_eq_false, if_false]
        split
        · rw [emit_store, editSub_store]
          exact .refl _
        case h_2 store hUpdate =>
          rw [emit_store, editSub_store] at hUpdate
          have hWrites := tierWrites_safeUpdate hUpdate rfl
          exact hWrites
      · simp only [hOk, ne_eq, not_false_eq_true, if_true]
        split
        · rw [editSub_store]
          exact .refl _
        · rw [emit_store, editSub_store]
          exact .refl _

theorem tierWrites_checkoutStripe (cfg : BillingConfig) (replies : StripeReplies) (w : World)
    (r : CheckoutRequest) :
    TierWrites w.store.users (checkoutStripe cfg replies w r).1.store.users := by
  have hCustomer := tierWrites_stripeCustomer replies w r
  unfold checkoutStripe
  split
  · exact .refl _
  · rcases hStep : stripeCustomer replies w r with ⟨v, result⟩
    rw [hStep] at hCustomer
    cases result with
    | error failure => exact hCustomer
    | ok stCustId =>
        cases getStripePriceId cfg r.tier with
        | error failure => exact hCustomer
        | ok priceId =>
            have hModify := hCustomer.trans (tierWrites_modifyStripe replies v r stCustId priceId)
            simp only
            rcases hModified : modifyStripe replies v r stCustId priceId with ⟨v', upgraded⟩
            rw [hModified] at hModify
            cases upgraded with
            | true => exact hModify
            | false =>
                simp only [startSession]
                split
                · exact hModify
                · split <;> exact hModify

theorem tierWrites_checkout (cfg : BillingConfig) (replies : CheckoutReplies) (w : World)
    (r : CheckoutRequest) : TierWrites w.store.users (checkout cfg replies w r).1.store.users := by
  unfold checkout
  cases r.gateway with
  | stripe => exact tierWrites_checkoutStripe cfg replies.stripe w r
  | razorpay => exact tierWrites_checkoutRazorpay cfg replies.razorpay w r

theorem tierWrites_step (cfg : BillingConfig) (w : World) (e : CheckoutStep) :
    TierWrites w.store.users (w.step cfg e).store.users := by
  cases e with
  | begin user tier tier_paid gateway =>
      simp only [World.step]
      split <;> exact .refl _
  | finish k replies =>
      simp only [World.step]
      split
      · exact .refl _
      case h_2 r hRequest =>
        exact tierWrites_checkout cfg replies { w with requests := w.requests.eraseIdx k } r
  | advance g id status =>
      simp only [World.step]
      split
      · exact .refl _
      · split <;> exact .refl _
  | complete k newId =>
      simp only [World.step]
      split
      · exact .refl _
      · split <;> exact .refl _
  | deliver k order =>
      simp only [World.step]
      split
      · exact .refl _
      case h_2 event hEvent => exact tierWrites_deliver cfg.plans w.store ⟨order, event⟩

/-! ## Roles under tier writes -/

theorem roleForTier_ne_superuser (tier : Option Tier) : roleForTier tier ≠ .superuser := by
  rcases tier with _ | _ | _ | _ <;> decide

/-- How a row's role may change: superusers are the same as before, and anyone else has the role of
their tier, or both as before. -/
structure Follows (u v : User) : Prop where
  superuser : v.role = .superuser ↔ u.role = .superuser
  role : v.role = .superuser ∨ v.role = roleForTier v.subscriptionTier ∨
    v.subscriptionTier = u.subscriptionTier ∧ v.role = u.role

theorem Follows.refl (u : User) : Follows u u := ⟨Iff.rfl, .inr (.inr ⟨rfl, rfl⟩)⟩

theorem Follows.trans {u v x : User} (h : Follows u v) (h' : Follows v x) : Follows u x where
  superuser := h'.superuser.trans h.superuser
  role := by
    rcases h'.role with hSuper | hTier | ⟨hSameTier, hSameRole⟩
    · exact .inl hSuper
    · exact .inr (.inl hTier)
    · rw [hSameTier, hSameRole]
      exact h.role

theorem follows_updated (u : User) {updates : Updates} (h : updates.role = none) :
    Follows u (u.updated updates) := by
  cases hTier : updates.subscriptionTier with
  | none =>
      have hRole : (u.updated updates).role = u.role := User.updated_role_of_none hTier h
      exact ⟨by rw [hRole], .inr (.inr ⟨by simp [hTier], hRole⟩)⟩
  | some tier =>
      have hRole : (u.updated updates).role =
          if u.role = .superuser then .superuser else roleForTier tier :=
        User.updated_role_of_tier hTier h
      by_cases hSuper : u.role = .superuser
      · rw [if_pos hSuper] at hRole
        exact ⟨iff_of_true hRole hSuper, .inl hRole⟩
      · rw [if_neg hSuper] at hRole
        refine ⟨iff_of_false ?_ hSuper, .inr (.inl ?_)⟩
        · rw [hRole]
          exact roleForTier_ne_superuser tier
        · rw [hRole, User.updated_tier, hTier, Option.getD_some]

theorem TierWrites.follows {t t' : UserTable} (h : TierWrites t t') {userId : String} {u : User}
    (hRow : t.getById userId = some u) : ∃ v, t'.getById userId = some v ∧ Follows u v := by
  induction h with
  | refl => exact ⟨u, hRow, .refl u⟩
  | tail _ hWrite ih =>
      obtain ⟨v, hMid, hFollows⟩ := ih
      obtain ⟨key, updates, hRole, rfl⟩ := hWrite
      rw [UserTable.getById_modify, hMid]
      by_cases hKey : userId = key
      · exact ⟨v.updated updates, by simp [hKey], hFollows.trans (follows_updated v hRole)⟩
      · exact ⟨v, by simp [hKey], hFollows⟩

end AsetPlatform.Billing

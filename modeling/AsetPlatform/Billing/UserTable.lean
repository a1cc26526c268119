import Mathlib.Data.List.Nodup
import Mathlib.Data.List.Perm.Basic

/-!
# The users table

The rows of `auth.users` with the columns that billing reads and writes, and the repository's
`update` with its role synchronisation. `user_id` is the primary key, so a table carries the proof
that no two of its rows share one; every operation keeps it by construction.

`SELECT` without `ORDER BY` promises no order. `listAll` therefore takes a `RowOrder`, an
arbitrary rearrangement of the rows, and results about lookups hold for all of them.
-/

set_option autoImplicit false

namespace AsetPlatform.Billing

/-! ## Columns -/

inductive Tier where
  | free
  | pro
  | premium
  deriving DecidableEq, Repr

/-- The statuses a row can hold: `VALID_STATUSES`, and the one that only `_ACTIVE_STATUSES`
names. -/
inductive SubscriptionStatus where
  | active
  | authenticated
  | pastDue
  | cancelled
  | expired
  deriving DecidableEq, Repr

/-- The roles; `user` is the column's server default. -/
inductive Role where
  | user
  | general
  | pro
  | superuser
  deriving DecidableEq, Repr

/-- A row of the table. A nullable column is an `Option`. -/
structure User where
  userId : String
  email : String
  fullName : String
  role : Role
  subscriptionTier : Option Tier
  subscriptionStatus : Option SubscriptionStatus
  razorpayCustomerId : Option String
  razorpaySubscriptionId : Option String
  stripeCustomerId : Option String
  stripeSubscriptionId : Option String
  deriving DecidableEq, Repr

/-- Python truth of an optional string: neither `None` nor `""`. -/
def truthy (value : Option String) : Bool := value.any (· ≠ "")

@[simp]
theorem truthy_none : truthy none = false := rfl

/-! ## Updates -/

/-- The `updates` dictionary of `update`: a key that is absent is `none`, a key set to `None` is
`some none`. -/
structure Updates where
  role : Option Role := none
  subscriptionTier : Option (Option Tier) := none
  subscriptionStatus : Option (Option SubscriptionStatus) := none
  razorpayCustomerId : Option (Option String) := none
  razorpaySubscriptionId : Option (Option String) := none
  stripeCustomerId : Option (Option String) := none
  stripeSubscriptionId : Option (Option String) := none

/-- `_role_for_tier` -/
def roleForTier : Option Tier → Role
  | some .pro => .pro
  | some .premium => .pro
  | some .free => .general
  | none => .general

/-- The role synchronisation of `update`: a new tier brings its role along unless the user is a
superuser, has that role already, or the updates set a role themselves. -/
def syncRole (user : User) (updates : Updates) : Updates :=
  match updates.subscriptionTier with
  | none => updates
  | some newTier =>
      if user.role = .superuser then updates
      else if user.role ≠ roleForTier newTier ∧ updates.role = none then
        { updates with role := some (roleForTier newTier) }
      else updates

/-- The `setattr` loop of `update`. -/
def User.setAttrs (user : User) (updates : Updates) : User :=
  { user with
    role := updates.role.getD user.role
    subscriptionTier := updates.subscriptionTier.getD user.subscriptionTier
    subscriptionStatus := updates.subscriptionStatus.getD user.subscriptionStatus
    razorpayCustomerId := updates.razorpayCustomerId.getD user.razorpayCustomerId
    razorpaySubscriptionId := updates.razorpaySubscriptionId.getD user.razorpaySubscriptionId
    stripeCustomerId := updates.stripeCustomerId.getD user.stripeCustomerId
    stripeSubscriptionId := updates.stripeSubscriptionId.getD user.stripeSubscriptionId }

/-- The row that `update` commits. -/
def User.updated (user : User) (updates : Updates) : User :=
  user.setAttrs (syncRole user updates)

section Updated

variable (user : User) (updates : Updates)

theorem syncRole_eq : ∃ role, syncRole user updates = { updates with role := role } := by
  unfold syncRole
  split
  · exact ⟨updates.role, rfl⟩
  · split
    · exact ⟨updates.role, rfl⟩
    · split
      · exact ⟨_, rfl⟩
      · exact ⟨updates.role, rfl⟩

@[simp]
theorem User.updated_userId : (user.updated updates).userId = user.userId := rfl

@[simp]
theorem User.updated_tier : (user.updated updates).subscriptionTier =
    updates.subscriptionTier.getD user.subscriptionTier := by
  obtain ⟨role, h⟩ := syncRole_eq user updates
  simp only [updated, setAttrs, h]

@[simp]
theorem User.updated_status : (user.updated updates).subscriptionStatus =
    updates.subscriptionStatus.getD user.subscriptionStatus := by
  obtain ⟨role, h⟩ := syncRole_eq user updates
  simp only [updated, setAttrs, h]

@[simp]
theorem User.updated_razorpaySub : (user.updated updates).razorpaySubscriptionId =
    updates.razorpaySubscriptionId.getD user.razorpaySubscriptionId := by
  obtain ⟨role, h⟩ := syncRole_eq user updates
  simp only [updated, setAttrs, h]

@[simp]
theorem User.updated_stripeSub : (user.updated updates).stripeSubscriptionId =
    updates.stripeSubscriptionId.getD user.stripeSubscriptionId := by
  obtain ⟨role, h⟩ := syncRole_eq user updates
  simp only [updated, setAttrs, h]

variable {user updates}

theorem User.updated_role_of_none (hTier : updates.subscriptionTier = none)
    (hRole : updates.role = none) : (user.updated updates).role = user.role := by
  simp [updated, syncRole, setAttrs, hTier, hRole]

/-- With a tier among the updates and no role, a superuser keeps the role and everyone else gets
the tier's. -/
theorem User.updated_role_of_tier {tier : Option Tier}
    (hTier : updates.subscriptionTier = some tier) (hRole : updates.role = none) :
    (user.updated updates).role =
      if user.role = .superuser then .superuser else roleForTier tier := by
  unfold updated syncRole
  rw [hTier]
  by_cases hSuper : user.role = .superuser
  · simp [hSuper, setAttrs, hRole]
  · by_cases hSame : user.role = roleForTier tier
    · simp [hSame, setAttrs, hRole]
    · simp [hSuper, hSame, hRole, setAttrs]

end Updated

/-! ## The table -/

/-- The table: its rows, no two with the same primary key. -/
structure UserTable where
  rows : List User
  nodup : (rows.map User.userId).Nodup

namespace UserTable

variable (t : UserTable)

/-- `get_by_id` -/
def getById (userId : String) : Option User := t.rows.find? (·.userId = userId)

/-- Replace the row with the key by its update. -/
def modify (userId : String) (updates : Updates) : UserTable where
  rows := t.rows.map fun row => if row.userId = userId then row.updated updates else row
  nodup := by
    have hIds : (t.rows.map fun row => if row.userId = userId then row.updated updates else row).map
        User.userId = t.rows.map User.userId := by
      rw [List.map_map]
      apply List.map_congr_left
      intro row _
      by_cases h : row.userId = userId <;> simp [h]
    rw [hIds]
    exact t.nodup

/-- `update`: an unknown key is a `ValueError`. -/
def update (userId : String) (updates : Updates) : Except String UserTable :=
  match t.getById userId with
  | none => .error ("User " ++ userId ++ " not found")
  | some _ => .ok (t.modify userId updates)

variable {t}

theorem mem_of_getById {userId : String} {user : User} (h : t.getById userId = some user) :
    user ∈ t.rows :=
  List.mem_of_find?_eq_some h

theorem userId_of_getById {userId : String} {user : User} (h : t.getById userId = some user) :
    user.userId = userId := by
  simpa using List.find?_some h

theorem getById_of_mem {user : User} (h : user ∈ t.rows) : t.getById user.userId = some user := by
  obtain ⟨found, hFound⟩ : ∃ found, t.getById user.userId = some found := by
    rw [← Option.isSome_iff_exists, getById, List.find?_isSome]
    exact ⟨user, h, by simp⟩
  have hSame : found = user :=
    List.inj_on_of_nodup_map t.nodup (mem_of_getById hFound) h (userId_of_getById hFound)
  rw [hFound, hSame]

theorem update_of_mem {user : User} (h : user ∈ t.rows) (updates : Updates) :
    t.update user.userId updates = .ok (t.modify user.userId updates) := by
  simp only [update, getById_of_mem h]

theorem getById_modify (userId key : String) (updates : Updates) :
    (t.modify userId updates).getById key =
      (t.getById key).map fun row => if key = userId then row.updated updates else row := by
  have hKeep : ((fun row : User => decide (row.userId = key)) ∘
      fun row => if row.userId = userId then row.updated updates else row) =
      fun row => decide (row.userId = key) := by
    funext row
    by_cases h : row.userId = userId <;> simp [h]
  unfold getById modify
  rw [List.find?_map, hKeep]
  cases hFind : t.rows.find? (fun row => decide (row.userId = key)) with
  | none => rfl
  | some row =>
      have hKey : row.userId = key := by simpa using List.find?_some hFind
      simp [hKey]

@[simp]
theorem getById_modify_self (userId : String) (updates : Updates) :
    (t.modify userId updates).getById userId =
      (t.getById userId).map fun row => row.updated updates := by
  simp [getById_modify]

theorem getById_modify_of_ne {userId key : String} (h : key ≠ userId) (updates : Updates) :
    (t.modify userId updates).getById key = t.getById key := by
  simp [getById_modify, h]

/-- An update of one user leaves what is read of every user alone when it leaves that of this user
alone. -/
theorem same_modify_iff {α : Type*} (view : User → α) {user : User} (h : user ∈ t.rows)
    (updates : Updates) :
    (∀ userId, ((t.modify user.userId updates).getById userId).map view =
        (t.getById userId).map view) ↔ view (user.updated updates) = view user := by
  constructor
  · intro hSame
    have hUser := hSame user.userId
    rw [getById_modify_self, getById_of_mem h] at hUser
    simpa using hUser
  · intro hSame userId
    by_cases hKey : userId = user.userId
    · rw [hKey, getById_modify_self, getById_of_mem h]
      simpa using hSame
    · rw [getById_modify_of_ne hKey]

end UserTable

/-! ## Listing -/

/-- The order in which a query without `ORDER BY` returns the rows. -/
structure RowOrder where
  arrange : List User → List User
  perm : ∀ rows, (arrange rows).Perm rows

def RowOrder.asStored : RowOrder := ⟨id, fun rows => .refl rows⟩

/-- `list_all` -/
def UserTable.listAll (t : UserTable) (order : RowOrder) : List User := order.arrange t.rows

theorem UserTable.mem_listAll {t : UserTable} {order : RowOrder} {user : User} :
    user ∈ t.listAll order ↔ user ∈ t.rows :=
  (order.perm t.rows).mem_iff

end AsetPlatform.Billing

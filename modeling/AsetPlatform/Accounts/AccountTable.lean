import AsetPlatform.Billing.UserTable

/-!
# Accounts

The rows of `auth.users` with the columns of sign-in and administration beside those of billing, and
the repository functions that create, update, deactivate and look up accounts. `user_id` is the
primary key and `email` is unique, so a table carries the proofs of both, and of the widths of the
text columns beside billing; a write that would break one of them raises and leaves the table.
-/

set_option autoImplicit false

namespace AsetPlatform.Accounts

open AsetPlatform.Billing

/-! ## Rows -/

/-- A row with all the columns that are modelled. `pagePermissions` is the dictionary whose JSON
text the column holds. -/
structure Account extends User where
  hashedPassword : String
  isActive : Bool
  oauthProvider : Option String
  oauthSub : Option String
  profilePictureUrl : Option String
  pagePermissions : Option (List (String × Bool))
  deriving DecidableEq

/-- The `updates` dictionary of `update`, with the account columns. -/
structure AccountUpdates extends Updates where
  email : Option String := none
  fullName : Option String := none
  hashedPassword : Option String := none
  isActive : Option Bool := none
  oauthProvider : Option (Option String) := none
  oauthSub : Option (Option String) := none
  profilePictureUrl : Option (Option String) := none
  pagePermissions : Option (Option (List (String × Bool))) := none

/-- A text fits a column of a width, and so does `NULL`. -/
def fits (width : Nat) (text : Option String) : Prop := ∀ s ∈ text, s.length ≤ width

instance (width : Nat) (text : Option String) : Decidable (fits width text) :=
  inferInstanceAs (Decidable (∀ s ∈ text, s.length ≤ width))

namespace Account

variable (a : Account)

/-- Every text of the account columns is as long as its column allows at most. -/
structure Fits : Prop where
  userId : fits 36 (some a.userId)
  email : fits 255 (some a.email)
  hashedPassword : fits 255 (some a.hashedPassword)
  fullName : fits 255 (some a.fullName)
  oauthProvider : fits 50 a.oauthProvider
  oauthSub : fits 255 a.oauthSub
  profilePictureUrl : fits 500 a.profilePictureUrl

instance : Decidable a.Fits :=
  decidable_of_iff (fits 36 (some a.userId) ∧ fits 255 (some a.email) ∧
      fits 255 (some a.hashedPassword) ∧ fits 255 (some a.fullName) ∧ fits 50 a.oauthProvider ∧
      fits 255 a.oauthSub ∧ fits 500 a.profilePictureUrl)
    ⟨fun ⟨h1, h2, h3, h4, h5, h6, h7⟩ => ⟨h1, h2, h3, h4, h5, h6, h7⟩,
      fun h => ⟨h.1, h.2, h.3, h.4, h.5, h.6, h.7⟩⟩

/-- The `setattr` loop of `update` over the account columns. -/
def setAttrs (updates : AccountUpdates) : Account :=
  { a with
    email := updates.email.getD a.email
    fullName := updates.fullName.getD a.fullName
    hashedPassword := updates.hashedPassword.getD a.hashedPassword
    isActive := updates.isActive.getD a.isActive
    oauthProvider := updates.oauthProvider.getD a.oauthProvider
    oauthSub := updates.oauthSub.getD a.oauthSub
    profilePictureUrl := updates.profilePictureUrl.getD a.profilePictureUrl
    pagePermissions := updates.pagePermissions.getD a.pagePermissions }

/-- The row that `update` commits: the billing columns with the synchronised role, then the account
columns. -/
def updated (updates : AccountUpdates) : Account :=
  { a with toUser := a.toUser.updated updates.toUpdates }.setAttrs updates

@[simp]
theorem updated_userId (updates : AccountUpdates) : (a.updated updates).userId = a.userId := rfl

@[simp]
theorem updated_role (updates : AccountUpdates) :
    (a.updated updates).role = (a.toUser.updated updates.toUpdates).role := rfl

@[simp]
theorem updated_isActive (updates : AccountUpdates) :
    (a.updated updates).isActive = updates.isActive.getD a.isActive := rfl

end Account

/-! ## The table -/

structure AccountTable where
  rows : List Account
  ids : (rows.map fun a => a.userId).Nodup
  emails : (rows.map fun a => a.email).Nodup
  widths : ∀ a ∈ rows, a.Fits

namespace AccountTable

def empty : AccountTable := ⟨[], List.nodup_nil, List.nodup_nil, fun _ h => nomatch h⟩

variable (t : AccountTable)

/-- `get_by_id` -/
def getById (userId : String) : Option Account := t.rows.find? fun a => a.userId = userId

/-- `get_by_email` -/
def getByEmail (email : String) : Option Account := t.rows.find? fun a => a.email = email

/-- A new row is admitted: its id and e-mail are new, and it fits. -/
def AdmitsNew (row : Account) : Prop :=
  (∀ a ∈ t.rows, a.userId ≠ row.userId ∧ a.email ≠ row.email) ∧ row.Fits

instance (row : Account) : Decidable (t.AdmitsNew row) :=
  inferInstanceAs (Decidable ((∀ a ∈ t.rows, a.userId ≠ row.userId ∧ a.email ≠ row.email) ∧ _))

theorem nodup_map_concat {f : Account → String} {rows : List Account} {row : Account}
    (h : (rows.map f).Nodup) (hNew : ∀ a ∈ rows, f a ≠ f row) : ((rows ++ [row]).map f).Nodup := by
  rw [List.map_append, List.nodup_append]
  refine ⟨h, List.nodup_singleton _, ?_⟩
  intro x hx y hy hSame
  obtain ⟨a, hMem, rfl⟩ := List.mem_map.mp hx
  obtain rfl := List.mem_singleton.mp hy
  exact hNew a hMem hSame

/-- `INSERT` -/
def insert (row : Account) : Except String AccountTable :=
  if h : t.AdmitsNew row then
    .ok
      { rows := t.rows ++ [row]
        ids := nodup_map_concat t.ids fun a hMem => (h.1 a hMem).1
        emails := nodup_map_concat t.emails fun a hMem => (h.1 a hMem).2
        widths := by
          intro a hMem
          rcases List.mem_append.mp hMem with hMem | hMem
          · exact t.widths a hMem
          · exact List.mem_singleton.mp hMem ▸ h.2 }
  else .error "the row breaks a constraint"

/-- A changed row is admitted: its e-mail is nobody else's, and it fits. -/
def Admits (row : Account) : Prop :=
  (∀ a ∈ t.rows, a.userId ≠ row.userId → a.email ≠ row.email) ∧ row.Fits

instance (row : Account) : Decidable (t.Admits row) :=
  inferInstanceAs
    (Decidable ((∀ a ∈ t.rows, a.userId ≠ row.userId → a.email ≠ row.email) ∧ _))

/-- The rows with one of them changed. -/
def replaced (row : Account) : List Account :=
  t.rows.map fun a => if a.userId = row.userId then row else a

variable {t}

theorem eq_of_userId {a b : Account} (ha : a ∈ t.rows) (hb : b ∈ t.rows)
    (h : a.userId = b.userId) : a = b :=
  List.inj_on_of_nodup_map t.ids ha hb h

theorem eq_of_email {a b : Account} (ha : a ∈ t.rows) (hb : b ∈ t.rows) (h : a.email = b.email) :
    a = b :=
  List.inj_on_of_nodup_map t.emails ha hb h

theorem map_userId_replaced (row : Account) :
    (t.replaced row).map (fun a => a.userId) = t.rows.map fun a => a.userId := by
  unfold replaced
  rw [List.map_map]
  apply List.map_congr_left
  intro a _
  by_cases h : a.userId = row.userId <;> simp [h]

theorem nodup_emails_replaced {row : Account} (h : t.Admits row) :
    ((t.replaced row).map fun a => a.email).Nodup := by
  unfold replaced
  rw [List.map_map]
  refine List.Nodup.map_on ?_ (List.Nodup.of_map _ t.ids)
  intro a ha b hb hSame
  simp only [Function.comp_apply] at hSame
  by_cases haRow : a.userId = row.userId
  · by_cases hbRow : b.userId = row.userId
    · exact eq_of_userId ha hb (haRow.trans hbRow.symm)
    · rw [if_pos haRow, if_neg hbRow] at hSame
      exact absurd hSame.symm (h.1 b hb hbRow)
  · rw [if_neg haRow] at hSame
    by_cases hbRow : b.userId = row.userId
    · rw [if_pos hbRow] at hSame
      exact absurd hSame (h.1 a ha haRow)
    · rw [if_neg hbRow] at hSame
      exact eq_of_email ha hb hSame

theorem mem_replaced {row a : Account} (h : a ∈ t.replaced row) :
    a = row ∨ a ∈ t.rows ∧ a.userId ≠ row.userId := by
  obtain ⟨b, hMem, rfl⟩ := List.mem_map.mp h
  by_cases hRow : b.userId = row.userId
  · exact .inl (if_pos hRow)
  · rw [if_neg hRow]
    exact .inr ⟨hMem, hRow⟩

variable (t)

/-- `UPDATE` of the row with the same id. -/
def replace (row : Account) : Except String AccountTable :=
  if h : t.Admits row then
    .ok
      { rows := t.replaced row
        ids := map_userId_replaced row ▸ t.ids
        emails := nodup_emails_replaced h
        widths := fun a hMem => (mem_replaced hMem).elim (fun hSame => hSame ▸ h.2)
          fun hOld => t.widths a hOld.1 }
  else .error "the row breaks a constraint"

/-! ## The repository -/

/-- `create`: without a role among the data it is the column's default. The loop over the optional
fields sets the columns that have no argument of their own. -/
def create (newId email hashedPassword fullName : String) (data : AccountUpdates) :
    Except String AccountTable :=
  match t.getByEmail email with
  | some _ => .error ("User with email " ++ email ++ " already exists")
  | none =>
      t.insert
        { userId := newId
          email := email
          fullName := fullName
          role := data.role.getD .user
          subscriptionTier := data.subscriptionTier.getD none
          subscriptionStatus := data.subscriptionStatus.getD none
          razorpayCustomerId := data.razorpayCustomerId.getD none
          razorpaySubscriptionId := data.razorpaySubscriptionId.getD none
          stripeCustomerId := data.stripeCustomerId.getD none
          stripeSubscriptionId := data.stripeSubscriptionId.getD none
          hashedPassword := hashedPassword
          isActive := data.isActive.getD true
          oauthProvider := data.oauthProvider.getD none
          oauthSub := data.oauthSub.getD none
          profilePictureUrl := data.profilePictureUrl.getD none
          pagePermissions := data.pagePermissions.getD none }

/-- `update`: an unknown id is a `ValueError`. -/
def update (userId : String) (updates : AccountUpdates) : Except String AccountTable :=
  match t.getById userId with
  | none => .error ("User " ++ userId ++ " not found")
  | some a => t.replace (a.updated updates)

/-- `delete`: a soft delete. -/
def delete (userId : String) : Except String AccountTable :=
  match t.getById userId with
  | none => .error ("User " ++ userId ++ " not found")
  | some a => t.replace { a with isActive := false }

/-! ## Lookups and writes -/

variable {t}

theorem mem_of_getById {userId : String} {a : Account} (h : t.getById userId = some a) :
    a ∈ t.rows :=
  List.mem_of_find?_eq_some h

theorem userId_of_getById {userId : String} {a : Account} (h : t.getById userId = some a) :
    a.userId = userId := by
  simpa using List.find?_some h

theorem getById_of_mem {a : Account} (h : a ∈ t.rows) : t.getById a.userId = some a := by
  cases hFind : t.getById a.userId with
  | none =>
      have hNone := List.find?_eq_none.mp hFind a h
      simp at hNone
  | some b => rw [eq_of_userId (mem_of_getById hFind) h (userId_of_getById hFind)]

theorem getByEmail_eq_some_iff {email : String} {a : Account} :
    t.getByEmail email = some a ↔ a ∈ t.rows ∧ a.email = email := by
  constructor
  · intro h
    exact ⟨List.mem_of_find?_eq_some h, by simpa using List.find?_some h⟩
  · rintro ⟨hMem, rfl⟩
    cases hFind : t.getByEmail a.email with
    | none =>
        have hNone := List.find?_eq_none.mp hFind a hMem
        simp at hNone
    | some b =>
        have hEmail : b.email = a.email := by simpa using List.find?_some hFind
        rw [eq_of_email (List.mem_of_find?_eq_some hFind) hMem hEmail]

theorem rows_of_insert {row : Account} {t' : AccountTable} (h : t.insert row = .ok t') :
    t.AdmitsNew row ∧ t'.rows = t.rows ++ [row] := by
  unfold insert at h
  by_cases hAdmits : t.AdmitsNew row
  · rw [dif_pos hAdmits] at h
    obtain rfl := Except.ok.inj h
    exact ⟨hAdmits, rfl⟩
  · rw [dif_neg hAdmits] at h
    exact nomatch h

theorem rows_of_replace {row : Account} {t' : AccountTable} (h : t.replace row = .ok t') :
    t.Admits row ∧ t'.rows = t.replaced row := by
  unfold replace at h
  by_cases hAdmits : t.Admits row
  · rw [dif_pos hAdmits] at h
    obtain rfl := Except.ok.inj h
    exact ⟨hAdmits, rfl⟩
  · rw [dif_neg hAdmits] at h
    exact nomatch h

end AccountTable

end AsetPlatform.Accounts

import AsetPlatform.Accounts.AccountTable

/-!
# The user routes

`create_user`, `update_user` and `delete_user` of the superuser API. A route makes several database
calls one after another, and other requests run in between; `advance` is what one call of a request
does with the table as it finds it. What a route has read in an earlier call is gone by the next
one, except for the decision to go on.
-/

set_option autoImplicit false

namespace AsetPlatform.Accounts

open AsetPlatform.Billing

/-- An `HTTPException`, or status 500 for any other exception. -/
structure HttpError where
  statusCode : Nat
  detail : String
  deriving DecidableEq

/-- How passwords are checked and hashed: `weakness` is the detail of the refusal, if any. -/
structure PasswordRules where
  weakness : String → Option String
  hash : String → String

/-- `UserCreateRequest`; the API takes every role but the old default `user`. -/
structure UserCreateRequest where
  email : String
  password : String
  fullName : String
  role : Role := .general

/-- `UserUpdateRequest` -/
structure UserUpdateRequest where
  fullName : Option String := none
  email : Option String := none
  role : Option Role := none
  isActive : Option Bool := none
  pagePermissions : Option (List (String × Bool)) := none

/-- The fields that are not `None`, as the dictionary for `update`. -/
def UserUpdateRequest.updates (body : UserUpdateRequest) : AccountUpdates where
  fullName := body.fullName
  email := body.email
  role := body.role
  isActive := body.isActive
  pagePermissions := body.pagePermissions.map some

/-- A request to one of the three routes. `newId` is the id that a created user would get. -/
inductive UserRequest where
  | create (body : UserCreateRequest) (newId : String)
  | update (userId : String) (body : UserUpdateRequest)
  | delete (userId callerId : String)

/-- The database call that a request makes next. -/
inductive Stage where
  | lookUp
  | checkEmail
  | countSuperusers
  | write
  deriving DecidableEq

/-- What became of a request by one call. -/
inductive Progress where
  | next (stage : Stage)
  | done (table : AccountTable)
  | failed (error : HttpError)

def Account.ActiveSuperuser (a : Account) : Prop := a.role = .superuser ∧ a.isActive = true

instance (a : Account) : Decidable a.ActiveSuperuser := inferInstanceAs (Decidable (_ ∧ _))

/-- The superusers that a request may not exceed. -/
def maxSuperusers : Nat := 5

namespace UserRoutes

def firstStage : UserRequest → Stage
  | .create _ _ => .checkEmail
  | .update _ _ => .lookUp
  | .delete _ _ => .lookUp

/-- Only a request for the superuser role counts the superusers. -/
def afterEmail (role : Option Role) : Stage :=
  if role = some .superuser then .countSuperusers else .write

def tooManySuperusers : HttpError := ⟨400, "Maximum 5 superusers are allowed."⟩

def notFound (userId : String) : HttpError := ⟨404, "User '" ++ userId ++ "' not found"⟩

/-- A write that raises is an internal error. -/
def ofWrite : Except String AccountTable → Progress
  | .ok table => .done table
  | .error message => .failed ⟨500, message⟩

variable (rules : PasswordRules) (t : AccountTable)

/-- `create_user`, one call. -/
def advanceCreate (body : UserCreateRequest) (newId : String) : Stage → Progress
  | .countSuperusers =>
      if maxSuperusers ≤ t.rows.countP (fun a => a.ActiveSuperuser) then .failed tooManySuperusers
      else .next .write
  | .write =>
      ofWrite (t.create newId body.email (rules.hash body.password) body.fullName
        { role := some body.role })
  | _ =>
      match rules.weakness body.password with
      | some detail => .failed ⟨400, detail⟩
      | none =>
          match t.getByEmail body.email with
          | some _ => .failed ⟨409, "A user with email '" ++ body.email ++ "' already exists."⟩
          | none => .next (afterEmail (some body.role))

/-- `update_user`, one call. -/
def advanceUpdate (userId : String) (body : UserUpdateRequest) : Stage → Progress
  | .lookUp =>
      match t.getById userId with
      | none => .failed (notFound userId)
      | some _ => if body.email.isSome then .next .checkEmail else .next (afterEmail body.role)
  | .checkEmail =>
      match body.email with
      | none => .next (afterEmail body.role)
      | some email =>
          match t.getByEmail email with
          | none => .next (afterEmail body.role)
          | some existing =>
              if existing.userId ≠ userId then
                .failed ⟨409, "Email '" ++ email ++ "' is already in use."⟩
              else .next (afterEmail body.role)
  | .countSuperusers =>
      if maxSuperusers ≤ t.rows.countP (fun a => a.ActiveSuperuser ∧ a.userId ≠ userId) then
        .failed tooManySuperusers
      else .next .write
  | .write => ofWrite (t.update userId body.updates)

/-- `delete_user`, one call. -/
def advanceDelete (userId callerId : String) : Stage → Progress
  | .write => ofWrite (t.delete userId)
  | _ =>
      if userId = callerId then .failed ⟨400, "Superusers cannot deactivate their own account."⟩
      else
        match t.getById userId with
        | none => .failed (notFound userId)
        | some _ => .next .write

/-- One database call of a request. -/
def advance : UserRequest → Stage → Progress
  | .create body newId => advanceCreate rules t body newId
  | .update userId body => advanceUpdate t userId body
  | .delete userId callerId => advanceDelete t userId callerId

variable {rules t}

theorem ofWrite_done_iff {result : Except String AccountTable} {t' : AccountTable} :
    ofWrite result = .done t' ↔ result = .ok t' := by
  cases result <;> simp [ofWrite]

def written (rules : PasswordRules) (t : AccountTable) : UserRequest → Except String AccountTable
  | .create body newId =>
      t.create newId body.email (rules.hash body.password) body.fullName { role := some body.role }
  | .update userId body => t.update userId body.updates
  | .delete userId _ => t.delete userId

/-- A request changes the table in its last call only, by its write. -/
theorem advance_done_iff {r : UserRequest} {stage : Stage} {t' : AccountTable} :
    advance rules t r stage = .done t' ↔ stage = .write ∧ written rules t r = .ok t' := by
  have hLater : ∀ {p : Prop} [Decidable p] {e : HttpError} {s : Stage},
      (if p then Progress.failed e else .next s) ≠ .done t' := by
    intro p _ e s
    by_cases h : p <;> simp [h]
  cases r with
  | create body newId =>
      cases stage with
      | write => simp [advance, advanceCreate, ofWrite_done_iff, written]
      | countSuperusers => simp [advance, advanceCreate, hLater]
      | lookUp | checkEmail =>
          simp only [advance, advanceCreate, reduceCtorEq, false_and, iff_false]
          cases rules.weakness body.password with
          | some detail => simp
          | none => cases t.getByEmail body.email <;> simp
  | update userId body =>
      cases stage with
      | write => simp [advance, advanceUpdate, ofWrite_done_iff, written]
      | countSuperusers => simp [advance, advanceUpdate, hLater]
      | lookUp =>
          simp only [advance, advanceUpdate, reduceCtorEq, false_and, iff_false]
          cases t.getById userId with
          | none => simp
          | some a => by_cases h : body.email.isSome = true <;> simp [h]
      | checkEmail =>
          simp only [advance, advanceUpdate, reduceCtorEq, false_and, iff_false]
          cases body.email with
          | none => simp
          | some email =>
              cases hFound : t.getByEmail email with
              | none => simp [hFound]
              | some existing => simp only [hFound]; exact hLater
  | delete userId callerId =>
      cases stage with
      | write => simp [advance, advanceDelete, ofWrite_done_iff, written]
      | lookUp | checkEmail | countSuperusers =>
          simp only [advance, advanceDelete, reduceCtorEq, false_and, iff_false]
          by_cases h : userId = callerId
          · simp [h]
          · cases t.getById userId <;> simp [h]

/-! ## Requests under way -/

/-- The table and the requests under way, each with its next database call. -/
structure World where
  table : AccountTable
  requests : List (UserRequest × Stage)

inductive Event where
  /-- A request arrives. -/
  | begin (request : UserRequest)
  /-- The `k`-th request makes its next database call. -/
  | advance (k : Nat)

def World.step (rules : PasswordRules) (w : World) : Event → World
  | .begin request => { w with requests := w.requests ++ [(request, firstStage request)] }
  | .advance k =>
      match w.requests[k]? with
      | none => w
      | some (request, stage) =>
          match UserRoutes.advance rules w.table request stage with
          | .next stage => { w with requests := w.requests.set k (request, stage) }
          | .done table => ⟨table, w.requests.eraseIdx k⟩
          | .failed _ => { w with requests := w.requests.eraseIdx k }

theorem World.step_table (rules : PasswordRules) (w : World) (e : Event) :
    (w.step rules e).table = w.table ∨
      ∃ k request, e = .advance k ∧ w.requests[k]? = some (request, .write) ∧
        written rules w.table request = .ok (w.step rules e).table := by
  cases e with
  | begin request => exact .inl rfl
  | advance k =>
      cases hRequest : w.requests[k]? with
      | none => exact .inl (by simp only [World.step, hRequest])
      | some r =>
          obtain ⟨request, stage⟩ := r
          cases hAdvance : UserRoutes.advance rules w.table request stage with
          | next stage' => exact .inl (by simp only [World.step, hRequest, hAdvance])
          | failed error => exact .inl (by simp only [World.step, hRequest, hAdvance])
          | done t' =>
              obtain ⟨rfl, hWritten⟩ := advance_done_iff.mp hAdvance
              exact .inr ⟨k, request, rfl, hRequest, by
                simpa only [World.step, hRequest, hAdvance] using hWritten⟩

/-! ## Accounts and rules of concrete runs -/

def member (userId : String) (role : Role) (isActive : Bool) : Account where
  userId := userId
  email := userId ++ "@example.com"
  fullName := userId
  role := role
  subscriptionTier := none
  subscriptionStatus := none
  razorpayCustomerId := none
  razorpaySubscriptionId := none
  stripeCustomerId := none
  stripeSubscriptionId := none
  hashedPassword := "hash"
  isActive := isActive
  oauthProvider := none
  oauthSub := none
  profilePictureUrl := none
  pagePermissions := none

/-- Every password passes. -/
def demoRules : PasswordRules := ⟨fun _ => none, id⟩

end UserRoutes

end AsetPlatform.Accounts

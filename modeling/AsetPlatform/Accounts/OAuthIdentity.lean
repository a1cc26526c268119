import AsetPlatform.Accounts.AccountTable
import AsetPlatform.Library.Dict
import AsetPlatform.Library.Run

/-!
# OAuth identities

`get_or_create_by_oauth`: a row that holds the identity is returned, else the row with the e-mail is
linked to the identity, else a new row is created. A row holds one identity, so linking a second
provider drops the first.

`identities_stable_iff` says in which sequences of calls an identity leads to the same user for
ever.
-/

set_option autoImplicit false

namespace AsetPlatform.Accounts

open AsetPlatform.Library AsetPlatform.Billing

/-- A provider and the subject there. -/
structure Identity where
  provider : String
  sub : String
  deriving DecidableEq

/-- The row holds the identity; `NULL` equals nothing. -/
def Account.Holds (a : Account) (i : Identity) : Prop :=
  a.oauthProvider = some i.provider ∧ a.oauthSub = some i.sub

instance (a : Account) (i : Identity) : Decidable (a.Holds i) := inferInstanceAs (Decidable (_ ∧ _))

/-- `scalar_one_or_none` -/
def scalarOneOrNone : List Account → Except String (Option Account)
  | [] => .ok none
  | [a] => .ok (some a)
  | _ :: _ :: _ => .error "Multiple rows were found when one or none was required"

theorem scalarOneOrNone_none_iff {rows : List Account} :
    scalarOneOrNone rows = .ok none ↔ rows = [] := by
  rcases rows with _ | ⟨a, _ | ⟨b, rest⟩⟩ <;> simp [scalarOneOrNone]

theorem scalarOneOrNone_some_iff {rows : List Account} {a : Account} :
    scalarOneOrNone rows = .ok (some a) ↔ rows = [a] := by
  rcases rows with _ | ⟨b, _ | ⟨b', rest⟩⟩ <;> simp [scalarOneOrNone]

/-- What a provider says of a user, with the id and the random text that a new row would get. -/
structure OAuthCall where
  identity : Identity
  email : String
  fullName : String
  pictureUrl : Option String
  newId : String
  token : String

/-- The row linked to an identity. -/
def Account.linked (a : Account) (c : OAuthCall) : Account :=
  { a with
    oauthProvider := some c.identity.provider
    oauthSub := some c.identity.sub
    profilePictureUrl := if truthy c.pictureUrl then c.pictureUrl else a.profilePictureUrl }

def OAuthCall.newRow (c : OAuthCall) : Account where
  userId := c.newId
  email := c.email
  fullName := c.fullName
  role := .user
  subscriptionTier := none
  subscriptionStatus := none
  razorpayCustomerId := none
  razorpaySubscriptionId := none
  stripeCustomerId := none
  stripeSubscriptionId := none
  hashedPassword := "!sso_only_" ++ c.token
  isActive := true
  oauthProvider := some c.identity.provider
  oauthSub := some c.identity.sub
  profilePictureUrl := c.pictureUrl
  pagePermissions := none

namespace AccountTable

variable (t : AccountTable)

/-- `get_by_oauth_sub` -/
def getByOauthSub (i : Identity) : Except String (Option Account) :=
  scalarOneOrNone (t.rows.filter fun a => a.Holds i)

/-- `get_or_create_by_oauth` -/
def getOrCreateByOauth (c : OAuthCall) : Except String (Account × AccountTable) :=
  match t.getByOauthSub c.identity with
  | .error e => .error e
  | .ok (some a) => .ok (a, t)
  | .ok none =>
      match t.getByEmail c.email with
      | some a => (t.replace (a.linked c)).map fun t' => (a.linked c, t')
      | none => (t.insert c.newRow).map fun t' => (c.newRow, t')

variable {t}

theorem getByOauthSub_none_iff {i : Identity} :
    t.getByOauthSub i = .ok none ↔ ∀ a ∈ t.rows, ¬a.Holds i := by
  unfold getByOauthSub
  rw [scalarOneOrNone_none_iff, List.filter_eq_nil_iff]
  simp only [decide_eq_true_eq]

theorem getByOauthSub_some {i : Identity} {a : Account} (h : t.getByOauthSub i = .ok (some a)) :
    a ∈ t.rows ∧ a.Holds i ∧ ∀ b ∈ t.rows, b.Holds i → b = a := by
  have hMem : ∀ b, b ∈ t.rows.filter (fun a => decide (a.Holds i)) ↔ b ∈ t.rows ∧ b.Holds i := by
    intro b
    simp only [List.mem_filter, decide_eq_true_eq]
  rw [scalarOneOrNone_some_iff.mp h] at hMem
  obtain ⟨hIn, hHolds⟩ := (hMem a).mp List.mem_cons_self
  exact ⟨hIn, hHolds, fun b hb hHolds' => List.mem_singleton.mp ((hMem b).mpr ⟨hb, hHolds'⟩)⟩

theorem getByOauthSub_of_unique {i : Identity} {a : Account} (hMem : a ∈ t.rows) (hHolds : a.Holds i)
    (hUnique : ∀ b ∈ t.rows, b.Holds i → b = a) : t.getByOauthSub i = .ok (some a) := by
  have hNodup : (t.rows.filter fun a => decide (a.Holds i)).Nodup :=
    (List.Nodup.of_map _ t.ids).filter _
  unfold getByOauthSub
  rw [scalarOneOrNone_some_iff]
  refine List.perm_singleton.mp ((List.perm_ext_iff_of_nodup hNodup (List.nodup_singleton a)).mpr ?_)
  intro b
  simp only [List.mem_filter, decide_eq_true_eq, List.mem_singleton]
  constructor
  · rintro ⟨hb, hHolds'⟩
    exact hUnique b hb hHolds'
  · rintro rfl
    exact ⟨hMem, hHolds⟩

/-- The three ways to return: the identity is held, it is linked to the row with the e-mail, or it
is the new row's. -/
theorem getOrCreateByOauth_cases {c : OAuthCall} {a : Account} {t' : AccountTable}
    (h : t.getOrCreateByOauth c = .ok (a, t')) :
    (t.getByOauthSub c.identity = .ok (some a) ∧ t' = t) ∨
      ((∀ b ∈ t.rows, ¬b.Holds c.identity) ∧ ∃ b ∈ t.rows, b.email = c.email ∧ a = b.linked c ∧
        (b.linked c).Fits ∧ t'.rows = t.replaced (b.linked c)) ∨
      ((∀ b ∈ t.rows, ¬b.Holds c.identity) ∧ (∀ b ∈ t.rows, b.email ≠ c.email) ∧ a = c.newRow ∧
        t.AdmitsNew c.newRow ∧ t'.rows = t.rows ++ [c.newRow]) := by
  unfold getOrCreateByOauth at h
  cases hSub : t.getByOauthSub c.identity with
  | error e =>
      rw [hSub] at h
      exact nomatch h
  | ok found =>
      rw [hSub] at h
      cases found with
      | some b =>
          obtain ⟨rfl, rfl⟩ := Prod.mk.inj (Except.ok.inj h)
          exact .inl ⟨rfl, rfl⟩
      | none =>
          have hNobody := getByOauthSub_none_iff.mp hSub
          right
          cases hEmail : t.getByEmail c.email with
          | some b =>
              simp only [hEmail] at h
              cases hReplace : t.replace (b.linked c) with
              | error e =>
                  rw [hReplace] at h
                  exact nomatch h
              | ok t'' =>
                  rw [hReplace] at h
                  obtain ⟨rfl, rfl⟩ := Prod.mk.inj (Except.ok.inj h)
                  obtain ⟨hMem, hSame⟩ := getByEmail_eq_some_iff.mp hEmail
                  obtain ⟨hAdmits, hRows⟩ := rows_of_replace hReplace
                  exact .inl ⟨hNobody, b, hMem, hSame, rfl, hAdmits.2, hRows⟩
          | none =>
              simp only [hEmail] at h
              cases hInsert : t.insert c.newRow with
              | error e =>
                  rw [hInsert] at h
                  exact nomatch h
              | ok t'' =>
                  rw [hInsert] at h
                  obtain ⟨rfl, rfl⟩ := Prod.mk.inj (Except.ok.inj h)
                  obtain ⟨hAdmits, hRows⟩ := rows_of_insert hInsert
                  refine .inr ⟨hNobody, fun b hMem hSame => ?_, rfl, hAdmits, hRows⟩
                  rw [getByEmail_eq_some_iff.mpr ⟨hMem, hSame⟩] at hEmail
                  exact nomatch hEmail

theorem getOrCreateByOauth_of_holds {c : OAuthCall} {a : Account} (hMem : a ∈ t.rows)
    (hHolds : a.Holds c.identity) (hUnique : ∀ b ∈ t.rows, b.Holds c.identity → b = a) :
    t.getOrCreateByOauth c = .ok (a, t) := by
  unfold getOrCreateByOauth
  rw [getByOauthSub_of_unique hMem hHolds hUnique]

theorem getOrCreateByOauth_of_email {c : OAuthCall} {a : Account} (hMem : a ∈ t.rows)
    (hNobody : ∀ b ∈ t.rows, ¬b.Holds c.identity) (hEmail : a.email = c.email)
    (hFits : (a.linked c).Fits) : ∃ t', t.getOrCreateByOauth c = .ok (a.linked c, t') := by
  have hAdmits : t.Admits (a.linked c) := by
    refine ⟨fun b hb hOther hSame => hOther ?_, hFits⟩
    rw [eq_of_email hb hMem hSame]
    rfl
  unfold getOrCreateByOauth
  rw [getByOauthSub_none_iff.mpr hNobody]
  simp only [getByEmail_eq_some_iff.mpr ⟨hMem, hEmail⟩, replace, dif_pos hAdmits]
  exact ⟨_, rfl⟩

end AccountTable

/-! ## Sequences of calls -/

namespace OAuthIdentity

/-- The table, and the user that was last returned for every identity. -/
structure World where
  table : AccountTable
  returned : Dict Identity String

namespace World

/-- A table before the first call. -/
def start (table : AccountTable) : World := ⟨table, .empty⟩

variable (w : World) (c : OAuthCall)

/-- One call; one that raises leaves all as it was. -/
def step : World :=
  match w.table.getOrCreateByOauth c with
  | .error _ => w
  | .ok (a, table) => ⟨table, w.returned.set c.identity a.userId⟩

/-- The id of the user that the call returns. -/
def returnedId : Option String :=
  match w.table.getOrCreateByOauth c with
  | .error _ => none
  | .ok (a, _) => some a.userId

/-- The call returns the user that was returned for its identity before, if one was. -/
def Stable : Prop := ∀ u ∈ w.returned.get? c.identity, w.returnedId c = some u

instance : Decidable (w.Stable c) :=
  inferInstanceAs (Decidable (∀ u ∈ w.returned.get? c.identity, w.returnedId c = some u))

/-- The user that was returned for the identity still holds it, or the call brings the e-mail of
their row, and the row can be linked. -/
def Reaches : Prop :=
  ∀ u ∈ w.returned.get? c.identity, ∀ a ∈ w.table.getById u,
    a.Holds c.identity ∨ a.email = c.email ∧ (a.linked c).Fits

instance : Decidable (w.Reaches c) :=
  inferInstanceAs (Decidable (∀ u ∈ w.returned.get? c.identity, ∀ a ∈ w.table.getById u,
    a.Holds c.identity ∨ a.email = c.email ∧ (a.linked c).Fits))

/-- A returned user exists, and nobody else holds the identity. -/
structure Inv : Prop where
  present : ∀ i u, w.returned.get? i = some u → ∃ a ∈ w.table.rows, a.userId = u
  alone : ∀ i u, w.returned.get? i = some u → ∀ a ∈ w.table.rows, a.Holds i → a.userId = u

variable {w c}

theorem inv_start (table : AccountTable) : (start table).Inv where
  present := fun _ _ h => nomatch h
  alone := fun _ _ h => nomatch h

theorem stable_iff_reaches (h : w.Inv) : w.Stable c ↔ w.Reaches c := by
  unfold Stable Reaches
  refine forall₂_congr fun u hReturned => ?_
  obtain ⟨a, hMem, rfl⟩ := h.present _ _ hReturned
  have hRow : w.table.getById a.userId = some a := AccountTable.getById_of_mem hMem
  simp only [hRow, Option.mem_some_iff, forall_eq']
  constructor
  · intro hStable
    unfold returnedId at hStable
    cases hResult : w.table.getOrCreateByOauth c with
    | error e =>
        rw [hResult] at hStable
        exact nomatch hStable
    | ok result =>
        rw [hResult] at hStable
        obtain ⟨b, t'⟩ := result
        have hId : b.userId = a.userId := Option.some.inj hStable
        rcases AccountTable.getOrCreateByOauth_cases hResult with
          ⟨hFound, -⟩ | ⟨-, b', hb', hEmail, rfl, hFits, -⟩ | ⟨-, -, rfl, hAdmits, -⟩
        · obtain ⟨hIn, hHolds, -⟩ := AccountTable.getByOauthSub_some hFound
          exact .inl (AccountTable.eq_of_userId hIn hMem hId ▸ hHolds)
        · obtain rfl := AccountTable.eq_of_userId hb' hMem hId
          exact .inr ⟨hEmail, hFits⟩
        · exact absurd hId.symm (hAdmits.1 a hMem).1
  · intro hReaches
    have hUnique : ∀ b ∈ w.table.rows, b.Holds c.identity → b = a := fun b hb hHolds =>
      AccountTable.eq_of_userId hb hMem (h.alone _ _ hReturned b hb hHolds)
    by_cases hHolds : a.Holds c.identity
    · unfold returnedId
      rw [AccountTable.getOrCreateByOauth_of_holds hMem hHolds hUnique]
    · obtain ⟨hEmail, hFits⟩ := hReaches.resolve_left hHolds
      have hNobody : ∀ b ∈ w.table.rows, ¬b.Holds c.identity := fun b hb hHolds' =>
        hHolds (hUnique b hb hHolds' ▸ hHolds')
      obtain ⟨t', hResult⟩ := AccountTable.getOrCreateByOauth_of_email hMem hNobody hEmail hFits
      unfold returnedId
      rw [hResult]
      rfl

/-- A call that returns someone keeps who holds the other identities, and makes nobody else a holder
of its own. -/
theorem holders_of_call {a : Account} {t' : AccountTable}
    (hResult : w.table.getOrCreateByOauth c = .ok (a, t')) :
    (∀ b ∈ w.table.rows, ∃ b' ∈ t'.rows, b'.userId = b.userId) ∧ (∃ b ∈ t'.rows, b.userId = a.userId) ∧
      (∀ b ∈ t'.rows, b.Holds c.identity → b.userId = a.userId) ∧
      ∀ i, i ≠ c.identity → ∀ b ∈ t'.rows, b.Holds i → ∃ b' ∈ w.table.rows, b'.userId = b.userId ∧
        b'.Holds i := by
  have hOnly : ∀ {i : Identity} {b : Account}, b.Holds i →
      b.oauthProvider = some c.identity.provider ∧ b.oauthSub = some c.identity.sub →
      i = c.identity := by
    rintro ⟨provider, sub⟩ b ⟨hProvider, hSub⟩ ⟨hProvider', hSub'⟩
    obtain rfl := Option.some.inj (hProvider.symm.trans hProvider')
    obtain rfl := Option.some.inj (hSub.symm.trans hSub')
    rfl
  rcases AccountTable.getOrCreateByOauth_cases hResult with
    ⟨hFound, rfl⟩ | ⟨hNobody, b, hb, -, rfl, -, hRows⟩ | ⟨hNobody, -, rfl, -, hRows⟩
  -- the identity is held already
  · obtain ⟨hIn, -, hUnique⟩ := AccountTable.getByOauthSub_some hFound
    exact ⟨fun b hb => ⟨b, hb, rfl⟩, ⟨a, hIn, rfl⟩,
      fun b hb hHolds => by rw [hUnique b hb hHolds], fun i _ b hb hHolds => ⟨b, hb, rfl, hHolds⟩⟩
  -- the row with the e-mail is linked to it
  · have hIds := AccountTable.map_userId_replaced (t := w.table) (b.linked c)
    have hLinked : b.linked c ∈ t'.rows := by
      rw [hRows]
      exact List.mem_map.mpr ⟨b, hb, if_pos rfl⟩
    refine ⟨?_, ⟨_, hLinked, rfl⟩, ?_, ?_⟩
    · intro b' hb'
      have hMem : b'.userId ∈ (w.table.replaced (b.linked c)).map fun a => a.userId := by
        rw [hIds]
        exact List.mem_map.mpr ⟨b', hb', rfl⟩
      obtain ⟨b'', hb'', hSame⟩ := List.mem_map.mp hMem
      exact ⟨b'', hRows ▸ hb'', hSame⟩
    · intro b' hb' hHolds
      rw [hRows] at hb'
      rcases AccountTable.mem_replaced hb' with rfl | ⟨hOld, -⟩
      · rfl
      · exact absurd hHolds (hNobody b' hOld)
    · intro i hi b' hb' hHolds
      rw [hRows] at hb'
      rcases AccountTable.mem_replaced hb' with rfl | ⟨hOld, -⟩
      · exact absurd (hOnly hHolds ⟨rfl, rfl⟩) hi
      · exact ⟨b', hOld, rfl, hHolds⟩
  -- it is the new row's
  · refine ⟨fun b hb => ⟨b, hRows ▸ List.mem_append_left _ hb, rfl⟩,
      ⟨c.newRow, hRows ▸ List.mem_append_right _ (List.mem_singleton_self _), rfl⟩, ?_, ?_⟩
    · intro b hb hHolds
      rw [hRows] at hb
      rcases List.mem_append.mp hb with hOld | hNew
      · exact absurd hHolds (hNobody b hOld)
      · rw [List.mem_singleton.mp hNew]
    · intro i hi b hb hHolds
      rw [hRows] at hb
      rcases List.mem_append.mp hb with hOld | hNew
      · exact ⟨b, hOld, rfl, hHolds⟩
      · rw [List.mem_singleton.mp hNew] at hHolds
        exact absurd (hOnly hHolds ⟨rfl, rfl⟩) hi

theorem Inv.step (h : w.Inv) (c : OAuthCall) : (w.step c).Inv := by
  unfold World.step
  cases hResult : w.table.getOrCreateByOauth c with
  | error e => exact h
  | ok result =>
      obtain ⟨a, t'⟩ := result
      obtain ⟨hKept, hPresent, hOwn, hOthers⟩ := holders_of_call hResult
      constructor
      · intro i u hGet
        rw [Dict.get?_set] at hGet
        by_cases hi : i = c.identity
        · rw [if_pos hi] at hGet
          exact Option.some.inj hGet ▸ hPresent
        · rw [if_neg hi] at hGet
          obtain ⟨b, hb, rfl⟩ := h.present i u hGet
          exact hKept b hb
      · intro i u hGet b hb hHolds
        rw [Dict.get?_set] at hGet
        by_cases hi : i = c.identity
        · rw [if_pos hi] at hGet
          exact (hOwn b hb (hi ▸ hHolds)).trans (Option.some.inj hGet)
        · rw [if_neg hi] at hGet
          obtain ⟨b', hb', hSame, hHolds'⟩ := hOthers i hi b hb hHolds
          exact hSame.symm.trans (h.alone i u hGet b' hb' hHolds')

/-- The sequences of calls in which every identity leads to the same user for ever are those in
which each call reaches the user that was returned for its identity. -/
theorem identities_stable_iff (table : AccountTable) (cs : List OAuthCall) :
    EveryStep World.step Stable (start table) cs ↔ EveryStep World.step Reaches (start table) cs := by
  have hStep : ∀ (w : World) (c : OAuthCall), w.Inv → (w.step c).Inv := fun _ c h => h.step c
  exact everyStep_congr hStep (fun _ _ h => stable_iff_reaches h) (inv_start table)

/-- A second provider takes over the row by its e-mail. When the e-mail at the first provider has
changed, its next login makes a new user. -/
theorem linked_provider_detaches :
    ¬∀ (table : AccountTable) (cs : List OAuthCall),
      EveryStep World.step Stable (start table) cs := by
  intro h
  have hRun := h .empty
    [⟨⟨"google", "G1"⟩, "ann@old.com", "Ann", none, "u1", "t1"⟩,
      ⟨⟨"facebook", "F1"⟩, "ann@old.com", "Ann", none, "u2", "t2"⟩,
      ⟨⟨"google", "G1"⟩, "ann@new.com", "Ann", none, "u3", "t3"⟩]
  revert hRun
  decide +kernel

end World

end OAuthIdentity

end AsetPlatform.Accounts

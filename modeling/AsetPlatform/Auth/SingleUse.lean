import AsetPlatform.Auth.SessionRuns
import AsetPlatform.Library.Threads

/-!
# Refresh tokens are to be used once

`/auth/refresh` in its four parts: `decode_token` looks the token up in the deny-list, the user is
read from the database, `revoke_refresh_token` writes the deny-list entry, and the new pair is minted.
Any number of requests with any tokens interleave, with each other and with the other calls.

`RefreshRequest.late` is no part of the program. It marks a request that is not alone: another one
with its token was given its user without having revoked the token before this one looked it up.

`single_use` says which runs exchange each token once at most.
-/

set_option autoImplicit false

namespace AsetPlatform.Auth.SingleUse

open AsetPlatform.Library

deriving instance DecidableEq for Uuid, Token

/-! ## Requests -/

inductive Phase where
  /-- The token was accepted; the user is being read. -/
  | decoded
  /-- The user is there and active. -/
  | found
  /-- The token is revoked. -/
  | revoked
  /-- The new pair is returned. -/
  | returned
  /-- Without an active user: a 401. -/
  | refused
  deriving DecidableEq, Repr

structure RefreshRequest where
  token : Token
  phase : Phase
  late : Bool

structure State where
  auth : AuthState
  requests : List RefreshRequest

def State.start (clock : Nat) : State := ⟨.start clock, []⟩

/-- The two parts of a refresh in one call. -/
def IsRefresh : AuthCall → Prop
  | .refreshBegin _ => True
  | .refreshFinish _ _ _ _ => True
  | _ => False

inductive Op where
  /-- A request presents the `k`-th issued token. -/
  | decode (k : Nat)
  /-- The database answers the `i`-th request; `active` is what it says of the user. -/
  | lookup (i : Nat) (active : Bool)
  | revoke (i : Nat)
  | mint (i : Nat) (accessJti refreshJti : Uuid)
  /-- Any other call. -/
  | call (c : AuthCall) (other : ¬IsRefresh c)

/-- An operation and the microseconds since the one before. -/
structure Event where
  elapsed : Nat
  op : Op

/-- The request was given its user, and a new pair is on its way or returned. -/
def RefreshRequest.granted (r : RefreshRequest) : Bool :=
  r.phase = .found ∨ r.phase = .revoked ∨ r.phase = .returned

/-- What a request learns when another one with the token is given its user. -/
def RefreshRequest.overtaken (token : Token) (r : RefreshRequest) : RefreshRequest :=
  if r.token = token then { r with late := true } else r

variable (cfg : AuthConfig)

def State.perform (s : State) : Op → State
  | .decode k =>
      match s.auth.issued[k]? with
      | none => s
      | some token =>
          match decodeToken s.auth.store s.auth.clock token (some .refresh) with
          | (.error _, store) => { s with auth := { s.auth with store := store } }
          | (.ok token, store) =>
              -- a rival that has its user already but has not written its entry
              let late := s.requests.any fun r => r.token = token ∧ r.phase = .found
              { auth := { s.auth with store := store }
                requests := s.requests ++ [⟨token, .decoded, late⟩] }
  | .lookup i active =>
      match s.requests[i]? with
      | none => s
      | some r =>
          if r.phase = .decoded then
            if active then
              { s with
                requests :=
                  (s.requests.map (.overtaken r.token)).set i { r with phase := .found } }
            else { s with requests := s.requests.set i { r with phase := .refused } }
          else s
  | .revoke i =>
      match s.requests[i]? with
      | none => s
      | some r =>
          if r.phase = .found then
            { auth :=
                { s.auth with
                  store := revokeRefreshToken cfg s.auth.store s.auth.clock r.token }
              requests := s.requests.set i { r with phase := .revoked } }
          else s
  | .mint i accessJti refreshJti =>
      match s.requests[i]? with
      | none => s
      | some r =>
          if r.phase = .revoked then
            { auth := s.auth.mint cfg r.token.sub accessJti refreshJti
              requests := s.requests.set i { r with phase := .returned } }
          else s
  | .call c _ => { s with auth := s.auth.perform cfg c }

def State.wait (s : State) (elapsed : Nat) : State := { s with auth := s.auth.wait elapsed }

def step (s : State) (e : Event) : State := (s.wait e.elapsed).perform cfg e.op

/-! ## The property and the condition -/

/-- The tokens for which a new pair was returned, with one entry for each pair. -/
def exchanged (s : State) : List Token :=
  (s.requests.filter fun r => r.phase = .returned).map (·.token)

def OncePerToken (s : State) : Prop := (exchanged s).Nodup

/-- A request that is given its user is not late. -/
def Alone (s : State) (e : Event) : Prop :=
  match e.op with
  | .lookup i true => ∀ r ∈ s.requests[i]?, r.phase = .decoded → r.late = false
  | _ => True

/-- A deny-list entry is written that outlasts its token. -/
def Lasting (s : State) (e : Event) : Prop :=
  match e.op with
  | .revoke i =>
      ∀ r ∈ s.requests[i]?, r.phase = .found →
        EntryOutlasts cfg (s.auth.clock + e.elapsed) r.token
  | _ => True

/-- No pair is on its way. -/
def Settled (s : State) : Prop := ∀ r ∈ s.requests, r.phase ≠ .found ∧ r.phase ≠ .revoked

/-! ## Steps -/

/-- The requests with the token that were given their user. -/
def grants (requests : List RefreshRequest) (token : Token) : Nat :=
  requests.countP fun r => r.token = token ∧ r.granted = true

section Grants

variable {requests : List RefreshRequest} {token : Token} {r r' : RefreshRequest} {i : Nat}

theorem grants_append :
    grants (requests ++ [r]) token =
      grants requests token + if r.token = token ∧ r.granted = true then 1 else 0 := by
  unfold grants
  rw [countP_append_singleton]
  simp only [decide_eq_true_eq]

theorem grants_map_overtaken (other : Token) :
    grants (requests.map (.overtaken other)) token = grants requests token := by
  unfold grants
  rw [List.countP_map]
  congr 1
  funext r
  simp only [Function.comp_apply, RefreshRequest.overtaken]
  split <;> rfl

theorem grants_set_of_eq (h : requests[i]? = some r) (hToken : r'.token = r.token)
    (hGranted : r'.granted = r.granted) :
    grants (requests.set i r') token = grants requests token := by
  refine countP_set_of_eq h ?_
  simp only [hToken, hGranted]

theorem grants_set_found (h : requests[i]? = some r) (hToken : r'.token = r.token)
    (hGranted : r.granted = false) (hGranted' : r'.granted = true) :
    grants (requests.set i r') token =
      grants requests token + if r.token = token then 1 else 0 := by
  have hSet := countP_set_add (b := r')
    (p := fun r => r.token = token ∧ r.granted = true) h
  unfold grants
  simp only [hGranted, hGranted', hToken, Bool.false_eq_true, and_false, and_true,
    decide_false, if_false, decide_eq_true_eq] at hSet
  exact hSet

theorem grants_pos_iff : 0 < grants requests token ↔
    ∃ r ∈ requests, r.token = token ∧ r.granted = true := by
  simp [grants, List.countP_pos_iff]

end Grants

section Perform

variable {cfg} {s : State}

/-- A token is looked up: nothing visible changes in the store, and a request that the token is
accepted for is new. -/
theorem perform_decode {k : Nat} {token : Token} (hk : s.auth.issued[k]? = some token) :
    ∃ store, TokenStore.SameFrom s.auth.clock s.auth.store store ∧
      (s.perform cfg (.decode k) = { s with auth := { s.auth with store := store } } ∨
        Accepted s.auth.store s.auth.clock token ∧
          s.perform cfg (.decode k) =
            { auth := { s.auth with store := store }
              requests := s.requests ++ [⟨token, .decoded,
                s.requests.any fun r => r.token = token ∧ r.phase = .found⟩] }) := by
  have hSame := @sameFrom_decodeToken s.auth.store s.auth.clock token (some .refresh)
  simp only [State.perform, hk, Accepted]
  rcases hDecode : decodeToken s.auth.store s.auth.clock token (some .refresh) with ⟨result, store⟩
  rw [hDecode] at hSame
  refine ⟨store, hSame, ?_⟩
  cases result with
  | error detail => exact .inl rfl
  | ok token' =>
      obtain rfl := decodeToken_ok hDecode
      exact .inr ⟨rfl, rfl⟩

end Perform

/-! ## The invariant -/

/-- What is revoked is dead, and a request is late exactly when one of its rivals was granted. -/
structure Inv (s : State) : Prop where
  shortLived : ShortLived cfg s.auth.clock s.auth.store
  dead : ∀ r ∈ s.requests, r.phase = .revoked ∨ r.phase = .returned →
    DeadFrom s.auth.store s.auth.clock r.token
  late_iff : ∀ r ∈ s.requests, r.phase = .decoded →
    (r.late = true ↔ 0 < grants s.requests r.token)

section Inv

variable {cfg} {s : State}

theorem inv_start (clock : Nat) : Inv cfg (.start clock) where
  shortLived := by
    intro time _ key hLive
    simp [State.start, AuthState.start, TokenStore.empty, TokenStore.live] at hLive
  dead r hr := by cases hr
  late_iff r hr := by cases hr

theorem Inv.wait (h : Inv cfg s) (elapsed : Nat) : Inv cfg (s.wait elapsed) where
  shortLived := h.shortLived.wait elapsed
  dead r hr hPhase := (h.dead r hr hPhase).later (Nat.le_add_right _ _)
  late_iff := h.late_iff

theorem Inv.withAuth (h : Inv cfg s) {auth : AuthState} (hClock : auth.clock = s.auth.clock)
    (hShort : ShortLived cfg s.auth.clock auth.store)
    (hKeeps : KeepsTokens s.auth.clock s.auth.store auth.store) :
    Inv cfg { s with auth := auth } where
  shortLived := hClock ▸ hShort
  dead r hr hPhase := hClock ▸ (h.dead r hr hPhase).of_keepsTokens hKeeps
  late_iff := h.late_iff

/-- A token that is accepted has not been revoked by any request. -/
theorem Inv.granted_of_accepted (h : Inv cfg s) {token : Token}
    (hAccepted : Accepted s.auth.store s.auth.clock token) :
    0 < grants s.requests token ↔
      (s.requests.any fun r => r.token = token ∧ r.phase = .found) = true := by
  obtain ⟨hUnexpired, hLive, -⟩ := accepted_iff.mp hAccepted
  rw [grants_pos_iff, List.any_eq_true]
  constructor
  · rintro ⟨r, hr, rfl, hGranted⟩
    refine ⟨r, hr, ?_⟩
    have hPhase : r.phase = .found ∨ r.phase = .revoked ∨ r.phase = .returned := by
      simpa [RefreshRequest.granted] using hGranted
    -- a rival that had revoked the token would have kept it from being accepted
    have hDead := mt (h.dead r hr) fun hDead => by
      have hDenied := hDead s.auth.clock (Nat.le_refl _) hUnexpired
      rw [hLive] at hDenied
      cases hDenied
    simpa using hPhase.resolve_right hDead
  · rintro ⟨r, hr, hFound⟩
    obtain ⟨hToken, hPhase⟩ : r.token = token ∧ r.phase = .found := by simpa using hFound
    exact ⟨r, hr, hToken, by simp [RefreshRequest.granted, hPhase]⟩

/-- A request moves on, at the same time, without being granted anything by it. -/
theorem Inv.set (h : Inv cfg s) {i : Nat} {r r' : RefreshRequest} {auth : AuthState}
    (hi : s.requests[i]? = some r) (hToken : r'.token = r.token)
    (hGranted : r'.granted = r.granted) (hPhase : r'.phase ≠ .decoded)
    (hClock : auth.clock = s.auth.clock) (hShort : ShortLived cfg s.auth.clock auth.store)
    (hKeeps : KeepsTokens s.auth.clock s.auth.store auth.store)
    (hDead : r'.phase = .revoked ∨ r'.phase = .returned →
      DeadFrom auth.store s.auth.clock r.token) :
    Inv cfg ⟨auth, s.requests.set i r'⟩ where
  shortLived := hClock ▸ hShort
  dead q hq hq' := by
    rw [hClock]
    obtain hOld | rfl := List.mem_or_eq_of_mem_set hq
    · exact (h.dead q hOld hq').of_keepsTokens hKeeps
    · exact hToken ▸ hDead hq'
  late_iff q hq hq' := by
    rw [grants_set_of_eq hi hToken hGranted]
    obtain hOld | rfl := List.mem_or_eq_of_mem_set hq
    · exact h.late_iff q hOld hq'
    · exact absurd hq' hPhase

theorem Inv.grant (h : Inv cfg s) {i : Nat} {r : RefreshRequest} (hi : s.requests[i]? = some r)
    (hPhase : r.phase = .decoded) :
    let requests := (s.requests.map (.overtaken r.token)).set i { r with phase := .found }
    (∀ token, grants requests token =
        grants s.requests token + if r.token = token then 1 else 0) ∧
      Inv cfg { s with requests := requests } := by
  intro requests
  have hOvertaken (q : RefreshRequest) : (q.overtaken r.token).token = q.token ∧
      (q.overtaken r.token).phase = q.phase ∧
      (q.overtaken r.token).late = (decide (q.token = r.token) || q.late) := by
    unfold RefreshRequest.overtaken
    by_cases hEq : q.token = r.token <;> simp [hEq]
  have hGrants (token : Token) : grants requests token =
      grants s.requests token + if r.token = token then 1 else 0 := by
    have hMap : (s.requests.map (.overtaken r.token))[i]? = some (r.overtaken r.token) := by
      rw [List.getElem?_map, hi, Option.map_some]
    have hSet := @grants_set_found _ token _ { r with phase := .found } i hMap
      (hOvertaken r).1.symm (by simp [RefreshRequest.granted, (hOvertaken r).2.1, hPhase])
      (by simp [RefreshRequest.granted])
    rw [grants_map_overtaken, (hOvertaken r).1] at hSet
    exact hSet
  refine ⟨hGrants, h.shortLived, ?_, ?_⟩
  · intro q hq hq'
    obtain hOld | rfl := List.mem_or_eq_of_mem_set hq
    · obtain ⟨q₀, hq₀, rfl⟩ := List.mem_map.mp hOld
      rw [(hOvertaken q₀).1]
      rw [(hOvertaken q₀).2.1] at hq'
      exact h.dead q₀ hq₀ hq'
    · simp at hq'
  · intro q hq hq'
    rw [hGrants]
    obtain hOld | rfl := List.mem_or_eq_of_mem_set hq
    · obtain ⟨q₀, hq₀, rfl⟩ := List.mem_map.mp hOld
      obtain ⟨hToken, hSame, hLate⟩ := hOvertaken q₀
      rw [hSame] at hq'
      rw [hToken, hLate]
      by_cases hEq : q₀.token = r.token
      · simp [hEq]
      · simpa [hEq, Ne.symm hEq] using h.late_iff q₀ hq₀ hq'
    · simp at hq'

theorem deadFrom_revokeRefreshToken {store : TokenStore} {now : Nat} {token : Token}
    (h : EntryOutlasts cfg now token) :
    DeadFrom (revokeRefreshToken cfg store now token) now token := by
  intro time hTime hUnexpired
  have hNow : token.Unexpired now := (Nat.div_le_div_right hTime).trans hUnexpired
  rw [revokeRefreshToken, if_pos ⟨hNow, token.jti.text_ne⟩, TokenStore.live_add _ _ hTime]
  simpa using h time hUnexpired

/-- The operation grants one request its user. -/
def GrantsOne (s : State) (op : Op) (s' : State) : Prop :=
  ∃ i r, op = .lookup i true ∧ s.requests[i]? = some r ∧ r.phase = .decoded ∧
    ∀ token, grants s'.requests token =
      grants s.requests token + if r.token = token then 1 else 0

/-- The operation grants nothing. -/
structure GrantsNone (s : State) (op : Op) (s' : State) : Prop where
  no_lookup : ∀ i r, op = .lookup i true → s.requests[i]? = some r → r.phase ≠ .decoded
  grants_eq : ∀ token, grants s'.requests token = grants s.requests token

theorem Inv.perform_decode (h : Inv cfg s) (k : Nat) :
    Inv cfg (s.perform cfg (.decode k)) ∧ GrantsNone s (.decode k) (s.perform cfg (.decode k)) := by
  cases hk : s.auth.issued[k]? with
  | none =>
      have hResult : s.perform cfg (.decode k) = s := by simp [State.perform, hk]
      rw [hResult]
      exact ⟨h, by simp, fun _ => rfl⟩
  | some token =>
      obtain ⟨store, hSame, hResult⟩ := @SingleUse.perform_decode cfg s k token hk
      have hNext : Inv cfg { s with auth := { s.auth with store := store } } :=
        h.withAuth rfl (shortLived_of_sameFrom hSame h.shortLived) (keepsTokens_of_sameFrom hSame)
      obtain hResult | ⟨hAccepted, hResult⟩ := hResult
      · rw [hResult]
        exact ⟨hNext, by simp, fun _ => rfl⟩
      · rw [hResult]
        have hGrants (token' : Token) : grants (s.requests ++ [⟨token, .decoded,
            s.requests.any fun r => r.token = token ∧ r.phase = .found⟩]) token' =
            grants s.requests token' := by
          simp [grants_append, RefreshRequest.granted]
        refine ⟨⟨hNext.shortLived, ?_, ?_⟩, by simp, hGrants⟩
        · exact forall_mem_append_singleton hNext.dead (by simp)
        · simp only [hGrants]
          exact forall_mem_append_singleton h.late_iff fun _ => (h.granted_of_accepted hAccepted).symm

theorem Inv.perform_lookup (h : Inv cfg s) (i : Nat) (active : Bool) :
    Inv cfg (s.perform cfg (.lookup i active)) ∧
      (GrantsOne s (.lookup i active) (s.perform cfg (.lookup i active)) ∨
        GrantsNone s (.lookup i active) (s.perform cfg (.lookup i active))) := by
  by_cases hReady : ∃ r, s.requests[i]? = some r ∧ r.phase = .decoded
  · obtain ⟨r, hi, hPhase⟩ := hReady
    cases active with
    | true =>
        obtain ⟨hGrants, hNext⟩ := h.grant hi hPhase
        have hResult : s.perform cfg (.lookup i true) =
            { s with
              requests :=
                (s.requests.map (.overtaken r.token)).set i { r with phase := .found } } := by
          simp [State.perform, hi, hPhase]
        rw [hResult]
        exact ⟨hNext, .inl ⟨i, r, rfl, hi, hPhase, hGrants⟩⟩
    | false =>
        have hResult : s.perform cfg (.lookup i false) =
            { s with requests := s.requests.set i { r with phase := .refused } } := by
          simp [State.perform, hi, hPhase]
        rw [hResult]
        have hGranted : RefreshRequest.granted { r with phase := .refused } = r.granted := by
          simp [RefreshRequest.granted, hPhase]
        exact ⟨h.set hi rfl hGranted (by simp) rfl h.shortLived (keepsTokens_of_sameFrom .refl)
          (by simp), .inr ⟨by simp, fun token => grants_set_of_eq hi rfl hGranted⟩⟩
  · -- there is no such request, or it has its answer already
    have hResult : s.perform cfg (.lookup i active) = s := by
      cases hi : s.requests[i]? with
      | none => simp [State.perform, hi]
      | some r =>
          have hPhase : r.phase ≠ .decoded := fun hPhase => hReady ⟨r, hi, hPhase⟩
          simp [State.perform, hi, hPhase]
    rw [hResult]
    refine ⟨h, .inr ⟨?_, fun _ => rfl⟩⟩
    rintro j r hOp hj hPhase
    cases hOp
    exact hReady ⟨r, hj, hPhase⟩

theorem Inv.perform_revoke (h : Inv cfg s) {i : Nat}
    (hLasting : ∀ r ∈ s.requests[i]?, r.phase = .found → EntryOutlasts cfg s.auth.clock r.token) :
    Inv cfg (s.perform cfg (.revoke i)) ∧ GrantsNone s (.revoke i) (s.perform cfg (.revoke i)) := by
  cases hi : s.requests[i]? with
  | none =>
      have hResult : s.perform cfg (.revoke i) = s := by simp [State.perform, hi]
      rw [hResult]
      exact ⟨h, by simp, fun _ => rfl⟩
  | some r =>
      by_cases hPhase : r.phase = .found
      · have hResult : s.perform cfg (.revoke i) =
            { auth := { s.auth with
                store := revokeRefreshToken cfg s.auth.store s.auth.clock r.token }
              requests := s.requests.set i { r with phase := .revoked } } := by
          simp [State.perform, hi, hPhase]
        rw [hResult]
        have hGranted : RefreshRequest.granted { r with phase := .revoked } = r.granted := by
          simp [RefreshRequest.granted, hPhase]
        obtain ⟨hShort, hKeeps⟩ := revokeRefreshToken_spec h.shortLived r.token
        have hDead := @deadFrom_revokeRefreshToken cfg s.auth.store s.auth.clock r.token
          (hLasting r hi hPhase)
        exact ⟨h.set hi rfl hGranted (by simp) rfl hShort hKeeps fun _ => hDead,
          by simp, fun token => grants_set_of_eq hi rfl hGranted⟩
      · have hResult : s.perform cfg (.revoke i) = s := by simp [State.perform, hi, hPhase]
        rw [hResult]
        exact ⟨h, by simp, fun _ => rfl⟩

theorem Inv.perform_mint (h : Inv cfg s) (i : Nat) (accessJti refreshJti : Uuid) :
    Inv cfg (s.perform cfg (.mint i accessJti refreshJti)) ∧
      GrantsNone s (.mint i accessJti refreshJti)
        (s.perform cfg (.mint i accessJti refreshJti)) := by
  cases hi : s.requests[i]? with
  | none =>
      have hResult : s.perform cfg (.mint i accessJti refreshJti) = s := by simp [State.perform, hi]
      rw [hResult]
      exact ⟨h, by simp, fun _ => rfl⟩
  | some r =>
      by_cases hPhase : r.phase = .revoked
      · have hResult : s.perform cfg (.mint i accessJti refreshJti) =
            { auth := s.auth.mint cfg r.token.sub accessJti refreshJti
              requests := s.requests.set i { r with phase := .returned } } := by
          simp [State.perform, hi, hPhase]
        rw [hResult]
        have hGranted : RefreshRequest.granted { r with phase := .returned } = r.granted := by
          simp [RefreshRequest.granted, hPhase]
        -- the token is dead since the request revoked it
        have hDead := h.dead r (List.mem_of_getElem? hi) (.inl hPhase)
        exact ⟨h.set hi rfl hGranted (by simp) rfl h.shortLived (keepsTokens_of_sameFrom .refl)
          fun _ => hDead, by simp, fun token => grants_set_of_eq hi rfl hGranted⟩
      · have hResult : s.perform cfg (.mint i accessJti refreshJti) = s := by
          simp [State.perform, hi, hPhase]
        rw [hResult]
        exact ⟨h, by simp, fun _ => rfl⟩

/-- What an operation does: it grants a request its user, or it grants nothing. -/
theorem Inv.perform (h : Inv cfg s) (op : Op)
    (hLasting : ∀ i, op = .revoke i → ∀ r ∈ s.requests[i]?, r.phase = .found →
      EntryOutlasts cfg s.auth.clock r.token) :
    Inv cfg (s.perform cfg op) ∧
      (GrantsOne s op (s.perform cfg op) ∨ GrantsNone s op (s.perform cfg op)) := by
  cases op with
  | decode k => exact (h.perform_decode k).imp_right .inr
  | lookup i active => exact h.perform_lookup i active
  | revoke i => exact (h.perform_revoke (hLasting i rfl)).imp_right .inr
  | mint i accessJti refreshJti => exact (h.perform_mint i accessJti refreshJti).imp_right .inr
  | call c other =>
      obtain ⟨hClock, hShort, hKeeps⟩ := perform_spec h.shortLived c
      exact ⟨h.withAuth hClock hShort hKeeps, .inr ⟨by simp, fun _ => rfl⟩⟩

/-- Each token was granted once at most. -/
def OneGrant (s : State) : Prop := ∀ token, grants s.requests token ≤ 1

theorem Inv.step (h : Inv cfg s) (e : Event) (hLasting : Lasting cfg s e) :
    Inv cfg (step cfg s e) ∧
      (∀ token, grants s.requests token ≤ grants (step cfg s e).requests token) ∧
      (OneGrant s → (OneGrant (step cfg s e) ↔ Alone s e)) := by
  obtain ⟨elapsed, op⟩ := e
  have hWait := h.wait elapsed
  obtain ⟨hNext, hGrants⟩ := hWait.perform op fun i hOp => by
    subst hOp
    exact hLasting
  refine ⟨hNext, ?_, ?_⟩
  · intro token
    obtain ⟨-, r, -, -, -, hGrants⟩ | ⟨-, hGrants⟩ := hGrants
    · rw [SingleUse.step, hGrants]
      exact Nat.le_add_right _ _
    · rw [SingleUse.step, hGrants]
      rfl
  · intro hOne
    obtain ⟨i, r, rfl, hi, hPhase, hGrants⟩ | ⟨hNot, hGrants⟩ := hGrants
    · have hLate := h.late_iff r (List.mem_of_getElem? hi) hPhase
      have hHere : Alone s ⟨elapsed, .lookup i true⟩ ↔ r.late = false := by
        have hi' : s.requests[i]? = some r := hi
        simp [Alone, hi', hPhase]
      rw [hHere]
      -- late means that the token was granted before, and this grant makes one more
      constructor
      · intro hAfter
        have hToken := hAfter r.token
        rw [SingleUse.step, hGrants, if_pos rfl] at hToken
        have hNone : grants s.requests r.token = 0 := Nat.le_zero.mp (Nat.le_of_succ_le_succ hToken)
        cases hr : r.late with
        | false => rfl
        | true => exact absurd (hLate.mp hr) (by simp [hNone])
      · intro hNotLate token
        rw [SingleUse.step, hGrants]
        by_cases hEq : r.token = token
        · subst hEq
          have hNone : grants s.requests r.token = 0 := by
            by_contra hSome
            rw [hLate.mpr (Nat.pos_of_ne_zero hSome)] at hNotLate
            cases hNotLate
          simp [State.wait, hNone]
        · simpa [State.wait, hEq] using hOne token
    · have hSame : OneGrant (SingleUse.step cfg s ⟨elapsed, op⟩) := by
        intro token
        rw [SingleUse.step, hGrants]
        exact hOne token
      refine iff_of_true hSame ?_
      unfold Alone
      cases op with
      | lookup i active =>
          cases active with
          | true => exact fun r hr hPhase => absurd hPhase (hNot i r rfl hr)
          | false => trivial
      | _ => trivial

end Inv

/-! ## Runs -/

section Runs

variable {cfg} {s : State}

theorem count_exchanged (s : State) (token : Token) :
    (exchanged s).count token =
      s.requests.countP fun r => r.phase = .returned ∧ r.token = token := by
  unfold exchanged
  rw [List.count_eq_countP, List.countP_map, List.countP_filter]
  congr 1
  funext r
  by_cases hPhase : r.phase = .returned <;> simp [hPhase, beq_eq_decide]

theorem OneGrant.oncePerToken (h : OneGrant s) : OncePerToken s := by
  refine List.nodup_iff_count_le_one.mpr fun token => ?_
  rw [count_exchanged]
  refine (List.countP_mono_left fun r _ hr => ?_).trans (h token)
  obtain ⟨hPhase, hToken⟩ : r.phase = .returned ∧ r.token = token := by simpa using hr
  simp [RefreshRequest.granted, hPhase, hToken]

theorem OncePerToken.oneGrant (h : OncePerToken s) (hSettled : Settled s) : OneGrant s := by
  intro token
  refine le_trans (List.countP_mono_left fun r hr hGranted => ?_)
    (count_exchanged s token ▸ List.nodup_iff_count_le_one.mp h token)
  obtain ⟨hToken, hPhase⟩ : r.token = token ∧
      (r.phase = .found ∨ r.phase = .revoked ∨ r.phase = .returned) := by
    simpa [RefreshRequest.granted] using hGranted
  obtain ⟨hFound, hRevoked⟩ := hSettled r hr
  simp [hToken, (hPhase.resolve_left hFound).resolve_left hRevoked]

theorem Inv.oneGrant_of_run {es : List Event} (h : Inv cfg s)
    (hLasting : EveryStep (SingleUse.step cfg) (Lasting cfg) s es)
    (hLast : OneGrant (runFrom (SingleUse.step cfg) s es)) : OneGrant s := by
  -- backwards from the end, where no token was granted twice: the counts only grow
  induction es generalizing s with
  | nil => exact hLast
  | cons e es ih =>
      obtain ⟨hNext, hMore, -⟩ := h.step e hLasting.1
      have hThen : OneGrant (SingleUse.step cfg s e) := ih hNext hLasting.2 hLast
      exact fun token => (hMore token).trans (hThen token)

theorem Inv.everyStep_alone {es : List Event} (h : Inv cfg s)
    (hLasting : EveryStep (SingleUse.step cfg) (Lasting cfg) s es)
    (hLast : OneGrant (runFrom (SingleUse.step cfg) s es)) :
    EveryStep (SingleUse.step cfg) Alone s es := by
  induction es generalizing s with
  | nil => trivial
  | cons e es ih =>
      obtain ⟨hNext, -, hAlone⟩ := h.step e hLasting.1
      have hThen : OneGrant (SingleUse.step cfg s e) := hNext.oneGrant_of_run hLasting.2 hLast
      have hOne : OneGrant s := @Inv.oneGrant_of_run cfg s (e :: es) h hLasting hLast
      exact ⟨(hAlone hOne).mp hThen, ih hNext hLasting.2 hLast⟩

end Runs

/-- A run in which only requests that are alone are given their user, and every deny-list entry
outlasts its token, exchanges each token once at most. Where the entries do, a run that ends with no
pair on its way and exchanges each token once at most is such a run. -/
theorem single_use (cfg : AuthConfig) (clock : Nat) (es : List Event) :
    (EveryStep (step cfg) (fun s e => Alone s e ∧ Lasting cfg s e) (.start clock) es →
        EveryState (step cfg) OncePerToken (.start clock) es) ∧
      (EveryStep (step cfg) (Lasting cfg) (.start clock) es →
        Settled (runFrom (step cfg) (.start clock) es) →
        EveryState (step cfg) OncePerToken (.start clock) es →
        EveryStep (step cfg) Alone (.start clock) es) := by
  have hStart : Inv cfg (.start clock) := inv_start clock
  have hNone : OneGrant (.start clock) := fun token => Nat.zero_le 1
  constructor
  · intro hGuard
    have hStep (s : State) (e : Event) (h : Inv cfg s ∧ OneGrant s)
        (hGuard : Alone s e ∧ Lasting cfg s e) :
        Inv cfg (step cfg s e) ∧ OneGrant (step cfg s e) := by
      obtain ⟨hNext, -, hAlone⟩ := h.1.step e hGuard.2
      exact ⟨hNext, (hAlone h.2).mpr hGuard.1⟩
    exact (everyState_of_invariant hStep ⟨hStart, hNone⟩ hGuard).imp fun s h => h.2.oncePerToken
  · intro hLasting hSettled hOnce
    exact hStart.everyStep_alone hLasting (hOnce.last.oneGrant hSettled)

/-- Two requests present the refresh token of a login before either revokes it. -/
def presentedTwice : List Event :=
  [⟨0, .call (.login "u1" firstJti secondJti "10.0.0.1" "browser") id⟩,
    ⟨60 * microseconds, .decode 1⟩, ⟨1, .decode 1⟩, ⟨1, .lookup 0 true⟩,
    ⟨0, .revoke 0⟩, ⟨0, .mint 0 ⟨"2b7e", by decide, by decide⟩ ⟨"e41f", by decide, by decide⟩⟩,
    ⟨1, .lookup 1 true⟩,
    ⟨0, .revoke 1⟩, ⟨0, .mint 1 ⟨"83ca", by decide, by decide⟩ ⟨"5d06", by decide, by decide⟩⟩]

/-- Both requests return a new pair. -/
theorem presented_twice_exchanged_twice :
    ¬EveryState (step ⟨60, 7⟩) OncePerToken (.start 0) presentedTwice := by
  intro hRun
  have hLast : OncePerToken (runFrom (step ⟨60, 7⟩) (.start 0) presentedTwice) := hRun.last
  revert hLast
  unfold OncePerToken
  decide

end AsetPlatform.Auth.SingleUse

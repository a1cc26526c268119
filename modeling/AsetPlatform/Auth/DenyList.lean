import AsetPlatform.Auth.SessionRuns

/-!
# The deny-list over time

A revocation writes a deny-list entry that lives `refresh_expire_days` from then on, in the map that
also holds the session keys. The JWT library is a parameter here: `accepts` says whether `jwt.decode`
takes an issued token at a time.

`denied_until_expiry` says that the entry outlives the token, whatever else is done to the store, so
that a token that was revoked while it was valid is rejected ever after.
-/

set_option autoImplicit false

namespace AsetPlatform.Auth.DenyList

open AsetPlatform.Library

/-! ## With the library as a parameter -/

section Accepts

variable (accepts : Token → Nat → Bool)

/-- `decode_token` -/
def decodeTokenBy (s : TokenStore) (now : Nat) (token : Token) (expectedType : Option TokenType) :
    Except Unauthorized Token × TokenStore :=
  if accepts token now = false then (.error "Invalid or expired token", s)
  else
    let (revoked, s) := if token.jti.text ≠ "" then s.contains now token.jti.text else (false, s)
    if revoked then (.error "Token has been revoked", s)
    else
      match expectedType with
      | none => (.ok token, s)
      | some expected =>
          if token.type ≠ expected then
            (.error ("Expected token type '" ++ expected.text ++ "', got '" ++ token.type.text
              ++ "'"), s)
          else (.ok token, s)

/-- `revoke_refresh_token` -/
def revokeRefreshTokenBy (cfg : AuthConfig) (s : TokenStore) (now : Nat) (token : Token) :
    TokenStore :=
  if accepts token now = true ∧ token.jti.text ≠ "" then s.add now token.jti.text cfg.ttl else s

/-- With a library that accepts a token until its expiry second is over these are the functions of
the session model. -/
theorem decodeToken_eq (s : TokenStore) (now : Nat) (token : Token)
    (expectedType : Option TokenType) :
    decodeToken s now token expectedType =
      decodeTokenBy (fun token now => decide (token.Unexpired now)) s now token expectedType := by
  unfold decodeToken decodeTokenBy
  by_cases h : token.Unexpired now
  · cases expectedType <;> simp [h]
  · simp [h]

theorem revokeRefreshToken_eq (cfg : AuthConfig) (s : TokenStore) (now : Nat) (token : Token) :
    revokeRefreshToken cfg s now token =
      revokeRefreshTokenBy (fun token now => decide (token.Unexpired now)) cfg s now token := by
  simp [revokeRefreshToken, revokeRefreshTokenBy]

/-- A live deny-list entry makes `decode_token` fail, and so does a library that does not accept the
token. -/
theorem decodeTokenBy_rejects {s : TokenStore} {now : Nat} {token : Token}
    (h : accepts token now = true → s.live now token.jti.text = true)
    (expectedType : Option TokenType) :
    ∃ detail, (decodeTokenBy accepts s now token expectedType).1 = .error detail := by
  unfold decodeTokenBy
  cases hAccepts : accepts token now with
  | false => exact ⟨_, rfl⟩
  | true =>
      have hRevoked : (s.contains now token.jti.text).1 = true := by
        rw [(TokenStore.contains_spec s now token.jti.text).1]
        exact h hAccepts
      refine ⟨"Token has been revoked", ?_⟩
      simp [token.jti.text_ne, hRevoked]

end Accepts

/-! ## Revocations -/

/-- The ways in which a refresh token is revoked. -/
inductive Revocation where
  /-- `/auth/refresh` -/
  | rotation
  /-- `/auth/logout` -/
  | logout
  /-- `revoke_session`, by the token's id -/
  | session (userId : String)
  /-- `revoke_all_sessions` -/
  | allSessions (userId : String)

def Revocation.perform (accepts : Token → Nat → Bool) (cfg : AuthConfig) (s : TokenStore) (now : Nat)
    (token : Token) : Revocation → TokenStore
  | .rotation => revokeRefreshTokenBy accepts cfg s now token
  | .logout => revokeRefreshTokenBy accepts cfg s now token
  | .session userId => (revokeSession cfg s now userId token.jti.text).2
  | .allSessions userId => (revokeAllSessions cfg s now userId).2

/-- The two that go through the session keys find the token there. -/
def Revocation.Finds (cfg : AuthConfig) (s : TokenStore) (now : Nat) (token : Token) :
    Revocation → Prop
  | .rotation => True
  | .logout => True
  | .session userId => (revokeSession cfg s now userId token.jti.text).1 = true
  | .allSessions userId =>
      ∃ session ∈ (listSessions s now userId).1, session.sessionId = token.jti.text

/-! ## Operations of the store -/

inductive StoreOp where
  | add (key : String) (ttlSeconds : Nat)
  | remove (key : String)
  | contains (key : String)
  | addJson (key : String) (value : SessionMeta) (ttlSeconds : Nat)
  | getJson (key : String)
  | keysByPrefix (keyPrefix : String)

/-- An operation and the microseconds since the one before. -/
structure StoreEvent where
  elapsed : Nat
  op : StoreOp

structure StoreState where
  store : TokenStore
  clock : Nat

def StoreOp.perform (s : TokenStore) (now : Nat) : StoreOp → TokenStore
  | .add key ttlSeconds => s.add now key ttlSeconds
  | .remove key => s.remove key
  | .contains key => (s.contains now key).2
  | .addJson key value ttlSeconds => s.addJson now key value ttlSeconds
  | .getJson key => (s.getJson now key).2
  | .keysByPrefix keyPrefix => (s.keysByPrefix now keyPrefix).2

def storeStep (s : StoreState) (e : StoreEvent) : StoreState :=
  ⟨e.op.perform s.store (s.clock + e.elapsed), s.clock + e.elapsed⟩

/-- What writes is about another key, or denies the token once more. -/
def StoreOp.Spares (cfg : AuthConfig) (jti : Uuid) : StoreOp → Prop
  | .add key ttlSeconds => key = jti.text → ttlSeconds = cfg.ttl
  | .remove key => key ≠ jti.text
  | .addJson key _ _ => key ≠ jti.text
  | _ => True

instance (cfg : AuthConfig) (jti : Uuid) (op : StoreOp) : Decidable (op.Spares cfg jti) := by
  cases op <;> unfold StoreOp.Spares <;> infer_instance

/-! ## The entry -/

/-- The token is on the deny-list from now to a time. -/
def DeniedTo (s : TokenStore) (now last : Nat) (jti : Uuid) : Prop :=
  ∀ time, now ≤ time → time ≤ last → s.live time jti.text = true

section Denied

variable {cfg : AuthConfig} {s s' : TokenStore} {now last : Nat} {jti : Uuid}

theorem DeniedTo.wait (h : DeniedTo s now last jti) (elapsed : Nat) :
    DeniedTo s (now + elapsed) last jti :=
  fun time hTime hLast => h time ((Nat.le_add_right _ _).trans hTime) hLast

theorem DeniedTo.sameFrom (h : DeniedTo s now last jti) (hSame : TokenStore.SameFrom now s s') :
    DeniedTo s' now last jti := by
  intro time hTime hLast
  rw [hSame.live_eq time hTime]
  exact h time hTime hLast

theorem DeniedTo.remove (h : DeniedTo s now last jti) {key : String} (hKey : jti.text ≠ key) :
    DeniedTo (s.remove key) now last jti := by
  intro time hTime hLast
  rw [TokenStore.live_remove, h time hTime hLast]
  simpa using hKey

theorem deniedTo_add {key : String} {ttl : Nat}
    (h : jti.text = key ∧ last ≤ now + ttl * microseconds ∨
      jti.text ≠ key ∧ DeniedTo s now last jti) : DeniedTo (s.add now key ttl) now last jti := by
  intro time hTime hLast
  rw [TokenStore.live_add key ttl hTime]
  obtain ⟨hKey, hTtl⟩ | ⟨hKey, hDenied⟩ := h
  · simpa [hKey] using hLast.trans hTtl
  · simpa [hKey] using hDenied time hTime hLast

theorem deniedTo_add_self {ttl : Nat} (h : last ≤ now + ttl * microseconds) :
    DeniedTo (s.add now jti.text ttl) now last jti :=
  deniedTo_add (.inl ⟨rfl, h⟩)

theorem DeniedTo.perform (h : DeniedTo s now last jti) (hLast : last ≤ now + cfg.ttl * microseconds)
    {op : StoreOp} (hSpares : op.Spares cfg jti) : DeniedTo (op.perform s now) now last jti := by
  cases op with
  | add key ttlSeconds =>
      by_cases hKey : jti.text = key
      · rw [StoreOp.perform, hSpares hKey.symm]
        exact deniedTo_add (.inl ⟨hKey, hLast⟩)
      · exact deniedTo_add (.inr ⟨hKey, h⟩)
  | remove key => exact h.remove (Ne.symm hSpares)
  | contains key => exact h.sameFrom (TokenStore.contains_spec s now key).2
  | addJson key value ttlSeconds =>
      intro time hTime hTimeLast
      rw [StoreOp.perform, TokenStore.live_addJson key value ttlSeconds hTime]
      simpa [Ne.symm hSpares] using h time hTime hTimeLast
  | getJson key => exact h.sameFrom (TokenStore.getJson_spec s now key).2
  | keysByPrefix keyPrefix => exact h.sameFrom (TokenStore.keysByPrefix_spec s now keyPrefix).2.2

/-- The entry is kept along a run of such operations. -/
theorem DeniedTo.run {events : List StoreEvent} {state : StoreState}
    (h : DeniedTo state.store state.clock last jti)
    (hLast : last ≤ state.clock + cfg.ttl * microseconds)
    (hSpares : ∀ e ∈ events, e.op.Spares cfg jti) :
    DeniedTo (runFrom storeStep state events).store (runFrom storeStep state events).clock last
      jti := by
  induction events generalizing state with
  | nil => exact h
  | cons e events ih =>
      obtain ⟨hHere, hRest⟩ := List.forall_mem_cons.mp hSpares
      -- a later clock leaves more room for an entry that is written again
      have hLater : last ≤ state.clock + e.elapsed + cfg.ttl * microseconds := by omega
      exact ih ((h.wait e.elapsed).perform hLater hHere) hLater hRest

end Denied

/-! ## What a revocation writes -/

section Revoke

variable {cfg : AuthConfig} {s : TokenStore} {now last : Nat} {jti : Uuid} {userId key : String}

/-- One round of `revoke_all_sessions` denies the id in the value of its key, and keeps what is denied
already. -/
theorem deniedTo_revokeKey (hLast : last ≤ now + cfg.ttl * microseconds)
    (hKey : (sessionPrefix userId).toList <+: key.toList)
    (h : DeniedTo s now last jti ∨
      ∃ session, s.value now key = some session ∧ session.sessionId = jti.text) :
    DeniedTo (revokeKey cfg now s key) now last jti := by
  have hNe : jti.text ≠ key := jti.ne_of_sessionPrefix hKey
  obtain ⟨hValue, hSame⟩ := TokenStore.getJson_spec s now key
  simp only [revokeKey]
  rcases hGet : s.getJson now key with ⟨raw, s₁⟩
  rw [hGet] at hValue hSame
  obtain rfl : raw = s.value now key := hValue
  simp only at hSame ⊢
  apply DeniedTo.remove _ hNe
  cases hRaw : s.value now key with
  | none =>
      obtain hDenied | ⟨session, hSession, -⟩ := h
      · exact hDenied.sameFrom hSame
      · rw [hRaw] at hSession
        cases hSession
  | some session =>
      simp only
      by_cases hId : session.sessionId = jti.text
      · rw [if_pos (hId.trans_ne jti.text_ne), hId]
        exact deniedTo_add_self hLast
      · have hDenied : DeniedTo s now last jti := by
          refine h.resolve_right ?_
          rintro ⟨other, hOther, hOtherId⟩
          obtain rfl : session = other := Option.some.inj (hRaw.symm.trans hOther)
          exact hId hOtherId
        split
        · exact deniedTo_add (.inr ⟨Ne.symm hId, hDenied.sameFrom hSame⟩)
        · exact hDenied.sameFrom hSame

/-- The loop denies the ids in the values of its keys, and keeps what is denied already. -/
theorem deniedTo_foldl (hLast : last ≤ now + cfg.ttl * microseconds) (keys : List String)
    (hKeys : ∀ key ∈ keys, s.live now key = true ∧ (sessionPrefix userId).toList <+: key.toList)
    (hNodup : keys.Nodup)
    (h : DeniedTo s now last jti ∨ ∃ key ∈ keys, ∃ session,
      s.value now key = some session ∧ session.sessionId = jti.text) :
    DeniedTo (keys.foldl (revokeKey cfg now) s) now last jti := by
  induction keys generalizing s with
  | nil => simpa using h
  | cons key keys ih =>
      obtain ⟨hHere, hTail⟩ := List.forall_mem_cons.mp hKeys
      rw [List.nodup_cons] at hNodup
      have hStill (key' : String) (hMem : key' ∈ keys) :
          (revokeKey cfg now s key).live now key' = true ∧
            (revokeKey cfg now s key).value now key' = s.value now key' :=
        value_revokeKey (fun hEq => hNodup.1 (hEq ▸ hMem)) (hTail key' hMem).1
      refine ih (fun key' hMem => ⟨(hStill key' hMem).1, (hTail key' hMem).2⟩) hNodup.2 ?_
      obtain hDenied | ⟨key', hMem, session, hValue, hId⟩ := h
      · exact .inl (deniedTo_revokeKey hLast hHere.2 (.inl hDenied))
      · obtain rfl | hMem := List.mem_cons.mp hMem
        · exact .inl (deniedTo_revokeKey hLast hHere.2 (.inr ⟨session, hValue, hId⟩))
        · exact .inr ⟨key', hMem, session, (hStill key' hMem).2.trans hValue, hId⟩

theorem deniedTo_revokeAllSessions (hLast : last ≤ now + cfg.ttl * microseconds)
    (h : ∃ session ∈ (listSessions s now userId).1, session.sessionId = jti.text) :
    DeniedTo (revokeAllSessions cfg s now userId).2 now last jti := by
  obtain ⟨hKeys, hNodup, hSame⟩ := TokenStore.keysByPrefix_spec s now (sessionPrefix userId)
  have hReady (key : String) (hMem : key ∈ (s.keysByPrefix now (sessionPrefix userId)).1) :
      (s.keysByPrefix now (sessionPrefix userId)).2.live now key = true ∧
        (sessionPrefix userId).toList <+: key.toList := by
    rw [hSame.live_eq now (Nat.le_refl _)]
    exact (hKeys key).mp hMem
  refine deniedTo_foldl hLast _ hReady hNodup (.inr ?_)
  obtain ⟨session, hSession, hId⟩ := h
  obtain ⟨key, hMem, hValue⟩ := (mem_collectSessions _ _).mp hSession
  exact ⟨key, hMem, session, hValue, hId⟩

theorem deniedTo_revokeSession (hLast : last ≤ now + cfg.ttl * microseconds)
    (h : (revokeSession cfg s now userId jti.text).1 = true) :
    DeniedTo (revokeSession cfg s now userId jti.text).2 now last jti := by
  simp only [revokeSession] at h ⊢
  rcases hGet : s.getJson now (sessionKey userId jti.text) with ⟨raw, s₁⟩
  rw [hGet] at h
  cases raw with
  | none => simp at h
  | some session =>
      have hNe : jti.text ≠ sessionKey userId jti.text :=
        jti.ne_of_sessionPrefix (sessionPrefix_separates userId jti.text)
      exact (deniedTo_add_self hLast).remove hNe

/-- Each of the four ways writes an entry that denies the token for the time to live. -/
theorem deniedTo_perform {accepts : Token → Nat → Bool} {token : Token} {how : Revocation}
    (hLast : last ≤ now + cfg.ttl * microseconds) (hValid : accepts token now = true)
    (hFinds : how.Finds cfg s now token) :
    DeniedTo (how.perform accepts cfg s now token) now last token.jti := by
  have hRevoke : DeniedTo (revokeRefreshTokenBy accepts cfg s now token) now last token.jti := by
    rw [revokeRefreshTokenBy, if_pos ⟨hValid, token.jti.text_ne⟩]
    exact deniedTo_add_self hLast
  cases how with
  | rotation => exact hRevoke
  | logout => exact hRevoke
  | session userId => exact deniedTo_revokeSession hLast hFinds
  | allSessions userId => exact deniedTo_revokeAllSessions hLast hFinds

end Revoke

/-! ## Once denied, always denied -/

theorem exp_le_ttl (cfg : AuthConfig) {iat now : Nat} (h : iat ≤ now) (userId : String)
    (jti : Uuid) : (createRefreshToken cfg iat userId jti).exp * microseconds ≤
      now + cfg.ttl * microseconds := by
  have hSecond : second iat * microseconds ≤ iat := Nat.div_mul_le_self iat microseconds
  simp only [createRefreshToken, AuthConfig.ttl, Nat.add_mul]
  omega

/-- Under a library that accepts a token only up to its expiry, a refresh token that is revoked while
it is valid stays on the deny-list until it has expired and is rejected ever after, whatever is done
to other keys and however often it is denied again. -/
theorem denied_until_expiry (cfg : AuthConfig) (accepts : Token → Nat → Bool)
    (hLibrary : ∀ token now, accepts token now = true → now ≤ token.exp * microseconds)
    (iat : Nat) (userId : String) (jti : Uuid) (s : TokenStore) (now : Nat) (hIssued : iat ≤ now)
    (how : Revocation)
    (hValid : accepts (createRefreshToken cfg iat userId jti) now = true)
    (hFinds : how.Finds cfg s now (createRefreshToken cfg iat userId jti))
    (events : List StoreEvent) (hSpares : ∀ e ∈ events, e.op.Spares cfg jti) :
    let token := createRefreshToken cfg iat userId jti
    let after := runFrom storeStep ⟨how.perform accepts cfg s now token, now⟩ events
    DeniedTo after.store after.clock (token.exp * microseconds) jti ∧
      ∀ time, after.clock ≤ time → ∀ expectedType,
        ∃ detail, (decodeTokenBy accepts after.store time token expectedType).1 = .error detail := by
  intro token after
  have hLast : token.exp * microseconds ≤ now + cfg.ttl * microseconds :=
    exp_le_ttl cfg hIssued userId jti
  have hDenied : DeniedTo after.store after.clock (token.exp * microseconds) jti :=
    DeniedTo.run (deniedTo_perform hLast hValid hFinds) hLast hSpares
  refine ⟨hDenied, fun time hTime expectedType => ?_⟩
  apply decodeTokenBy_rejects
  intro hAccepts
  exact hDenied time hTime (hLibrary token time hAccepts)

/-- The library at its word. -/
def toTheExpiry (token : Token) (now : Nat) : Bool := decide (now ≤ token.exp * microseconds)

/-- A session of a login is revoked a minute later; then another token is denied, a day later the
first is looked up, and the keys are listed. -/
theorem denied_until_expiry_session :
    let token := createRefreshToken ⟨60, 7⟩ 0 "u1" firstJti
    let loggedIn := registerSession ⟨60, 7⟩ .empty 0 "u1" token "10.0.0.1" "browser"
    let revoked := (Revocation.session "u1").perform toTheExpiry ⟨60, 7⟩ loggedIn
      (60 * microseconds) token
    let after := runFrom storeStep ⟨revoked, 60 * microseconds⟩
      [⟨1, .add secondJti.text 5⟩, ⟨86400 * microseconds, .contains firstJti.text⟩,
        ⟨1, .keysByPrefix "session:u1:"⟩]
    DeniedTo after.store after.clock (token.exp * microseconds) firstJti ∧
      ∀ time, after.clock ≤ time → ∀ expectedType,
        ∃ detail, (decodeTokenBy toTheExpiry after.store time token expectedType).1 =
          .error detail := by
  refine denied_until_expiry ⟨60, 7⟩ toTheExpiry ?_ 0 "u1" firstJti _ (60 * microseconds) (by decide)
    (.session "u1") (by decide) ?_ _ (by decide)
  · intro token now h
    exact of_decide_eq_true h
  · show (revokeSession _ _ _ _ _).1 = true
    decide

end AsetPlatform.Auth.DenyList

import AsetPlatform.Auth.TokenStore
import Mathlib.Data.List.Infix

/-!
# Refresh tokens and sessions

Tokens as their signed payloads (a signature cannot be forged, so a token that decodes is one that
was issued), the deny-list check of `decode_token`, and the session keys of the auth service.

The deny-list and the session keys share one store: a session key contains colons and a token id,
a UUID, does not.
-/

set_option autoImplicit false

namespace AsetPlatform.Auth

open AsetPlatform.Library

/-! ## Tokens -/

/-- `str(uuid.uuid4())` -/
structure Uuid where
  text : String
  text_ne : text ≠ ""
  no_colon : ':' ∉ text.toList

inductive TokenType where
  | access
  | refresh
  deriving DecidableEq, Repr

def TokenType.text : TokenType → String
  | .access => "access"
  | .refresh => "refresh"

/-- The payload of a signed token. `iat` is kept to the microsecond; `exp` is in whole seconds. -/
structure Token where
  sub : String
  type : TokenType
  jti : Uuid
  iat : Nat
  exp : Nat

structure AuthConfig where
  accessExpireMinutes : Nat
  refreshExpireDays : Nat

def second (time : Nat) : Nat := time / microseconds

/-- `create_access_token` -/
def createAccessToken (cfg : AuthConfig) (now : Nat) (userId : String) (jti : Uuid) : Token where
  sub := userId
  type := .access
  jti := jti
  iat := now
  exp := second now + cfg.accessExpireMinutes * 60

/-- `create_refresh_token` -/
def createRefreshToken (cfg : AuthConfig) (now : Nat) (userId : String) (jti : Uuid) : Token where
  sub := userId
  type := .refresh
  jti := jti
  iat := now
  exp := second now + cfg.refreshExpireDays * 86400

/-- `jwt.decode` accepts an issued token until its expiry second is over. -/
def Token.Unexpired (token : Token) (now : Nat) : Prop := second now ≤ token.exp

instance (token : Token) (now : Nat) : Decidable (token.Unexpired now) :=
  inferInstanceAs (Decidable (_ ≤ _))

/-- The detail of a 401 response. -/
abbrev Unauthorized := String

/-- `decode_token` -/
def decodeToken (s : TokenStore) (now : Nat) (token : Token) (expectedType : Option TokenType) :
    Except Unauthorized Token × TokenStore :=
  if ¬token.Unexpired now then (.error "Invalid or expired token", s)
  else
    let (revoked, s) := if token.jti.text ≠ "" then s.contains now token.jti.text else (false, s)
    if revoked then (.error "Token has been revoked", s)
    else
      match expectedType with
      | none => (.ok token, s)
      | some expected =>
          if token.type ≠ expected then
            (.error ("Expected token type '" ++ expected.text ++ "', got '" ++ token.type.text
              ++ "'"), s)
          else (.ok token, s)

/-- The seconds that a deny-list entry or a session key lives. -/
def AuthConfig.ttl (cfg : AuthConfig) : Nat := cfg.refreshExpireDays * 86400

/-- `revoke_refresh_token` -/
def revokeRefreshToken (cfg : AuthConfig) (s : TokenStore) (now : Nat) (token : Token) :
    TokenStore :=
  if token.Unexpired now ∧ token.jti.text ≠ "" then s.add now token.jti.text cfg.ttl else s

def Accepted (s : TokenStore) (now : Nat) (token : Token) : Prop :=
  (decodeToken s now token (some .refresh)).1 = .ok token

theorem accepted_iff {s : TokenStore} {now : Nat} {token : Token} :
    Accepted s now token ↔
      token.Unexpired now ∧ s.live now token.jti.text = false ∧ token.type = .refresh := by
  have hContains := (TokenStore.contains_spec s now token.jti.text).1
  unfold Accepted decodeToken
  by_cases hTime : token.Unexpired now
  · simp only [hTime, not_true_eq_false, if_false, token.jti.text_ne, ne_eq, not_false_eq_true,
      if_true]
    rcases hLookup : s.contains now token.jti.text with ⟨revoked, s'⟩
    rw [hLookup] at hContains
    cases revoked with
    | true => simp [← hContains]
    | false =>
        by_cases hType : token.type = .refresh
        · simp [← hContains, hType]
        · simp [hType]
  · simp [hTime]

theorem sameFrom_decodeToken {s : TokenStore} {now : Nat} {token : Token}
    {expectedType : Option TokenType} :
    TokenStore.SameFrom now s (decodeToken s now token expectedType).2 := by
  have hContains := (TokenStore.contains_spec s now token.jti.text).2
  unfold decodeToken
  by_cases hTime : token.Unexpired now
  · simp only [hTime, not_true_eq_false, if_false, token.jti.text_ne, ne_eq, not_false_eq_true,
      if_true]
    rcases hLookup : s.contains now token.jti.text with ⟨revoked, s'⟩
    rw [hLookup] at hContains
    cases revoked with
    | true => exact hContains
    | false =>
        simp only [Bool.false_eq_true, if_false]
        split
        · exact hContains
        · split <;> exact hContains
  · simp only [hTime, not_false_eq_true, if_true]
    exact .refl

theorem decodeToken_ok {store store' : TokenStore} {now : Nat} {token token' : Token}
    {expectedType : Option TokenType}
    (h : decodeToken store now token expectedType = (.ok token', store')) : token' = token := by
  unfold decodeToken at h
  by_cases hTime : token.Unexpired now
  · simp only [hTime, not_true_eq_false, if_false, token.jti.text_ne, ne_eq, not_false_eq_true,
      if_true] at h
    by_cases hRevoked : (store.contains now token.jti.text).1 = true
    · simp [hRevoked] at h
    · cases expectedType with
      | none => simpa [hRevoked, eq_comm] using (Prod.ext_iff.mp h).1
      | some expected =>
          by_cases hType : token.type = expected
          · simpa [hRevoked, hType, eq_comm] using (Prod.ext_iff.mp h).1
          · simp [hRevoked, hType] at h
  · simp [hTime] at h

/-! ## Sessions -/

/-- The prefix of a user's session keys. -/
def sessionPrefix (userId : String) : String := "session:" ++ userId ++ ":"

/-- `_session_key` -/
def sessionKey (userId jti : String) : String := sessionPrefix userId ++ jti

/-- `register_session` -/
def registerSession (cfg : AuthConfig) (s : TokenStore) (now : Nat) (userId : String)
    (refreshToken : Token) (ipAddress userAgent : String) : TokenStore :=
  if ¬refreshToken.Unexpired now then s
  else if refreshToken.jti.text = "" then s
  else
    s.addJson now (sessionKey userId refreshToken.jti.text)
      { sessionId := refreshToken.jti.text, userId := userId, ipAddress := ipAddress
        userAgent := userAgent, createdAt := now, lastActivityAt := now }
      cfg.ttl

/-- The values of the keys, in order. -/
def collectSessions (now : Nat) : List String → TokenStore → List SessionMeta × TokenStore
  | [], s => ([], s)
  | key :: keys, s =>
      let (raw, s) := s.getJson now key
      let (rest, s) := collectSessions now keys s
      (raw.toList ++ rest, s)

/-- `list_sessions` -/
def listSessions (s : TokenStore) (now : Nat) (userId : String) :
    List SessionMeta × TokenStore :=
  let (keys, s) := s.keysByPrefix now (sessionPrefix userId)
  collectSessions now keys s

/-- `revoke_session` -/
def revokeSession (cfg : AuthConfig) (s : TokenStore) (now : Nat) (userId sessionId : String) :
    Bool × TokenStore :=
  let key := sessionKey userId sessionId
  match s.getJson now key with
  | (none, s) => (false, s)
  | (some _, s) => (true, (s.add now sessionId cfg.ttl).remove key)

/-- One round of the loop of `revoke_all_sessions`. -/
def revokeKey (cfg : AuthConfig) (now : Nat) (s : TokenStore) (key : String) : TokenStore :=
  let (raw, s) := s.getJson now key
  let s :=
    match raw with
    | some session =>
        if session.sessionId ≠ "" then s.add now session.sessionId cfg.ttl else s
    | none => s
  s.remove key

/-- `revoke_all_sessions` -/
def revokeAllSessions (cfg : AuthConfig) (s : TokenStore) (now : Nat) (userId : String) :
    Nat × TokenStore :=
  let (keys, s) := s.keysByPrefix now (sessionPrefix userId)
  (keys.length, keys.foldl (revokeKey cfg now) s)

/-! ## What the session calls do -/

theorem colon_mem_sessionPrefix (userId : String) : ':' ∈ (sessionPrefix userId).toList := by
  simp [sessionPrefix]

theorem Uuid.ne_of_sessionPrefix (jti : Uuid) {userId key : String}
    (h : (sessionPrefix userId).toList <+: key.toList) : jti.text ≠ key := by
  rintro rfl
  exact jti.no_colon (h.subset (colon_mem_sessionPrefix userId))

theorem sessionPrefix_separates (userId jti : String) :
    (sessionPrefix userId).toList <+: (sessionKey userId jti).toList := by
  simp [sessionKey]

/-- `register_session` of a token that was just issued writes its session key. -/
theorem registerSession_createRefreshToken (cfg : AuthConfig) (s : TokenStore) (now : Nat)
    (userId : String) (jti : Uuid) (ipAddress userAgent : String) :
    registerSession cfg s now userId (createRefreshToken cfg now userId jti) ipAddress userAgent =
      s.addJson now (sessionKey userId jti.text)
        ⟨jti.text, userId, ipAddress, userAgent, now, now⟩ cfg.ttl := by
  have hUnexpired : (createRefreshToken cfg now userId jti).Unexpired now := Nat.le_add_right _ _
  have hId : (createRefreshToken cfg now userId jti).jti.text ≠ "" := jti.text_ne
  rw [registerSession, if_neg (not_not.mpr hUnexpired), if_neg hId]
  rfl

theorem value_revokeKey {cfg : AuthConfig} {s : TokenStore} {now : Nat} {key key' : String}
    (hNe : key' ≠ key) (hLive : s.live now key' = true) :
    (revokeKey cfg now s key).live now key' = true ∧
      (revokeKey cfg now s key).value now key' = s.value now key' := by
  obtain ⟨-, hSame⟩ := TokenStore.getJson_spec s now key
  simp only [revokeKey]
  rcases hGet : s.getJson now key with ⟨raw, s₁⟩
  rw [hGet] at hSame
  simp only at hSame ⊢
  have hLive₁ : s₁.live now key' = true := by rw [hSame.live_eq now (Nat.le_refl _), hLive]
  have hValue₁ : s₁.value now key' = s.value now key' := hSame.value_eq now (Nat.le_refl _) key'
  rw [TokenStore.live_remove, TokenStore.value_remove_of_ne hNe, ← hValue₁]
  simp only [ne_eq, hNe, not_false_eq_true, decide_true, Bool.true_and]
  -- what is denied may itself be a key that is live, which then keeps its value
  have hAdd (denied : String) : (s₁.add now denied cfg.ttl).live now key' = true ∧
      (s₁.add now denied cfg.ttl).value now key' = s₁.value now key' := by
    rw [TokenStore.live_add _ _ (Nat.le_refl _)]
    by_cases hDenied : key' = denied
    · subst hDenied
      rw [TokenStore.value_add_self]
      simp [TokenStore.value, hLive₁]
    · rw [TokenStore.value_add_of_ne hDenied _ (Nat.le_refl _)]
      simp [hDenied, hLive₁]
  cases raw with
  | none => exact ⟨hLive₁, rfl⟩
  | some session =>
      simp only
      split
      · exact hAdd session.sessionId
      · exact ⟨hLive₁, rfl⟩

theorem mem_collectSessions {now : Nat} {session : SessionMeta} (keys : List String)
    (s : TokenStore) : session ∈ (collectSessions now keys s).1 ↔
      ∃ key ∈ keys, s.value now key = some session := by
  induction keys generalizing s with
  | nil => simp [collectSessions]
  | cons key keys ih =>
      obtain ⟨hValue, hSame⟩ := TokenStore.getJson_spec s now key
      simp only [collectSessions, List.mem_append, ih, hValue, Option.mem_toList]
      simp only [hSame.value_eq now (Nat.le_refl _), List.mem_cons, exists_eq_or_imp]

theorem mem_listSessions {s : TokenStore} {now : Nat} {userId : String} {session : SessionMeta} :
    session ∈ (listSessions s now userId).1 ↔
      ∃ key, (sessionPrefix userId).toList <+: key.toList ∧ s.value now key = some session := by
  obtain ⟨hKeys, -, hSame⟩ :=
    TokenStore.keysByPrefix_spec s now (sessionPrefix userId)
  unfold listSessions
  simp only
  rw [mem_collectSessions]
  constructor
  · rintro ⟨key, hKey, hValue⟩
    rw [hSame.value_eq now (Nat.le_refl _)] at hValue
    exact ⟨key, ((hKeys key).mp hKey).2, hValue⟩
  · rintro ⟨key, hPrefix, hValue⟩
    have hLive : s.live now key = true := by
      unfold TokenStore.value at hValue
      by_contra hDead
      simp [hDead] at hValue
    refine ⟨key, (hKeys key).mpr ⟨hLive, hPrefix⟩, ?_⟩
    rw [hSame.value_eq now (Nat.le_refl _)]
    exact hValue

end AsetPlatform.Auth

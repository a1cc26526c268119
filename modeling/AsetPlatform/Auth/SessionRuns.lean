import AsetPlatform.Auth.Sessions
import AsetPlatform.Library.Run

/-!
# Runs of logins, refreshes and revocations

Requests interleave on one token store. A refresh checks its token, waits for the database, and
then revokes the token and mints its successor; everything else is one step. `condemned` collects
the tokens of a user that were issued before a completed `revoke_all_sessions` of that user.

`revoke_all_sessions` reaches a token through its session key, and only `/auth/login` writes one:
the tokens of `/auth/login/form` and of `/auth/refresh` have none. `revoke_all_complete_iff` says
that condemned tokens stay rejected exactly in the runs in which every revocation of a user finds
each refresh token of the user either dead for good already or listed by `list_sessions`, with a
deny-list entry that outlasts it.
-/

set_option autoImplicit false

namespace AsetPlatform.Auth

open AsetPlatform.Library

/-! ## Steps -/

/-- The token store, every token issued so far, the tokens of refreshes in progress, the condemned
tokens, and the time. -/
structure AuthState where
  store : TokenStore
  issued : List Token
  refreshing : List Token
  condemned : List Token
  clock : Nat

inductive AuthCall where
  /-- `/auth/login` -/
  | login (userId : String) (accessJti refreshJti : Uuid) (ipAddress userAgent : String)
  /-- `/auth/login/form` -/
  | loginForm (userId : String) (accessJti refreshJti : Uuid)
  /-- `/auth/refresh` with the `k`-th issued token, up to its database read. -/
  | refreshBegin (k : Nat)
  /-- The rest of the `k`-th refresh in progress; `active` is what the database said of its user. -/
  | refreshFinish (k : Nat) (active : Bool) (accessJti refreshJti : Uuid)
  /-- `/auth/logout` with the `k`-th issued token. -/
  | logout (k : Nat)
  /-- `revoke_session` -/
  | revokeSession (userId sessionId : String)
  /-- `revoke_all_sessions` -/
  | revokeAll (userId : String)

/-- A call and the microseconds since the one before. -/
structure AuthEvent where
  elapsed : Nat
  call : AuthCall

/-- Issue an access token and a refresh token. -/
def AuthState.mint (cfg : AuthConfig) (s : AuthState) (userId : String)
    (accessJti refreshJti : Uuid) : AuthState :=
  { s with
    issued := s.issued ++ [createAccessToken cfg s.clock userId accessJti,
      createRefreshToken cfg s.clock userId refreshJti] }

/-- The refresh tokens of a user that were issued so far. -/
def AuthState.refreshTokens (s : AuthState) (userId : String) : List Token :=
  s.issued.filter fun token => token.sub = userId ∧ token.type = .refresh

/-- What a call does at the time of the clock. -/
def AuthState.perform (cfg : AuthConfig) (s : AuthState) : AuthCall → AuthState
  | .login userId accessJti refreshJti ipAddress userAgent =>
      let s := s.mint cfg userId accessJti refreshJti
      { s with
        store := registerSession cfg s.store s.clock userId
          (createRefreshToken cfg s.clock userId refreshJti) ipAddress userAgent }
  | .loginForm userId accessJti refreshJti => s.mint cfg userId accessJti refreshJti
  | .refreshBegin k =>
      match s.issued[k]? with
      | none => s
      | some token =>
          match decodeToken s.store s.clock token (some .refresh) with
          | (.ok token, store) =>
              { s with store := store, refreshing := s.refreshing ++ [token] }
          | (.error _, store) => { s with store := store }
  | .refreshFinish k active accessJti refreshJti =>
      match s.refreshing[k]? with
      | none => s
      | some token =>
          let s := { s with refreshing := s.refreshing.eraseIdx k }
          if active then
            { s.mint cfg token.sub accessJti refreshJti with
              store := revokeRefreshToken cfg s.store s.clock token }
          else s
  | .logout k =>
      match s.issued[k]? with
      | none => s
      | some token => { s with store := revokeRefreshToken cfg s.store s.clock token }
  | .revokeSession userId sessionId =>
      { s with store := (revokeSession cfg s.store s.clock userId sessionId).2 }
  | .revokeAll userId =>
      { s with
        store := (revokeAllSessions cfg s.store s.clock userId).2
        condemned := s.condemned ++ s.refreshTokens userId }

/-- The state when a call arrives. -/
def AuthState.wait (s : AuthState) (elapsed : Nat) : AuthState :=
  { s with clock := s.clock + elapsed }

def AuthState.step (cfg : AuthConfig) (s : AuthState) (e : AuthEvent) : AuthState :=
  (s.wait e.elapsed).perform cfg e.call

def AuthState.start (clock : Nat) : AuthState := ⟨.empty, [], [], [], clock⟩

/-! ## The property and the condition -/

/-- No condemned token is accepted, now or later. -/
def AuthState.CondemnedRejected (s : AuthState) : Prop :=
  ∀ token ∈ s.condemned, ∀ time, s.clock ≤ time → ¬Accepted s.store time token

/-- The token is dead for good: from a time on it is expired or on the deny-list. -/
def DeadFrom (s : TokenStore) (now : Nat) (token : Token) : Prop :=
  ∀ time, now ≤ time → token.Unexpired time → s.live time token.jti.text = true

/-- A deny-list entry written now lasts until the token has expired. -/
def EntryOutlasts (cfg : AuthConfig) (now : Nat) (token : Token) : Prop :=
  ∀ time, token.Unexpired time → time ≤ now + cfg.ttl * microseconds

/-- A revocation of all sessions reaches the token: it is dead already, or its user's session list
shows it and the entry that denies it outlasts it. -/
def Reached (cfg : AuthConfig) (s : TokenStore) (now : Nat) (token : Token) : Prop :=
  DeadFrom s now token ∨
    ((∃ session ∈ (listSessions s now token.sub).1, session.sessionId = token.jti.text) ∧
      EntryOutlasts cfg now token)

/-- Each revocation of all sessions of a user reaches every refresh token of the user. -/
def AuthState.RevocationsReach (cfg : AuthConfig) (s : AuthState) (e : AuthEvent) : Prop :=
  match e.call with
  | .revokeAll userId =>
      ∀ token ∈ s.refreshTokens userId, Reached cfg s.store (s.clock + e.elapsed) token
  | _ => True

/-! ## The store along a run -/

/-- Every key of the store expires within the time to live of one written now. -/
def ShortLived (cfg : AuthConfig) (now : Nat) (s : TokenStore) : Prop :=
  ∀ time, now ≤ time → ∀ key, s.live time key = true → time ≤ now + cfg.ttl * microseconds

/-- A change of the store after which every token id that was live still is. -/
def KeepsTokens (now : Nat) (s s' : TokenStore) : Prop :=
  ∀ time, now ≤ time → ∀ jti : Uuid, s.live time jti.text = true → s'.live time jti.text = true

section Store

variable {cfg : AuthConfig} {s s' : TokenStore} {now : Nat}

theorem keepsTokens_of_sameFrom (h : TokenStore.SameFrom now s s') : KeepsTokens now s s' := by
  intro time hTime jti hLive
  rw [h.live_eq time hTime]
  exact hLive

theorem shortLived_of_sameFrom (h : TokenStore.SameFrom now s s') (hShort : ShortLived cfg now s) :
    ShortLived cfg now s' := by
  intro time hTime key hLive
  rw [h.live_eq time hTime] at hLive
  exact hShort time hTime key hLive

theorem ShortLived.wait (h : ShortLived cfg now s) (elapsed : Nat) :
    ShortLived cfg (now + elapsed) s := by
  intro time hTime key hLive
  have hThen := h time (by omega) key hLive
  omega

theorem ShortLived.add (h : ShortLived cfg now s) (key : String) :
    ShortLived cfg now (s.add now key cfg.ttl) := by
  intro time hTime key' hLive
  rw [TokenStore.live_add key cfg.ttl hTime] at hLive
  by_cases hKey : key' = key
  · simpa [hKey] using hLive
  · simp only [hKey, if_false] at hLive
    exact h time hTime key' hLive

theorem ShortLived.keepsTokens_add (h : ShortLived cfg now s) (key : String) :
    KeepsTokens now s (s.add now key cfg.ttl) := by
  intro time hTime jti hLive
  rw [TokenStore.live_add key cfg.ttl hTime]
  by_cases hKey : jti.text = key
  · simpa [hKey] using h time hTime _ hLive
  · simpa [hKey] using hLive

theorem ShortLived.addJson (h : ShortLived cfg now s) (key : String) (session : SessionMeta) :
    ShortLived cfg now (s.addJson now key session cfg.ttl) := by
  intro time hTime key' hLive
  rw [TokenStore.live_addJson key session cfg.ttl hTime] at hLive
  by_cases hKey : key' = key
  · simpa [hKey] using hLive
  · simp only [hKey, if_false] at hLive
    exact h time hTime key' hLive

theorem ShortLived.keepsTokens_addJson (h : ShortLived cfg now s) (key : String)
    (session : SessionMeta) : KeepsTokens now s (s.addJson now key session cfg.ttl) := by
  intro time hTime jti hLive
  rw [TokenStore.live_addJson key session cfg.ttl hTime]
  by_cases hKey : jti.text = key
  · simpa [hKey] using h time hTime _ hLive
  · simpa [hKey] using hLive

theorem ShortLived.remove (h : ShortLived cfg now s) (key : String) :
    ShortLived cfg now (s.remove key) := by
  intro time hTime key' hLive
  rw [TokenStore.live_remove, Bool.and_eq_true] at hLive
  exact h time hTime key' hLive.2

theorem keepsTokens_remove {userId key : String}
    (hKey : (sessionPrefix userId).toList <+: key.toList) : KeepsTokens now s (s.remove key) := by
  intro time _ jti hLive
  rw [TokenStore.live_remove]
  simpa [jti.ne_of_sessionPrefix hKey] using hLive

theorem KeepsTokens.trans {s₁ s₂ s₃ : TokenStore} (h : KeepsTokens now s₁ s₂)
    (h' : KeepsTokens now s₂ s₃) : KeepsTokens now s₁ s₃ :=
  fun time hTime jti hLive => h' time hTime jti (h time hTime jti hLive)

end Store

/-! ## The loop of a revocation -/

section Loop

variable {cfg : AuthConfig} {s : TokenStore} {now : Nat}

/-- Removing a session key whose value has no id denies nothing. -/
theorem removeKey_spec (hShort : ShortLived cfg now s) {s₁ : TokenStore}
    (hSame : TokenStore.SameFrom now s s₁) {userId key : String}
    (hKey : (sessionPrefix userId).toList <+: key.toList)
    (hNone : ∀ session, s.value now key = some session → session.sessionId = "") :
    ShortLived cfg now (s₁.remove key) ∧
      ∀ time, now ≤ time → ∀ jti : Uuid,
        ((s₁.remove key).live time jti.text = true ↔
          s.live time jti.text = true ∨
            (∃ session, s.value now key = some session ∧ session.sessionId = jti.text) ∧
              time ≤ now + cfg.ttl * microseconds) := by
  refine ⟨(shortLived_of_sameFrom hSame hShort).remove key, ?_⟩
  intro time hTime jti
  have hNot : ¬∃ session, s.value now key = some session ∧ session.sessionId = jti.text := by
    rintro ⟨session, hValue, hId⟩
    exact jti.text_ne (hId.symm.trans (hNone session hValue))
  rw [TokenStore.live_remove, hSame.live_eq time hTime]
  simp [jti.ne_of_sessionPrefix hKey, hNot]

/-- One round denies the id in the value of its key. -/
theorem revokeKey_spec (hShort : ShortLived cfg now s) {userId key : String}
    (hKey : (sessionPrefix userId).toList <+: key.toList) :
    ShortLived cfg now (revokeKey cfg now s key) ∧
      ∀ time, now ≤ time → ∀ jti : Uuid,
        ((revokeKey cfg now s key).live time jti.text = true ↔
          s.live time jti.text = true ∨
            (∃ session, s.value now key = some session ∧ session.sessionId = jti.text) ∧
              time ≤ now + cfg.ttl * microseconds) := by
  obtain ⟨hValue, hSame⟩ := TokenStore.getJson_spec s now key
  simp only [revokeKey]
  rcases hGet : s.getJson now key with ⟨raw, s₁⟩
  rw [hGet] at hValue hSame
  simp only at hValue hSame ⊢
  have hShort₁ := shortLived_of_sameFrom hSame hShort
  cases raw with
  | none =>
      apply removeKey_spec hShort hSame hKey
      intro session hFound
      rw [← hValue] at hFound
      cases hFound
  | some session =>
      by_cases hId : session.sessionId = ""
      · simp only [hId, ne_eq, not_true_eq_false, if_false]
        apply removeKey_spec hShort hSame hKey
        intro other hFound
        rw [← hValue] at hFound
        rw [← Option.some.inj hFound]
        exact hId
      · simp only [hId, ne_eq, not_false_eq_true, if_true]
        refine ⟨(hShort₁.add session.sessionId).remove key, ?_⟩
        intro time hTime jti
        rw [TokenStore.live_remove, TokenStore.live_add _ _ hTime, hSame.live_eq time hTime, ← hValue]
        have hNe := jti.ne_of_sessionPrefix hKey
        -- the denied id is new in the store or was there already, and then no longer than this
        by_cases hDenied : jti.text = session.sessionId
        · have hOld := hShort time hTime jti.text
          simp only [hDenied, ne_eq, if_true, Option.some.injEq, exists_eq_left']
          rw [hDenied] at hOld hNe
          simp only [hNe, not_false_eq_true, decide_true, Bool.true_and, decide_eq_true_eq,
            true_and]
          exact ⟨.inr, fun h => h.elim hOld id⟩
        · simp [hNe, hDenied, Ne.symm hDenied]

/-- The loop denies the ids in the values of its keys. -/
theorem foldl_revokeKey_spec {userId : String} (keys : List String) (s : TokenStore)
    (hShort : ShortLived cfg now s)
    (hKeys : ∀ key ∈ keys, s.live now key = true ∧ (sessionPrefix userId).toList <+: key.toList)
    (hNodup : keys.Nodup) :
    ShortLived cfg now (keys.foldl (revokeKey cfg now) s) ∧
      ∀ time, now ≤ time → ∀ jti : Uuid,
        ((keys.foldl (revokeKey cfg now) s).live time jti.text = true ↔
          s.live time jti.text = true ∨
            (∃ key ∈ keys, ∃ session, s.value now key = some session ∧
              session.sessionId = jti.text) ∧ time ≤ now + cfg.ttl * microseconds) := by
  induction keys generalizing s with
  | nil => exact ⟨hShort, by simp⟩
  | cons key keys ih =>
      rw [List.nodup_cons] at hNodup
      obtain ⟨hHere, hTail⟩ := List.forall_mem_cons.mp hKeys
      obtain ⟨hShort', hDenied⟩ := revokeKey_spec hShort hHere.2
      have hStill : ∀ key' ∈ keys, (revokeKey cfg now s key).live now key' = true ∧
          (revokeKey cfg now s key).value now key' = s.value now key' := by
        intro key' hMem
        -- the keys differ, so a round leaves those of the later rounds as they were
        have hNe : key' ≠ key := by
          rintro rfl
          exact hNodup.1 hMem
        exact value_revokeKey hNe (hTail key' hMem).1
      obtain ⟨hShortEnd, hEnd⟩ := ih (revokeKey cfg now s key) hShort'
        (fun key' hMem => ⟨(hStill key' hMem).1, (hTail key' hMem).2⟩) hNodup.2
      refine ⟨hShortEnd, ?_⟩
      intro time hTime jti
      have hValues : (∃ key' ∈ keys, ∃ session,
          (revokeKey cfg now s key).value now key' = some session ∧
            session.sessionId = jti.text) ↔
          ∃ key' ∈ keys, ∃ session, s.value now key' = some session ∧
            session.sessionId = jti.text := by
        apply exists_congr
        intro key'
        apply and_congr_right
        intro hMem
        rw [(hStill key' hMem).2]
      rw [List.foldl_cons, hEnd time hTime jti, hDenied time hTime jti, hValues]
      simp only [List.mem_cons, exists_eq_or_imp]
      rw [or_assoc, ← or_and_right]

/-- `revoke_all_sessions` denies the sessions that `list_sessions` shows. -/
theorem revokeAllSessions_spec (hShort : ShortLived cfg now s) (userId : String) :
    ShortLived cfg now (revokeAllSessions cfg s now userId).2 ∧
      ∀ time, now ≤ time → ∀ jti : Uuid,
        ((revokeAllSessions cfg s now userId).2.live time jti.text = true ↔
          s.live time jti.text = true ∨
            (∃ session ∈ (listSessions s now userId).1, session.sessionId = jti.text) ∧
              time ≤ now + cfg.ttl * microseconds) := by
  obtain ⟨hKeys, hNodup, hSame⟩ := TokenStore.keysByPrefix_spec s now (sessionPrefix userId)
  have hReady : ∀ key ∈ (s.keysByPrefix now (sessionPrefix userId)).1,
      (s.keysByPrefix now (sessionPrefix userId)).2.live now key = true ∧
        (sessionPrefix userId).toList <+: key.toList := by
    intro key hMem
    rw [hSame.live_eq now (Nat.le_refl _)]
    exact (hKeys key).mp hMem
  obtain ⟨hShortEnd, hEnd⟩ := foldl_revokeKey_spec _ _ (shortLived_of_sameFrom hSame hShort) hReady
    hNodup
  refine ⟨hShortEnd, ?_⟩
  intro time hTime jti
  have hListed : (∃ session ∈ (listSessions s now userId).1, session.sessionId = jti.text) ↔
      ∃ key ∈ (s.keysByPrefix now (sessionPrefix userId)).1, ∃ session,
        (s.keysByPrefix now (sessionPrefix userId)).2.value now key = some session ∧
          session.sessionId = jti.text := by
    simp only [listSessions, mem_collectSessions]
    constructor
    · rintro ⟨session, ⟨key, hMem, hValue⟩, hId⟩
      exact ⟨key, hMem, session, hValue, hId⟩
    · rintro ⟨key, hMem, session, hValue, hId⟩
      exact ⟨session, ⟨key, hMem, hValue⟩, hId⟩
  rw [hListed, ← hSame.live_eq time hTime]
  exact hEnd time hTime jti

end Loop

/-! ## Steps -/

section Steps

variable {cfg : AuthConfig} {s : TokenStore} {now : Nat}

theorem DeadFrom.of_keepsTokens {s' : TokenStore} {token : Token} (h : DeadFrom s now token)
    (hKeeps : KeepsTokens now s s') : DeadFrom s' now token :=
  fun time hTime hUnexpired => hKeeps time hTime token.jti (h time hTime hUnexpired)

theorem DeadFrom.later {now' : Nat} {token : Token} (h : DeadFrom s now token)
    (hNow : now ≤ now') : DeadFrom s now' token :=
  fun time hTime hUnexpired => h time (hNow.trans hTime) hUnexpired

theorem deadFrom_revokeAll_iff (hShort : ShortLived cfg now s) (token : Token) :
    DeadFrom (revokeAllSessions cfg s now token.sub).2 now token ↔ Reached cfg s now token := by
  obtain ⟨-, hLive⟩ := revokeAllSessions_spec hShort token.sub
  constructor
  · intro hDead
    by_cases hListed :
        ∃ session ∈ (listSessions s now token.sub).1, session.sessionId = token.jti.text
    · by_cases hOutlasts : EntryOutlasts cfg now token
      · exact .inr ⟨hListed, hOutlasts⟩
      · -- The entry lapses at a time when the token is not expired; whatever denies the token then
        -- denied it all along.
        left
        simp only [EntryOutlasts, not_forall, not_le] at hOutlasts
        obtain ⟨last, hLast, hLapsed⟩ := hOutlasts
        intro time hTime hUnexpired
        have hMax : token.Unexpired (max time last) := by
          rcases Nat.le_total time last with hLe | hLe
          · rwa [Nat.max_eq_right hLe]
          · rwa [Nat.max_eq_left hLe]
        have hNow : now ≤ max time last := hTime.trans (Nat.le_max_left _ _)
        rcases (hLive _ hNow token.jti).mp (hDead _ hNow hMax) with hOld | ⟨-, hEarly⟩
        · exact TokenStore.live_of_le hOld (Nat.le_max_left _ _)
        · have hTooLate := Nat.le_max_right time last
          omega
    · left
      intro time hTime hUnexpired
      rcases (hLive time hTime token.jti).mp (hDead time hTime hUnexpired) with hOld | ⟨hNow, -⟩
      · exact hOld
      · exact absurd hNow hListed
  · intro hReached time hTime hUnexpired
    rw [hLive time hTime token.jti]
    rcases hReached with hDead | ⟨hListed, hOutlasts⟩
    · exact .inl (hDead time hTime hUnexpired)
    · exact .inr ⟨hListed, hOutlasts time hUnexpired⟩

theorem revokeRefreshToken_spec (hShort : ShortLived cfg now s) (token : Token) :
    ShortLived cfg now (revokeRefreshToken cfg s now token) ∧
      KeepsTokens now s (revokeRefreshToken cfg s now token) := by
  simp only [revokeRefreshToken]
  split
  · exact ⟨hShort.add token.jti.text, hShort.keepsTokens_add token.jti.text⟩
  · exact ⟨hShort, keepsTokens_of_sameFrom .refl⟩

theorem registerSession_spec (hShort : ShortLived cfg now s) (userId : String) (token : Token)
    (ipAddress userAgent : String) :
    ShortLived cfg now (registerSession cfg s now userId token ipAddress userAgent) ∧
      KeepsTokens now s (registerSession cfg s now userId token ipAddress userAgent) := by
  simp only [registerSession]
  split
  · exact ⟨hShort, keepsTokens_of_sameFrom .refl⟩
  · split
    · exact ⟨hShort, keepsTokens_of_sameFrom .refl⟩
    · exact ⟨hShort.addJson _ _, hShort.keepsTokens_addJson _ _⟩

theorem revokeSession_spec (hShort : ShortLived cfg now s) (userId sessionId : String) :
    ShortLived cfg now (revokeSession cfg s now userId sessionId).2 ∧
      KeepsTokens now s (revokeSession cfg s now userId sessionId).2 := by
  obtain ⟨-, hSame⟩ := TokenStore.getJson_spec s now (sessionKey userId sessionId)
  simp only [revokeSession]
  rcases hGet : s.getJson now (sessionKey userId sessionId) with ⟨raw, s₁⟩
  rw [hGet] at hSame
  have hShort₁ := shortLived_of_sameFrom hSame hShort
  have hKeeps₁ := keepsTokens_of_sameFrom hSame
  cases raw with
  | none => exact ⟨hShort₁, hKeeps₁⟩
  | some session =>
      refine ⟨(hShort₁.add sessionId).remove _, ?_⟩
      apply (hKeeps₁.trans (hShort₁.keepsTokens_add sessionId)).trans
      exact keepsTokens_remove (sessionPrefix_separates userId sessionId)

end Steps

/-- Along a run the store is short-lived and the condemned tokens are dead refresh tokens. -/
structure AuthState.Inv (cfg : AuthConfig) (s : AuthState) : Prop where
  shortLived : ShortLived cfg s.clock s.store
  condemned_refresh : ∀ token ∈ s.condemned, token.type = .refresh
  condemned_dead : ∀ token ∈ s.condemned, DeadFrom s.store s.clock token

theorem condemnedRejected_iff {s : AuthState} (h : ∀ token ∈ s.condemned, token.type = .refresh) :
    s.CondemnedRejected ↔ ∀ token ∈ s.condemned, DeadFrom s.store s.clock token := by
  constructor
  · intro hRejected token hMem time hTime hUnexpired
    by_contra hLive
    apply hRejected token hMem time hTime
    exact accepted_iff.mpr ⟨hUnexpired, by simpa using hLive, h token hMem⟩
  · intro hDead token hMem time hTime hAccepted
    obtain ⟨hUnexpired, hLive, -⟩ := accepted_iff.mp hAccepted
    rw [hDead token hMem time hTime hUnexpired] at hLive
    cases hLive

theorem AuthState.Inv.wait {cfg : AuthConfig} {s : AuthState} (h : s.Inv cfg) (elapsed : Nat) :
    (s.wait elapsed).Inv cfg where
  shortLived := h.shortLived.wait elapsed
  condemned_refresh := h.condemned_refresh
  condemned_dead := fun token hMem => (h.condemned_dead token hMem).later (Nat.le_add_right _ _)

/-- What a call keeps: the time, a short-lived store, and the token ids that are live. -/
theorem perform_spec {cfg : AuthConfig} {s : AuthState} (h : ShortLived cfg s.clock s.store)
    (call : AuthCall) :
    (s.perform cfg call).clock = s.clock ∧
      ShortLived cfg s.clock (s.perform cfg call).store ∧
      KeepsTokens s.clock s.store (s.perform cfg call).store := by
  have hSame : ShortLived cfg s.clock s.store ∧ KeepsTokens s.clock s.store s.store :=
    ⟨h, keepsTokens_of_sameFrom .refl⟩
  cases call with
  | login userId accessJti refreshJti ipAddress userAgent =>
      exact ⟨rfl, registerSession_spec h userId _ ipAddress userAgent⟩
  | loginForm userId accessJti refreshJti => exact ⟨rfl, hSame⟩
  | refreshBegin k =>
      simp only [AuthState.perform]
      split
      · exact ⟨rfl, hSame⟩
      case h_2 token _ =>
        have hDecode := @sameFrom_decodeToken s.store s.clock token (some .refresh)
        rcases hResult : decodeToken s.store s.clock token (some .refresh) with ⟨result, store⟩
        rw [hResult] at hDecode
        cases result with
        | ok token =>
            exact ⟨rfl, shortLived_of_sameFrom hDecode h, keepsTokens_of_sameFrom hDecode⟩
        | error detail =>
            exact ⟨rfl, shortLived_of_sameFrom hDecode h, keepsTokens_of_sameFrom hDecode⟩
  | refreshFinish k active accessJti refreshJti =>
      simp only [AuthState.perform]
      split
      · exact ⟨rfl, hSame⟩
      case h_2 token _ =>
        cases active with
        | true => exact ⟨rfl, revokeRefreshToken_spec h token⟩
        | false => exact ⟨rfl, hSame⟩
  | logout k =>
      simp only [AuthState.perform]
      split
      · exact ⟨rfl, hSame⟩
      case h_2 token _ => exact ⟨rfl, revokeRefreshToken_spec h token⟩
  | revokeSession userId sessionId => exact ⟨rfl, revokeSession_spec h userId sessionId⟩
  | revokeAll userId =>
      obtain ⟨hShort, hLive⟩ := revokeAllSessions_spec h userId
      refine ⟨rfl, hShort, ?_⟩
      intro time hTime jti hOld
      exact (hLive time hTime jti).mpr (.inl hOld)

theorem perform_condemned {cfg : AuthConfig} {s : AuthState} (call : AuthCall) :
    (s.perform cfg call).condemned = s.condemned ++
      (match call with
        | .revokeAll userId => s.refreshTokens userId
        | _ => []) := by
  cases call with
  | revokeAll userId => rfl
  | login userId accessJti refreshJti ipAddress userAgent => simp [AuthState.perform, AuthState.mint]
  | loginForm userId accessJti refreshJti => simp [AuthState.perform, AuthState.mint]
  | refreshBegin k =>
      simp only [AuthState.perform]
      split
      · simp
      · split <;> simp
  | refreshFinish k active accessJti refreshJti =>
      simp only [AuthState.perform]
      split
      · simp
      · cases active <;> simp [AuthState.mint]
  | logout k =>
      simp only [AuthState.perform]
      split <;> simp
  | revokeSession userId sessionId => simp [AuthState.perform]

theorem mem_refreshTokens {s : AuthState} {userId : String} {token : Token}
    (h : token ∈ s.refreshTokens userId) : token.sub = userId ∧ token.type = .refresh := by
  simp only [AuthState.refreshTokens, List.mem_filter, decide_eq_true_eq] at h
  exact h.2

/-- A step leaves the condemned tokens dead exactly when its revocation reaches them all. -/
theorem step_condemned_iff {cfg : AuthConfig} {s : AuthState} (h : s.Inv cfg) (e : AuthEvent) :
    (∀ token ∈ (s.step cfg e).condemned, token.type = .refresh) ∧
      ((∀ token ∈ (s.step cfg e).condemned,
        DeadFrom (s.step cfg e).store (s.step cfg e).clock token) ↔ s.RevocationsReach cfg e) := by
  obtain ⟨elapsed, call⟩ := e
  have hWait := h.wait elapsed
  obtain ⟨hClock, hShort, hKeeps⟩ := perform_spec hWait.shortLived call
  have hOld : ∀ token ∈ s.condemned,
      DeadFrom ((s.wait elapsed).perform cfg call).store
        ((s.wait elapsed).perform cfg call).clock token := by
    intro token hMem
    rw [hClock]
    exact (hWait.condemned_dead token hMem).of_keepsTokens hKeeps
  simp only [AuthState.step, AuthState.RevocationsReach]
  rw [perform_condemned call]
  cases call with
  | revokeAll userId =>
      have hReached : ∀ token ∈ s.refreshTokens userId,
          (DeadFrom ((s.wait elapsed).perform cfg (.revokeAll userId)).store
            ((s.wait elapsed).perform cfg (.revokeAll userId)).clock token ↔
            Reached cfg s.store (s.clock + elapsed) token) := by
        intro token hMem
        obtain ⟨rfl, -⟩ := mem_refreshTokens hMem
        exact deadFrom_revokeAll_iff hWait.shortLived token
      constructor
      · intro token hMem
        rcases List.mem_append.mp hMem with hBefore | hNew
        · exact h.condemned_refresh token hBefore
        · exact (mem_refreshTokens hNew).2
      · constructor
        · intro hDead token hMem
          exact (hReached token hMem).mp (hDead token (List.mem_append.mpr (.inr hMem)))
        · intro hReach token hMem
          rcases List.mem_append.mp hMem with hBefore | hNew
          · exact hOld token hBefore
          · exact (hReached token hNew).mpr (hReach token hNew)
  | login userId accessJti refreshJti ipAddress userAgent =>
      rw [List.append_nil]
      exact ⟨h.condemned_refresh, iff_of_true hOld trivial⟩
  | loginForm userId accessJti refreshJti =>
      rw [List.append_nil]
      exact ⟨h.condemned_refresh, iff_of_true hOld trivial⟩
  | refreshBegin k =>
      rw [List.append_nil]
      exact ⟨h.condemned_refresh, iff_of_true hOld trivial⟩
  | refreshFinish k active accessJti refreshJti =>
      rw [List.append_nil]
      exact ⟨h.condemned_refresh, iff_of_true hOld trivial⟩
  | logout k =>
      rw [List.append_nil]
      exact ⟨h.condemned_refresh, iff_of_true hOld trivial⟩
  | revokeSession userId sessionId =>
      rw [List.append_nil]
      exact ⟨h.condemned_refresh, iff_of_true hOld trivial⟩

/-- In every state of a run the refresh tokens of a user that were issued before a completed
revocation of all the user's sessions are rejected, now and later, exactly when each revocation of
the run reaches them. -/
theorem revoke_all_complete_iff (cfg : AuthConfig) (clock : Nat) (events : List AuthEvent) :
    EveryState (AuthState.step cfg) AuthState.CondemnedRejected (.start clock) events ↔
      EveryStep (AuthState.step cfg) (AuthState.RevocationsReach cfg) (.start clock) events := by
  have hStart : (AuthState.start clock).Inv cfg :=
    { shortLived := by
        intro time _ key hLive
        simp [AuthState.start, TokenStore.empty, TokenStore.live] at hLive
      condemned_refresh := by
        intro token hMem
        cases hMem
      condemned_dead := by
        intro token hMem
        cases hMem }
  have hStep : ∀ s e, AuthState.Inv cfg s → s.RevocationsReach cfg e →
      (s.step cfg e).Inv cfg := by
    intro s e h hReach
    obtain ⟨hRefresh, hDead⟩ := step_condemned_iff h e
    obtain ⟨hClock, hShort, -⟩ := perform_spec (h.wait e.elapsed).shortLived e.call
    refine ⟨?_, hRefresh, hDead.mpr hReach⟩
    rw [AuthState.step, hClock]
    exact hShort
  have hGood : ∀ s e, AuthState.Inv cfg s →
      ((s.step cfg e).CondemnedRejected ↔ s.RevocationsReach cfg e) := by
    intro s e h
    obtain ⟨hRefresh, hDead⟩ := step_condemned_iff h e
    rw [condemnedRejected_iff hRefresh]
    exact hDead
  exact everyState_iff_everyStep hStep hGood hStart
    ((condemnedRejected_iff hStart.condemned_refresh).mpr hStart.condemned_dead)

/-! ## A token without a session key -/

def firstJti : Uuid := ⟨"6f1a", by decide, by decide⟩

def secondJti : Uuid := ⟨"9c0d", by decide, by decide⟩

/-- A form login, and a revocation of all sessions two seconds later. -/
def formLoginRun : List AuthEvent :=
  [⟨0, .loginForm "u1" firstJti secondJti⟩, ⟨2 * microseconds, .revokeAll "u1"⟩]

/-- The refresh token of a form login survives the revocation of all sessions. -/
theorem form_login_survives_revoke_all :
    ¬∀ (cfg : AuthConfig) (clock : Nat) (events : List AuthEvent),
      EveryState (AuthState.step cfg) AuthState.CondemnedRejected (.start clock) events := by
  intro hClaim
  have hLast : AuthState.CondemnedRejected
      (runFrom (AuthState.step ⟨60, 7⟩) (.start 0) formLoginRun) :=
    (hClaim ⟨60, 7⟩ 0 formLoginRun).last
  let token := createRefreshToken ⟨60, 7⟩ 0 "u1" secondJti
  have hMem : token ∈ (runFrom (AuthState.step ⟨60, 7⟩) (.start 0) formLoginRun).condemned :=
    List.mem_singleton.mpr rfl
  apply hLast token hMem (3 * microseconds) (by decide)
  exact accepted_iff.mpr ⟨by decide, by decide, rfl⟩

end AsetPlatform.Auth

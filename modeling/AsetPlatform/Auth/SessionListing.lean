import AsetPlatform.Auth.SessionRuns
import AsetPlatform.Library.Text
import AsetPlatform.Library.Threads

/-!
# The session list

`list_sessions` against the refresh tokens that `decode_token` accepts. A login writes a session key
along with its token, `revoke_session` and `revoke_all_sessions` replace session keys by deny-list
entries; `/auth/login/form` and `/auth/refresh` issue tokens without a session key, and
`/auth/refresh` and `/auth/logout` deny a token whose session key stays.

`listing_exact_iff` says in which runs the list is exact throughout.
-/

set_option autoImplicit false

namespace AsetPlatform.Auth.SessionListing

open AsetPlatform.Library

/-! ## Users and tokens as they are -/

/-- A user id is a UUID: it has no colon. -/
def IsUserId (userId : String) : Prop := ':' ∉ userId.toList

instance (userId : String) : Decidable (IsUserId userId) := inferInstanceAs (Decidable (_ ∉ _))

/-- Two token ids that differ from each other and from all that were issued. -/
def FreshIds (s : AuthState) (accessJti refreshJti : Uuid) : Prop :=
  accessJti.text ≠ refreshJti.text ∧
    ∀ token ∈ s.issued, token.jti.text ≠ accessJti.text ∧ token.jti.text ≠ refreshJti.text

instance (s : AuthState) (accessJti refreshJti : Uuid) :
    Decidable (FreshIds s accessJti refreshJti) :=
  inferInstanceAs (Decidable (_ ∧ ∀ token ∈ s.issued, _ ∧ _))

/-- The users of a call have user ids, and the tokens it issues have new ids. -/
def Genuine (s : AuthState) (e : AuthEvent) : Prop :=
  match e.call with
  | .login userId accessJti refreshJti _ _ => IsUserId userId ∧ FreshIds s accessJti refreshJti
  | .loginForm userId accessJti refreshJti => IsUserId userId ∧ FreshIds s accessJti refreshJti
  | .refreshFinish _ _ accessJti refreshJti => FreshIds s accessJti refreshJti
  | .revokeSession userId _ => IsUserId userId
  | .revokeAll userId => IsUserId userId
  | _ => True

instance (s : AuthState) (e : AuthEvent) : Decidable (Genuine s e) := by
  obtain ⟨elapsed, call⟩ := e
  cases call <;> simp only [Genuine] <;> infer_instance

/-! ## The property and the condition -/

instance (s : TokenStore) (now : Nat) (token : Token) : Decidable (Accepted s now token) :=
  decidable_of_iff _ accepted_iff.symm

def listedIds (s : AuthState) (userId : String) : List String :=
  (listSessions s.store s.clock userId).1.map (·.sessionId)

def acceptedIds (s : AuthState) (userId : String) : List String :=
  ((s.refreshTokens userId).filter fun token => Accepted s.store s.clock token).map (·.jti.text)

/-- Every user's list has one entry for each refresh token that is accepted, and no other. -/
def Exact (s : AuthState) : Prop :=
  ∀ userId, IsUserId userId → (listedIds s userId).Perm (acceptedIds s userId)

/-- The lists are exact when a call arrives and when it is done. -/
def ExactAround (cfg : AuthConfig) (s : AuthState) (e : AuthEvent) : Prop :=
  Exact (s.wait e.elapsed) ∧ Exact (s.step cfg e)

/-- The end of what was to be a token's life. -/
def lifeEnd (cfg : AuthConfig) (token : Token) : Nat := token.iat + cfg.ttl * microseconds

/-- No refresh token is accepted after its `refresh_expire_days`. -/
def NoneOverdue (cfg : AuthConfig) (s : AuthState) : Prop :=
  ∀ token ∈ s.issued, Accepted s.store s.clock token → s.clock ≤ lifeEnd cfg token

/-- No refresh token is accepted for longer than `refresh_expire_days`, none is issued but by a login,
and none that is accepted is denied but through its session. -/
def Paired (cfg : AuthConfig) (s : AuthState) (e : AuthEvent) : Prop :=
  NoneOverdue cfg (s.wait e.elapsed) ∧
    match e.call with
    | .loginForm _ _ _ => False
    | .refreshFinish k active _ _ => s.refreshing[k]? ≠ none → active = false
    | .logout k => ∀ token ∈ s.issued[k]?, ¬Accepted s.store (s.clock + e.elapsed) token
    | _ => True

/-! ## Session keys -/

theorem sessionKey_toList (userId jti : String) :
    (sessionKey userId jti).toList = "session:".toList ++ (userId.toList ++ ':' :: jti.toList) := by
  simp [sessionKey, sessionPrefix]

theorem sessionKey_inj {userId userId' jti jti' : String} (hUser : IsUserId userId)
    (hUser' : IsUserId userId') (h : sessionKey userId jti = sessionKey userId' jti') :
    userId = userId' ∧ jti = jti' := by
  have hList := congrArg String.toList h
  rw [sessionKey_toList, sessionKey_toList, List.append_cancel_left_eq] at hList
  obtain ⟨hUserId, hJti⟩ := append_sep_inj hUser hUser' hList
  exact ⟨String.toList_inj.mp hUserId, String.toList_inj.mp hJti⟩

theorem user_of_sessionPrefix {userId userId' jti : String} (hUser : IsUserId userId)
    (hUser' : IsUserId userId')
    (h : (sessionPrefix userId).toList <+: (sessionKey userId' jti).toList) :
    userId = userId' := by
  obtain ⟨rest, hRest⟩ := h
  have hKey : sessionKey userId (String.ofList rest) = sessionKey userId' jti := by
    apply String.toList_inj.mp
    rw [← hRest]
    simp [sessionKey]
  exact (sessionKey_inj hUser hUser' hKey).1

/-! ## The invariant -/

def keyOf (token : Token) : String := sessionKey token.sub token.jti.text

/-- The token has its session key for all its life, and is not denied. -/
structure Listed (cfg : AuthConfig) (s : TokenStore) (now : Nat) (token : Token) : Prop where
  key_live : ∀ time, now ≤ time → (s.live time (keyOf token) = true ↔ time ≤ lifeEnd cfg token)
  key_value : ∀ time, now ≤ time → time ≤ lifeEnd cfg token →
    ∃ session, s.value time (keyOf token) = some session ∧ session.sessionId = token.jti.text
  not_denied : ∀ time, now ≤ time → s.live time token.jti.text = false

/-- The token has no session key, and is denied to the end of its life. -/
structure Gone (cfg : AuthConfig) (s : TokenStore) (now : Nat) (token : Token) : Prop where
  key_dead : ∀ time, now ≤ time → s.live time (keyOf token) = false
  denied : ∀ time, now ≤ time → time ≤ lifeEnd cfg token → s.live time token.jti.text = true

/-- Every refresh token is listed or gone, and the store has no keys but those of tokens. -/
structure Consistent (cfg : AuthConfig) (s : TokenStore) (issued : List Token) (now : Nat) :
    Prop where
  ids : (issued.map (·.jti.text)).Nodup
  users : ∀ token ∈ issued, IsUserId token.sub
  times : ∀ token ∈ issued, token.type = .refresh →
    token.iat ≤ now ∧ token.exp = second token.iat + cfg.ttl
  keys : ∀ time, now ≤ time → ∀ key, s.live time key = true → ∃ token ∈ issued,
    key = token.jti.text ∨ token.type = .refresh ∧ key = keyOf token
  paired : ∀ token ∈ issued, token.type = .refresh → Listed cfg s now token ∨ Gone cfg s now token

section Keys

variable {cfg : AuthConfig} {s : TokenStore} {issued : List Token} {now : Nat}
  {token token' : Token}

theorem jti_ne_keyOf (jti : Uuid) (token : Token) : jti.text ≠ keyOf token :=
  jti.ne_of_sessionPrefix (sessionPrefix_separates token.sub token.jti.text)

theorem Consistent.eq_of_jti (h : Consistent cfg s issued now) (hToken : token ∈ issued)
    (hToken' : token' ∈ issued) (hJti : token.jti.text = token'.jti.text) : token = token' :=
  List.inj_on_of_nodup_map h.ids hToken hToken' hJti

theorem Consistent.eq_of_keyOf (h : Consistent cfg s issued now) (hToken : token ∈ issued)
    (hToken' : token' ∈ issued) (hKey : keyOf token = keyOf token') : token = token' :=
  h.eq_of_jti hToken hToken'
    (sessionKey_inj (h.users token hToken) (h.users token' hToken') hKey).2

theorem Consistent.listed_of_live (h : Consistent cfg s issued now) (hToken : token ∈ issued)
    (hType : token.type = .refresh) (hLive : s.live now (keyOf token) = true) :
    Listed cfg s now token := by
  refine (h.paired token hToken hType).resolve_right fun hGone => ?_
  rw [hGone.key_dead now (Nat.le_refl _)] at hLive
  cases hLive

/-- A live session key of a user is that of a listed token of the user. -/
theorem Consistent.token_of_key (h : Consistent cfg s issued now) {userId key : String}
    (hUser : IsUserId userId) (hPrefix : (sessionPrefix userId).toList <+: key.toList)
    (hLive : s.live now key = true) :
    ∃ token ∈ issued, token.type = .refresh ∧ token.sub = userId ∧ key = keyOf token ∧
      Listed cfg s now token := by
  obtain ⟨token, hToken, hKey | ⟨hType, hKey⟩⟩ := h.keys now (Nat.le_refl _) key hLive
  · exact absurd hKey.symm (token.jti.ne_of_sessionPrefix hPrefix)
  · subst hKey
    have hSub := user_of_sessionPrefix hUser (h.users token hToken) hPrefix
    exact ⟨token, hToken, hType, hSub.symm, rfl, h.listed_of_live hToken hType hLive⟩

end Keys

/-! ## What is listed and what is accepted -/

section Exact

variable {cfg : AuthConfig} {s : AuthState} {userId : String}

theorem unexpired_of_le {token : Token} {now : Nat}
    (hExp : token.exp = second token.iat + cfg.ttl) (h : now ≤ lifeEnd cfg token) :
    token.Unexpired now := by
  have hSecond : second (lifeEnd cfg token) = second token.iat + cfg.ttl :=
    Nat.add_mul_div_right _ _ (by decide)
  rw [Token.Unexpired, hExp, ← hSecond]
  exact Nat.div_le_div_right h

theorem mem_listedIds (h : Consistent cfg s.store s.issued s.clock) (hUser : IsUserId userId)
    {id : String} : id ∈ listedIds s userId ↔ ∃ token ∈ s.issued, token.type = .refresh ∧
      token.sub = userId ∧ Listed cfg s.store s.clock token ∧ s.clock ≤ lifeEnd cfg token ∧
      id = token.jti.text := by
  simp only [listedIds, List.mem_map, mem_listSessions]
  constructor
  · rintro ⟨session, ⟨key, hPrefix, hValue⟩, rfl⟩
    have hLive : s.store.live s.clock key = true := by
      by_contra hDead
      simp [TokenStore.value, hDead] at hValue
    -- a live key with the user's prefix is that of a listed token, and holds the token's own entry
    obtain ⟨token, hToken, hType, hSub, rfl, hListed⟩ := h.token_of_key hUser hPrefix hLive
    have hLife := (hListed.key_live s.clock (Nat.le_refl _)).mp hLive
    obtain ⟨own, hOwn, hId⟩ := hListed.key_value s.clock (Nat.le_refl _) hLife
    obtain rfl : session = own := Option.some.inj (hValue.symm.trans hOwn)
    exact ⟨token, hToken, hType, hSub, hListed, hLife, hId⟩
  · rintro ⟨token, hToken, hType, rfl, hListed, hLife, rfl⟩
    obtain ⟨session, hValue, hId⟩ := hListed.key_value s.clock (Nat.le_refl _) hLife
    exact ⟨session, ⟨keyOf token, sessionPrefix_separates _ _, hValue⟩, hId⟩

theorem mem_acceptedIds {id : String} : id ∈ acceptedIds s userId ↔
    ∃ token ∈ s.issued, token.sub = userId ∧ Accepted s.store s.clock token ∧
      id = token.jti.text := by
  simp only [acceptedIds, AuthState.refreshTokens, List.mem_map, List.mem_filter,
    decide_eq_true_eq]
  constructor
  · rintro ⟨token, ⟨⟨hToken, hSub, -⟩, hAccepted⟩, rfl⟩
    exact ⟨token, hToken, hSub, hAccepted, rfl⟩
  · rintro ⟨token, hToken, hSub, hAccepted, rfl⟩
    exact ⟨token, ⟨⟨hToken, hSub, (accepted_iff.mp hAccepted).2.2⟩, hAccepted⟩, rfl⟩

theorem nodup_acceptedIds (h : Consistent cfg s.store s.issued s.clock) :
    (acceptedIds s userId).Nodup :=
  h.ids.sublist ((List.filter_sublist.trans List.filter_sublist).map _)

theorem map_collectSessions {now : Nat} (keys : List String) {store : TokenStore}
    {key : SessionMeta → String}
    (hKeys : ∀ k ∈ keys, ∃ session, store.value now k = some session ∧ key session = k) :
    (collectSessions now keys store).1.map key = keys := by
  induction keys generalizing store with
  | nil => rfl
  | cons k keys ih =>
      obtain ⟨⟨session, hValue, hKey⟩, hRest⟩ := List.forall_mem_cons.mp hKeys
      obtain ⟨hGet, hSame⟩ := TokenStore.getJson_spec store now k
      have hTail : (collectSessions now keys (store.getJson now k).2).1.map key = keys := by
        apply ih
        intro k' hk'
        rw [hSame.value_eq now (Nat.le_refl _)]
        exact hRest k' hk'
      simp only [collectSessions, hTail, hGet, hValue, Option.toList_some, List.map_cons, hKey,
        List.singleton_append]

theorem nodup_listedIds (h : Consistent cfg s.store s.issued s.clock) (hUser : IsUserId userId) :
    (listedIds s userId).Nodup := by
  obtain ⟨hKeys, hNodup, hSame⟩ :=
    TokenStore.keysByPrefix_spec s.store s.clock (sessionPrefix userId)
  have hOwn (k : String) (hk : k ∈ (s.store.keysByPrefix s.clock (sessionPrefix userId)).1) :
      ∃ session, (s.store.keysByPrefix s.clock (sessionPrefix userId)).2.value s.clock k =
        some session ∧ sessionKey userId session.sessionId = k := by
    obtain ⟨hLive, hPrefix⟩ := (hKeys k).mp hk
    obtain ⟨token, -, -, rfl, rfl, hListed⟩ := h.token_of_key hUser hPrefix hLive
    have hLife := (hListed.key_live s.clock (Nat.le_refl _)).mp hLive
    obtain ⟨session, hValue, hId⟩ := hListed.key_value s.clock (Nat.le_refl _) hLife
    rw [hSame.value_eq s.clock (Nat.le_refl _)]
    exact ⟨session, hValue, by rw [hId, keyOf]⟩
  have hMap := map_collectSessions _ hOwn
  -- the keys differ, so what they are made from does
  refine List.Nodup.of_map (sessionKey userId) ?_
  rw [listedIds, listSessions, List.map_map]
  exact hMap ▸ hNodup

theorem exact_iff (h : Consistent cfg s.store s.issued s.clock) :
    Exact s ↔ NoneOverdue cfg s := by
  constructor
  · intro hExact token hToken hAccepted
    have hMem : token.jti.text ∈ acceptedIds s token.sub :=
      mem_acceptedIds.mpr ⟨token, hToken, rfl, hAccepted, rfl⟩
    rw [← (hExact token.sub (h.users token hToken)).mem_iff,
      mem_listedIds h (h.users token hToken)] at hMem
    obtain ⟨other, hOther, -, -, -, hLife, hId⟩ := hMem
    rwa [h.eq_of_jti hToken hOther hId]
  · intro hNone userId hUser
    rw [List.perm_ext_iff_of_nodup (nodup_listedIds h hUser) (nodup_acceptedIds h)]
    intro id
    rw [mem_listedIds h hUser, mem_acceptedIds]
    constructor
    · rintro ⟨token, hToken, hType, hSub, hListed, hLife, hId⟩
      have hAccepted : Accepted s.store s.clock token := accepted_iff.mpr
        ⟨unexpired_of_le (h.times token hToken hType).2 hLife,
          hListed.not_denied s.clock (Nat.le_refl _), hType⟩
      exact ⟨token, hToken, hSub, hAccepted, hId⟩
    · rintro ⟨token, hToken, hSub, hAccepted, hId⟩
      have hLife := hNone token hToken hAccepted
      obtain ⟨-, hLive, hType⟩ := accepted_iff.mp hAccepted
      -- an accepted token is not denied, so in its lifetime it is not gone
      have hListed := (h.paired token hToken hType).resolve_right fun hGone => by
        rw [hGone.denied s.clock (Nat.le_refl _) hLife] at hLive
        cases hLive
      exact ⟨token, hToken, hType, hSub, hListed, hLife, hId⟩

end Exact

/-! ## What keeps the invariant -/

/-- From a time on a store says the same of a token as another one. -/
structure AgreeOn (now : Nat) (token : Token) (s s' : TokenStore) : Prop where
  key_live : ∀ time, now ≤ time → s'.live time (keyOf token) = s.live time (keyOf token)
  key_value : ∀ time, now ≤ time → s'.value time (keyOf token) = s.value time (keyOf token)
  jti_live : ∀ time, now ≤ time → s'.live time token.jti.text = s.live time token.jti.text

section Keep

variable {cfg : AuthConfig} {s s' : TokenStore} {issued : List Token} {now : Nat} {token : Token}

theorem AgreeOn.paired (h : AgreeOn now token s s')
    (hPaired : Listed cfg s now token ∨ Gone cfg s now token) :
    Listed cfg s' now token ∨ Gone cfg s' now token := by
  refine hPaired.imp (fun hListed => ⟨?_, ?_, ?_⟩) fun hGone => ⟨?_, ?_⟩
  · intro time hTime
    rw [h.key_live time hTime]
    exact hListed.key_live time hTime
  · intro time hTime hLife
    rw [h.key_value time hTime]
    exact hListed.key_value time hTime hLife
  · intro time hTime
    rw [h.jti_live time hTime]
    exact hListed.not_denied time hTime
  · intro time hTime
    rw [h.key_live time hTime]
    exact hGone.key_dead time hTime
  · intro time hTime hLife
    rw [h.jti_live time hTime]
    exact hGone.denied time hTime hLife

theorem Consistent.wait (h : Consistent cfg s issued now) (elapsed : Nat) :
    Consistent cfg s issued (now + elapsed) := by
  have hLater {time : Nat} (hTime : now + elapsed ≤ time) : now ≤ time :=
    (Nat.le_add_right _ _).trans hTime
  refine ⟨h.ids, h.users, ?_, fun time hTime => h.keys time (hLater hTime), ?_⟩
  · intro token hToken hType
    obtain ⟨hIat, hExp⟩ := h.times token hToken hType
    exact ⟨hIat.trans (Nat.le_add_right _ _), hExp⟩
  · intro token hToken hType
    obtain hListed | hGone := h.paired token hToken hType
    · exact .inl ⟨fun time hTime => hListed.key_live time (hLater hTime),
        fun time hTime => hListed.key_value time (hLater hTime),
        fun time hTime => hListed.not_denied time (hLater hTime)⟩
    · exact .inr ⟨fun time hTime => hGone.key_dead time (hLater hTime),
        fun time hTime => hGone.denied time (hLater hTime)⟩

theorem Consistent.sameFrom (h : Consistent cfg s issued now)
    (hSame : TokenStore.SameFrom now s s') : Consistent cfg s' issued now := by
  refine ⟨h.ids, h.users, h.times, ?_, fun token hToken hType => ?_⟩
  · intro time hTime key hLive
    rw [hSame.live_eq time hTime] at hLive
    exact h.keys time hTime key hLive
  · exact AgreeOn.paired ⟨fun time hTime => hSame.live_eq time hTime _,
      fun time hTime => hSame.value_eq time hTime _,
      fun time hTime => hSame.live_eq time hTime _⟩ (h.paired token hToken hType)

theorem agreeOn_add {jti : Uuid} (hNe : token.jti.text ≠ jti.text) (ttl : Nat) :
    AgreeOn now token s (s.add now jti.text ttl) where
  key_live time hTime := by
    rw [TokenStore.live_add _ _ hTime, if_neg (jti_ne_keyOf jti token).symm]
  key_value time hTime := TokenStore.value_add_of_ne (jti_ne_keyOf jti token).symm ttl hTime
  jti_live time hTime := by rw [TokenStore.live_add _ _ hTime, if_neg hNe]

theorem agreeOn_remove {key : String} (hKey : keyOf token ≠ key) (hJti : token.jti.text ≠ key) :
    AgreeOn now token s (s.remove key) where
  key_live time _ := by simp [TokenStore.live_remove, hKey]
  key_value time _ := TokenStore.value_remove_of_ne hKey time
  jti_live time _ := by simp [TokenStore.live_remove, hJti]

theorem agreeOn_addJson {key : String} (hKey : keyOf token ≠ key) (hJti : token.jti.text ≠ key)
    (session : SessionMeta) (ttl : Nat) : AgreeOn now token s (s.addJson now key session ttl) where
  key_live time hTime := by rw [TokenStore.live_addJson _ _ _ hTime, if_neg hKey]
  key_value time hTime := by rw [TokenStore.value_addJson _ _ _ hTime, if_neg hKey]
  jti_live time hTime := by rw [TokenStore.live_addJson _ _ _ hTime, if_neg hJti]

/-- A session key written along with its token lives as long as the token should. -/
theorem listed_addJson (hIat : token.iat = now) {session : SessionMeta}
    (hSession : session.sessionId = token.jti.text)
    (hFresh : ∀ time, now ≤ time → s.live time token.jti.text = false) :
    Listed cfg (s.addJson now (keyOf token) session cfg.ttl) now token where
  key_live time hTime := by
    rw [TokenStore.live_addJson _ _ _ hTime, if_pos rfl, lifeEnd, hIat, decide_eq_true_eq]
  key_value time hTime hLife := by
    refine ⟨session, ?_, hSession⟩
    rw [lifeEnd, hIat] at hLife
    rw [TokenStore.value_addJson _ _ _ hTime, if_pos rfl, if_pos hLife]
  not_denied time hTime := by
    rw [TokenStore.live_addJson _ _ _ hTime, if_neg (jti_ne_keyOf token.jti token)]
    exact hFresh time hTime

theorem live_add_of_life (hIat : token.iat ≤ now) {time : Nat} (hTime : now ≤ time)
    (hLife : time ≤ lifeEnd cfg token) :
    (s.add now token.jti.text cfg.ttl).live time token.jti.text = true := by
  rw [TokenStore.live_add _ _ hTime, if_pos rfl, decide_eq_true_eq]
  exact hLife.trans (Nat.add_le_add_right hIat _)

theorem Consistent.keys_add (h : Consistent cfg s issued now) (hToken : token ∈ issued) {ttl : Nat}
    {time : Nat} (hTime : now ≤ time) {key : String}
    (hLive : (s.add now token.jti.text ttl).live time key = true) :
    ∃ token ∈ issued, key = token.jti.text ∨ token.type = .refresh ∧ key = keyOf token := by
  by_cases hKey : key = token.jti.text
  · exact ⟨token, hToken, .inl hKey⟩
  · rw [TokenStore.live_add _ _ hTime, if_neg hKey] at hLive
    exact h.keys time hTime key hLive

theorem Consistent.deny (h : Consistent cfg s issued now) (hToken : token ∈ issued)
    (hGone : token.type = .refresh → Gone cfg s now token) :
    Consistent cfg (s.add now token.jti.text cfg.ttl) issued now := by
  refine ⟨h.ids, h.users, h.times, fun time hTime key => h.keys_add hToken hTime, ?_⟩
  intro other hOther hType
  by_cases hEq : other = token
  · subst hEq
    obtain ⟨hIat, -⟩ := h.times other hToken hType
    refine .inr ⟨?_, fun time hTime => live_add_of_life hIat hTime⟩
    intro time hTime
    rw [TokenStore.live_add _ _ hTime, if_neg (jti_ne_keyOf other.jti other).symm]
    exact (hGone hType).key_dead time hTime
  · have hNe : other.jti.text ≠ token.jti.text := fun hJti =>
      hEq (h.eq_of_jti hOther hToken hJti)
    exact (agreeOn_add hNe cfg.ttl).paired (h.paired other hOther hType)

theorem Consistent.retire (h : Consistent cfg s issued now) (hToken : token ∈ issued)
    (hType : token.type = .refresh) :
    Consistent cfg ((s.add now token.jti.text cfg.ttl).remove (keyOf token)) issued now := by
  refine ⟨h.ids, h.users, h.times, ?_, ?_⟩
  · intro time hTime key hLive
    rw [TokenStore.live_remove, Bool.and_eq_true] at hLive
    exact h.keys_add hToken hTime hLive.2
  · intro other hOther hOtherType
    by_cases hEq : other = token
    · subst hEq
      obtain ⟨hIat, -⟩ := h.times other hToken hType
      refine .inr ⟨fun time _ => by simp [TokenStore.live_remove], fun time hTime hLife => ?_⟩
      rw [TokenStore.live_remove, live_add_of_life hIat hTime hLife]
      simpa using jti_ne_keyOf other.jti other
    · have hNe : other.jti.text ≠ token.jti.text := fun hJti =>
        hEq (h.eq_of_jti hOther hToken hJti)
      have hKey : keyOf other ≠ keyOf token := fun hKey => hEq (h.eq_of_keyOf hOther hToken hKey)
      exact (agreeOn_remove hKey (jti_ne_keyOf other.jti token)).paired
        ((agreeOn_add hNe cfg.ttl).paired (h.paired other hOther hOtherType))

theorem Consistent.not_live_of_fresh (h : Consistent cfg s issued now) {jti : Uuid}
    (hFresh : ∀ token ∈ issued, token.jti.text ≠ jti.text) {time : Nat} (hTime : now ≤ time) :
    s.live time jti.text = false := by
  by_contra hLive
  obtain ⟨token, hToken, hJti | ⟨-, hKey⟩⟩ := h.keys time hTime jti.text (by simpa using hLive)
  · exact hFresh token hToken hJti.symm
  · exact jti_ne_keyOf jti token hKey

/-- A login issues a refresh token along with its session key. -/
theorem Consistent.login (h : Consistent cfg s issued now) {userId : String}
    (hUser : IsUserId userId) {accessJti refreshJti : Uuid}
    (hIds : accessJti.text ≠ refreshJti.text)
    (hFresh : ∀ token ∈ issued, token.jti.text ≠ accessJti.text ∧
      token.jti.text ≠ refreshJti.text) (session : SessionMeta)
    (hSession : session.sessionId = refreshJti.text) :
    Consistent cfg (s.addJson now (sessionKey userId refreshJti.text) session cfg.ttl)
      (issued ++ [createAccessToken cfg now userId accessJti,
        createRefreshToken cfg now userId refreshJti]) now := by
  have hMem {token : Token} (hToken : token ∈ issued ++ [createAccessToken cfg now userId accessJti,
      createRefreshToken cfg now userId refreshJti]) (hType : token.type = .refresh) :
      token ∈ issued ∨ token = createRefreshToken cfg now userId refreshJti := by
    obtain hOld | hNew := List.mem_append.mp hToken
    · exact .inl hOld
    · obtain rfl | hNew := List.mem_cons.mp hNew
      · cases hType
      · exact .inr (List.mem_singleton.mp hNew)
  refine ⟨?_, ?_, ?_, ?_, ?_⟩
  · rw [List.map_append, List.nodup_append]
    refine ⟨h.ids, by simpa [createAccessToken, createRefreshToken] using hIds, ?_⟩
    intro id hId other hOther hEq
    obtain ⟨token, hToken, rfl⟩ := List.mem_map.mp hId
    obtain ⟨hAccess, hRefresh⟩ := hFresh token hToken
    simp only [List.map_cons, List.map_nil, List.mem_cons, List.not_mem_nil, or_false,
      createAccessToken, createRefreshToken] at hOther
    obtain rfl | rfl := hOther
    · exact hAccess hEq
    · exact hRefresh hEq
  · intro token hToken
    obtain hOld | hNew := List.mem_append.mp hToken
    · exact h.users token hOld
    · simp only [List.mem_cons, List.not_mem_nil, or_false] at hNew
      obtain rfl | rfl := hNew <;> exact hUser
  · intro token hToken hType
    obtain hOld | rfl := hMem hToken hType
    · exact h.times token hOld hType
    · exact ⟨Nat.le_refl _, rfl⟩
  · intro time hTime key hLive
    by_cases hKey : key = sessionKey userId refreshJti.text
    · exact ⟨createRefreshToken cfg now userId refreshJti, by simp, .inr ⟨rfl, hKey⟩⟩
    · rw [TokenStore.live_addJson _ _ _ hTime, if_neg hKey] at hLive
      obtain ⟨token, hToken, hOf⟩ := h.keys time hTime key hLive
      exact ⟨token, List.mem_append_left _ hToken, hOf⟩
  · intro token hToken hType
    obtain hOld | rfl := hMem hToken hType
    · have hKey : keyOf token ≠ sessionKey userId refreshJti.text := fun hKey =>
        (hFresh token hOld).2 (sessionKey_inj (h.users token hOld) hUser hKey).2
      have hJti : token.jti.text ≠ sessionKey userId refreshJti.text :=
        token.jti.ne_of_sessionPrefix (sessionPrefix_separates userId refreshJti.text)
      exact (agreeOn_addJson hKey hJti session cfg.ttl).paired (h.paired token hOld hType)
    · -- nothing was known of the new id, so it is not on the deny-list
      have hNew (time : Nat) (hTime : now ≤ time) : s.live time refreshJti.text = false :=
        h.not_live_of_fresh (fun token hToken => (hFresh token hToken).2) hTime
      exact .inl (@listed_addJson cfg s now (createRefreshToken cfg now userId refreshJti) rfl session
        hSession hNew)

theorem Consistent.revokeKey (h : Consistent cfg s issued now) (hToken : token ∈ issued)
    (hType : token.type = .refresh) (hListed : Listed cfg s now token)
    (hLive : s.live now (keyOf token) = true) :
    Consistent cfg (revokeKey cfg now s (keyOf token)) issued now := by
  obtain ⟨session, hOwn, hId⟩ := hListed.key_value now (Nat.le_refl _)
    ((hListed.key_live now (Nat.le_refl _)).mp hLive)
  obtain ⟨hGet, hSame⟩ := TokenStore.getJson_spec s now (keyOf token)
  simp only [Auth.revokeKey]
  rcases hRound : s.getJson now (keyOf token) with ⟨raw, s₁⟩
  rw [hRound] at hGet hSame
  obtain rfl : raw = some session := hGet.trans hOwn
  simp only [hId, ne_eq, token.jti.text_ne, not_false_eq_true, if_true]
  exact (h.sameFrom hSame).retire hToken hType

theorem Consistent.foldl_revokeKey {userId : String} (hUser : IsUserId userId) (keys : List String)
    (h : Consistent cfg s issued now)
    (hKeys : ∀ key ∈ keys, s.live now key = true ∧ (sessionPrefix userId).toList <+: key.toList)
    (hNodup : keys.Nodup) :
    Consistent cfg (keys.foldl (Auth.revokeKey cfg now) s) issued now := by
  induction keys generalizing s with
  | nil => exact h
  | cons key keys ih =>
      obtain ⟨⟨hLive, hPrefix⟩, hRest⟩ := List.forall_mem_cons.mp hKeys
      -- retiring this token leaves the keys that are still to come alive
      rw [List.nodup_cons] at hNodup
      obtain ⟨token, hToken, hType, -, rfl, hListed⟩ := h.token_of_key hUser hPrefix hLive
      refine ih (h.revokeKey hToken hType hListed hLive) (fun key' hMem => ?_) hNodup.2
      have hNe : key' ≠ keyOf token := fun hEq => hNodup.1 (hEq ▸ hMem)
      exact ⟨(value_revokeKey hNe (hRest key' hMem).1).1, (hRest key' hMem).2⟩

theorem Consistent.revokeAllSessions {userId : String} (hUser : IsUserId userId)
    (h : Consistent cfg s issued now) :
    Consistent cfg (Auth.revokeAllSessions cfg s now userId).2 issued now := by
  obtain ⟨hKeys, hNodup, hSame⟩ := TokenStore.keysByPrefix_spec s now (sessionPrefix userId)
  have hReady (key : String) (hMem : key ∈ (s.keysByPrefix now (sessionPrefix userId)).1) :
      (s.keysByPrefix now (sessionPrefix userId)).2.live now key = true ∧
        (sessionPrefix userId).toList <+: key.toList := by
    rw [hSame.live_eq now (Nat.le_refl _)]
    exact (hKeys key).mp hMem
  exact Consistent.foldl_revokeKey hUser _ (h.sameFrom hSame) hReady hNodup

theorem Consistent.revokeSession {userId : String} (hUser : IsUserId userId) (sessionId : String)
    (h : Consistent cfg s issued now) :
    Consistent cfg (Auth.revokeSession cfg s now userId sessionId).2 issued now := by
  obtain ⟨hGet, hSame⟩ := TokenStore.getJson_spec s now (sessionKey userId sessionId)
  simp only [Auth.revokeSession]
  rcases hRound : s.getJson now (sessionKey userId sessionId) with ⟨raw, s₁⟩
  rw [hRound] at hGet hSame
  cases raw with
  | none => exact h.sameFrom hSame
  | some session =>
      have hLive : s.live now (sessionKey userId sessionId) = true := by
        by_contra hDead
        simp [TokenStore.value, hDead] at hGet
      obtain ⟨token, hToken, hType, hSub, hKey, -⟩ :=
        h.token_of_key hUser (sessionPrefix_separates userId sessionId) hLive
      -- the id that the caller gives is the token's, since the key is
      obtain ⟨-, rfl⟩ := sessionKey_inj hUser (h.users token hToken) hKey
      simp only [hKey]
      exact (h.sameFrom hSame).retire hToken hType

end Keep

/-! ## Calls -/

/-- Every refresh token is listed or gone, the keys are short-lived, and the refreshes in progress are
of issued tokens. -/
structure Inv (cfg : AuthConfig) (s : AuthState) : Prop where
  consistent : Consistent cfg s.store s.issued s.clock
  shortLived : ShortLived cfg s.clock s.store
  refreshing : ∀ token ∈ s.refreshing, token ∈ s.issued

section Calls

variable {cfg : AuthConfig} {s s' : AuthState} {userId : String} {accessJti refreshJti : Uuid}

theorem Inv.wait (h : Inv cfg s) (elapsed : Nat) : Inv cfg (s.wait elapsed) :=
  ⟨h.consistent.wait elapsed, h.shortLived.wait elapsed, h.refreshing⟩

theorem Inv.exact_iff (h : Inv cfg s) : Exact s ↔ NoneOverdue cfg s :=
  SessionListing.exact_iff h.consistent

/-- A call that issues no token past its life and lets no token id expire makes nothing overdue. -/
theorem Inv.exact_both_iff (h : Inv cfg s) (h' : Inv cfg s') (hClock : s'.clock = s.clock)
    (hKeeps : KeepsTokens s.clock s.store s'.store)
    (hIssued : ∀ token ∈ s'.issued, token ∈ s.issued ∨ s.clock ≤ lifeEnd cfg token) :
    (Exact s ∧ Exact s') ↔ NoneOverdue cfg s := by
  rw [h.exact_iff, h'.exact_iff]
  -- accepted after the call and issued before it means accepted before it
  refine and_iff_left_of_imp fun hNone token hToken hAccepted => ?_
  rw [hClock] at hAccepted ⊢
  obtain hOld | hLife := hIssued token hToken
  · obtain ⟨hUnexpired, hLive, hType⟩ := accepted_iff.mp hAccepted
    have hBefore : s.store.live s.clock token.jti.text = false := by
      by_contra hDenied
      rw [hKeeps s.clock (Nat.le_refl _) token.jti (by simpa using hDenied)] at hLive
      cases hLive
    exact hNone token hOld (accepted_iff.mpr ⟨hUnexpired, hBefore, hType⟩)
  · exact hLife

/-- Deny-list entries change nobody's list. -/
theorem mem_listedIds_of_value {id : String}
    (hClock : s'.clock = s.clock)
    (hValue : ∀ key, (sessionPrefix userId).toList <+: key.toList →
      s'.store.value s.clock key = s.store.value s.clock key) :
    id ∈ listedIds s' userId ↔ id ∈ listedIds s userId := by
  simp only [listedIds, List.mem_map, mem_listSessions, hClock]
  refine exists_congr fun session => and_congr_left fun _ => exists_congr fun key =>
    and_congr_right fun hPrefix => ?_
  rw [hValue key hPrefix]

/-- A refresh token that is issued without a session key makes its user's list inexact. -/
theorem Inv.not_exact_of_mint (h : Inv cfg s) (hUser : IsUserId userId)
    (hFresh : ∀ token ∈ s.issued, token.jti.text ≠ refreshJti.text) (hClock : s'.clock = s.clock)
    (hMem : createRefreshToken cfg s.clock userId refreshJti ∈ s'.issued)
    (hLive : s'.store.live s.clock refreshJti.text = false)
    (hValue : ∀ key, (sessionPrefix userId).toList <+: key.toList →
      s'.store.value s.clock key = s.store.value s.clock key) : ¬Exact s' := by
  intro hExact
  have hAccepted : Accepted s'.store s'.clock
      (createRefreshToken cfg s.clock userId refreshJti) := by
    rw [hClock]
    exact accepted_iff.mpr ⟨Nat.le_add_right _ _, hLive, rfl⟩
  have hListed : refreshJti.text ∈ listedIds s' userId :=
    (hExact userId hUser).mem_iff.mpr (mem_acceptedIds.mpr ⟨_, hMem, rfl, hAccepted, rfl⟩)
  rw [mem_listedIds_of_value hClock hValue, mem_listedIds h.consistent hUser] at hListed
  obtain ⟨token, hToken, -, -, -, -, hId⟩ := hListed
  exact hFresh token hToken hId.symm

theorem Inv.not_exact_of_deny (h : Inv cfg s) {token : Token} (hToken : token ∈ s.issued)
    (hAccepted : Accepted s.store s.clock token) (hExact : Exact s) :
    ¬Exact { s with store := s.store.add s.clock token.jti.text cfg.ttl } := by
  intro hAfter
  have hUser : IsUserId token.sub := h.consistent.users token hToken
  have hListed : token.jti.text ∈ listedIds s token.sub :=
    (hExact token.sub hUser).mem_iff.mpr
      (mem_acceptedIds.mpr ⟨token, hToken, rfl, hAccepted, rfl⟩)
  have hSame := @mem_listedIds_of_value s
    { s with store := s.store.add s.clock token.jti.text cfg.ttl } token.sub token.jti.text rfl
    fun key hPrefix => TokenStore.value_add_of_ne (token.jti.ne_of_sessionPrefix hPrefix).symm _
      (Nat.le_refl _)
  rw [← hSame, (hAfter token.sub hUser).mem_iff] at hListed
  obtain ⟨other, hOther, -, hStill, hId⟩ := mem_acceptedIds.mp hListed
  obtain rfl := h.consistent.eq_of_jti hToken hOther hId
  have hDenied := (accepted_iff.mp hStill).2.1
  rw [TokenStore.live_add _ _ (Nat.le_refl _)] at hDenied
  simp at hDenied

/-- The condition decides a call: the lists are exact around it just when the condition holds, and then
the invariant is kept. -/
structure Decides (cfg : AuthConfig) (s : AuthState) (e : AuthEvent) : Prop where
  exact_iff : ExactAround cfg s e ↔ Paired cfg s e
  inv : Paired cfg s e → Inv cfg (s.step cfg e)

/-- A call keeps the lists exact when nothing is overdue and the rest of the condition holds. -/
theorem Inv.step_of_paired (h : Inv cfg s) {e : AuthEvent} (hNext : Inv cfg (s.step cfg e))
    (hIssued : ∀ token ∈ (s.step cfg e).issued,
      token ∈ s.issued ∨ s.clock + e.elapsed ≤ lifeEnd cfg token)
    (hRest : NoneOverdue cfg (s.wait e.elapsed) → Paired cfg s e) : Decides cfg s e := by
  have hWait := h.wait e.elapsed
  obtain ⟨hClock, -, hKeeps⟩ := perform_spec hWait.shortLived e.call
  refine ⟨?_, fun _ => hNext⟩
  rw [ExactAround, hWait.exact_both_iff hNext hClock hKeeps hIssued]
  exact ⟨hRest, fun hPaired => hPaired.1⟩

theorem step_of_unpaired {e : AuthEvent} (hNot : ¬Paired cfg s e)
    (hExact : Exact (s.wait e.elapsed) → ¬Exact (s.step cfg e)) : Decides cfg s e :=
  ⟨iff_of_false (fun hAround => hExact hAround.1 hAround.2) hNot,
    fun hPaired => absurd hPaired hNot⟩

/-- An invariant store after the call is all that is left to show where no token is issued and no
refresh begins. -/
theorem Inv.withStore (h : Inv cfg s) (call : AuthCall) {store : TokenStore}
    {condemned : List Token} (hStep : s.perform cfg call = { s with store, condemned })
    (hStore : Consistent cfg store s.issued s.clock) : Inv cfg (s.perform cfg call) := by
  obtain ⟨-, hShort, -⟩ := perform_spec h.shortLived call
  rw [hStep] at hShort ⊢
  exact ⟨hStore, hShort, h.refreshing⟩

theorem Consistent.revokeRefreshToken {store : TokenStore} {issued : List Token} {now : Nat}
    {token : Token} (h : Consistent cfg store issued now) (hToken : token ∈ issued)
    (hRejected : ¬Accepted store now token) :
    Consistent cfg (Auth.revokeRefreshToken cfg store now token) issued now := by
  unfold Auth.revokeRefreshToken
  split
  case isFalse => exact h
  case isTrue hValid =>
    refine h.deny hToken fun hType => (h.paired token hToken hType).resolve_left fun hListed => ?_
    exact hRejected (accepted_iff.mpr ⟨hValid.1, hListed.not_denied now (Nat.le_refl _), hType⟩)

/-- The first part of a refresh leaves the store as it looks, and a refresh in progress is of the
token that was presented. -/
theorem Inv.refreshBegin (h : Inv cfg s) (k : Nat) :
    Inv cfg (s.perform cfg (.refreshBegin k)) ∧
      (s.perform cfg (.refreshBegin k)).issued = s.issued := by
  cases hk : s.issued[k]? with
  | none => simpa [AuthState.perform, hk] using h
  | some token =>
      have hSame := @sameFrom_decodeToken s.store s.clock token (some .refresh)
      rcases hDecode : decodeToken s.store s.clock token (some .refresh) with ⟨result, store⟩
      rw [hDecode] at hSame
      have hStore : Consistent cfg store s.issued s.clock := h.consistent.sameFrom hSame
      have hShort : ShortLived cfg s.clock store := shortLived_of_sameFrom hSame h.shortLived
      cases result with
      | error detail =>
          have hStep : s.perform cfg (.refreshBegin k) = { s with store := store } := by
            simp [AuthState.perform, hk, hDecode]
          rw [hStep]
          exact ⟨⟨hStore, hShort, h.refreshing⟩, rfl⟩
      | ok token' =>
          obtain rfl := decodeToken_ok hDecode
          have hStep : s.perform cfg (.refreshBegin k) =
              { s with store := store, refreshing := s.refreshing ++ [token'] } := by
            simp [AuthState.perform, hk, hDecode]
          rw [hStep]
          exact ⟨⟨hStore, hShort,
            forall_mem_append_singleton h.refreshing (List.mem_of_getElem? hk)⟩, rfl⟩

theorem Inv.not_exact_of_refresh (h : Inv cfg s) {k : Nat} {token : Token}
    (hk : s.refreshing[k]? = some token) (hFresh : FreshIds s accessJti refreshJti) :
    ¬Exact (s.perform cfg (.refreshFinish k true accessJti refreshJti)) := by
  have hToken : token ∈ s.issued := h.refreshing token (List.mem_of_getElem? hk)
  have hNew (token : Token) (hToken : token ∈ s.issued) : token.jti.text ≠ refreshJti.text :=
    (hFresh.2 token hToken).2
  have hStore : (s.perform cfg (.refreshFinish k true accessJti refreshJti)).store =
      Auth.revokeRefreshToken cfg s.store s.clock token := by
    simp [AuthState.perform, hk]
  have hMem : createRefreshToken cfg s.clock token.sub refreshJti ∈
      (s.perform cfg (.refreshFinish k true accessJti refreshJti)).issued := by
    simp [AuthState.perform, AuthState.mint, hk]
  obtain ⟨hClock, -⟩ := perform_spec h.shortLived (.refreshFinish k true accessJti refreshJti)
  -- the entry of the old token is neither the new id nor a session key
  have hElse (key : String) (hKey : key ≠ token.jti.text) :
      (Auth.revokeRefreshToken cfg s.store s.clock token).live s.clock key =
          s.store.live s.clock key ∧
        (Auth.revokeRefreshToken cfg s.store s.clock token).value s.clock key =
          s.store.value s.clock key := by
    unfold Auth.revokeRefreshToken
    split
    · rw [TokenStore.live_add _ _ (Nat.le_refl _), if_neg hKey]
      exact ⟨rfl, TokenStore.value_add_of_ne hKey _ (Nat.le_refl _)⟩
    · exact ⟨rfl, rfl⟩
  refine h.not_exact_of_mint (h.consistent.users token hToken) hNew hClock hMem ?_ ?_
  · rw [hStore, (hElse _ (hNew token hToken).symm).1]
    exact h.consistent.not_live_of_fresh hNew (Nat.le_refl _)
  · intro key hPrefix
    rw [hStore]
    exact (hElse key (token.jti.ne_of_sessionPrefix hPrefix).symm).2

theorem Inv.step_login (h : Inv cfg s) {elapsed : Nat} {ipAddress userAgent : String}
    (hGenuine : Genuine s ⟨elapsed, .login userId accessJti refreshJti ipAddress userAgent⟩) :
    Decides cfg s ⟨elapsed, .login userId accessJti refreshJti ipAddress userAgent⟩ := by
  have hWait := h.wait elapsed
  obtain ⟨hUser, hIds, hFresh⟩ := hGenuine
  obtain ⟨-, hShort, -⟩ := perform_spec hWait.shortLived
    (.login userId accessJti refreshJti ipAddress userAgent)
  refine h.step_of_paired ⟨?_, hShort, fun token hToken =>
    List.mem_append_left _ (h.refreshing token hToken)⟩ (fun token hToken => ?_)
    fun hNone => ⟨hNone, trivial⟩
  · show Consistent cfg (registerSession _ _ _ _ _ _ _) _ _
    rw [registerSession_createRefreshToken]
    exact hWait.consistent.login hUser hIds hFresh _ rfl
  · obtain hOld | hNew := List.mem_append.mp hToken
    · exact .inl hOld
    · simp only [List.mem_cons, List.not_mem_nil, or_false] at hNew
      obtain rfl | rfl := hNew <;> exact .inr (Nat.le_add_right _ _)

theorem Inv.step_loginForm (h : Inv cfg s) {elapsed : Nat}
    (hGenuine : Genuine s ⟨elapsed, .loginForm userId accessJti refreshJti⟩) :
    Decides cfg s ⟨elapsed, .loginForm userId accessJti refreshJti⟩ := by
  have hWait := h.wait elapsed
  obtain ⟨hUser, -, hFresh⟩ := hGenuine
  have hNew (token : Token) (hToken : token ∈ s.issued) : token.jti.text ≠ refreshJti.text :=
    (hFresh token hToken).2
  have hMem : createRefreshToken cfg (s.wait elapsed).clock userId refreshJti ∈
      (s.step cfg ⟨elapsed, .loginForm userId accessJti refreshJti⟩).issued := by
    simp [AuthState.step, AuthState.perform, AuthState.mint]
  refine step_of_unpaired (fun hPaired => hPaired.2) fun _ => ?_
  exact hWait.not_exact_of_mint hUser hNew rfl hMem
    (hWait.consistent.not_live_of_fresh hNew (Nat.le_refl _)) fun _ _ => rfl

theorem Inv.step_refreshFinish (h : Inv cfg s) {elapsed k : Nat} {active : Bool}
    (hGenuine : Genuine s ⟨elapsed, .refreshFinish k active accessJti refreshJti⟩) :
    Decides cfg s ⟨elapsed, .refreshFinish k active accessJti refreshJti⟩ := by
  have hWait := h.wait elapsed
  cases hk : s.refreshing[k]? with
  | none =>
      have hStep : s.step cfg ⟨elapsed, .refreshFinish k active accessJti refreshJti⟩ =
          s.wait elapsed := by
        simp [AuthState.step, AuthState.perform, AuthState.wait, hk]
      refine h.step_of_paired (hStep ▸ hWait) (fun token hToken => .inl ?_)
        fun hNone => ⟨hNone, fun hSome => absurd hk hSome⟩
      rwa [hStep] at hToken
  | some token =>
      cases active with
      | false =>
          have hStep : s.step cfg ⟨elapsed, .refreshFinish k false accessJti refreshJti⟩ =
              { s.wait elapsed with refreshing := s.refreshing.eraseIdx k } := by
            simp [AuthState.step, AuthState.perform, AuthState.wait, hk]
          refine h.step_of_paired ?_ (fun token hToken => .inl ?_)
            fun hNone => ⟨hNone, fun _ => rfl⟩
          · rw [hStep]
            exact ⟨hWait.consistent, hWait.shortLived, fun token hToken =>
              h.refreshing token (List.mem_of_mem_eraseIdx hToken)⟩
          · rwa [hStep] at hToken
      | true =>
          refine step_of_unpaired (fun hPaired => ?_) fun _ => ?_
          · cases hPaired.2 (by simp [hk])
          · exact hWait.not_exact_of_refresh hk hGenuine

theorem Inv.step_logout (h : Inv cfg s) (elapsed k : Nat) : Decides cfg s ⟨elapsed, .logout k⟩ := by
  have hWait := h.wait elapsed
  cases hk : s.issued[k]? with
  | none =>
      have hStep : s.step cfg ⟨elapsed, .logout k⟩ = s.wait elapsed := by
        simp [AuthState.step, AuthState.perform, AuthState.wait, hk]
      refine h.step_of_paired (hStep ▸ hWait) (fun token hToken => .inl ?_)
        fun hNone => ⟨hNone, ?_⟩
      · rwa [hStep] at hToken
      · simp [hk]
  | some token =>
      have hToken : token ∈ s.issued := List.mem_of_getElem? hk
      have hStep : s.step cfg ⟨elapsed, .logout k⟩ = { s.wait elapsed with
          store := Auth.revokeRefreshToken cfg s.store (s.clock + elapsed) token } := by
        simp [AuthState.step, AuthState.perform, AuthState.wait, hk]
      by_cases hAccepted : Accepted s.store (s.clock + elapsed) token
      · refine step_of_unpaired (fun hPaired => hPaired.2 token hk hAccepted) fun hExact => ?_
        rw [hStep, Auth.revokeRefreshToken,
          if_pos ⟨(accepted_iff.mp hAccepted).1, token.jti.text_ne⟩]
        exact hWait.not_exact_of_deny hToken hAccepted hExact
      · refine h.step_of_paired (hWait.withStore _ hStep
          (hWait.consistent.revokeRefreshToken hToken hAccepted)) (fun other hOther => .inl ?_)
          fun hNone => ⟨hNone, ?_⟩
        · rwa [hStep] at hOther
        · rintro other hOther
          obtain rfl : token = other := Option.some.inj (hk.symm.trans hOther)
          exact hAccepted

theorem Inv.step (h : Inv cfg s) (e : AuthEvent) (hGenuine : Genuine s e) : Decides cfg s e := by
  obtain ⟨elapsed, call⟩ := e
  have hWait := h.wait elapsed
  cases call with
  | login userId accessJti refreshJti ipAddress userAgent => exact h.step_login hGenuine
  | loginForm userId accessJti refreshJti => exact h.step_loginForm hGenuine
  | refreshBegin k =>
      obtain ⟨hInv, hIssued⟩ := hWait.refreshBegin k
      exact h.step_of_paired hInv (fun token hToken => .inl (hIssued ▸ hToken))
        fun hNone => ⟨hNone, trivial⟩
  | refreshFinish k active accessJti refreshJti => exact h.step_refreshFinish hGenuine
  | logout k => exact h.step_logout elapsed k
  | revokeSession userId sessionId =>
      exact h.step_of_paired (hWait.withStore _ rfl
        (hWait.consistent.revokeSession hGenuine sessionId)) (fun token hToken => .inl hToken)
        fun hNone => ⟨hNone, trivial⟩
  | revokeAll userId =>
      exact h.step_of_paired (hWait.withStore _ rfl
        (hWait.consistent.revokeAllSessions hGenuine)) (fun token hToken => .inl hToken)
        fun hNone => ⟨hNone, trivial⟩

end Calls

/-! ## Runs -/

theorem inv_start (cfg : AuthConfig) (clock : Nat) : Inv cfg (.start clock) := by
  have hEmpty (time : Nat) (key : String) : (AuthState.start clock).store.live time key = false :=
    rfl
  refine ⟨⟨List.nodup_nil, ?_, ?_, ?_, ?_⟩, ?_, ?_⟩
  · intro token hToken
    cases hToken
  · intro token hToken
    cases hToken
  · intro time _ key hLive
    rw [hEmpty] at hLive
    cases hLive
  · intro token hToken
    cases hToken
  · intro time _ key hLive
    rw [hEmpty] at hLive
    cases hLive
  · intro token hToken
    cases hToken

/-- The session lists are exact throughout a run exactly when no refresh token is accepted for longer
than its `refresh_expire_days`, none is issued but by a login, and none that is accepted is denied but
through its session. -/
theorem listing_exact_iff (cfg : AuthConfig) (clock : Nat) (events : List AuthEvent)
    (hGenuine : EveryStep (AuthState.step cfg) Genuine (.start clock) events) :
    EveryStep (AuthState.step cfg) (ExactAround cfg) (.start clock) events ↔
      EveryStep (AuthState.step cfg) (Paired cfg) (.start clock) events := by
  have hGuard : EveryStep (AuthState.step cfg) (fun s e => Genuine s e ∧ ExactAround cfg s e)
      (.start clock) events ↔ EveryStep (AuthState.step cfg)
        (fun s e => Genuine s e ∧ Paired cfg s e) (.start clock) events := by
    refine everyStep_iff_guarded ?_ ?_ (inv_start cfg clock)
    · intro s e h hStep
      exact (h.step e hStep.1).inv hStep.2
    · intro s e h
      exact and_congr_right fun hHere => (h.step e hHere).exact_iff
  rw [everyStep_and, everyStep_and] at hGuard
  simpa only [hGenuine, true_and] using hGuard

/-- A login, and the revocation of its session an hour later. -/
def sessionRevoked : List AuthEvent :=
  [⟨0, .login "u1" firstJti secondJti "10.0.0.1" "browser"⟩,
    ⟨3600 * microseconds, .revokeSession "u1" secondJti.text⟩]

theorem listing_exact_iff_session_revoked :
    EveryStep (AuthState.step ⟨60, 7⟩) (ExactAround ⟨60, 7⟩) (.start 0) sessionRevoked ↔
      EveryStep (AuthState.step ⟨60, 7⟩) (Paired ⟨60, 7⟩) (.start 0) sessionRevoked :=
  listing_exact_iff ⟨60, 7⟩ 0 sessionRevoked ⟨by decide, by decide, trivial⟩

/-- A login, and a logout a minute later. -/
def loggedOut : List AuthEvent :=
  [⟨0, .login "u1" firstJti secondJti "10.0.0.1" "browser"⟩, ⟨60 * microseconds, .logout 1⟩]

/-- The session of a token that was logged out is still listed. -/
theorem logged_out_still_listed :
    EveryStep (AuthState.step ⟨60, 7⟩) Genuine (.start 0) loggedOut ∧
      ¬EveryStep (AuthState.step ⟨60, 7⟩) (ExactAround ⟨60, 7⟩) (.start 0) loggedOut := by
  refine ⟨⟨by decide, by decide, trivial⟩, fun hRun => ?_⟩
  obtain ⟨-, ⟨-, hAfter⟩, -⟩ := hRun
  have hPerm := hAfter "u1" (by decide)
  revert hPerm
  decide

end AsetPlatform.Auth.SessionListing

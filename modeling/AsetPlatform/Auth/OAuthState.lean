import AsetPlatform.Auth.TokenBackends

/-!
# OAuth state tokens

`generate_authorize_url` stores a key made of the state token and the provider before it looks
whether the provider is known; `validate_state` looks the key up and removes it. The two halves of
`validate_state` are separate steps, so that several callbacks may stand between them.

A state is one-shot when an accepted attempt names a state that was handed out for its provider no
longer ago than its time to live and was not accepted before, and when every attempt leaves nothing
of the state it names. `one_shot` proves this of the runs whose attempts are `Careful`: they name no
live state of another provider, and no key that another callback has looked up and not removed yet.
-/

set_option autoImplicit false

namespace AsetPlatform.Auth.OAuthState

open AsetPlatform.Library AsetPlatform.Auth.TokenBackends

/-- The settings of the two providers. -/
structure Settings where
  googleClientId : String
  facebookAppId : String
  oauthRedirectUri : String

/-- `_STATE_TTL_SECONDS` -/
def stateTtlSeconds : Int := 600

/-- `oauth_state:{state}:{provider}` -/
def stateKey (state provider : String) : String := "oauth_state:" ++ state ++ ":" ++ provider

/-- A consent page, and the parameters that are encoded behind it. -/
structure AuthorizeUrl where
  base : String
  params : List (String × String)

/-- The consent page of a provider, or the `ValueError` of an unknown one. -/
def authorizeUrl (settings : Settings) (state provider codeChallenge : String) :
    Except String AuthorizeUrl :=
  if provider = "google" then
    .ok ⟨"https://accounts.google.com/o/oauth2/v2/auth",
      [("client_id", settings.googleClientId), ("redirect_uri", settings.oauthRedirectUri),
        ("response_type", "code"), ("scope", "openid email profile"), ("state", state),
        ("code_challenge", codeChallenge), ("code_challenge_method", "S256"),
        ("access_type", "offline"), ("prompt", "select_account")]⟩
  else if provider = "facebook" then
    .ok ⟨"https://www.facebook.com/v18.0/dialog/oauth",
      [("client_id", settings.facebookAppId), ("redirect_uri", settings.oauthRedirectUri),
        ("state", state), ("scope", "email,public_profile")]⟩
  else .error ("Unknown OAuth provider: '" ++ provider ++ "'")

/-- `generate_authorize_url`, with the token that `secrets` returns: the state is stored before the
provider is looked at. -/
def generateAuthorizeUrl (settings : Settings) (s : InMemoryTokenStore) (now pruning : Int)
    (state provider codeChallenge : String) :
    Except String (String × AuthorizeUrl) × InMemoryTokenStore :=
  ((authorizeUrl settings state provider codeChallenge).map fun url => (state, url),
    (s.add now pruning (stateKey state provider) stateTtlSeconds).2)

/-- `validate_state` up to the lookup: an absent or expired key is refused. -/
def lookUpState (s : InMemoryTokenStore) (now : Int) (state provider : String) :
    Bool × InMemoryTokenStore := s.contains now (stateKey state provider)

/-- `validate_state` after a lookup that found the key; it returns `True`. -/
def removeState (s : InMemoryTokenStore) (state provider : String) : InMemoryTokenStore :=
  s.remove (stateKey state provider)

/-! ## Runs -/

/-- A call of `generate_authorize_url`, returned or raised. -/
structure Issue where
  state : String
  provider : String
  time : Int

/-- The call returned: the state was handed out. -/
def Issue.HandedOut (i : Issue) : Prop := i.provider = "google" ∨ i.provider = "facebook"

instance (i : Issue) : Decidable i.HandedOut := inferInstanceAs (Decidable (_ ∨ _))

/-- A callback between the two halves of `validate_state`. -/
structure Lookup where
  state : String
  provider : String
  time : Int

/-- The store, what was issued and accepted so far, and the callbacks under way. -/
structure World where
  store : InMemoryTokenStore
  issued : List Issue
  lookups : Dict Nat Lookup
  accepted : List String
  clock : Int

inductive Action where
  | generate (state provider codeChallenge : String)
  | lookUp (worker : Nat) (state provider : String)
  | remove (worker : Nat)

/-- An action some time after the one before, and how long it takes until the write is pruned. -/
structure Event where
  action : Action
  wait : Nat
  pruning : Nat

namespace World

def init (clock : Int) : World := ⟨.empty, [], .empty, [], clock⟩

variable (settings : Settings) (w : World) (e : Event)

def now : Int := w.clock + e.wait

def later : Int := w.now e + e.pruning

/-- One action. A busy worker takes no new callback, and an idle one has none to finish. -/
def step : World :=
  match e.action with
  | .generate state provider codeChallenge =>
      { w with
        store := (generateAuthorizeUrl settings w.store (w.now e) (w.later e) state provider
          codeChallenge).2
        issued := ⟨state, provider, w.now e⟩ :: w.issued
        clock := w.later e }
  | .lookUp worker state provider =>
      match w.lookups.get? worker with
      | some _ => { w with clock := w.later e }
      | none =>
          let (found, store) := lookUpState w.store (w.now e) state provider
          { w with
            store := store
            lookups := if found then w.lookups.set worker ⟨state, provider, w.now e⟩ else w.lookups
            clock := w.later e }
  | .remove worker =>
      match w.lookups.get? worker with
      | none => { w with clock := w.later e }
      | some c =>
          { w with
            store := removeState w.store c.state c.provider
            lookups := w.lookups.erase worker
            accepted := c.state :: w.accepted
            clock := w.later e }

/-- A lookup at this time would find the key of an issued state. -/
def Stored (time : Int) (i : Issue) : Prop :=
  (w.store.contains time (stateKey i.state i.provider)).1 = true

instance (time : Int) (i : Issue) : Decidable (w.Stored time i) :=
  inferInstanceAs (Decidable (_ = true))

/-- Nothing is left of a state that was handed out. -/
def Consumed (state : String) : Prop :=
  ∀ i ∈ w.issued, i.HandedOut → i.state = state → ¬w.Stored w.clock i

instance (state : String) : Decidable (w.Consumed state) :=
  inferInstanceAs (Decidable (∀ i ∈ w.issued, i.HandedOut → i.state = state → ¬w.Stored w.clock i))

/-- The state was handed out for the provider, and its time to live was not over at the lookup. -/
def Valid (c : Lookup) : Prop :=
  ∃ i ∈ w.issued, i.HandedOut ∧ i.state = c.state ∧ i.provider = c.provider ∧
    c.time ≤ i.time + micros stateTtlSeconds

instance (c : Lookup) : Decidable (w.Valid c) :=
  inferInstanceAs (Decidable (∃ i ∈ w.issued, i.HandedOut ∧ i.state = c.state ∧
    i.provider = c.provider ∧ c.time ≤ i.time + micros stateTtlSeconds))

/-- An attempt that is accepted is so for a valid state that was not accepted before, and an attempt
that ends, accepted or refused, has consumed the state. -/
def OneShot : Prop :=
  match e.action with
  | .generate _ _ _ => True
  | .lookUp worker state provider =>
      w.lookups.get? worker = none → (lookUpState w.store (w.now e) state provider).1 = false →
        (w.step settings e).Consumed state
  | .remove worker =>
      ∀ c ∈ w.lookups.get? worker,
        w.Valid c ∧ c.state ∉ w.accepted ∧ (w.step settings e).Consumed c.state

instance : Decidable (w.OneShot settings e) := by
  unfold OneShot
  cases e.action <;> infer_instance

/-- New tokens are new and URL-safe. An attempt finds only a key of its own state, handed out, that
no other callback has looked up; and a state that it names is not stored for another provider. -/
def Careful : Prop :=
  match e.action with
  | .generate state _ _ => ':' ∉ state.toList ∧ ∀ i ∈ w.issued, i.state ≠ state
  | .lookUp _ state provider =>
      ∀ i ∈ w.issued, w.Stored (w.now e) i →
        (stateKey i.state i.provider = stateKey state provider →
          i.HandedOut ∧ i.state = state ∧
            ∀ x ∈ w.lookups.entries, x.2.state ≠ state) ∧
        (i.HandedOut → i.state = state → i.provider = provider)
  | .remove _ => True

instance : Decidable (w.Careful e) := by
  unfold Careful
  cases e.action <;> infer_instance

/-! ## The invariant -/

def keyOf (i : Issue) : String := stateKey i.state i.provider

/-- The store holds keys of issued states for their time to live. A callback under way has a valid
state of its own, and of an accepted state nothing is left. -/
structure Inv (l : Ledger) (w : World) : Prop where
  refines : MemoryRefines w.clock w.store l
  ledger : ∀ key x, l.get? key = some x →
    ∃ i ∈ w.issued, keyOf i = key ∧ x.deadline = i.time + micros stateTtlSeconds
  colonFree : ∀ i ∈ w.issued, ':' ∉ i.state.toList
  distinct : ∀ i ∈ w.issued, ∀ j ∈ w.issued, i.state = j.state → i = j
  lookups : ∀ n c, w.lookups.get? n = some c → w.Valid c ∧ c.state ∉ w.accepted
  alone : ∀ n m c d, w.lookups.get? n = some c → w.lookups.get? m = some d → c.state = d.state →
    n = m
  spent : ∀ state ∈ w.accepted, (∃ i ∈ w.issued, i.state = state) ∧
    ∀ i ∈ w.issued, i.state = state → ¬l.Live w.clock (keyOf i)

variable {settings w e} {l : Ledger}

theorem clock_le_now : w.clock ≤ w.now e := by
  unfold now
  omega

theorem now_le_later : w.now e ≤ w.later e := by
  unfold later
  omega

theorem clock_le_later : w.clock ≤ w.later e := Int.le_trans clock_le_now now_le_later

theorem stateKey_inj {state state' provider provider' : String} (h : ':' ∉ state.toList)
    (h' : ':' ∉ state'.toList) (hKey : stateKey state provider = stateKey state' provider') :
    state = state' ∧ provider = provider' := by
  have hList := congrArg String.toList hKey
  simp only [stateKey, String.toList_append, List.append_assoc, List.append_cancel_left_eq] at hList
  obtain ⟨hState, hProvider⟩ := append_sep_inj h h' (by simpa using hList)
  exact ⟨String.toList_inj.mp hState, String.toList_inj.mp hProvider⟩

theorem Inv.stored_iff (h : Inv l w) {time : Int} (hTime : w.clock ≤ time) (i : Issue) :
    w.Stored time i ↔ l.Live time (keyOf i) :=
  ((h.refines.mono hTime).contains _).1

theorem inv_init (clock : Int) : Inv .empty (init clock) where
  refines := .init clock
  ledger := fun _ _ hGet => nomatch hGet
  colonFree := fun _ hMem => nomatch hMem
  distinct := fun _ hMem => nomatch hMem
  lookups := fun _ _ hGet => nomatch hGet
  alone := fun _ _ _ _ hGet => nomatch hGet
  spent := fun _ hMem => nomatch hMem

theorem Inv.tick (h : Inv l w) {store : InMemoryTokenStore} {time : Int} (hTime : w.clock ≤ time)
    (hRefines : MemoryRefines time store l) : Inv l { w with store := store, clock := time } where
  refines := hRefines
  ledger := h.ledger
  colonFree := h.colonFree
  distinct := h.distinct
  lookups := h.lookups
  alone := h.alone
  spent := fun state hMem =>
    ⟨(h.spent state hMem).1, fun i hIssued hState hLive =>
      (h.spent state hMem).2 i hIssued hState (hLive.of_le hTime)⟩

theorem fits_stateTtl : stateTtlSeconds.natAbs < floatLimit := by decide +kernel

/-- A new state is stored next to the others. -/
theorem Inv.generate (h : Inv l w) {state provider codeChallenge : String}
    (hAction : e.action = .generate state provider codeChallenge) (hColon : ':' ∉ state.toList)
    (hNew : ∀ i ∈ w.issued, i.state ≠ state) :
    Inv (l.set (stateKey state provider) ⟨w.now e + micros stateTtlSeconds, none⟩)
      (w.step settings e) := by
  have hRefines := (h.refines.mono (clock_le_now (e := e))).add now_le_later
    (stateKey state provider) fits_stateTtl
  simp only [step, hAction, generateAuthorizeUrl]
  refine ⟨hRefines, ?_, ?_, ?_, ?_, h.alone, ?_⟩
  · intro key x hGet
    rw [Dict.get?_set] at hGet
    by_cases hKey : key = stateKey state provider
    · rw [if_pos hKey] at hGet
      obtain rfl := Option.some.inj hGet
      exact ⟨⟨state, provider, w.now e⟩, List.mem_cons_self, hKey.symm, rfl⟩
    · rw [if_neg hKey] at hGet
      obtain ⟨i, hMem, hi⟩ := h.ledger key x hGet
      exact ⟨i, List.mem_cons_of_mem _ hMem, hi⟩
  · intro i hMem
    rcases List.mem_cons.mp hMem with rfl | hMem
    · exact hColon
    · exact h.colonFree i hMem
  · intro i hi j hj hState
    rcases List.mem_cons.mp hi with rfl | hi <;> rcases List.mem_cons.mp hj with rfl | hj
    · rfl
    · exact absurd hState.symm (hNew j hj)
    · exact absurd hState (hNew i hi)
    · exact h.distinct i hi j hj hState
  · intro n c hGet
    obtain ⟨⟨i, hMem, hi⟩, hAccepted⟩ := h.lookups n c hGet
    exact ⟨⟨i, List.mem_cons_of_mem _ hMem, hi⟩, hAccepted⟩
  · intro state' hAccepted
    obtain ⟨⟨j, hj, rfl⟩, hDead⟩ := h.spent state' hAccepted
    refine ⟨⟨j, List.mem_cons_of_mem _ hj, rfl⟩, ?_⟩
    intro i hMem hState
    rcases List.mem_cons.mp hMem with rfl | hMem
    · exact absurd hState.symm (hNew j hj)
    · -- the new key is another one, so the ledger says the same of the old key
      have hOther : keyOf i ≠ stateKey state provider := by
        intro hKey
        exact hNew i hMem (stateKey_inj (h.colonFree i hMem) hColon hKey).1
      rintro ⟨x, hGet, hLe⟩
      rw [Dict.get?_set, if_neg hOther] at hGet
      exact hDead i hMem hState ⟨x, hGet, Int.le_trans clock_le_later hLe⟩

/-- A found key of a careful attempt is the one of a state handed out for the provider, that was not
accepted and that no other callback has looked up. -/
theorem Inv.found (h : Inv l w) {worker : Nat} {state provider : String}
    (hAction : e.action = .lookUp worker state provider) (hCareful : w.Careful e)
    (hLive : l.Live (w.now e) (stateKey state provider)) :
    w.Valid ⟨state, provider, w.now e⟩ ∧ state ∉ w.accepted ∧
      ∀ n c, w.lookups.get? n = some c → c.state ≠ state := by
  obtain ⟨x, hGet, hLe⟩ := hLive
  obtain ⟨i, hIssued, hKey, hDeadline⟩ := h.ledger _ x hGet
  have hStored : w.Stored (w.now e) i := by
    rw [h.stored_iff clock_le_now, hKey]
    exact ⟨x, hGet, hLe⟩
  simp only [Careful, hAction] at hCareful
  obtain ⟨hOwn, hProvider⟩ := hCareful i hIssued hStored
  obtain ⟨hHanded, hState, hFree⟩ := hOwn hKey
  refine ⟨⟨i, hIssued, hHanded, hState, hProvider hHanded hState, ?_⟩, ?_, ?_⟩
  · rw [← hDeadline]
    exact hLe
  · intro hAccepted
    refine (h.spent state hAccepted).2 i hIssued hState ?_
    rw [hKey]
    exact ⟨x, hGet, Int.le_trans clock_le_now hLe⟩
  · intro n c hLookup
    exact hFree (n, c) (Dict.get?_eq_some_iff.mp hLookup)

theorem Inv.register (h : Inv l w) (worker : Nat) {c : Lookup} (hValid : w.Valid c)
    (hNew : c.state ∉ w.accepted) (hFree : ∀ n d, w.lookups.get? n = some d → d.state ≠ c.state) :
    Inv l { w with lookups := w.lookups.set worker c } where
  refines := h.refines
  ledger := h.ledger
  colonFree := h.colonFree
  distinct := h.distinct
  lookups := by
    intro n d hGet
    rw [Dict.get?_set] at hGet
    by_cases hWorker : n = worker
    · rw [if_pos hWorker] at hGet
      obtain rfl := Option.some.inj hGet
      exact ⟨hValid, hNew⟩
    · rw [if_neg hWorker] at hGet
      exact h.lookups n d hGet
  alone := by
    intro n m d d' hGet hGet' hState
    rw [Dict.get?_set] at hGet hGet'
    by_cases hn : n = worker
    · by_cases hm : m = worker
      · exact hn.trans hm.symm
      · rw [if_pos hn] at hGet
        rw [if_neg hm] at hGet'
        obtain rfl := Option.some.inj hGet
        exact absurd hState.symm (hFree m d' hGet')
    · rw [if_neg hn] at hGet
      by_cases hm : m = worker
      · rw [if_pos hm] at hGet'
        obtain rfl := Option.some.inj hGet'
        exact absurd hState (hFree n d hGet)
      · rw [if_neg hm] at hGet'
        exact h.alone n m d d' hGet hGet' hState
  spent := h.spent

/-- A careful attempt keeps the invariant up to its lookup, and when it is refused, nothing is left
of the state that it names. -/
theorem Inv.lookUp (h : Inv l w) (settings : Settings) {worker : Nat} {state provider : String}
    (hAction : e.action = .lookUp worker state provider) (hCareful : w.Careful e) :
    Inv l (w.step settings e) ∧ w.OneShot settings e := by
  obtain ⟨hFound, hRefines, -⟩ :=
    (h.refines.mono (clock_le_now (e := e))).contains (stateKey state provider)
  have hTicked := h.tick clock_le_later (hRefines.mono now_le_later)
  have hIdle := h.tick clock_le_later (h.refines.mono (clock_le_later (e := e)))
  cases hWorker : w.lookups.get? worker with
  | some c => exact ⟨by simpa only [step, hAction, hWorker] using hIdle,
      by simp [OneShot, hAction, hWorker]⟩
  | none =>
      by_cases hIn : (w.store.contains (w.now e) (stateKey state provider)).1 = true
      · obtain ⟨hValid, hNew, hFree⟩ := h.found hAction hCareful (hFound.mp hIn)
        constructor
        · simpa only [step, hAction, hWorker, lookUpState, hIn, if_true] using
            hTicked.register worker hValid hNew hFree
        · simp [OneShot, hAction, lookUpState, hIn]
      · constructor
        · simpa only [step, hAction, hWorker, lookUpState, hIn, Bool.false_eq_true, if_false] using
            hTicked
        · -- a state that is handed out and stored is stored for this provider, so it was found
          have hGone : ∀ i ∈ w.issued, i.HandedOut → i.state = state →
              ¬l.Live (w.later e) (keyOf i) := by
            intro i hIssued hHanded hState hLive
            have hNow := hLive.of_le (now_le_later (w := w) (e := e))
            have hStored := (h.stored_iff (clock_le_now (e := e)) i).mpr hNow
            simp only [Careful, hAction] at hCareful
            have hProvider := (hCareful i hIssued hStored).2 hHanded hState
            rw [keyOf, hState, hProvider] at hNow
            exact hIn (hFound.mpr hNow)
          simp only [OneShot, hAction]
          intro _ _ i hIssued hHanded hState hStored
          simp only [step, hAction, hWorker, lookUpState] at hIssued hStored
          exact hGone i hIssued hHanded hState ((hTicked.stored_iff (Int.le_refl _) i).mp hStored)

/-- The end of a callback: its state is accepted, for the first time, and consumed. -/
theorem Inv.remove (h : Inv l w) {worker : Nat} (hAction : e.action = .remove worker) :
    (∃ l', Inv l' (w.step settings e)) ∧ w.OneShot settings e := by
  cases hWorker : w.lookups.get? worker with
  | none =>
      have hIdle := h.tick clock_le_later (h.refines.mono (clock_le_later (e := e)))
      exact ⟨⟨l, by simpa only [step, hAction, hWorker] using hIdle⟩,
        by simp [OneShot, hAction, hWorker]⟩
  | some c =>
      obtain ⟨hValid, hNew⟩ := h.lookups worker c hWorker
      have hRefines := (h.refines.mono (clock_le_later (e := e))).remove
        (stateKey c.state c.provider)
      -- the only issue of the state is the one whose key is removed
      have hDead : ∀ i ∈ w.issued, i.state = c.state →
          ¬Ledger.Live (l.erase (stateKey c.state c.provider)) (w.later e) (keyOf i) := by
        intro i hIssued hState
        obtain ⟨j, hj, -, hjState, hjProvider, -⟩ := hValid
        obtain rfl := h.distinct i hIssued j hj (hState.trans hjState.symm)
        rintro ⟨x, hGet, -⟩
        rw [keyOf, hjState, hjProvider, Dict.get?_erase, if_pos rfl] at hGet
        cases hGet
      have hInv : Inv (l.erase (stateKey c.state c.provider)) (w.step settings e) := by
        simp only [step, hAction, hWorker, removeState]
        refine ⟨hRefines, ?_, h.colonFree, h.distinct, ?_, ?_, ?_⟩
        · intro key x hGet
          rw [Dict.get?_erase] at hGet
          by_cases hKey : key = stateKey c.state c.provider
          · rw [if_pos hKey] at hGet
            cases hGet
          · rw [if_neg hKey] at hGet
            exact h.ledger key x hGet
        · intro n d hGet
          rw [Dict.get?_erase] at hGet
          by_cases hn : n = worker
          · rw [if_pos hn] at hGet
            cases hGet
          · rw [if_neg hn] at hGet
            obtain ⟨hd, hdNew⟩ := h.lookups n d hGet
            refine ⟨hd, ?_⟩
            rw [List.mem_cons, not_or]
            exact ⟨fun hState => hn (h.alone n worker d c hGet hWorker hState), hdNew⟩
        · intro n m d d' hGet hGet'
          rw [Dict.get?_erase] at hGet hGet'
          by_cases hn : n = worker
          · rw [if_pos hn] at hGet
            cases hGet
          · by_cases hm : m = worker
            · rw [if_pos hm] at hGet'
              cases hGet'
            · rw [if_neg hn] at hGet
              rw [if_neg hm] at hGet'
              exact h.alone n m d d' hGet hGet'
        · intro state hAccepted
          rcases List.mem_cons.mp hAccepted with rfl | hAccepted
          · obtain ⟨j, hj, -, hjState, -⟩ := hValid
            exact ⟨⟨j, hj, hjState⟩, hDead⟩
          · refine ⟨(h.spent state hAccepted).1, fun i hIssued hState => ?_⟩
            rintro ⟨x, hGet, hLe⟩
            rw [Dict.get?_erase] at hGet
            by_cases hKey : keyOf i = stateKey c.state c.provider
            · rw [if_pos hKey] at hGet
              cases hGet
            · rw [if_neg hKey] at hGet
              exact (h.spent state hAccepted).2 i hIssued hState
                ⟨x, hGet, Int.le_trans clock_le_later hLe⟩
      refine ⟨⟨_, hInv⟩, ?_⟩
      simp only [OneShot, hAction]
      intro c' hGet
      obtain rfl := Option.some.inj (hWorker.symm.trans hGet)
      refine ⟨hValid, hNew, fun i hIssued _ hState hStored => ?_⟩
      have hClock : (w.step settings e).clock = w.later e := by
        simp only [step, hAction, hWorker]
      have hIssued' : i ∈ w.issued := by simpa only [step, hAction, hWorker] using hIssued
      have hLive := (hInv.stored_iff (Int.le_refl _) i).mp hStored
      rw [hClock] at hLive
      exact hDead i hIssued' hState hLive

theorem careful_step (h : ∃ l, Inv l w) (hCareful : w.Careful e) :
    (∃ l, Inv l (w.step settings e)) ∧ w.OneShot settings e := by
  obtain ⟨l, h⟩ := h
  cases hAction : e.action with
  | generate state provider codeChallenge =>
      have hFresh := hCareful
      simp only [Careful, hAction] at hFresh
      exact ⟨⟨_, h.generate hAction hFresh.1 hFresh.2⟩, by simp [OneShot, hAction]⟩
  | lookUp worker state provider =>
      obtain ⟨hInv, hOneShot⟩ := h.lookUp settings hAction hCareful
      exact ⟨⟨l, hInv⟩, hOneShot⟩
  | remove worker => exact h.remove hAction

/-- In every run of careful actions each state is one-shot. -/
theorem one_shot (settings : Settings) (clock : Int) (es : List Event)
    (hCareful : EveryStep (step settings) Careful (init clock) es) :
    EveryStep (step settings) (OneShot settings) (init clock) es := by
  have hStep : ∀ (w : World) (e : Event), (∃ l, Inv l w) → w.Careful e →
      ∃ l, Inv l (w.step settings e) := fun _ _ h hHere => (careful_step h hHere).1
  exact everyStep_of_invariant hStep (fun _ _ h hHere => (careful_step h hHere).2)
    ⟨_, inv_init clock⟩ hCareful

/-- The settings of the runs below. -/
def demoSettings : Settings := ⟨"client", "app", "https://app/callback"⟩

/-- Two logins at once, a replayed callback, a guessed state, and one that comes too late. -/
def loginRun : List Event :=
  [⟨.generate "g7_k" "google" "c1", 0, 5⟩, ⟨.generate "f2-m" "facebook" "c2", 1000, 5⟩,
    ⟨.lookUp 0 "g7_k" "google", 5000000, 0⟩, ⟨.lookUp 1 "f2-m" "facebook", 100, 0⟩,
    ⟨.remove 1, 100, 0⟩, ⟨.remove 0, 100, 0⟩, ⟨.lookUp 0 "g7_k" "google", 1000, 0⟩,
    ⟨.lookUp 2 "guess" "google", 1000, 0⟩, ⟨.generate "g9_z" "google" "c3", 1000, 5⟩,
    ⟨.lookUp 0 "g9_z" "google", 700000000, 0⟩, ⟨.remove 0, 100, 0⟩]

theorem one_shot_loginRun :
    EveryStep (step demoSettings) (OneShot demoSettings) (init 1700000000000000) loginRun :=
  one_shot demoSettings 1700000000000000 loginRun (by decide +kernel)

/-- An attempt with the wrong provider is refused and leaves the state, which is then accepted. -/
theorem wrong_provider_keeps_state :
    ¬EveryStep (step demoSettings) (OneShot demoSettings) (init 1700000000000000)
      [⟨.generate "g7_k" "google" "c1", 0, 5⟩, ⟨.lookUp 0 "g7_k" "facebook", 1000, 0⟩,
        ⟨.lookUp 0 "g7_k" "google", 1000, 0⟩, ⟨.remove 0, 100, 0⟩] := by
  decide +kernel

/-- Two callbacks that look a state up before either removes it are both accepted. -/
example :
    (runFrom (step demoSettings) (init 1700000000000000)
      [⟨.generate "g7_k" "google" "c1", 0, 5⟩, ⟨.lookUp 0 "g7_k" "google", 1000, 0⟩,
        ⟨.lookUp 1 "g7_k" "google", 10, 0⟩, ⟨.remove 0, 10, 0⟩, ⟨.remove 1, 10, 0⟩]).accepted =
      ["g7_k", "g7_k"] := by
  decide +kernel

end World

end AsetPlatform.Auth.OAuthState

import AsetPlatform.Library.Dict

/-!
# The token store

The in-memory backend of the deny-list and of the session keys: one dictionary of expiry times and
one of JSON values, cleaned lazily. Every operation takes the clock reading that it makes, in
microseconds.

Cleaning is invisible: what matters of a store is which keys are `live` at a time and their
`value`, and `SameFrom` says that two stores agree on that from a time on.
-/

set_option autoImplicit false

namespace AsetPlatform.Auth

open AsetPlatform.Library

/-- The microseconds of a second; times are in microseconds since the epoch. -/
def microseconds : Nat := 1000000

/-- The JSON object of a session key. -/
structure SessionMeta where
  sessionId : String
  userId : String
  ipAddress : String
  userAgent : String
  createdAt : Nat
  lastActivityAt : Nat
  deriving DecidableEq, Repr

/-- `InMemoryTokenStore` -/
structure TokenStore where
  store : Dict String Nat
  values : Dict String SessionMeta

namespace TokenStore

def empty : TokenStore := ⟨.empty, .empty⟩

variable (s : TokenStore) (now : Nat)

/-- `_prune` -/
def prune : TokenStore where
  store := s.store.filter fun _ expires => decide (now ≤ expires)
  values := s.values.filter fun key _ => !(s.store.get? key).any (· < now)

/-- `add` -/
def add (key : String) (ttlSeconds : Nat) : TokenStore :=
  prune { s with store := s.store.set key (now + ttlSeconds * microseconds) } now

/-- `remove` -/
def remove (key : String) : TokenStore := ⟨s.store.erase key, s.values.erase key⟩

/-- `contains`: an entry that has expired is deleted on the way. -/
def contains (key : String) : Bool × TokenStore :=
  match s.store.get? key with
  | none => (false, s)
  | some expires =>
      if expires < now then (false, s.remove key) else (true, s)

/-- `add_json` -/
def addJson (key : String) (value : SessionMeta) (ttlSeconds : Nat) : TokenStore :=
  prune ⟨s.store.set key (now + ttlSeconds * microseconds), s.values.set key value⟩ now

/-- `get_json` -/
def getJson (key : String) : Option SessionMeta × TokenStore :=
  match s.contains now key with
  | (false, s) => (none, s)
  | (true, s) => (s.values.get? key, s)

/-- `keys_by_prefix` -/
def keysByPrefix (keyPrefix : String) : List String × TokenStore :=
  let s := s.prune now
  (s.store.keys.filter fun key => keyPrefix.toList.isPrefixOf key.toList, s)

/-! ## Live keys and their values -/

/-- The key is stored and has not expired at a time. -/
def live (time : Nat) (key : String) : Bool := (s.store.get? key).any (time ≤ ·)

def value (time : Nat) (key : String) : Option SessionMeta :=
  if s.live time key then s.values.get? key else none

/-- Two stores have the same live keys with the same values from a time on. -/
structure SameFrom (now : Nat) (s s' : TokenStore) : Prop where
  live_eq : ∀ time, now ≤ time → ∀ key, s'.live time key = s.live time key
  value_eq : ∀ time, now ≤ time → ∀ key, s'.value time key = s.value time key

variable {s now}

theorem SameFrom.refl : SameFrom now s s := ⟨fun _ _ _ => rfl, fun _ _ _ => rfl⟩

theorem live_iff {time : Nat} {key : String} :
    s.live time key = true ↔ ∃ expires, s.store.get? key = some expires ∧ time ≤ expires := by
  unfold live
  cases s.store.get? key <;> simp

theorem live_of_le {time time' : Nat} {key : String} (h : s.live time key = true)
    (hTime : time' ≤ time) : s.live time' key = true := by
  obtain ⟨expires, hGet, hLe⟩ := live_iff.mp h
  exact live_iff.mpr ⟨expires, hGet, Nat.le_trans hTime hLe⟩

theorem live_prune {time : Nat} (hTime : now ≤ time) (key : String) :
    (s.prune now).live time key = s.live time key := by
  unfold live prune
  simp only [Dict.get?_filter]
  cases s.store.get? key with
  | none => rfl
  | some expires =>
      by_cases h : now ≤ expires
      · simp [Option.filter, h]
      · have hDead : ¬time ≤ expires := fun hLive => h (Nat.le_trans hTime hLive)
        simp [Option.filter, h, hDead]

theorem sameFrom_prune : SameFrom now s (s.prune now) where
  live_eq := fun _ hTime key => live_prune hTime key
  value_eq := by
    intro time hTime key
    unfold value
    rw [live_prune hTime]
    by_cases hLive : s.live time key = true
    · obtain ⟨expires, hGet, hLe⟩ := live_iff.mp hLive
      have hKept : ¬expires < now := Nat.not_lt.mpr (Nat.le_trans hTime hLe)
      cases hValue : s.values.get? key <;>
        simp [hLive, prune, Dict.get?_filter, hGet, hKept, hValue, Option.filter]
    · simp [hLive]

theorem live_remove (key key' : String) (time : Nat) :
    (s.remove key).live time key' = (decide (key' ≠ key) && s.live time key') := by
  unfold live remove
  by_cases h : key' = key <;> simp [h]

theorem value_remove_of_ne {key key' : String} (h : key' ≠ key) (time : Nat) :
    (s.remove key).value time key' = s.value time key' := by
  unfold value
  rw [live_remove]
  simp [h, remove]

theorem contains_spec (s : TokenStore) (now : Nat) (key : String) :
    (s.contains now key).1 = s.live now key ∧ SameFrom now s (s.contains now key).2 := by
  unfold contains
  cases hGet : s.store.get? key with
  | none => exact ⟨by simp [live, hGet], .refl⟩
  -- an expired key is dead from now on, so deleting it cannot be seen
  | some expires =>
      by_cases hExpired : expires < now
      · have hDead : ∀ time, now ≤ time → s.live time key = false := by
          intro time hTime
          have hGone : ¬time ≤ expires := Nat.not_le.mpr (Nat.lt_of_lt_of_le hExpired hTime)
          simp [live, hGet, hGone]
        simp only [hExpired, if_true]
        refine ⟨(hDead now (Nat.le_refl _)).symm, ⟨?_, ?_⟩⟩
        · intro time hTime key'
          rw [live_remove]
          by_cases h : key' = key
          · simp [h, hDead time hTime]
          · simp [h]
        · intro time hTime key'
          by_cases h : key' = key
          · subst h
            unfold value
            rw [live_remove, hDead time hTime]
            simp
          · exact value_remove_of_ne h time
      · have hAlive : now ≤ expires := Nat.not_lt.mp hExpired
        simp only [hExpired, if_false]
        exact ⟨by simp [live, hGet, hAlive], .refl⟩

theorem getJson_spec (s : TokenStore) (now : Nat) (key : String) :
    (s.getJson now key).1 = s.value now key ∧ SameFrom now s (s.getJson now key).2 := by
  obtain ⟨hLive, hSame⟩ := contains_spec s now key
  unfold getJson
  rcases hContains : s.contains now key with ⟨found, s'⟩
  rw [hContains] at hLive hSame
  cases found with
  | false => exact ⟨by simp [value, ← hLive], hSame⟩
  | true =>
      refine ⟨?_, hSame⟩
      have hValue := hSame.value_eq now (Nat.le_refl _) key
      unfold value at hValue ⊢
      rw [hSame.live_eq now (Nat.le_refl _) key] at hValue
      simpa [← hLive] using hValue

theorem live_add (key : String) (ttl : Nat) {time : Nat} (hTime : now ≤ time) (key' : String) :
    (s.add now key ttl).live time key' =
      if key' = key then decide (time ≤ now + ttl * microseconds) else s.live time key' := by
  unfold add
  rw [live_prune hTime]
  unfold live
  by_cases h : key' = key <;> simp [h]

theorem value_add_self (key : String) (ttl : Nat) :
    (s.add now key ttl).value now key = s.values.get? key := by
  unfold add
  rw [sameFrom_prune.value_eq now (Nat.le_refl _)]
  unfold value live
  simp

theorem value_add_of_ne {key key' : String} (h : key' ≠ key) (ttl : Nat) {time : Nat}
    (hTime : now ≤ time) : (s.add now key ttl).value time key' = s.value time key' := by
  unfold add
  rw [sameFrom_prune.value_eq time hTime]
  unfold value live
  simp [h]

theorem live_addJson (key : String) (session : SessionMeta) (ttl : Nat) {time : Nat}
    (hTime : now ≤ time) (key' : String) :
    (s.addJson now key session ttl).live time key' =
      if key' = key then decide (time ≤ now + ttl * microseconds) else s.live time key' := by
  unfold addJson
  rw [live_prune hTime]
  unfold live
  by_cases h : key' = key <;> simp [h]

/-- From its time on, an added JSON key has its value for its time to live. -/
theorem value_addJson (key : String) (session : SessionMeta) (ttl : Nat) {time : Nat}
    (hTime : now ≤ time) (key' : String) :
    (s.addJson now key session ttl).value time key' =
      if key' = key then (if time ≤ now + ttl * microseconds then some session else none)
      else s.value time key' := by
  unfold addJson
  rw [sameFrom_prune.value_eq time hTime]
  unfold value live
  by_cases h : key' = key <;> simp [h]

/-- `keys_by_prefix` lists the live keys with the prefix, each once. -/
theorem keysByPrefix_spec (s : TokenStore) (now : Nat) (keyPrefix : String) :
    (∀ key, key ∈ (s.keysByPrefix now keyPrefix).1 ↔
      s.live now key = true ∧ keyPrefix.toList <+: key.toList) ∧
      (s.keysByPrefix now keyPrefix).1.Nodup ∧ SameFrom now s (s.keysByPrefix now keyPrefix).2 := by
  refine ⟨?_, ?_, sameFrom_prune⟩
  · intro key
    have hLive : (∃ x, (s.prune now).store.get? key = some x) ↔ s.live now key = true := by
      rw [← live_prune (Nat.le_refl _), live_iff]
      constructor
      · rintro ⟨expires, hGet⟩
        refine ⟨expires, hGet, ?_⟩
        simp only [prune, Dict.get?_filter, Option.filter_eq_some_iff, decide_eq_true_eq] at hGet
        exact hGet.2
      · rintro ⟨expires, hGet, -⟩
        exact ⟨expires, hGet⟩
    simp only [keysByPrefix, List.mem_filter, Dict.mem_keys_iff, hLive, List.isPrefixOf_iff_prefix]
  · exact (s.prune now).store.nodup.filter _

end TokenStore

end AsetPlatform.Auth

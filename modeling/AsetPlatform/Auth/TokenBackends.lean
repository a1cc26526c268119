import AsetPlatform.Library.Dict
import AsetPlatform.Library.Run
import AsetPlatform.Library.Text
import Mathlib.Algebra.Group.Int.Defs

/-!
# The two token-store backends

`InMemoryTokenStore` and `RedisTokenStore` behind one interface. The in-memory store keeps a
dictionary of expiry times and one of values; the Redis store keeps its entries on a server, whose
documented behaviour is `RedisServer`: which times to live `SETEX` takes, how long an entry is kept
(the end of its time to live is off by at most one millisecond), and what a glob pattern matches.
Times are whole microseconds.

What both are meant to be is a `Ledger`: the last write of every key, with the end of its time to
live. The in-memory store refines it exactly in what it holds (`MemoryRefines`), the Redis store up
to the millisecond after the end (`RedisRefines`). Calls that are `Careful` keep both refinements
and get the same results from both (`backends_agree`).
-/

set_option autoImplicit false

namespace AsetPlatform.Auth.TokenBackends

open AsetPlatform.Library

/-- The calls of the `TokenStore` protocol. -/
inductive Call where
  | add (key : String) (ttlSeconds : Int)
  | contains (key : String)
  | remove (key : String)
  | addJson (key value : String) (ttlSeconds : Int)
  | getJson (key : String)
  | keysByPrefix (keyPrefix : String)

/-- What a call returns, or the `OverflowError` of an expiry time that no float can hold. -/
inductive Outcome where
  | done
  | found (present : Bool)
  | value (text : Option String)
  | keys (ks : List String)
  | overflowError
  deriving DecidableEq

/-- Equal results; lists of keys are compared as sets. -/
def Outcome.Same : Outcome → Outcome → Prop
  | .keys ks, .keys ks' => ∀ key, key ∈ ks ↔ key ∈ ks'
  | a, b => a = b

instance : DecidableRel Outcome.Same
  | .keys ks, .keys ks' =>
      decidable_of_iff (ks ⊆ ks' ∧ ks' ⊆ ks)
        ⟨fun h key => ⟨@h.1 key, @h.2 key⟩,
          fun h => ⟨fun key => (h key).mp, fun key => (h key).mpr⟩⟩
  | .done, b => inferInstanceAs (Decidable (Outcome.done = b))
  | .found p, b => inferInstanceAs (Decidable (Outcome.found p = b))
  | .value t, b => inferInstanceAs (Decidable (Outcome.value t = b))
  | .overflowError, b => inferInstanceAs (Decidable (Outcome.overflowError = b))
  | .keys _, .done => isFalse nofun
  | .keys _, .found _ => isFalse nofun
  | .keys _, .value _ => isFalse nofun
  | .keys _, .overflowError => isFalse nofun

/-- The microseconds of a time to live. -/
def micros (seconds : Int) : Int := seconds * 1000000

/-- The integers from here on round beyond the largest float. -/
@[irreducible]
def floatLimit : Nat := Nat.pow 2 1024 - Nat.pow 2 970

/-- `time.time() + ttl_seconds`: an integer that no float can hold is refused. -/
def expiry (now ttlSeconds : Int) : Option Int :=
  if ttlSeconds.natAbs < floatLimit then some (now + micros ttlSeconds) else none

theorem expiry_eq {now ttl : Int} (h : ttl.natAbs < floatLimit) :
    expiry now ttl = some (now + micros ttl) := if_pos h

/-! ## The intended store -/

/-- The last write of a key: when its time to live ends, and the value unless it was an `add`. -/
structure Write where
  deadline : Int
  value : Option String

/-- The last write of every key that was not removed since. -/
abbrev Ledger := Dict String Write

namespace Ledger

/-- What a call writes. -/
def record (l : Ledger) (now : Int) : Call → Ledger
  | .add key ttl => l.set key ⟨now + micros ttl, none⟩
  | .addJson key value ttl => l.set key ⟨now + micros ttl, some value⟩
  | .remove key => l.erase key
  | _ => l

variable (l : Ledger) (now : Int)

/-- The key was written and its time to live is not over. -/
def Live (key : String) : Prop := ∃ w, l.get? key = some w ∧ now ≤ w.deadline

variable {l now} in
theorem Live.of_le {time : Int} {key : String} (h : l.Live time key) (hTime : now ≤ time) :
    l.Live now key := by
  obtain ⟨w, hGet, hLe⟩ := h
  exact ⟨w, hGet, Int.le_trans hTime hLe⟩

/-- The time is in the millisecond that starts at the end of the time to live. -/
def Ending (w : Write) : Prop := w.deadline ≤ now ∧ now < w.deadline + 1000

instance (w : Write) : Decidable (Ending now w) := inferInstanceAs (Decidable (_ ∧ _))

/-- The key was not written, or its time to live ended a millisecond ago. -/
def Gone (key : String) : Prop := ∀ w ∈ l.get? key, w.deadline + 1000 ≤ now

instance (key : String) : Decidable (l.Gone now key) :=
  inferInstanceAs (Decidable (∀ w ∈ l.get? key, w.deadline + 1000 ≤ now))

/-- The key was not written, or its time to live is not just ending. -/
def Settled (key : String) : Prop := ∀ w ∈ l.get? key, ¬Ending now w

instance (key : String) : Decidable (l.Settled now key) :=
  inferInstanceAs (Decidable (∀ w ∈ l.get? key, ¬Ending now w))

end Ledger

/-! ## The in-memory store -/

/-- `InMemoryTokenStore` -/
structure InMemoryTokenStore where
  store : Dict String Int
  values : Dict String String

namespace InMemoryTokenStore

def empty : InMemoryTokenStore := ⟨.empty, .empty⟩

variable (s : InMemoryTokenStore) (now : Int)

/-- `_prune` -/
def prune : InMemoryTokenStore where
  store := s.store.filter fun _ expires => decide (now ≤ expires)
  values := s.values.filter fun key _ => !(s.store.get? key).any (· < now)

/-- `add`: it reads the clock once for the expiry and once more to prune. -/
def add (pruning : Int) (key : String) (ttlSeconds : Int) : Outcome × InMemoryTokenStore :=
  match expiry now ttlSeconds with
  | none => (.overflowError, s)
  | some expires => (.done, prune { s with store := s.store.set key expires } pruning)

/-- `remove` -/
def remove (key : String) : InMemoryTokenStore := ⟨s.store.erase key, s.values.erase key⟩

/-- `contains`: an entry that has expired is deleted on the way. -/
def contains (key : String) : Bool × InMemoryTokenStore :=
  match s.store.get? key with
  | none => (false, s)
  | some expires => if expires < now then (false, s.remove key) else (true, s)

/-- `add_json` -/
def addJson (pruning : Int) (key value : String) (ttlSeconds : Int) :
    Outcome × InMemoryTokenStore :=
  match expiry now ttlSeconds with
  | none => (.overflowError, s)
  | some expires => (.done, prune ⟨s.store.set key expires, s.values.set key value⟩ pruning)

/-- `get_json` -/
def getJson (key : String) : Option String × InMemoryTokenStore :=
  match s.contains now key with
  | (false, s) => (none, s)
  | (true, s) => (s.values.get? key, s)

/-- `keys_by_prefix` -/
def keysByPrefix (keyPrefix : String) : List String × InMemoryTokenStore :=
  let s := s.prune now
  (s.store.keys.filter fun key => keyPrefix.toList.isPrefixOf key.toList, s)

/-- A call that starts at `now` and prunes, where it does so after a write, at `pruning`. -/
def perform (pruning : Int) : Call → Outcome × InMemoryTokenStore
  | .add key ttl => s.add now pruning key ttl
  | .contains key => (.found (s.contains now key).1, (s.contains now key).2)
  | .remove key => (.done, s.remove key)
  | .addJson key value ttl => s.addJson now pruning key value ttl
  | .getJson key => (.value (s.getJson now key).1, (s.getJson now key).2)
  | .keysByPrefix keyPrefix =>
      (.keys (s.keysByPrefix now keyPrefix).1, (s.keysByPrefix now keyPrefix).2)

end InMemoryTokenStore

/-! ## The Redis store -/

/-- The characters with a meaning in a glob pattern. -/
def globSpecial : List Char := ['*', '?', '[', '\\']

/-- The documented behaviour of a Redis server. -/
structure RedisServer where
  /-- The expire time of `SETEX` is valid at this time. -/
  accepts : Int → Int → Bool
  /-- An entry set at a time for so many seconds is there at a later time. -/
  keeps : Int → Int → Int → Bool
  /-- `KEYS` lists the key for the pattern. -/
  globMatches : List Char → List Char → Bool
  positive : ∀ {now seconds}, accepts now seconds = true → 0 < seconds
  kept : ∀ {setAt seconds now}, now < setAt + micros seconds → keeps setAt seconds now = true
  expired : ∀ {setAt seconds now}, setAt + micros seconds + 1000 ≤ now →
    keeps setAt seconds now = false
  literal : ∀ {p k : List Char}, (∀ c ∈ p, c ∉ globSpecial) →
    (globMatches (p ++ ['*']) k = true ↔ p <+: k)

/-- An entry of the server, set by `SETEX`. -/
structure Entry where
  value : String
  setAt : Int
  seconds : Int

/-- `RedisTokenStore`, with the entries that the server holds for it. -/
structure RedisTokenStore where
  server : RedisServer
  keyPrefix : String
  entries : Dict String Entry

namespace RedisTokenStore

variable (s : RedisTokenStore) (now : Int)

/-- The entry of a key that the server still keeps. -/
def entry? (fullKey : String) : Option Entry :=
  (s.entries.get? fullKey).filter fun e => s.server.keeps e.setAt e.seconds now

/-- `SETEX`, with the `RedisError` of a refused expire time caught and logged. -/
def setex (key : String) (ttlSeconds : Int) (value : String) : RedisTokenStore :=
  if s.server.accepts now ttlSeconds then
    { s with entries := s.entries.set (s.keyPrefix ++ key) ⟨value, now, ttlSeconds⟩ }
  else s

/-- `add` -/
def add (key : String) (ttlSeconds : Int) : RedisTokenStore := s.setex now key ttlSeconds "1"

/-- `contains` -/
def contains (key : String) : Bool := (s.entry? now (s.keyPrefix ++ key)).isSome

/-- `remove` -/
def remove (key : String) : RedisTokenStore :=
  { s with entries := s.entries.erase (s.keyPrefix ++ key) }

/-- `add_json` -/
def addJson (key value : String) (ttlSeconds : Int) : RedisTokenStore :=
  s.setex now key ttlSeconds value

/-- `get_json` -/
def getJson (key : String) : Option String :=
  (s.entry? now (s.keyPrefix ++ key)).map Entry.value

/-- `keys_by_prefix`: the listed keys without as many characters as the namespace has. -/
def keysByPrefix (keyPrefix : String) : List String :=
  let full := s.keyPrefix ++ keyPrefix
  let raw := s.entries.keys.filter fun k =>
    (s.entry? now k).isSome && s.server.globMatches (full.toList ++ ['*']) k.toList
  raw.map fun k => String.ofList (k.toList.drop s.keyPrefix.toList.length)

def perform : Call → Outcome × RedisTokenStore
  | .add key ttl => (.done, s.add now key ttl)
  | .contains key => (.found (s.contains now key), s)
  | .remove key => (.done, s.remove key)
  | .addJson key value ttl => (.done, s.addJson now key value ttl)
  | .getJson key => (.value (s.getJson now key), s)
  | .keysByPrefix keyPrefix => (.keys (s.keysByPrefix now keyPrefix), s)

end RedisTokenStore

/-! ## The in-memory store refines the ledger -/

/-- The in-memory store holds just the last writes of its keys, and none that is still live is
missing. -/
structure MemoryRefines (now : Int) (s : InMemoryTokenStore) (l : Ledger) : Prop where
  stored : ∀ key expires, s.store.get? key = some expires →
    ∃ w, l.get? key = some w ∧ w.deadline = expires
  kept : ∀ key w, l.get? key = some w → now ≤ w.deadline → s.store.get? key = some w.deadline
  value : ∀ key w text, l.get? key = some w → now ≤ w.deadline → w.value = some text →
    s.values.get? key = some text

namespace MemoryRefines

variable {now later : Int} {s : InMemoryTokenStore} {l : Ledger}

theorem init (now : Int) : MemoryRefines now .empty .empty where
  stored := fun _ _ h => nomatch h
  kept := fun _ _ h => nomatch h
  value := fun _ _ _ h => nomatch h

theorem mono (h : MemoryRefines now s l) (hLater : now ≤ later) : MemoryRefines later s l where
  stored := h.stored
  kept := fun key w hGet hLive => h.kept key w hGet (Int.le_trans hLater hLive)
  value := fun key w text hGet hLive => h.value key w text hGet (Int.le_trans hLater hLive)

theorem live_iff (h : MemoryRefines now s l) (key : String) :
    (∃ expires, s.store.get? key = some expires ∧ now ≤ expires) ↔ l.Live now key := by
  constructor
  · rintro ⟨expires, hGet, hLive⟩
    obtain ⟨w, hWrite, rfl⟩ := h.stored key expires hGet
    exact ⟨w, hWrite, hLive⟩
  · rintro ⟨w, hWrite, hLive⟩
    exact ⟨w.deadline, h.kept key w hWrite hLive, hLive⟩

/-- Pruning drops only what is over. -/
theorem prune (h : MemoryRefines now s l) (hLater : now ≤ later) :
    MemoryRefines later (s.prune later) l where
  stored := by
    intro key expires hGet
    simp only [InMemoryTokenStore.prune, Dict.get?_filter, Option.filter_eq_some_iff] at hGet
    exact h.stored key expires hGet.1
  kept := by
    intro key w hGet hLive
    simp [InMemoryTokenStore.prune, Dict.get?_filter,
      h.kept key w hGet (Int.le_trans hLater hLive), Option.filter, hLive]
  value := by
    intro key w text hGet hLive hText
    have hNow : now ≤ w.deadline := Int.le_trans hLater hLive
    simp [InMemoryTokenStore.prune, Dict.get?_filter, h.kept key w hGet hNow,
      h.value key w text hGet hNow hText, Option.filter, Int.not_lt.mpr hLive]

/-- A write of a key: the other values stay, and a value that is given is stored. -/
theorem write (h : MemoryRefines now s l) (key : String) (expires : Int) (value : Option String)
    (values : Dict String String) (hOther : ∀ key', key' ≠ key → values.get? key' = s.values.get? key')
    (hValue : ∀ text, value = some text → values.get? key = some text) :
    MemoryRefines now ⟨s.store.set key expires, values⟩ (l.set key ⟨expires, value⟩) where
  stored := by
    intro key' expires' hGet
    rw [Dict.get?_set] at hGet ⊢
    by_cases hKey : key' = key
    · rw [if_pos hKey] at hGet ⊢
      exact ⟨_, rfl, Option.some.inj hGet⟩
    · rw [if_neg hKey] at hGet ⊢
      exact h.stored key' expires' hGet
  kept := by
    intro key' w hGet hLive
    rw [Dict.get?_set] at hGet ⊢
    by_cases hKey : key' = key
    · rw [if_pos hKey] at hGet ⊢
      rw [← Option.some.inj hGet]
    · rw [if_neg hKey] at hGet ⊢
      exact h.kept key' w hGet hLive
  value := by
    intro key' w text hGet hLive hText
    rw [Dict.get?_set] at hGet
    by_cases hKey : key' = key
    · rw [if_pos hKey] at hGet
      rw [← Option.some.inj hGet] at hText
      exact hKey ▸ hValue text hText
    · rw [if_neg hKey] at hGet
      rw [hOther key' hKey]
      exact h.value key' w text hGet hLive hText

theorem add (h : MemoryRefines now s l) (hLater : now ≤ later) (key : String) {ttl : Int}
    (hFloat : ttl.natAbs < floatLimit) :
    MemoryRefines later (s.add now later key ttl).2 (l.set key ⟨now + micros ttl, none⟩) := by
  have hWrite := h.write key (now + micros ttl) none s.values (fun _ _ => rfl)
    (fun _ hNone => nomatch hNone)
  simpa only [InMemoryTokenStore.add, expiry_eq hFloat] using hWrite.prune hLater

theorem addJson (h : MemoryRefines now s l) (hLater : now ≤ later) (key value : String) {ttl : Int}
    (hFloat : ttl.natAbs < floatLimit) :
    MemoryRefines later (s.addJson now later key value ttl).2
      (l.set key ⟨now + micros ttl, some value⟩) := by
  have hWrite := h.write key (now + micros ttl) (some value) (s.values.set key value)
    (fun key' hKey => by rw [Dict.get?_set, if_neg hKey])
    (fun text hText => by rw [Dict.get?_set, if_pos rfl, hText])
  simpa only [InMemoryTokenStore.addJson, expiry_eq hFloat] using hWrite.prune hLater

theorem delete (h : MemoryRefines now s l) {l' : Ledger} {key : String}
    (hOther : ∀ key', key' ≠ key → l'.get? key' = l.get? key') (hDead : ¬l'.Live now key) :
    MemoryRefines now (s.remove key) l' where
  stored := by
    intro key' expires hGet
    simp only [InMemoryTokenStore.remove, Dict.get?_erase] at hGet
    by_cases hKey : key' = key
    · rw [if_pos hKey] at hGet
      exact nomatch hGet
    · rw [if_neg hKey] at hGet
      rw [hOther key' hKey]
      exact h.stored key' expires hGet
  kept := by
    intro key' w hGet hLive
    have hKey : key' ≠ key := fun hKey => hDead (hKey ▸ ⟨w, hGet, hLive⟩)
    simp only [InMemoryTokenStore.remove, Dict.get?_erase, if_neg hKey]
    exact h.kept key' w ((hOther key' hKey).symm.trans hGet) hLive
  value := by
    intro key' w text hGet hLive hText
    have hKey : key' ≠ key := fun hKey => hDead (hKey ▸ ⟨w, hGet, hLive⟩)
    simp only [InMemoryTokenStore.remove, Dict.get?_erase, if_neg hKey]
    exact h.value key' w text ((hOther key' hKey).symm.trans hGet) hLive hText

theorem remove (h : MemoryRefines now s l) (key : String) :
    MemoryRefines now (s.remove key) (l.erase key) := by
  refine h.delete (fun key' hKey => by rw [Dict.get?_erase, if_neg hKey]) ?_
  rintro ⟨w, hGet, -⟩
  rw [Dict.get?_erase, if_pos rfl] at hGet
  exact nomatch hGet

/-- `contains` answers whether the key is live, and what it deletes is not. -/
theorem contains (h : MemoryRefines now s l) (key : String) :
    ((s.contains now key).1 = true ↔ l.Live now key) ∧
      MemoryRefines now (s.contains now key).2 l ∧
      ((s.contains now key).1 = true → (s.contains now key).2 = s) := by
  have hIff := h.live_iff key
  unfold InMemoryTokenStore.contains
  cases hGet : s.store.get? key with
  | none => simpa [hGet, h] using hIff
  | some expires =>
      by_cases hOver : expires < now
      · have hDead : ¬l.Live now key := by
          rw [← hIff, hGet]
          rintro ⟨expires', hSame, hLive⟩
          have := Option.some.inj hSame
          omega
        simp [hOver, hDead, h.delete (fun _ _ => rfl) hDead]
      · have hLive : l.Live now key := hIff.mp ⟨expires, hGet, Int.not_lt.mp hOver⟩
        simp [hOver, hLive, h]

theorem getJson (h : MemoryRefines now s l) (key : String) :
    (l.Live now key → (s.getJson now key).1 = s.values.get? key) ∧
      (¬l.Live now key → (s.getJson now key).1 = none) ∧
      MemoryRefines now (s.getJson now key).2 l := by
  obtain ⟨hFound, hRefines, hSame⟩ := h.contains key
  unfold InMemoryTokenStore.getJson
  rcases hContains : s.contains now key with ⟨found, s'⟩
  rw [hContains] at hFound hRefines hSame
  cases found with
  | false => exact ⟨fun hLive => absurd (hFound.mpr hLive) (by simp), fun _ => rfl, hRefines⟩
  | true =>
      have hUnchanged : s' = s := hSame rfl
      exact ⟨fun _ => by rw [hUnchanged], fun hDead => absurd (hFound.mp rfl) hDead, hRefines⟩

theorem keysByPrefix (h : MemoryRefines now s l) (keyPrefix : String) :
    (∀ key, key ∈ (s.keysByPrefix now keyPrefix).1 ↔
      keyPrefix.toList <+: key.toList ∧ l.Live now key) ∧
      MemoryRefines now (s.keysByPrefix now keyPrefix).2 l := by
  have hPruned := h.prune (Int.le_refl now)
  refine ⟨fun key => ?_, hPruned⟩
  have hStored : (∃ expires, (s.prune now).store.get? key = some expires) ↔ l.Live now key := by
    rw [← hPruned.live_iff key]
    constructor
    · rintro ⟨expires, hGet⟩
      refine ⟨expires, hGet, ?_⟩
      simp only [InMemoryTokenStore.prune, Dict.get?_filter, Option.filter_eq_some_iff,
        decide_eq_true_eq] at hGet
      exact hGet.2
    · rintro ⟨expires, hGet, -⟩
      exact ⟨expires, hGet⟩
  simp only [InMemoryTokenStore.keysByPrefix, List.mem_filter, Dict.mem_keys_iff, hStored,
    List.isPrefixOf_iff_prefix]
  exact and_comm

end MemoryRefines

/-! ## The Redis store refines the ledger -/

/-- The server has the value of every key until its time to live is over, and nothing of it from a
millisecond after that on. -/
structure RedisRefines (now : Int) (s : RedisTokenStore) (l : Ledger) : Prop where
  kept : ∀ key w t, l.get? key = some w → now ≤ t → t < w.deadline →
    s.getJson t key = some (w.value.getD "1")
  gone : ∀ key t, now ≤ t → l.Gone t key → s.getJson t key = none

namespace RedisRefines

variable {now later : Int} {s : RedisTokenStore} {l : Ledger}

theorem init (server : RedisServer) (keyPrefix : String) (now : Int) :
    RedisRefines now ⟨server, keyPrefix, .empty⟩ .empty where
  kept := fun _ _ _ h => nomatch h
  gone := fun _ _ _ _ => rfl

theorem mono (h : RedisRefines now s l) (hLater : now ≤ later) : RedisRefines later s l where
  kept := fun key w t hGet hTime => h.kept key w t hGet (Int.le_trans hLater hTime)
  gone := fun key t hTime => h.gone key t (Int.le_trans hLater hTime)

theorem read (h : RedisRefines now s l) {key : String} (hSettled : l.Settled now key) :
    (∀ w, l.get? key = some w → now ≤ w.deadline → s.getJson now key = some (w.value.getD "1")) ∧
      (¬l.Live now key → s.getJson now key = none) := by
  constructor
  · intro w hGet hLive
    have hNotEnding : ¬Ledger.Ending now w := hSettled w hGet
    exact h.kept key w now hGet (Int.le_refl now) (by unfold Ledger.Ending at hNotEnding; omega)
  · intro hDead
    refine h.gone key now (Int.le_refl now) fun w hGet => ?_
    have hNotEnding : ¬Ledger.Ending now w := hSettled w hGet
    have hOver : ¬now ≤ w.deadline := fun hLive => hDead ⟨w, hGet, hLive⟩
    unfold Ledger.Ending at hNotEnding
    omega

theorem contains_eq_isSome (key : String) : s.contains now key = (s.getJson now key).isSome := by
  unfold RedisTokenStore.contains RedisTokenStore.getJson
  rw [Option.isSome_map]

theorem contains (h : RedisRefines now s l) {key : String} (hSettled : l.Settled now key) :
    s.contains now key = true ↔ l.Live now key := by
  obtain ⟨hLive, hDead⟩ := h.read hSettled
  rw [contains_eq_isSome]
  constructor
  · intro hSome
    by_contra hNot
    rw [hDead hNot] at hSome
    exact nomatch hSome
  · rintro ⟨w, hGet, hLe⟩
    rw [hLive w hGet hLe]
    rfl

theorem getJson_setex_of_ne {key key' : String} (hKey : key' ≠ key) (ttl : Int) (value : String)
    (t : Int) : (s.setex now key ttl value).getJson t key' = s.getJson t key' := by
  unfold RedisTokenStore.setex
  by_cases hAccepts : s.server.accepts now ttl = true
  · rw [if_pos hAccepts]
    simp [RedisTokenStore.getJson, RedisTokenStore.entry?, hKey]
  · rw [if_neg hAccepts]

/-- A write that the server accepts, or that it refuses for a time to live that is over, of a key of
which nothing is left. -/
theorem write (h : RedisRefines now s l) {key : String} {ttl : Int} (value : Option String)
    (hWrite : s.server.accepts now ttl = true ∨ ttl ≤ 0 ∧ l.Gone now key) :
    RedisRefines now (s.setex now key ttl (value.getD "1"))
      (l.set key ⟨now + micros ttl, value⟩) where
  kept := by
    intro key' w t hGet hTime hLive
    rw [Dict.get?_set] at hGet
    by_cases hKey : key' = key
    · rw [if_pos hKey] at hGet
      obtain rfl := Option.some.inj hGet
      have hPositive : ¬ttl ≤ 0 := by
        intro hOver
        simp only [micros] at hLive
        omega
      have hAccepts := hWrite.resolve_right fun hRefused => hPositive hRefused.1
      have hKept := s.server.kept hLive
      subst hKey
      simp [RedisTokenStore.setex, hAccepts, RedisTokenStore.getJson, RedisTokenStore.entry?,
        Option.filter, hKept]
    · rw [if_neg hKey] at hGet
      rw [getJson_setex_of_ne hKey]
      exact h.kept key' w t hGet hTime hLive
  gone := by
    intro key' t hTime hGone
    by_cases hKey : key' = key
    · subst hKey
      have hOver : now + micros ttl + 1000 ≤ t := hGone _ (by rw [Dict.get?_set, if_pos rfl]; rfl)
      rcases hWrite with hAccepts | ⟨hTtl, hNothing⟩
      · have hExpired := s.server.expired hOver
        simp [RedisTokenStore.setex, hAccepts, RedisTokenStore.getJson, RedisTokenStore.entry?,
          Option.filter, hExpired]
      · have hRefused : ¬s.server.accepts now ttl = true := by
          intro hAccepts
          have := s.server.positive hAccepts
          omega
        unfold RedisTokenStore.setex
        rw [if_neg hRefused]
        exact h.gone key' t hTime fun w hGet => Int.le_trans (hNothing w hGet) hTime
    · rw [getJson_setex_of_ne hKey]
      refine h.gone key' t hTime fun w hGet => hGone w ?_
      rw [Dict.get?_set, if_neg hKey]
      exact hGet

theorem getJson_remove (key key' : String) (t : Int) :
    (s.remove key).getJson t key' = if key' = key then none else s.getJson t key' := by
  by_cases hKey : key' = key
  · simp [RedisTokenStore.remove, RedisTokenStore.getJson, RedisTokenStore.entry?, hKey]
  · simp [RedisTokenStore.remove, RedisTokenStore.getJson, RedisTokenStore.entry?, hKey]

theorem remove (h : RedisRefines now s l) (key : String) :
    RedisRefines now (s.remove key) (l.erase key) where
  kept := by
    intro key' w t hGet hTime hLive
    rw [Dict.get?_erase] at hGet
    rw [getJson_remove]
    by_cases hKey : key' = key
    · rw [if_pos hKey] at hGet
      exact nomatch hGet
    · rw [if_neg hKey] at hGet ⊢
      exact h.kept key' w t hGet hTime hLive
  gone := by
    intro key' t hTime hGone
    rw [getJson_remove]
    by_cases hKey : key' = key
    · rw [if_pos hKey]
    · rw [if_neg hKey]
      refine h.gone key' t hTime fun w hGet => hGone w ?_
      rw [Dict.get?_erase, if_neg hKey]
      exact hGet

/-- With a prefix that has no character of a pattern, `keys_by_prefix` lists the keys with it that
the server still keeps. -/
theorem mem_keysByPrefix {keyPrefix : String}
    (hLiteral : ∀ c ∈ (s.keyPrefix ++ keyPrefix).toList, c ∉ globSpecial) (key : String) :
    key ∈ s.keysByPrefix now keyPrefix ↔
      keyPrefix.toList <+: key.toList ∧ s.contains now key = true := by
  have hMatches : ∀ k : String,
      s.server.globMatches ((s.keyPrefix ++ keyPrefix).toList ++ ['*']) k.toList = true ↔
        s.keyPrefix.toList ++ keyPrefix.toList <+: k.toList := by
    intro k
    rw [s.server.literal hLiteral, String.toList_append]
  simp only [RedisTokenStore.keysByPrefix, List.mem_map, List.mem_filter, Dict.mem_keys_iff,
    Bool.and_eq_true, hMatches, RedisTokenStore.contains]
  constructor
  · rintro ⟨k, ⟨-, hSome, rest, hRest⟩, rfl⟩
    -- the listed key is the namespace with the returned one after it
    have hCut : k.toList.drop s.keyPrefix.toList.length = keyPrefix.toList ++ rest := by
      rw [← hRest, List.append_assoc, List.drop_left]
    have hKey : s.keyPrefix ++ String.ofList (keyPrefix.toList ++ rest) = k := by
      rw [← String.toList_inj, String.toList_append, String.toList_ofList, ← hRest,
        List.append_assoc]
    rw [hCut]
    exact ⟨⟨rest, by rw [String.toList_ofList]⟩, by rw [hKey]; exact hSome⟩
  · rintro ⟨⟨rest, hRest⟩, hSome⟩
    refine ⟨s.keyPrefix ++ key, ⟨?_, hSome, rest, ?_⟩, ?_⟩
    · obtain ⟨e, hEntry⟩ := Option.isSome_iff_exists.mp hSome
      unfold RedisTokenStore.entry? at hEntry
      exact ⟨e, (Option.filter_eq_some_iff.mp hEntry).1⟩
    · rw [String.toList_append, ← hRest, List.append_assoc]
    · rw [String.toList_append, List.drop_left, String.ofList_toList]

end RedisRefines

/-! ## The two stores under the same calls -/

/-- Both stores, the ledger of what was written, and the clock. -/
structure World where
  memory : InMemoryTokenStore
  redis : RedisTokenStore
  ledger : Ledger
  clock : Int

/-- A call some time after the one before, and how long it takes until the write is pruned. -/
structure Event where
  call : Call
  wait : Nat
  pruning : Nat

namespace World

/-- Two new stores. -/
def init (server : RedisServer) (keyPrefix : String) (clock : Int) : World :=
  ⟨.empty, ⟨server, keyPrefix, .empty⟩, .empty, clock⟩

variable (w : World) (e : Event)

/-- When the call starts. -/
def now : Int := w.clock + e.wait

/-- When the call of the in-memory store is over. -/
def later : Int := w.now e + e.pruning

/-- Both stores perform the call. -/
def step : World where
  memory := (w.memory.perform (w.now e) (w.later e) e.call).2
  redis := (w.redis.perform (w.now e) e.call).2
  ledger := w.ledger.record (w.now e) e.call
  clock := w.later e

/-- The call returns the same from both stores. -/
def SameOutcome : Prop :=
  (w.memory.perform (w.now e) (w.later e) e.call).1.Same (w.redis.perform (w.now e) e.call).1

instance : Decidable (w.SameOutcome e) := inferInstanceAs (Decidable (Outcome.Same _ _))

/-- A time to live that both take: the clock can add it and the server accepts it, or it is over
already and nothing is left of the key. -/
def CarefulTtl (key : String) (ttl : Int) : Prop :=
  ttl.natAbs < floatLimit ∧
    (w.redis.server.accepts (w.now e) ttl = true ∨ ttl ≤ 0 ∧ w.ledger.Gone (w.now e) key)

instance (key : String) (ttl : Int) : Decidable (w.CarefulTtl e key ttl) :=
  inferInstanceAs (Decidable (_ ∧ (_ ∨ _ ∧ _)))

/-- No read in the millisecond in which a key ends; no value is read of a live key that an `add`
wrote, unless a `"1"` of an earlier `add_json` is still there; no prefix has a character of a
pattern. -/
def Careful : Prop :=
  match e.call with
  | .add key ttl => w.CarefulTtl e key ttl
  | .contains key => w.ledger.Settled (w.now e) key
  | .remove _ => True
  | .addJson key _ ttl => w.CarefulTtl e key ttl
  | .getJson key =>
      w.ledger.Settled (w.now e) key ∧
        ∀ x ∈ w.ledger.get? key, w.now e ≤ x.deadline → x.value = none →
          w.memory.values.get? key = some "1"
  | .keysByPrefix keyPrefix =>
      (∀ c ∈ (w.redis.keyPrefix ++ keyPrefix).toList, c ∉ globSpecial) ∧
        ∀ x ∈ w.ledger.entries, keyPrefix.toList <+: x.1.toList → ¬Ledger.Ending (w.now e) x.2

instance : Decidable (w.Careful e) := by
  unfold Careful
  cases e.call <;> infer_instance

/-- Both stores refine the ledger. -/
structure Refines : Prop where
  memory : MemoryRefines w.clock w.memory w.ledger
  redis : RedisRefines w.clock w.redis w.ledger

variable {w e}

theorem refines_init (server : RedisServer) (keyPrefix : String) (clock : Int) :
    (init server keyPrefix clock).Refines :=
  ⟨.init clock, .init server keyPrefix clock⟩

theorem clock_le_now : w.clock ≤ w.now e := by
  unfold now
  omega

theorem now_le_later : w.now e ≤ w.later e := by
  unfold later
  omega

theorem careful_add (h : w.Refines) {key : String} {ttl : Int} (hCall : e.call = .add key ttl)
    (hCareful : w.CarefulTtl e key ttl) : (w.step e).Refines ∧ w.SameOutcome e := by
  obtain ⟨hFloat, hWrite⟩ := hCareful
  have hMemory := (h.memory.mono (clock_le_now (e := e))).add now_le_later key hFloat
  have hRedis := (h.redis.mono (clock_le_now (e := e))).write none hWrite
  refine ⟨⟨?_, ?_⟩, ?_⟩
  · simpa only [step, hCall, InMemoryTokenStore.perform, Ledger.record] using hMemory
  · simpa only [step, hCall, RedisTokenStore.perform, RedisTokenStore.add, Ledger.record,
      Option.getD_none] using hRedis.mono now_le_later
  · simp only [SameOutcome, hCall, InMemoryTokenStore.perform, InMemoryTokenStore.add,
      expiry_eq hFloat, RedisTokenStore.perform, Outcome.Same]

theorem careful_addJson (h : w.Refines) {key value : String} {ttl : Int}
    (hCall : e.call = .addJson key value ttl) (hCareful : w.CarefulTtl e key ttl) :
    (w.step e).Refines ∧ w.SameOutcome e := by
  obtain ⟨hFloat, hWrite⟩ := hCareful
  have hMemory := (h.memory.mono (clock_le_now (e := e))).addJson now_le_later key value hFloat
  have hRedis := (h.redis.mono (clock_le_now (e := e))).write (some value) hWrite
  refine ⟨⟨?_, ?_⟩, ?_⟩
  · simpa only [step, hCall, InMemoryTokenStore.perform, Ledger.record] using hMemory
  · simpa only [step, hCall, RedisTokenStore.perform, RedisTokenStore.addJson, Ledger.record,
      Option.getD_some] using hRedis.mono now_le_later
  · simp only [SameOutcome, hCall, InMemoryTokenStore.perform, InMemoryTokenStore.addJson,
      expiry_eq hFloat, RedisTokenStore.perform, Outcome.Same]

theorem careful_contains (h : w.Refines) {key : String} (hCall : e.call = .contains key)
    (hSettled : w.ledger.Settled (w.now e) key) : (w.step e).Refines ∧ w.SameOutcome e := by
  obtain ⟨hFound, hMemory, -⟩ := (h.memory.mono (clock_le_now (e := e))).contains key
  have hRedis := h.redis.mono (clock_le_now (e := e))
  refine ⟨⟨?_, ?_⟩, ?_⟩
  · simpa only [step, hCall, InMemoryTokenStore.perform, Ledger.record] using
      hMemory.mono now_le_later
  · simpa only [step, hCall, RedisTokenStore.perform, Ledger.record] using
      hRedis.mono now_le_later
  · simp only [SameOutcome, hCall, InMemoryTokenStore.perform, RedisTokenStore.perform,
      Outcome.Same, Outcome.found.injEq]
    rw [Bool.eq_iff_iff, hFound, hRedis.contains hSettled]

theorem careful_remove (h : w.Refines) {key : String} (hCall : e.call = .remove key) :
    (w.step e).Refines ∧ w.SameOutcome e := by
  have hMemory := (h.memory.mono (clock_le_now (e := e))).remove key
  have hRedis := (h.redis.mono (clock_le_now (e := e))).remove key
  refine ⟨⟨?_, ?_⟩, ?_⟩
  · simpa only [step, hCall, InMemoryTokenStore.perform, Ledger.record] using
      hMemory.mono now_le_later
  · simpa only [step, hCall, RedisTokenStore.perform, Ledger.record] using
      hRedis.mono now_le_later
  · simp only [SameOutcome, hCall, InMemoryTokenStore.perform, RedisTokenStore.perform,
      Outcome.Same]

theorem careful_getJson (h : w.Refines) {key : String} (hCall : e.call = .getJson key)
    (hSettled : w.ledger.Settled (w.now e) key)
    (hPlain : ∀ x ∈ w.ledger.get? key, w.now e ≤ x.deadline → x.value = none →
      w.memory.values.get? key = some "1") : (w.step e).Refines ∧ w.SameOutcome e := by
  have hNow := h.memory.mono (clock_le_now (e := e))
  obtain ⟨hLive, hDead, hMemory⟩ := hNow.getJson key
  have hRedis := h.redis.mono (clock_le_now (e := e))
  obtain ⟨hRedisLive, hRedisDead⟩ := hRedis.read hSettled
  refine ⟨⟨?_, ?_⟩, ?_⟩
  · simpa only [step, hCall, InMemoryTokenStore.perform, Ledger.record] using
      hMemory.mono now_le_later
  · simpa only [step, hCall, RedisTokenStore.perform, Ledger.record] using
      hRedis.mono now_le_later
  · simp only [SameOutcome, hCall, InMemoryTokenStore.perform, RedisTokenStore.perform,
      Outcome.Same, Outcome.value.injEq]
    by_cases hKey : w.ledger.Live (w.now e) key
    · obtain ⟨x, hGet, hLe⟩ := hKey
      rw [hLive ⟨x, hGet, hLe⟩, hRedisLive x hGet hLe]
      cases hValue : x.value with
      | none => exact hPlain x hGet hLe hValue
      | some text => exact hNow.value key x text hGet hLe hValue
    · rw [hDead hKey, hRedisDead hKey]

theorem careful_keysByPrefix (h : w.Refines) {keyPrefix : String}
    (hCall : e.call = .keysByPrefix keyPrefix)
    (hLiteral : ∀ c ∈ (w.redis.keyPrefix ++ keyPrefix).toList, c ∉ globSpecial)
    (hEnding : ∀ x ∈ w.ledger.entries, keyPrefix.toList <+: x.1.toList →
      ¬Ledger.Ending (w.now e) x.2) : (w.step e).Refines ∧ w.SameOutcome e := by
  obtain ⟨hKeys, hMemory⟩ := (h.memory.mono (clock_le_now (e := e))).keysByPrefix keyPrefix
  have hRedis := h.redis.mono (clock_le_now (e := e))
  refine ⟨⟨?_, ?_⟩, ?_⟩
  · simpa only [step, hCall, InMemoryTokenStore.perform, Ledger.record] using
      hMemory.mono now_le_later
  · simpa only [step, hCall, RedisTokenStore.perform, Ledger.record] using
      hRedis.mono now_le_later
  · simp only [SameOutcome, hCall, InMemoryTokenStore.perform, RedisTokenStore.perform,
      Outcome.Same]
    intro key
    rw [hKeys key, RedisRefines.mem_keysByPrefix hLiteral key]
    refine and_congr_right fun hPrefix => ?_
    have hSettled : w.ledger.Settled (w.now e) key := fun x hGet =>
      hEnding (key, x) (Dict.get?_eq_some_iff.mp hGet) hPrefix
    exact (hRedis.contains hSettled).symm

theorem careful_step (h : w.Refines) (hCareful : w.Careful e) :
    (w.step e).Refines ∧ w.SameOutcome e := by
  unfold Careful at hCareful
  cases hCall : e.call with
  | add key ttl => exact careful_add h hCall (by simpa only [hCall] using hCareful)
  | contains key => exact careful_contains h hCall (by simpa only [hCall] using hCareful)
  | remove key => exact careful_remove h hCall
  | addJson key value ttl => exact careful_addJson h hCall (by simpa only [hCall] using hCareful)
  | getJson key =>
      simp only [hCall] at hCareful
      exact careful_getJson h hCall hCareful.1 hCareful.2
  | keysByPrefix keyPrefix =>
      simp only [hCall] at hCareful
      exact careful_keysByPrefix h hCall hCareful.1 hCareful.2

/-- The two stores return the same results in every run of careful calls. -/
theorem backends_agree (server : RedisServer) (keyPrefix : String) (clock : Int)
    (es : List Event) (hCareful : EveryStep step Careful (init server keyPrefix clock) es) :
    EveryStep step SameOutcome (init server keyPrefix clock) es := by
  have hStep : ∀ (w : World) (e : Event), w.Refines → w.Careful e → (w.step e).Refines :=
    fun _ _ h hHere => (careful_step h hHere).1
  exact everyStep_of_invariant hStep (fun _ _ h hHere => (careful_step h hHere).2)
    (refines_init server keyPrefix clock) hCareful

end World

/-! ## Runs with a concrete server -/

/-- Patterns of plain characters, `*` and `?`. -/
def globMatches : List Char → List Char → Bool
  | [], k => k.isEmpty
  | c :: p, k =>
      if c = '*' then k.tails.any (globMatches p)
      else match k with
        | [] => false
        | d :: k => (c == '?' || c == d) && globMatches p k

theorem globMatches_literal {p k : List Char} (h : ∀ c ∈ p, c ∉ globSpecial) :
    globMatches (p ++ ['*']) k = true ↔ p <+: k := by
  induction p generalizing k with
  | nil => simp [globMatches, List.mem_tails]
  | cons c p ih =>
      have hHead := h c List.mem_cons_self
      simp only [globSpecial, List.mem_cons, not_or] at hHead
      have hTail := fun {k} => @ih k fun x hx => h x (List.mem_cons_of_mem c hx)
      cases k with
      | nil => simp [globMatches, hHead.1]
      | cons d k => simp [globMatches, hHead.1, hHead.2.1, hTail, List.cons_prefix_cons]

/-- A server that counts in milliseconds, as 64-bit integers. -/
def redisServer : RedisServer where
  accepts now seconds := decide (0 < seconds ∧ seconds * 1000 + now / 1000 < 2 ^ 63)
  keeps setAt seconds now := decide (now / 1000 ≤ setAt / 1000 + seconds * 1000)
  globMatches := globMatches
  positive h := (of_decide_eq_true h).1
  kept h := by
    simp only [micros] at h
    exact decide_eq_true (by omega)
  expired h := by
    simp only [micros] at h
    exact decide_eq_false (by omega)
  literal := globMatches_literal

/-- A session is listed and read while its key lasts, and a token is denied until it expires. -/
def sessionRun : List Event :=
  [⟨.addJson "auth:session:u1:j1" "{}" 60, 0, 4⟩, ⟨.add "j1" 30, 1000, 4⟩,
    ⟨.keysByPrefix "auth:session:u1:", 1000, 0⟩, ⟨.getJson "auth:session:u1:j1", 1000, 0⟩,
    ⟨.contains "j1", 1000, 0⟩, ⟨.contains "j1", 31000000, 0⟩, ⟨.add "j2" (-5), 0, 0⟩,
    ⟨.contains "j2", 1000, 0⟩, ⟨.remove "auth:session:u1:j1", 0, 0⟩,
    ⟨.getJson "auth:session:u1:j1", 0, 0⟩]

theorem backends_agree_sessionRun :
    EveryStep World.step World.SameOutcome
      (World.init redisServer "auth:deny:" 1700000000000000) sessionRun :=
  World.backends_agree redisServer "auth:deny:" 1700000000000000 sessionRun (by decide +kernel)

/-- A key of `add` has no value in memory and the value `"1"` in Redis. -/
theorem added_key_read_as_json :
    ¬∀ (server : RedisServer) (keyPrefix : String) (clock : Int) (es : List Event),
      EveryStep World.step World.SameOutcome (World.init server keyPrefix clock) es := by
  intro h
  have hRun := h redisServer "auth:deny:" 1700000000000000
    [⟨.add "j1" 60, 0, 0⟩, ⟨.getJson "j1", 1000, 0⟩]
  revert hRun
  decide +kernel

end AsetPlatform.Auth.TokenBackends

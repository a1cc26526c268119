import AsetPlatform.Chat.ConversationContext
import AsetPlatform.Library.Dict

/-!
# The store of conversation contexts

`ConversationContextStore` of `backend/agents/conversation_context.py` with its database copy, and
the steps of chat turns on it. Context objects live on a heap: the memory map and the turns under
way hold addresses, so that a context reached from two places is one object. Each object and each
row remembers the user whose turn created it.

A turn reads the context of its session (the guardrail and the sub-agent call `get`). Its update has
two steps, since the summary is made by a language model in between: `begin` looks the context up,
resumes one of the user's or creates one, and overwrites its fields; `finish` replaces the summary
and stores the object.
-/

set_option autoImplicit false

namespace AsetPlatform.Chat

open AsetPlatform.Library

/-- A context with the user whose turn created it. -/
structure StoredContext where
  ctx : ConversationContext
  creator : String
  deriving DecidableEq

/-- A row of `conversation_contexts`. -/
structure ContextRow where
  stored : StoredContext
  updatedAt : Nat
  deriving DecidableEq

/-- An update under way: the user and the session of the turn, and the object it works on. -/
structure PendingUpdate where
  user : String
  sessionId : String
  addr : Nat
  deriving DecidableEq

/-- The store, the database and the updates under way. -/
structure ContextStore where
  ttl : Nat
  clock : Nat
  heap : Nat → StoredContext
  next : Nat
  entries : Dict String Nat
  rows : Dict String ContextRow
  pending : Nat → Option PendingUpdate

/-- What `_build_user_context` provides on the first turn of a session. -/
structure UserProfile where
  tickers : List String
  market : String
  tier : String

/-- The two callers of the update. Over HTTP the user profile is filled in when it can be built. -/
inductive Transport where
  | http (profile : Option UserProfile)
  | ws

namespace ContextStore

/-- The context is older than the time to live. -/
def expired (w : ContextStore) (now : Nat) (o : StoredContext) : Bool :=
  decide (w.ttl < now - o.ctx.lastUpdated)

/-- Replace an object. -/
def write (w : ContextStore) (a : Nat) (o : StoredContext) : ContextStore :=
  { w with heap := Function.update w.heap a o }

/-- Change the fields of an object in place. -/
def modify (w : ContextStore) (a : Nat) (f : ConversationContext → ConversationContext) :
    ContextStore :=
  w.write a { w.heap a with ctx := f (w.heap a).ctx }

/-- A new object. -/
def alloc (w : ContextStore) (o : StoredContext) : Nat × ContextStore :=
  (w.next, { w with heap := Function.update w.heap w.next o, next := w.next + 1 })

/-! ## The methods of the store -/

/-- `_pg_load`, and the entry `get` makes for what it finds. -/
def load (w : ContextStore) (sessionId : String) (dbUp : Bool) : Option Nat × ContextStore :=
  match if dbUp then w.rows.get? sessionId else none with
  | none => (none, w)
  | some row =>
      let (a, w) := w.alloc row.stored
      (some a, { w with entries := w.entries.set sessionId a })

/-- `get`. -/
def get (w : ContextStore) (sessionId : String) (dbUp : Bool) : Option Nat × ContextStore :=
  match w.entries.get? sessionId with
  | none => w.load sessionId dbUp
  | some a =>
      if w.expired w.clock (w.heap a) then
        { w with entries := w.entries.erase sessionId }.load sessionId dbUp
      else (some a, w)

/-- The search of `get_latest_for_user` in memory: the first of the most recently updated. -/
def latestInMemory (w : ContextStore) (user : String) : Option Nat :=
  (w.entries.best (fun _ a => (w.heap a).ctx.userId = user) fun a b =>
    (w.heap a).ctx.lastUpdated < (w.heap b).ctx.lastUpdated).map Prod.snd

/-- `_pg_load_latest_for_user`. -/
def latestRow (w : ContextStore) (user : String) : Option ContextRow :=
  (w.rows.best (fun _ row => row.stored.ctx.userId = user) fun a b =>
    a.updatedAt < b.updatedAt).map Prod.snd

/-- `get_latest_for_user`. An object loaded from the database is not entered in the memory map. -/
def getLatestForUser (w : ContextStore) (user : String) (dbUp : Bool) :
    Option Nat × ContextStore :=
  match w.latestInMemory user with
  | some a => (some a, w)
  | none =>
      match if dbUp then w.latestRow user else none with
      | none => (none, w)
      | some row =>
          let (a, w) := w.alloc row.stored
          (some a, w)

/-- `_pg_save`: an insert, or an update of every field but the keys. -/
def pgSave (w : ContextStore) (o : StoredContext) (dbNow : Nat) : ContextStore :=
  let stored := match w.rows.get? o.ctx.sessionId with
    | none => o
    | some row =>
        -- `ON CONFLICT` leaves `user_id` as it was
        { ctx := { o.ctx with userId := row.stored.ctx.userId }, creator := row.stored.creator }
  { w with rows := w.rows.set o.ctx.sessionId { stored := stored, updatedAt := dbNow } }

/-- `upsert`. -/
def upsert (w : ContextStore) (sessionId : String) (a : Nat) (dbNow : Nat) (saved : Bool) :
    ContextStore :=
  let w := w.modify a fun ctx =>
    -- `if not ctx.last_updated`
    if ctx.lastUpdated = 0 then { ctx with lastUpdated := w.clock } else ctx
  let w := { w with entries := w.entries.set sessionId a }
  if saved then w.pgSave (w.heap a) dbNow else w

/-! ## The steps of a turn -/

/-- The profile fields set with a context that was not stored under the session id. -/
def fillProfile (transport : Transport) (ctx : ConversationContext) : ConversationContext :=
  match transport with
  | .http (some p) =>
      { ctx with userTickers := p.tickers, marketPreference := p.market, subscriptionTier := p.tier }
  | _ => ctx

/-- A resumed context is carried over to the new session. -/
def carryOver (user sessionId : String) (transport : Transport) (ctx : ConversationContext) :
    ConversationContext :=
  let ctx := { ctx with sessionId := sessionId }
  match transport with
  | .http _ => fillProfile transport { ctx with userId := user }
  | .ws => ctx

/-- The object an update works on: the one stored under the session id, a resumed one, or a new
one. -/
def acquire (w : ContextStore) (user sessionId : String) (dbUp dbLatest : Bool)
    (transport : Transport) : Nat × ContextStore :=
  match w.get sessionId dbUp with
  | (some a, w) => (a, w)
  | (none, w) =>
      match w.getLatestForUser user dbLatest with
      -- the object itself is changed, also where it is stored under its old session id
      | (some a, w) => (a, w.modify a (carryOver user sessionId transport))
      | (none, w) =>
          w.alloc
            { ctx := fillProfile transport { sessionId := sessionId, userId := user }
              creator := user }

/-- `if not ctx.user_id: ctx.user_id = user_id`. -/
def ensureUser (user : String) (ctx : ConversationContext) : ConversationContext :=
  if ctx.userId = "" then { ctx with userId := user } else ctx

end ContextStore

/-- A step of some user's turn, with the time since the step before and the answers of the database;
or a restart of the process, which keeps the database only. -/
inductive ContextEvent where
  | read (elapsed : Nat) (user sessionId : String) (dbUp : Bool)
  | begin (elapsed : Nat) (turn : Nat) (user sessionId : String) (dbUp dbLatest : Bool)
      (transport : Transport) (result : TurnResult)
  | finish (elapsed : Nat) (turn : Nat) (newSummary : Option String) (dbNow : Nat) (saved : Bool)
  | restart (elapsed : Nat)

namespace ContextStore

/-- The clock moves on. -/
def tick (w : ContextStore) (elapsed : Nat) : ContextStore := { w with clock := w.clock + elapsed }

/-- The store after a step. A turn without a session id touches no context. -/
def step (w : ContextStore) : ContextEvent → ContextStore
  | .read elapsed _ sessionId dbUp =>
      let w := w.tick elapsed
      if sessionId = "" then w else (w.get sessionId dbUp).2
  | .begin elapsed turn user sessionId dbUp dbLatest transport result =>
      let w := w.tick elapsed
      -- each turn updates its context once
      if sessionId = "" ∨ w.pending turn ≠ none then w
      else
        let (a, w) := w.acquire user sessionId dbUp dbLatest transport
        let w := w.modify a fun ctx => (ensureUser user ctx).recordResult result
        { w with pending := Function.update w.pending turn (some ⟨user, sessionId, a⟩) }
  | .finish elapsed turn newSummary dbNow saved =>
      let w := w.tick elapsed
      match w.pending turn with
      | none => w
      | some p =>
          let w := w.modify p.addr fun ctx => ctx.updateSummary newSummary
          let w := w.upsert p.sessionId p.addr dbNow saved
          { w with pending := Function.update w.pending turn none }
  | .restart elapsed => { w.tick elapsed with entries := Dict.empty, pending := fun _ => none }

/-- An empty store over an empty database, when the clock reads a positive time. -/
def start (ttl clock : Nat) : ContextStore where
  ttl := ttl
  clock := clock + 1
  heap _ := { ctx := { sessionId := "" }, creator := "" }
  next := 0
  entries := Dict.empty
  rows := Dict.empty
  pending _ := none

/-! ## What is stored and what a step reads -/

/-- The object in memory under a session id, when it has not expired. -/
def inMemory (w : ContextStore) (now : Nat) (sessionId : String) : Option StoredContext :=
  ((w.entries.get? sessionId).map w.heap).filter fun o => !w.expired now o

def inDatabase (w : ContextStore) (sessionId : String) : Option StoredContext :=
  (w.rows.get? sessionId).map ContextRow.stored

/-- The context a turn sees under a session id when the database answers. -/
def seen (w : ContextStore) (now : Nat) (sessionId : String) : Option StoredContext :=
  (w.inMemory now sessionId).or (w.inDatabase sessionId)

/-- The user and the session of a step that touches a context. -/
def actor (w : ContextStore) : ContextEvent → Option (String × String)
  | .read _ user sessionId _ => if sessionId = "" then none else some (user, sessionId)
  | .begin _ turn user sessionId _ _ _ _ =>
      if sessionId = "" ∨ w.pending turn ≠ none then none else some (user, sessionId)
  | .finish _ turn _ _ _ => (w.pending turn).map fun p => (p.user, p.sessionId)
  | .restart _ => none

/-- The object a step finds under its session id or resumes. -/
def contextRead (w : ContextStore) : ContextEvent → Option StoredContext
  | .read elapsed _ sessionId dbUp =>
      let (found, w) := (w.tick elapsed).get sessionId dbUp
      found.map w.heap
  | .begin elapsed _ user sessionId dbUp dbLatest _ _ =>
      match (w.tick elapsed).get sessionId dbUp with
      | (some a, w) => some (w.heap a)
      | (none, w) =>
          let (found, w) := w.getLatestForUser user dbLatest
          found.map w.heap
  | .finish _ turn _ _ _ => (w.pending turn).map fun p => w.heap p.addr
  | .restart _ => none

/-- The time of a step. -/
def timeOf (w : ContextStore) : ContextEvent → Nat
  | .read elapsed .. => w.clock + elapsed
  | .begin elapsed .. => w.clock + elapsed
  | .finish elapsed .. => w.clock + elapsed
  | .restart elapsed => w.clock + elapsed

/-- The step keeps contexts apart: what it reads and what it changes was created by its user, and
under other session ids nothing changes, neither what is seen from now on nor the database row. -/
structure Isolated (w : ContextStore) (e : ContextEvent) (user sessionId : String) : Prop where
  reads_own : ∀ o ∈ w.contextRead e, o.creator = user
  keeps_seen : ∀ s now o, w.timeOf e ≤ now → w.seen now s = some o → o.creator ≠ user →
    (w.step e).seen now s = some o
  keeps_rows : ∀ s o, w.inDatabase s = some o → o.creator ≠ user → (w.step e).inDatabase s = some o
  other_seen : ∀ s now, s ≠ sessionId → w.timeOf e ≤ now → (w.step e).seen now s = w.seen now s
  other_rows : ∀ s, s ≠ sessionId → (w.step e).inDatabase s = w.inDatabase s

/-- Every context stored under the session id was created by the user. -/
def OwnedBy (w : ContextStore) (now : Nat) (sessionId user : String) : Prop :=
  (∀ o ∈ w.inMemory now sessionId, o.creator = user) ∧ ∀ o ∈ w.inDatabase sessionId, o.creator = user

/-- After the lookup of a session id, there is an object for it or no live one of the user in memory
to resume. -/
def NoLiveResume (user : String) : Option Nat × ContextStore → Prop
  | (some _, _) => True
  | (none, w) => ∀ a ∈ w.latestInMemory user, w.expired w.clock (w.heap a) = true

/-- What a step needs: the contexts stored under its session id are its user's; an update does not
resume a context that is still live in memory; and the object a finished update saves has not been
carried over to another session meanwhile. -/
def Apart (w : ContextStore) (e : ContextEvent) : Prop :=
  (∀ p ∈ w.actor e, w.OwnedBy (w.timeOf e) p.2 p.1) ∧
    match e with
    | .read .. => True
    | .begin elapsed _ user sessionId dbUp _ _ _ =>
        NoLiveResume user ((w.tick elapsed).get sessionId dbUp)
    | .finish _ turn _ _ saved =>
        ∀ p ∈ w.pending turn, saved = true → (w.heap p.addr).ctx.sessionId = p.sessionId
    | .restart _ => True

instance (w : ContextStore) (now : Nat) (sessionId user : String) :
    Decidable (w.OwnedBy now sessionId user) :=
  inferInstanceAs (Decidable (_ ∧ _))

instance (user : String) : ∀ found, Decidable (NoLiveResume user found)
  | (some _, _) => isTrue trivial
  | (none, w) =>
      inferInstanceAs (Decidable (∀ a ∈ w.latestInMemory user, w.expired w.clock (w.heap a) = true))

instance (w : ContextStore) : ∀ e, Decidable (w.Apart e)
  | .read .. => inferInstanceAs (Decidable (_ ∧ True))
  | .begin .. => inferInstanceAs (Decidable (_ ∧ NoLiveResume _ _))
  | .finish .. => inferInstanceAs (Decidable (_ ∧ _))
  | .restart _ => inferInstanceAs (Decidable (_ ∧ True))

end ContextStore

end AsetPlatform.Chat

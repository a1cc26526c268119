import AsetPlatform.Library.Run
import Mathlib.Algebra.Order.Ring.Unbundled.Rat
import Mathlib.Data.List.Induction

/-!
# The chat connection

`/ws/chat` of `backend/ws.py`: the first message has to authenticate, later ones ask for a pong,
authenticate again or start a chat, whose events are forwarded from the queue of its worker thread.

A message is given by what the connection looks at, a token by what `decode_token` makes of it when it
is read, and the queue by its polls. A client that is gone is found out by the first message that
cannot be sent.
-/

set_option autoImplicit false

namespace AsetPlatform.Chat.Ws

open AsetPlatform.Library

universe u

variable {E : Type u}

/-- The claims of a decoded access token. -/
structure Payload where
  sub : Option String
  role : Option String
  email : Option String

structure UserCtx where
  userId : String
  email : String
  role : String
  deriving DecidableEq

/-- `_validate_token`, with what `decode_token` returns unless it raises. -/
def validateToken : Option Payload → Option UserCtx
  | some ⟨some userId, some role, email⟩ =>
      if userId = "" ∨ role = "" then none else some ⟨userId, email.getD "", role⟩
  | _ => none

/-! ## A chat -/

/-- What the worker puts into the queue: an event, or a line (without the blanks around it) and what it
parses to. -/
inductive Item (E : Type u) where
  | event (e : E)
  | line (text : String) (parsed : Option E)

inductive Sent (E : Type u) where
  | pong
  | authOk
  | error (message : String)
  | final (response : String)
  | timeout (message : String)
  | event (e : E)
  | text (line : String)

def Item.sent : Item E → Option (Sent E)
  | .event e => some (.event e)
  | .line text parsed => if text = "" then none else some (parsed.elim (.text text) .event)

/-- One `event_queue.get`: the seconds since the start, and what was there, if anything. The worker ends
with `None`. -/
structure Poll (E : Type u) where
  elapsed : ℚ
  got : Option (Option (Item E))

/-- The loop of `_handle_chat` over the queue. -/
def drain (limit : Nat) : List (Poll E) → List (Sent E)
  | [] => []
  | p :: polls =>
      if limit ≤ p.elapsed then [.timeout ("Agent timed out after " ++ toString limit ++ "s")]
      else
        match p.got with
        | none => drain limit polls
        | some none => []
        | some (some item) => item.sent.toList ++ drain limit polls

/-- What `_handle_chat` meets: the answer of `is_quota_exceeded` unless it raises, the detail of the
error of `resolve_byo_for_chat` if there is one, the polls, and how many messages reach the client. -/
structure ChatRun (E : Type u) where
  quota : Option Bool
  byoError : Option String
  polls : List (Poll E)
  lostAt : Option Nat

def refused (message : String) : List (Sent E) := [.error message, .final ""]

/-- `_handle_chat`: what is sent, and whether the worker is started. -/
def handleChat (limit : Nat) (run : ChatRun E) : List (Sent E) × Bool :=
  let exceeded : List (Sent E) := refused "Monthly analysis quota exceeded. Upgrade your plan for more."
  let rest : List (Sent E) × Bool :=
    match run.byoError with
    | some detail => (refused detail, false)
    | none => (drain limit run.polls, true)
  match run.quota, run.lostAt with
  | some true, none => (exceeded, false)
  -- the failed send counts as a failed quota check, and the chat goes on
  | some true, some n => if n < 2 then (exceeded.take n, rest.2) else (exceeded, false)
  | _, none => rest
  | _, some n => (rest.1.take n, rest.2)

/-! ## The connection -/

inductive Phase where
  | authenticating
  | serving (user : UserCtx)
  | closed (code : Nat) (reason : String)
  | gone
  | failed

structure Connection (E : Type u) where
  phase : Phase
  streaming : Bool
  sent : List (Sent E)
  started : List UserCtx

def accepted : Connection E := ⟨.authenticating, false, [], []⟩

/-- What the connection waits for: a message, the end of `ws_auth_timeout_seconds`, or the end of the
connection. `notObject` is JSON without `get`, on which the handler raises. -/
inductive Arrival (E : Type u) where
  | timeout
  | disconnect
  | invalidJson
  | notObject
  | auth (decoded : Option Payload)
  | ping
  | chat (run : ChatRun E)
  | other (type : String)

namespace Connection

variable (limit : Nat) (c : Connection E)

def close (code : Nat) (reason : String) : Connection E := { c with phase := .closed code reason }

def send (messages : List (Sent E)) : Connection E := { c with sent := c.sent ++ messages }

def authenticate (reason : String) (decoded : Option Payload) : Connection E :=
  match validateToken decoded with
  | none => c.close 4001 reason
  | some user => { c.send [.authOk] with phase := .serving user }

def chat (user : UserCtx) (run : ChatRun E) : Connection E :=
  if c.streaming then c.send [.error "Already streaming — wait for the current response"]
  else
    let (messages, starts) := handleChat limit run
    let busy := ({ c with streaming := true } : Connection E).send messages
    { busy with
      phase := if run.lostAt.isSome then .gone else .serving user
      streaming := false
      started := c.started ++ if starts then [user] else [] }

/-- `ws_chat`, one arrival after the other. -/
def step (a : Arrival E) : Connection E :=
  match c.phase, a with
  | .authenticating, .timeout => c.close 4002 "Auth timeout"
  | .authenticating, .disconnect => { c with phase := .gone }
  | .authenticating, .invalidJson => c.close 4003 "Invalid JSON"
  | .authenticating, .notObject => { c with phase := .failed }
  | .authenticating, .auth decoded => c.authenticate "Invalid token" decoded
  | .authenticating, _ => c.close 4003 "First message must be auth"
  | .serving _, .timeout => c
  | .serving _, .disconnect => { c with phase := .gone }
  | .serving _, .invalidJson => c.close 4003 "Invalid JSON"
  | .serving _, .notObject => { c with phase := .failed }
  | .serving _, .auth decoded => c.authenticate "Re-auth failed" decoded
  | .serving _, .ping => c.send [.pong]
  | .serving user, .chat run => c.chat limit user run
  | .serving _, .other type => c.close 4003 ("Unknown type: " ++ type)
  | _, _ => c

end Connection

/-! ## The events of a chat -/

/-- The queue is polled again. -/
def Poll.goesOn (limit : Nat) (p : Poll E) : Bool :=
  match p.got with
  | some none => false
  | _ => p.elapsed < limit

def Poll.sent (p : Poll E) : Option (Sent E) := p.got.bind fun got => got.bind Item.sent

/-- Up to the end of the worker or of the time, every event reaches the client once and in its order. -/
theorem drain_eq (limit : Nat) (polls : List (Poll E)) :
    drain limit polls =
      (polls.takeWhile (Poll.goesOn limit)).filterMap Poll.sent ++
        ((polls.dropWhile (Poll.goesOn limit)).head?.elim [] fun p =>
          if limit ≤ p.elapsed then [.timeout ("Agent timed out after " ++ toString limit ++ "s")]
          else []) := by
  induction polls with
  | nil => rfl
  | cons p polls ih =>
      rw [drain]
      by_cases hLate : limit ≤ p.elapsed
      · have hStop : p.goesOn limit = false := by
          rw [Poll.goesOn]
          split
          · rfl
          · exact decide_eq_false (not_lt.mpr hLate)
        rw [if_pos hLate, List.takeWhile_cons_of_neg (by rw [hStop]; decide),
          List.dropWhile_cons_of_neg (by rw [hStop]; decide)]
        simp [hLate]
      · rw [if_neg hLate]
        have hTime : p.elapsed < limit := not_le.mp hLate
        obtain ⟨elapsed, got⟩ := p
        rcases got with _ | _ | item
        -- nothing was there in time
        · have hGoes : Poll.goesOn limit ⟨elapsed, none⟩ = true := decide_eq_true hTime
          rw [List.takeWhile_cons_of_pos hGoes, List.dropWhile_cons_of_pos hGoes]
          exact ih
        · simp [Poll.goesOn, hLate]
        · have hGoes : Poll.goesOn limit ⟨elapsed, some (some item)⟩ = true := decide_eq_true hTime
          rw [List.takeWhile_cons_of_pos hGoes, List.dropWhile_cons_of_pos hGoes]
          dsimp only
          rw [ih, ← List.append_assoc, List.filterMap_cons, Poll.sent, Option.bind_some,
            Option.bind_some]
          cases item.sent <;> rfl

/-- The worker is started unless the chat is refused; the quota refuses only a client that is there. -/
theorem handleChat_starts_iff (limit : Nat) (run : ChatRun E) :
    (handleChat limit run).2 = true ↔
      run.byoError = none ∧ (run.quota = some true → ∃ n, run.lostAt = some n ∧ n < 2) := by
  obtain ⟨quota, byoError, polls, lostAt⟩ := run
  rcases quota with _ | _ | _ <;> rcases lostAt with _ | n <;> cases byoError <;>
    simp [handleChat]
  all_goals split <;> simp_all

/-! ## Who is served -/

/-- The user of the last authentication. -/
def lastAuth (es : List (Arrival E)) : Option UserCtx :=
  es.foldl (fun user a => match a with | .auth decoded => validateToken decoded | _ => user) none

/-- A message that keeps the connection. -/
def Arrival.Keeps : Arrival E → Prop
  | .timeout => True
  | .ping => True
  | .auth decoded => (validateToken decoded).isSome
  | .chat run => run.lostAt = none
  | _ => False

/-- The first message authenticates, the others keep the connection, and the last token is the user's. -/
structure Admitted (es : List (Arrival E)) (user : UserCtx) : Prop where
  first : ∃ decoded, es.head? = some (.auth decoded)
  keeps : ∀ a ∈ es, a.Keeps
  last : lastAuth es = some user

namespace Connection

variable {limit : Nat} {c : Connection E} {a : Arrival E} {user : UserCtx}

theorem streaming_chat {run : ChatRun E} (h : c.streaming = false) :
    (c.chat limit user run).streaming = false := by
  simp [chat, h]

/-- A chat is answered before the next message is read. -/
theorem streaming_step (h : c.streaming = false) (a : Arrival E) :
    (c.step limit a).streaming = false := by
  have hAuth : ∀ reason decoded, (c.authenticate reason decoded).streaming = false := by
    intro reason decoded
    rw [authenticate]
    split
    · exact h
    · exact h
  unfold step
  split
  all_goals first | exact h | exact hAuth _ _ | exact streaming_chat h

theorem phase_authenticate_iff {reason : String} {decoded : Option Payload} :
    (c.authenticate reason decoded).phase = .serving user ↔ validateToken decoded = some user := by
  rw [authenticate]
  cases validateToken decoded with
  | none => simp [close]
  | some other => simp

/-- What one message does to a connection that serves somebody. -/
theorem step_serving_iff {before : UserCtx} (hPhase : c.phase = .serving before)
    (h : c.streaming = false) (a : Arrival E) :
    (c.step limit a).phase = .serving user ↔
      a.Keeps ∧ (match a with | .auth decoded => validateToken decoded | _ => some before) =
        some user := by
  cases a with
  | auth decoded =>
      simp only [step, hPhase, phase_authenticate_iff, Arrival.Keeps]
      constructor
      · intro hUser
        exact ⟨by rw [hUser]; rfl, hUser⟩
      · exact fun hBoth => hBoth.2
  | chat run =>
      simp only [step, hPhase, chat, h, Arrival.Keeps]
      cases run.lostAt <;> simp
  | timeout => simp [step, hPhase, Arrival.Keeps]
  | ping => simp [step, hPhase, Arrival.Keeps, send]
  | _ => simp [step, hPhase, Arrival.Keeps, close]

/-- The first message is the authentication. -/
theorem step_authenticating_iff (hPhase : c.phase = .authenticating) (a : Arrival E) :
    (c.step limit a).phase = .serving user ↔
      ∃ decoded, a = .auth decoded ∧ validateToken decoded = some user := by
  cases a with
  | auth decoded => simp [step, hPhase, phase_authenticate_iff]
  | _ => simp [step, hPhase, close]

theorem step_ended (hAuth : c.phase ≠ .authenticating) (hUser : ∀ user, c.phase ≠ .serving user)
    (a : Arrival E) : c.step limit a = c := by
  unfold step
  split
  all_goals first | rfl | exact absurd ‹_› hAuth | exact absurd ‹_› (hUser _)

theorem phase_step_ne (a : Arrival E) : (c.step limit a).phase ≠ .authenticating := by
  have hAuth : ∀ reason decoded, (c.authenticate reason decoded).phase ≠ .authenticating := by
    intro reason decoded
    rw [authenticate]
    split <;> simp [close]
  cases hPhase : c.phase with
  | authenticating => cases a <;> simp [step, hPhase, close, hAuth]
  | serving user =>
      cases a with
      | chat run =>
          simp only [step, hPhase, chat]
          split
          · simp [send, hPhase]
          · dsimp only
            split <;> simp
      | auth decoded => simp [step, hPhase, hAuth]
      | _ => simp [step, hPhase, close, send]
  | _ => simp [step, hPhase]

end Connection

theorem lastAuth_append (es : List (Arrival E)) (a : Arrival E) :
    lastAuth (es ++ [a]) = match a with | .auth decoded => validateToken decoded | _ => lastAuth es := by
  rw [lastAuth, List.foldl_append]
  rfl

theorem exists_lastAuth {es : List (Arrival E)} (hFirst : ∃ decoded, es.head? = some (.auth decoded))
    (hKeeps : ∀ a ∈ es, a.Keeps) : ∃ user, lastAuth es = some user := by
  induction es using List.reverseRecOn with
  | nil =>
      obtain ⟨decoded, hNone⟩ := hFirst
      cases hNone
  | append_singleton es a ih =>
      have hLast := hKeeps a (List.mem_append_right es List.mem_cons_self)
      rw [lastAuth_append]
      cases a with
      | auth decoded => exact Option.isSome_iff_exists.mp hLast
      | _ =>
          -- the first message is among those before
          obtain ⟨decoded, hHead⟩ := hFirst
          cases es with
          | nil => cases hHead
          | cons b es => exact ih ⟨decoded, hHead⟩ fun a ha => hKeeps a (List.mem_append_left _ ha)

theorem admitted_append_iff {es : List (Arrival E)} (hNe : es ≠ []) (a : Arrival E)
    (user : UserCtx) : Admitted (es ++ [a]) user ↔
      ∃ before, Admitted es before ∧ a.Keeps ∧
        (match a with | .auth decoded => validateToken decoded | _ => some before) = some user := by
  have hHead : (es ++ [a]).head? = es.head? := List.head?_append_of_ne_nil es hNe
  constructor
  · rintro ⟨hFirst, hKeeps, hLast⟩
    rw [hHead] at hFirst
    have hOld : ∀ b ∈ es, b.Keeps := fun b hb => hKeeps b (List.mem_append_left _ hb)
    obtain ⟨before, hBefore⟩ := exists_lastAuth hFirst hOld
    rw [lastAuth_append, hBefore] at hLast
    exact ⟨before, ⟨hFirst, hOld, hBefore⟩, hKeeps a (by simp), hLast⟩
  · rintro ⟨before, ⟨hFirst, hOld, hBefore⟩, hHere, hLast⟩
    refine ⟨by rwa [hHead], ?_, by rw [lastAuth_append, hBefore]; exact hLast⟩
    intro b hb
    rcases List.mem_append.mp hb with hb | hb
    · exact hOld b hb
    · rwa [List.mem_singleton.mp hb]

/-- The connection after some messages, and what they say. -/
structure Follows (es : List (Arrival E)) (c : Connection E) : Prop where
  quiet : c.streaming = false
  waiting_iff : c.phase = .authenticating ↔ es = []
  serving_iff : ∀ user, c.phase = .serving user ↔ Admitted es user

theorem follows_run (limit : Nat) (es : List (Arrival E)) :
    Follows es (runFrom (Connection.step limit) accepted es) := by
  induction es using List.reverseRecOn with
  | nil =>
      refine ⟨rfl, iff_of_true rfl rfl, fun user => iff_of_false (by simp [accepted]) ?_⟩
      rintro ⟨⟨decoded, hNone⟩, -, -⟩
      cases hNone
  | append_singleton es a ih =>
      rw [runFrom_append, runFrom_cons, runFrom_nil]
      generalize runFrom (Connection.step limit) accepted es = c at ih ⊢
      refine ⟨Connection.streaming_step ih.quiet a, ?_, fun user => ?_⟩
      · exact iff_of_false (Connection.phase_step_ne a) (by simp)
      · by_cases hNil : es = []
        · rw [Connection.step_authenticating_iff (ih.waiting_iff.mpr hNil), hNil, List.nil_append]
          constructor
          · rintro ⟨decoded, rfl, hUser⟩
            refine ⟨⟨decoded, rfl⟩, ?_, hUser⟩
            intro b hb
            rw [List.mem_singleton.mp hb, Arrival.Keeps, hUser]
            rfl
          · rintro ⟨⟨decoded, hHead⟩, -, hLast⟩
            obtain rfl : a = .auth decoded := Option.some.inj hHead
            exact ⟨decoded, rfl, hLast⟩
        · rw [admitted_append_iff hNil]
          by_cases hServing : ∃ before, c.phase = .serving before
          · obtain ⟨before, hPhase⟩ := hServing
            rw [Connection.step_serving_iff hPhase ih.quiet]
            constructor
            · exact fun h => ⟨before, (ih.serving_iff before).mp hPhase, h⟩
            · rintro ⟨other, hOther, h⟩
              have hSame := (ih.serving_iff other).mpr hOther
              rw [hPhase] at hSame
              cases hSame
              exact h
          · push Not at hServing
            rw [Connection.step_ended (fun h => hNil (ih.waiting_iff.mp h)) hServing]
            refine iff_of_false (hServing user) ?_
            rintro ⟨before, hBefore, -⟩
            exact hServing before ((ih.serving_iff before).mpr hBefore)

/-- A worker is started by a chat of a user who is served, unless the chat is refused. -/
theorem exists_started {limit : Nat} {c : Connection E} (h : c.streaming = false) (a : Arrival E) :
    ∃ new : Option UserCtx, (c.step limit a).started = c.started ++ new.toList ∧
      ∀ user, new = some user ↔
        c.phase = .serving user ∧ ∃ run, a = .chat run ∧ (handleChat limit run).2 = true := by
  have hAuth : ∀ reason decoded, (c.authenticate reason decoded).started = c.started := by
    intro reason decoded
    rw [Connection.authenticate]
    split <;> rfl
  by_cases hChat : ∃ user run, c.phase = .serving user ∧ a = .chat run
  · obtain ⟨user, run, hPhase, rfl⟩ := hChat
    refine ⟨if (handleChat limit run).2 then some user else none, ?_, fun other => ?_⟩
    · simp only [Connection.step, hPhase, Connection.chat, h, Bool.false_eq_true, if_false]
      cases (handleChat limit run).2 <;> rfl
    · rw [hPhase]
      split <;> simp_all
  · refine ⟨none, ?_, fun user => iff_of_false (by simp) ?_⟩
    · rw [Option.toList_none, List.append_nil]
      unfold Connection.step
      split
      all_goals first | rfl | exact hAuth _ _ | exact absurd ⟨_, _, ‹_›, rfl⟩ hChat
    · rintro ⟨hPhase, run, rfl, -⟩
      exact hChat ⟨user, run, hPhase, rfl⟩

/-- In every run a worker is started just for a chat behind messages that admit a user, and for that
user, unless the chat is refused; no chat meets another one that is still streaming. -/
theorem workers_run_for_admitted (limit : Nat) (es : List (Arrival E)) (a : Arrival E) :
    (runFrom (Connection.step limit) accepted es).streaming = false ∧
      ∃ new : Option UserCtx,
        (runFrom (Connection.step limit) accepted (es ++ [a])).started =
          (runFrom (Connection.step limit) accepted es).started ++ new.toList ∧
        ∀ user, new = some user ↔
          Admitted es user ∧ ∃ run, a = .chat run ∧ run.byoError = none ∧
            (run.quota = some true → ∃ n, run.lostAt = some n ∧ n < 2) := by
  have h := follows_run limit es
  obtain ⟨new, hStarted, hNew⟩ := exists_started h.quiet a
  rw [runFrom_append, runFrom_cons, runFrom_nil]
  refine ⟨h.quiet, new, hStarted, fun user => ?_⟩
  rw [hNew user, h.serving_iff user]
  exact and_congr_right fun _ => exists_congr fun run => and_congr_right fun _ =>
    handleChat_starts_iff limit run

end AsetPlatform.Chat.Ws

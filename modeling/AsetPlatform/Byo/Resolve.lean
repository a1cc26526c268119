import AsetPlatform.Billing.UserTable
import AsetPlatform.Library.Months

/-!
# Routing a chat turn to the user's own keys

`backend/llm_byo.py`: `resolve_byo_for_chat` lets a superuser and a user within the free allowance
go on with the platform's keys, and otherwise reads the user's own keys, refuses when there is none,
and counts the turn in the month's Redis counter. Its callers, `_resolve_byo_for_request` of
`routes.py` and the WebSocket handler of `ws.py`, read the user's row first and go on with the
platform's keys when an exception gets in the way.

The function awaits the database twice and Redis once, and other turns run in between, so it is
given in the pieces between those points.
-/

set_option autoImplicit false

namespace AsetPlatform.Byo

open AsetPlatform.Library
open AsetPlatform.Billing (Role truthy)

/-! ## Values -/

/-- `FREE_ALLOWANCE_LIMIT`. -/
def freeAllowanceLimit : Nat := 10

/-- `ttl=40 * 24 * 3600`. -/
def counterTtl : Nat := 40 * 24 * 3600

/-- `ZoneInfo("Asia/Kolkata")`, five and a half hours ahead. -/
def istOffset : Nat := 5 * 3600 + 1800

def istMonth (now : Nat) : Nat := monthAt istOffset now

/-- The keys a user has stored, decrypted. -/
structure StoredKeys where
  groq : Option String := none
  anthropic : Option String := none
  deriving DecidableEq

/-- `BYOContext`. -/
structure BYOContext where
  userId : String
  groqKey : Option String
  anthropicKey : Option String
  deriving DecidableEq

/-- `has_any_key`. -/
def BYOContext.hasAnyKey (ctx : BYOContext) : Bool := truthy ctx.groqKey || truthy ctx.anthropicKey

/-- The columns of a user's row that are read here. -/
structure UserRow where
  chatRequestCount : Nat
  byoMonthlyLimit : Nat
  deriving DecidableEq

/-- `int(user_row.get("byo_monthly_limit", 100) or 100)`. -/
def UserRow.monthlyLimit (row : UserRow) : Nat :=
  if row.byoMonthlyLimit = 0 then 100 else row.byoMonthlyLimit

/-! ## Counters -/

/-- A Redis counter, with the time it expires at. -/
structure Counter where
  value : Int
  expiresAt : Option Nat
  deriving DecidableEq

/-- The counters by key. -/
structure Counters where
  entry : String → Option Counter

namespace Counters

/-- The entry of a key unless it has expired. -/
def live (c : Counters) (now : Nat) (key : String) : Option Counter :=
  -- an expired key reads as if it was never set
  (c.entry key).filter fun counter => counter.expiresAt.all (now < ·)

/-- `read_byo_month_used` of a key: `int(v) if v else 0`. -/
def used (c : Counters) (now : Nat) (key : String) : Int := ((c.live now key).map (·.value)).getD 0

def put (c : Counters) (key : String) (counter : Counter) : Counters where
  entry k := if k = key then some counter else c.entry k

/-- `incr` of `cache.py` with a `ttl`: `INCRBY` and `EXPIRE`. -/
def incr (c : Counters) (now : Nat) (key : String) (n : Int) (ttl : Nat) : Int × Counters :=
  -- every increment sets the expiry anew
  let value := c.used now key + n
  (value, c.put key ⟨value, some (now + ttl)⟩)

/-- `decr` of `cache.py`: `DECRBY`, which leaves the expiry alone. -/
def decr (c : Counters) (now : Nat) (key : String) (n : Int) : Counters :=
  c.put key ⟨c.used now key - n, (c.live now key).bind (·.expiresAt)⟩

@[simp]
theorem entry_put (c : Counters) (key k : String) (counter : Counter) :
    (c.put key counter).entry k = if k = key then some counter else c.entry k := rfl

theorem entry_incr_of_ne (c : Counters) (now : Nat) {key k : String} (n : Int) (ttl : Nat)
    (h : k ≠ key) : (c.incr now key n ttl).2.entry k = c.entry k := by
  simp only [incr, entry_put, h, if_false]

theorem entry_decr_of_ne (c : Counters) (now : Nat) {key k : String} (n : Int) (h : k ≠ key) :
    (c.decr now key n).entry k = c.entry k := by
  simp only [decr, entry_put, h, if_false]

theorem live_eq {c : Counters} {now e : Nat} {key : String} {value : Int}
    (h : c.entry key = some ⟨value, some e⟩) (he : now < e) :
    c.live now key = some ⟨value, some e⟩ := by
  simp [live, h, he, Option.filter]

end Counters

/-- `_month_key`, from the month. -/
def monthKey (userId : String) (month : Nat) : String :=
  "byo:month_counter:" ++ userId ++ ":" ++ monthText month

theorem toList_joined (base userId text : String) :
    (base ++ userId ++ ":" ++ text).toList =
      (base.toList ++ userId.toList) ++ ':' :: text.toList := by
  have hcolon : ":".toList = [':'] := rfl
  simp only [String.toList_append, hcolon, List.append_assoc, List.singleton_append]

theorem joined_inj {base u v : String} {m n : Nat}
    (h : base ++ u ++ ":" ++ monthText m = base ++ v ++ ":" ++ monthText n) : u = v ∧ m = n := by
  have hlists := congrArg String.toList h
  rw [toList_joined, toList_joined] at hlists
  obtain ⟨husers, hmonths⟩ := append_cons_inj_of_notMem_right (colon_notMem_monthText m)
    (colon_notMem_monthText n) hlists
  exact ⟨String.toList_inj.mp (List.append_cancel_left husers), monthText_inj hmonths⟩

theorem monthKey_inj {u v : String} {m n : Nat} (h : monthKey u m = monthKey v n) :
    u = v ∧ m = n := joined_inj h

theorem monthKey_ne {u v : String} {m n : Nat} (h : u ≠ v ∨ m ≠ n) :
    monthKey u m ≠ monthKey v n := by
  intro hkeys
  obtain ⟨huser, hmonth⟩ := monthKey_inj hkeys
  rcases h with h | h
  · exact h huser
  · exact h hmonth

/-! ## The pieces of a resolution -/

/-- What reading the user's row comes to: an exception, or the row if there is one. -/
inductive RowRead where
  | failed
  | read (row : Option UserRow)

/-- What the checks before the keys come to. -/
inductive Admission where
  | platform
  | readKeys (limit : Nat)
  deriving DecidableEq

/-- `resolve_byo_for_chat` up to the reading of the keys. -/
def resolveByoForChat (role : Role) (chatRequestCount byoMonthlyLimit : Nat) : Admission :=
  if role = .superuser then .platform
  else if chatRequestCount < freeAllowanceLimit then .platform
  else .readKeys byoMonthlyLimit

/-- `_resolve_byo_for_request`. -/
def resolveByoForRequest (role : Role) (read : RowRead) : Admission :=
  if role = .superuser then .platform
  else
    match read with
    -- an exception is logged and `None` is returned, as for a missing row
    | .failed => .platform
    | .read none => .platform
    | .read (some row) => resolveByoForChat role row.chatRequestCount row.monthlyLimit

/-- The resolution of a WebSocket turn. -/
def resolveByoForSocket (role : Role) (read : RowRead) : Admission :=
  match read with
  | .failed => .platform
  | .read none => .platform
  | .read (some row) => resolveByoForChat role row.chatRequestCount row.monthlyLimit

theorem resolveByoForSocket_eq (role : Role) (read : RowRead) :
    resolveByoForSocket role read = resolveByoForRequest role read := by
  by_cases hrole : role = .superuser
  · rcases read with _ | _ | row <;>
      simp [resolveByoForSocket, resolveByoForRequest, resolveByoForChat, hrole]
  · simp [resolveByoForSocket, resolveByoForRequest, hrole]

inductive Transport where
  | http
  | webSocket
  deriving DecidableEq

def Transport.resolve : Transport → Role → RowRead → Admission
  | .http => resolveByoForRequest
  | .webSocket => resolveByoForSocket

theorem resolve_eq_readKeys {t : Transport} {role : Role} {read : RowRead} {limit : Nat}
    (h : t.resolve role read = .readKeys limit) :
    role ≠ .superuser ∧ ∃ row, read = .read (some row) ∧
      freeAllowanceLimit ≤ row.chatRequestCount ∧ limit = row.monthlyLimit := by
  have hrequest : resolveByoForRequest role read = .readKeys limit := by
    cases t with
    | http => exact h
    | webSocket => exact resolveByoForSocket_eq role read ▸ h
  simp only [resolveByoForRequest] at hrequest
  split at hrequest
  · cases hrequest
  · rename_i hrole
    refine ⟨hrole, ?_⟩
    rcases read with _ | _ | row
    · cases hrequest
    · cases hrequest
    · simp only [resolveByoForChat, hrole, if_false] at hrequest
      split at hrequest
      · cases hrequest
      · exact ⟨row, rfl, by omega, (Admission.readKeys.inj hrequest).symm⟩

theorem resolve_eq_platform {t : Transport} {role : Role} {row : UserRow} (hrole : role ≠ .superuser)
    (h : t.resolve role (.read (some row)) = .platform) :
    row.chatRequestCount < freeAllowanceLimit := by
  by_contra hcount
  have hreads : t.resolve role (.read (some row)) = .readKeys row.monthlyLimit := by
    cases t <;> simp [Transport.resolve, resolveByoForRequest, resolveByoForSocket,
      resolveByoForChat, hrole, hcount]
  rw [hreads] at h
  cases h

end AsetPlatform.Byo

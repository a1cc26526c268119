import AsetPlatform.Byo.Resolve
import AsetPlatform.Library.Run
import AsetPlatform.Library.Threads

/-!
# Runs of chat turns

Turns of any users interleave between the points where a turn awaits the database or Redis. A turn
is resolved, served, and, when it was served with the platform's keys and ends well, counted in the
user's `chat_request_count`.

The monthly limit: the counter of the month holds the turns that were granted the user's own keys
and those above the limit that have not been taken back yet (`Metered`), so at most the limit is
granted. The limit is the stored one unless it is 0, which the callers read as 100
(`monthlyLimit_kept_iff`).

The free allowance: the count is read when a turn starts and written when it has ended, so turns
that start in between, and turns that never end well, are served for nothing
(`concurrent_turns_overspend`). It holds in runs where each turn starts after the earlier ones of
its user were counted (`freeAllowance_kept`).
-/

set_option autoImplicit false

namespace AsetPlatform.Byo

open AsetPlatform.Library
open AsetPlatform.Billing (Role truthy)

/-! ## Turns and the world -/

/-- The keys a turn is served with: the platform's, or the user's own, granted in a month. -/
inductive Access where
  | platform
  | own (ctx : BYOContext) (month : Nat)
  deriving DecidableEq

/-- Where a turn is. -/
inductive Phase where
  /-- About to read the stored keys. -/
  | readingKeys (limit : Nat)
  /-- About to count itself in the month's counter. -/
  | counting (limit : Nat) (keys : StoredKeys)
  /-- Counted above the limit; about to take that back. -/
  | exceeded (month : Nat)
  | refused
  | serving (access : Access)
  /-- Served with the platform's keys; the count is about to be bumped. -/
  | bumping
  | done (access : Access) (counted : Bool)
  deriving DecidableEq

structure Turn where
  userId : String
  role : Role
  phase : Phase

structure World where
  now : Nat
  users : String → Option UserRow
  /-- The keys each user has stored, the latest first. -/
  stored : String → List StoredKeys
  counters : Counters
  turns : List Turn

def World.keys (w : World) (userId : String) : StoredKeys := (w.stored userId).headD {}

/-- No turn has begun and nothing is counted. -/
def World.Fresh (w : World) : Prop := w.turns = [] ∧ ∀ key, w.counters.entry key = none

inductive TurnStep where
  | elapse (seconds : Nat)
  | storeKeys (userId : String) (keys : StoredKeys)
  /-- A turn arrives and its user's row is read, if that does not fail. -/
  | start (transport : Transport) (userId : String) (role : Role) (fails : Bool)
  | readKeys (k : Nat) (fails : Bool)
  | count (k : Nat)
  | rollBack (k : Nat)
  /-- The turn ends, with a reply or with an error or a timeout. -/
  | finish (k : Nat) (ok : Bool)
  | bump (k : Nat) (ok : Bool)

/-! ## Steps -/

/-- The phase of a turn that was admitted. -/
def Admission.phase : Admission → Phase
  | .platform => .serving .platform
  | .readKeys limit => .readingKeys limit

/-- The phase after the keys are read: an exception leaves the platform's, no usable key is
refused. -/
def afterKeys (limit : Nat) (fails : Bool) (keys : StoredKeys) : Phase :=
  if fails then .serving .platform
  else if truthy keys.groq || truthy keys.anthropic then .counting limit keys
  else .refused

/-- The phase after the turn ends. -/
def afterServing (role : Role) (access : Access) (ok : Bool) : Phase :=
  if ok ∧ access = .platform ∧ role ≠ .superuser then .bumping else .done access false

namespace World

def addTurn (w : World) (t : Turn) : World := { w with turns := w.turns ++ [t] }

def setPhase (w : World) (k : Nat) (t : Turn) (phase : Phase) : World :=
  { w with turns := w.turns.set k { t with phase := phase } }

/-- `_check_and_increment_byo_counter` up to the refusal. -/
def checkAndIncrement (w : World) (k : Nat) (t : Turn) (limit : Nat) (keys : StoredKeys) : World :=
  let month := istMonth w.now
  let (newCount, counters) := w.counters.incr w.now (monthKey t.userId month) 1 counterTtl
  let w := { w with counters := counters }
  if newCount > limit then w.setPhase k t (.exceeded month)
  else w.setPhase k t (.serving (.own ⟨t.userId, keys.groq, keys.anthropic⟩ month))

/-- The rest of `_check_and_increment_byo_counter`. -/
def takeBack (w : World) (k : Nat) (t : Turn) (month : Nat) : World :=
  let w := { w with counters := w.counters.decr w.now (monthKey t.userId month) 1 }
  w.setPhase k t .refused

/-- `increment_chat_counter`. -/
def incrementChatCounter (w : World) (userId : String) : World :=
  { w with
    users := fun u =>
      if u = userId then
        (w.users u).map fun row => { row with chatRequestCount := row.chatRequestCount + 1 }
      else w.users u }

/-- `_bump_chat_counter`, which swallows exceptions. -/
def bumpChatCounter (w : World) (k : Nat) (t : Turn) (ok : Bool) : World :=
  (if ok then w.incrementChatCounter t.userId else w).setPhase k t (.done .platform ok)

def step (w : World) : TurnStep → World
  | .elapse seconds => { w with now := w.now + seconds }
  | .storeKeys userId keys =>
      { w with stored := fun u => if u = userId then keys :: w.stored u else w.stored u }
  | .start transport userId role fails =>
      let read := if fails then .failed else .read (w.users userId)
      w.addTurn ⟨userId, role, (transport.resolve role read).phase⟩
  | .readKeys k fails =>
      match w.turns[k]? with
      | some ⟨u, r, .readingKeys limit⟩ =>
          w.setPhase k ⟨u, r, .readingKeys limit⟩ (afterKeys limit fails (w.keys u))
      | _ => w
  | .count k =>
      match w.turns[k]? with
      | some ⟨u, r, .counting limit keys⟩ =>
          w.checkAndIncrement k ⟨u, r, .counting limit keys⟩ limit keys
      | _ => w
  | .rollBack k =>
      match w.turns[k]? with
      | some ⟨u, r, .exceeded month⟩ => w.takeBack k ⟨u, r, .exceeded month⟩ month
      | _ => w
  | .finish k ok =>
      match w.turns[k]? with
      | some ⟨u, r, .serving access⟩ =>
          w.setPhase k ⟨u, r, .serving access⟩ (afterServing r access ok)
      | _ => w
  | .bump k ok =>
      match w.turns[k]? with
      | some ⟨u, r, .bumping⟩ => w.bumpChatCounter k ⟨u, r, .bumping⟩ ok
      | _ => w

/-- What a step can do. -/
inductive Does (w : World) : TurnStep → World → Prop
  | idle (e : TurnStep) : Does w e w
  | elapsed (seconds : Nat) : Does w (.elapse seconds) { w with now := w.now + seconds }
  | stored (userId : String) (keys : StoredKeys) :
      Does w (.storeKeys userId keys)
        { w with stored := fun u => if u = userId then keys :: w.stored u else w.stored u }
  | started (transport : Transport) (userId : String) (role : Role) (fails : Bool) :
      Does w (.start transport userId role fails)
        (w.addTurn ⟨userId, role,
          (transport.resolve role (if fails then .failed else .read (w.users userId))).phase⟩)
  | readKeys {k : Nat} {t : Turn} {limit : Nat} (fails : Bool) (hturn : w.turns[k]? = some t)
      (hphase : t.phase = .readingKeys limit) :
      Does w (.readKeys k fails) (w.setPhase k t (afterKeys limit fails (w.keys t.userId)))
  | counted {k : Nat} {t : Turn} {limit : Nat} {keys : StoredKeys} (hturn : w.turns[k]? = some t)
      (hphase : t.phase = .counting limit keys) :
      Does w (.count k) (w.checkAndIncrement k t limit keys)
  | tookBack {k : Nat} {t : Turn} {month : Nat} (hturn : w.turns[k]? = some t)
      (hphase : t.phase = .exceeded month) : Does w (.rollBack k) (w.takeBack k t month)
  | finished {k : Nat} {t : Turn} {access : Access} (ok : Bool) (hturn : w.turns[k]? = some t)
      (hphase : t.phase = .serving access) :
      Does w (.finish k ok) (w.setPhase k t (afterServing t.role access ok))
  | bumped {k : Nat} {t : Turn} (ok : Bool) (hturn : w.turns[k]? = some t)
      (hphase : t.phase = .bumping) : Does w (.bump k ok) (w.bumpChatCounter k t ok)

theorem does_step (w : World) (e : TurnStep) : w.Does e (w.step e) := by
  cases e with
  | elapse seconds => exact .elapsed seconds
  | storeKeys userId keys => exact .stored userId keys
  | start transport userId role fails => exact .started transport userId role fails
  | readKeys k fails =>
      simp only [step]
      split
      · rename_i hturn
        exact .readKeys fails hturn rfl
      · exact .idle _
  | count k =>
      simp only [step]
      split
      · rename_i hturn
        exact .counted hturn rfl
      · exact .idle _
  | rollBack k =>
      simp only [step]
      split
      · rename_i hturn
        exact .tookBack hturn rfl
      · exact .idle _
  | finish k ok =>
      simp only [step]
      split
      · rename_i hturn
        exact .finished ok hturn rfl
      · exact .idle _
  | bump k ok =>
      simp only [step]
      split
      · rename_i hturn
        exact .bumped ok hturn rfl
      · exact .idle _

end World

/-! ## Counting turns -/

namespace Phase

/-- The turn was granted the user's own keys in the month. -/
def grantedIn (month : Nat) : Phase → Bool
  | serving (.own _ m) => m = month
  | done (.own _ m) _ => m = month
  | _ => false

/-- The turn counted itself above the limit in the month and has not taken that back. -/
def overIn (month : Nat) : Phase → Bool
  | exceeded m => m = month
  | _ => false

/-- The turn is at its end. -/
def finished : Phase → Bool
  | refused => true
  | done _ _ => true
  | _ => false

/-- The turn is or was served with the platform's keys. -/
def onPlatform : Phase → Bool
  | serving .platform => true
  | bumping => true
  | done .platform _ => true
  | _ => false

/-- The turn is in the user's `chat_request_count`. -/
def isCounted : Phase → Bool
  | done .platform counted => counted
  | _ => false

/-- The monthly limit the turn goes by. -/
def limit? : Phase → Option Nat
  | readingKeys limit => some limit
  | counting limit _ => some limit
  | _ => none

end Phase

/-! What the phases that the steps compute come to. -/

@[simp]
theorem admission_grantedIn (admission : Admission) (month : Nat) :
    admission.phase.grantedIn month = false := by
  cases admission <;> rfl

@[simp]
theorem admission_overIn (admission : Admission) (month : Nat) :
    admission.phase.overIn month = false := by
  cases admission <;> rfl

theorem Admission.of_limit {admission : Admission} {limit : Nat}
    (h : admission.phase.limit? = some limit) : admission = .readKeys limit := by
  cases admission with
  | platform => cases h
  | readKeys l => rw [Option.some.inj h]

/-- The keys decide among the platform's keys, the counting and the refusal. -/
theorem afterKeys_cases (limit : Nat) (fails : Bool) (keys : StoredKeys) :
    (fails = true ∧ afterKeys limit fails keys = .serving .platform) ∨
      (fails = false ∧ (truthy keys.groq || truthy keys.anthropic) = true ∧
        afterKeys limit fails keys = .counting limit keys) ∨
      (fails = false ∧ (truthy keys.groq || truthy keys.anthropic) = false ∧
        afterKeys limit fails keys = .refused) := by
  cases fails <;> cases h : truthy keys.groq || truthy keys.anthropic <;> simp [afterKeys, h]

@[simp]
theorem afterKeys_grantedIn (limit : Nat) (fails : Bool) (keys : StoredKeys) (month : Nat) :
    (afterKeys limit fails keys).grantedIn month = false := by
  rcases afterKeys_cases limit fails keys with ⟨-, h⟩ | ⟨-, -, h⟩ | ⟨-, -, h⟩
  all_goals rw [h]; rfl

@[simp]
theorem afterKeys_overIn (limit : Nat) (fails : Bool) (keys : StoredKeys) (month : Nat) :
    (afterKeys limit fails keys).overIn month = false := by
  rcases afterKeys_cases limit fails keys with ⟨-, h⟩ | ⟨-, -, h⟩ | ⟨-, -, h⟩
  all_goals rw [h]; rfl

theorem afterKeys_limit {limit : Nat} {fails : Bool} {keys : StoredKeys} {l : Nat}
    (h : (afterKeys limit fails keys).limit? = some l) : l = limit := by
  rcases afterKeys_cases limit fails keys with ⟨-, hphase⟩ | ⟨-, -, hphase⟩ | ⟨-, -, hphase⟩
  all_goals rw [hphase] at h
  · cases h
  · exact (Option.some.inj h).symm
  · cases h

@[simp]
theorem afterServing_grantedIn (role : Role) (access : Access) (ok : Bool) (month : Nat) :
    (afterServing role access ok).grantedIn month = (Phase.serving access).grantedIn month := by
  simp only [afterServing]
  split
  · rename_i h
    rw [h.2.1]
    rfl
  · cases access <;> rfl

@[simp]
theorem afterServing_overIn (role : Role) (access : Access) (ok : Bool) (month : Nat) :
    (afterServing role access ok).overIn month = false := by
  simp only [afterServing]
  split <;> rfl

@[simp]
theorem afterServing_limit (role : Role) (access : Access) (ok : Bool) :
    (afterServing role access ok).limit? = none := by
  simp only [afterServing]
  split <;> rfl

namespace World

/-- The user's turns granted their own keys in a month. -/
def granted (w : World) (userId : String) (month : Nat) : Nat :=
  w.turns.countP fun t => t.userId = userId && t.phase.grantedIn month

/-- The user's turns counted above the limit in a month and not taken back. -/
def overs (w : World) (userId : String) (month : Nat) : Nat :=
  w.turns.countP fun t => t.userId = userId && t.phase.overIn month

/-- The user's non-superuser turns served with the platform's keys. -/
def platformServed (w : World) (userId : String) : Nat :=
  w.turns.countP fun t => t.userId = userId && (t.role ≠ .superuser && t.phase.onPlatform)

/-- The user's turns that were counted. -/
def counted (w : World) (userId : String) : Nat :=
  w.turns.countP fun t => t.userId = userId && t.phase.isCounted

/-- No turn of the user is in progress. -/
def Quiet (w : World) (userId : String) : Prop :=
  ∀ t ∈ w.turns, t.userId = userId → t.phase.finished

instance (w : World) (userId : String) : Decidable (w.Quiet userId) :=
  inferInstanceAs (Decidable (∀ t ∈ w.turns, _ → _))

/-- At most `limit` turns of a month are granted, and when no turn of the user is in progress the
counter of the current month is the number of them. -/
def WithinLimit (userId : String) (limit : Nat) (w : World) : Prop :=
  (∀ month, w.granted userId month ≤ limit) ∧
    (w.Quiet userId →
      w.counters.used w.now (monthKey userId (istMonth w.now)) =
        w.granted userId (istMonth w.now))

theorem granted_addTurn (w : World) {t : Turn} (userId : String) {month : Nat}
    (h : t.phase.grantedIn month = false) :
    (w.addTurn t).granted userId month = w.granted userId month := by
  simp [granted, addTurn, h]

theorem overs_addTurn (w : World) {t : Turn} (userId : String) {month : Nat}
    (h : t.phase.overIn month = false) :
    (w.addTurn t).overs userId month = w.overs userId month := by
  simp [overs, addTurn, h]

section SetPhase

variable {w : World} {k : Nat} {t : Turn} {phase : Phase} (userId : String) (month : Nat)

theorem granted_setPhase (phase : Phase) (hturn : w.turns[k]? = some t) :
    (w.setPhase k t phase).granted userId month +
        (if t.userId = userId && t.phase.grantedIn month then 1 else 0) =
      w.granted userId month + if t.userId = userId && phase.grantedIn month then 1 else 0 :=
  countP_set_add hturn

theorem overs_setPhase (phase : Phase) (hturn : w.turns[k]? = some t) :
    (w.setPhase k t phase).overs userId month +
        (if t.userId = userId && t.phase.overIn month then 1 else 0) =
      w.overs userId month + if t.userId = userId && phase.overIn month then 1 else 0 :=
  countP_set_add hturn

theorem granted_setPhase_of_eq (hturn : w.turns[k]? = some t)
    (hphase : phase.grantedIn month = t.phase.grantedIn month) :
    (w.setPhase k t phase).granted userId month = w.granted userId month :=
  countP_set_of_eq hturn (by simp only [hphase])

theorem overs_setPhase_of_eq (hturn : w.turns[k]? = some t)
    (hphase : phase.overIn month = t.phase.overIn month) :
    (w.setPhase k t phase).overs userId month = w.overs userId month :=
  countP_set_of_eq hturn (by simp only [hphase])

theorem granted_setPhase_other (hturn : w.turns[k]? = some t) (hother : t.userId ≠ userId) :
    (w.setPhase k t phase).granted userId month = w.granted userId month :=
  countP_set_of_eq hturn (by simp only [hother, decide_false, Bool.false_and])

theorem overs_setPhase_other (hturn : w.turns[k]? = some t) (hother : t.userId ≠ userId) :
    (w.setPhase k t phase).overs userId month = w.overs userId month :=
  countP_set_of_eq hturn (by simp only [hother, decide_false, Bool.false_and])

theorem counted_setPhase_of_eq (hturn : w.turns[k]? = some t)
    (hphase : t.userId = userId → phase.isCounted = t.phase.isCounted) :
    (w.setPhase k t phase).counted userId = w.counted userId :=
  countP_set_of_eq hturn (by
    by_cases huser : t.userId = userId
    · simp only [hphase huser]
    · simp only [huser, decide_false, Bool.false_and])

theorem platformServed_setPhase_of_eq (hturn : w.turns[k]? = some t)
    (hphase : t.userId = userId → t.role ≠ .superuser → phase.onPlatform = t.phase.onPlatform) :
    (w.setPhase k t phase).platformServed userId = w.platformServed userId :=
  countP_set_of_eq hturn (by
    by_cases huser : t.userId = userId
    · by_cases hrole : t.role = .superuser
      · simp only [hrole, ne_eq, not_true, decide_false, Bool.false_and]
      · simp only [hphase huser hrole]
    · simp only [huser, decide_false, Bool.false_and])

end SetPhase

end World

/-! ## The monthly limit -/

namespace World

/-- The counter of a month, if it was ever set, holds the turns granted and those to be taken back,
and was last set in that month. -/
def Tracked (w : World) (userId : String) (month : Nat) : Prop :=
  (w.counters.entry (monthKey userId month) = none ∧
      w.granted userId month + w.overs userId month = 0) ∨
    ∃ since ≤ w.now, istMonth since = month ∧
      w.counters.entry (monthKey userId month) =
        some ⟨((w.granted userId month + w.overs userId month : Nat) : Int),
          some (since + counterTtl)⟩

/-- The invariant: the user's turns go by the limit, no month is granted more, and the counters of
the current and of later months are tracked. -/
structure Metered (userId : String) (limit : Nat) (w : World) : Prop where
  row : ∀ row, w.users userId = some row → row.monthlyLimit = limit
  limits : ∀ t ∈ w.turns, t.userId = userId → ∀ l, t.phase.limit? = some l → l = limit
  granted_le : ∀ month, w.granted userId month ≤ limit
  tracked : ∀ month, istMonth w.now ≤ month → w.Tracked userId month

theorem Tracked.of_eq {w w' : World} {userId : String} {month : Nat} (h : w.Tracked userId month)
    (hnow : w.now ≤ w'.now)
    (hentry : w'.counters.entry (monthKey userId month) =
      w.counters.entry (monthKey userId month))
    (hgranted : w'.granted userId month = w.granted userId month)
    (hovers : w'.overs userId month = w.overs userId month) : w'.Tracked userId month := by
  simp only [Tracked, hentry, hgranted, hovers]
  rcases h with h | ⟨since, hsince, hmonth, hcounter⟩
  · exact Or.inl h
  · exact Or.inr ⟨since, le_trans hsince hnow, hmonth, hcounter⟩

theorem lt_add_counterTtl {since now : Nat} (h : istMonth since = istMonth now) :
    now < since + counterTtl := by
  have hmonth := lt_of_monthAt_eq h
  simp only [counterTtl]
  omega

theorem Tracked.used {w : World} {userId : String} (h : w.Tracked userId (istMonth w.now)) :
    w.counters.used w.now (monthKey userId (istMonth w.now)) =
      (w.granted userId (istMonth w.now) + w.overs userId (istMonth w.now) : Nat) := by
  -- a counter that was never set reads as 0, one of this month has not expired
  rcases h with ⟨hentry, hsum⟩ | ⟨since, hsince, hmonth, hentry⟩
  · simp [Counters.used, Counters.live, hentry, hsum]
  · have hlive := Counters.live_eq hentry (lt_add_counterTtl hmonth)
    simp [Counters.used, hlive]

theorem Tracked.expiresAt {w : World} {userId : String} (h : w.Tracked userId (istMonth w.now))
    (hpos : 0 < w.granted userId (istMonth w.now) + w.overs userId (istMonth w.now)) :
    ∃ since ≤ w.now, istMonth since = istMonth w.now ∧
      (w.counters.live w.now (monthKey userId (istMonth w.now))).bind (·.expiresAt) =
        some (since + counterTtl) := by
  rcases h with ⟨-, hsum⟩ | ⟨since, hsince, hmonth, hentry⟩
  · omega
  · refine ⟨since, hsince, hmonth, ?_⟩
    rw [Counters.live_eq hentry (lt_add_counterTtl hmonth)]
    rfl

namespace Metered

variable {userId : String} {limit : Nat} {w : World} {k : Nat} {t : Turn}

/-- A turn whose phase changes without a grant and without touching a counter. -/
theorem setPhase {phase : Phase} (h : w.Metered userId limit) (hturn : w.turns[k]? = some t)
    (hgranted : ∀ month, phase.grantedIn month = t.phase.grantedIn month)
    (hover : ∀ month, phase.overIn month = t.phase.overIn month)
    (hlimit : t.userId = userId → ∀ l, phase.limit? = some l → l = limit) :
    (w.setPhase k t phase).Metered userId limit where
  row := h.row
  limits := forall_mem_set h.limits hlimit
  granted_le month := by
    rw [granted_setPhase_of_eq userId month hturn (hgranted month)]
    exact h.granted_le month
  tracked month hmonth :=
    (h.tracked month hmonth).of_eq le_rfl rfl
      (granted_setPhase_of_eq userId month hturn (hgranted month))
      (overs_setPhase_of_eq userId month hturn (hover month))

/-- A counter of another user, and a turn of theirs that moves. -/
theorem setPhase_other {phase : Phase} {counters : Counters} (h : w.Metered userId limit)
    (hturn : w.turns[k]? = some t) (hother : t.userId ≠ userId)
    (hentry : ∀ month, counters.entry (monthKey userId month) =
      w.counters.entry (monthKey userId month)) :
    ({ w with counters := counters }.setPhase k t phase).Metered userId limit where
  row := h.row
  limits := forall_mem_set h.limits fun heq => absurd heq hother
  granted_le month :=
    le_of_eq_of_le (granted_setPhase_other userId month hturn hother) (h.granted_le month)
  tracked month hmonth :=
    (h.tracked month hmonth).of_eq le_rfl (hentry month)
      (granted_setPhase_other userId month hturn hother)
      (overs_setPhase_other userId month hturn hother)

/-- The counter of the current month is set to the turns that hold it. -/
theorem setCounter {phase : Phase} {counters : Counters} {since : Nat}
    (h : w.Metered userId limit) (hturn : w.turns[k]? = some t) (hsince : since ≤ w.now)
    (hmonth : istMonth since = istMonth w.now)
    (hother : ∀ month, month ≠ istMonth w.now →
      counters.entry (monthKey userId month) = w.counters.entry (monthKey userId month) ∧
        phase.grantedIn month = t.phase.grantedIn month ∧
        phase.overIn month = t.phase.overIn month)
    (hentry : counters.entry (monthKey userId (istMonth w.now)) =
      some ⟨(((w.setPhase k t phase).granted userId (istMonth w.now) +
        (w.setPhase k t phase).overs userId (istMonth w.now) : Nat) : Int),
          some (since + counterTtl)⟩)
    (hle : (w.setPhase k t phase).granted userId (istMonth w.now) ≤ limit)
    (hlimit : phase.limit? = none) :
    ({ w with counters := counters }.setPhase k t phase).Metered userId limit where
  row := h.row
  limits := forall_mem_set h.limits fun _ l hl => by
    rw [hlimit] at hl
    cases hl
  granted_le month := by
    by_cases hnow : month = istMonth w.now
    · rw [hnow]
      exact hle
    · have hgranted : (w.setPhase k t phase).granted userId month = w.granted userId month :=
        granted_setPhase_of_eq userId month hturn (hother month hnow).2.1
      exact le_of_eq_of_le hgranted (h.granted_le month)
  -- the counter just set, and those of later months, which nothing touched
  tracked month hlater := by
    by_cases hnow : month = istMonth w.now
    · subst hnow
      exact Or.inr ⟨since, hsince, hmonth, hentry⟩
    · obtain ⟨hcounter, hgranted, hover⟩ := hother month hnow
      exact (h.tracked month hlater).of_eq le_rfl hcounter
        (granted_setPhase_of_eq userId month hturn hgranted)
        (overs_setPhase_of_eq userId month hturn hover)

/-- The counting of a turn: below the limit it is granted, above it is to be taken back, and either
way the counter has one more. -/
theorem checkAndIncrement {l : Nat} {keys : StoredKeys} (h : w.Metered userId limit)
    (hturn : w.turns[k]? = some t) (hphase : t.phase = .counting l keys) :
    (w.checkAndIncrement k t l keys).Metered userId limit := by
  by_cases huser : t.userId = userId
  · have hl : l = limit :=
      h.limits t (List.mem_of_getElem? hturn) huser l (by rw [hphase]; rfl)
    -- what the increment reads is the number of turns that hold the counter
    have hused := (h.tracked _ le_rfl).used
    subst hl huser
    -- the keys of the other months are other keys
    have hother : ∀ month, month ≠ istMonth w.now →
        (w.counters.incr w.now (monthKey t.userId (istMonth w.now)) 1 counterTtl).2.entry
          (monthKey t.userId month) = w.counters.entry (monthKey t.userId month) :=
      fun month hmonth => Counters.entry_incr_of_ne _ _ _ _ (monthKey_ne (Or.inr hmonth))
    have hgranted := fun phase => granted_setPhase t.userId (istMonth w.now) phase hturn
    have hovers := fun phase => overs_setPhase t.userId (istMonth w.now) phase hturn
    simp only [hphase, Phase.grantedIn, Phase.overIn, Bool.and_false, Bool.false_eq_true, if_false,
      Nat.add_zero] at hgranted hovers
    simp only [World.checkAndIncrement]
    split
    -- refused: one more to be taken back, no more granted
    · have hg : (w.setPhase k t (.exceeded (istMonth w.now))).granted t.userId (istMonth w.now) =
          w.granted t.userId (istMonth w.now) := by simpa using hgranted (.exceeded (istMonth w.now))
      have ho : (w.setPhase k t (.exceeded (istMonth w.now))).overs t.userId (istMonth w.now) =
          w.overs t.userId (istMonth w.now) + 1 := by simpa using hovers (.exceeded (istMonth w.now))
      apply h.setCounter hturn le_rfl rfl
      · intro month hmonth
        refine ⟨hother month hmonth, ?_, ?_⟩
        · simp [hphase, Phase.grantedIn]
        · simp [hphase, Phase.overIn, Ne.symm hmonth]
      · simp only [Counters.incr, Counters.entry_put, if_true, hused, hg, ho]
        push_cast
        rw [Int.add_assoc]
      · rw [hg]
        exact h.granted_le _
      · rfl
    · rename_i hbelow
      -- granted: the count before was below the limit
      have hg : ∀ ctx, (w.setPhase k t (.serving (.own ctx (istMonth w.now)))).granted t.userId
          (istMonth w.now) = w.granted t.userId (istMonth w.now) + 1 := fun ctx => by
        simpa using hgranted (.serving (.own ctx (istMonth w.now)))
      have ho : ∀ ctx, (w.setPhase k t (.serving (.own ctx (istMonth w.now)))).overs t.userId
          (istMonth w.now) = w.overs t.userId (istMonth w.now) := fun ctx => by
        simpa using hovers (.serving (.own ctx (istMonth w.now)))
      apply h.setCounter hturn le_rfl rfl
      · intro month hmonth
        refine ⟨hother month hmonth, ?_, ?_⟩
        · simp [hphase, Phase.grantedIn, Ne.symm hmonth]
        · simp [hphase, Phase.overIn]
      · simp only [Counters.incr, Counters.entry_put, if_true, hused, hg, ho]
        push_cast
        rw [Int.add_right_comm]
      · rw [hg]
        simp only [Counters.incr, hused] at hbelow
        omega
      · rfl
  -- a turn of another user counts under another key
  · simp only [World.checkAndIncrement]
    have hentry : ∀ month,
        (w.counters.incr w.now (monthKey t.userId (istMonth w.now)) 1 counterTtl).2.entry
          (monthKey userId month) = w.counters.entry (monthKey userId month) :=
      fun month => Counters.entry_incr_of_ne _ _ _ _ (monthKey_ne (Or.inl (Ne.symm huser)))
    split
    · exact h.setPhase_other hturn huser hentry
    · exact h.setPhase_other hturn huser hentry

theorem month_le {month : Nat} (h : w.Metered userId limit) (hturn : w.turns[k]? = some t)
    (huser : t.userId = userId) (hphase : t.phase = .exceeded month) : month ≤ istMonth w.now := by
  by_contra hlater
  have hpos : 0 < w.overs userId month :=
    List.countP_pos_iff.mpr ⟨t, List.mem_of_getElem? hturn, by
      simp [huser, hphase, Phase.overIn]⟩
  -- a later month would be tracked, but its counter can only have been set in a later month
  rcases h.tracked month (by omega) with ⟨-, hsum⟩ | ⟨since, hsince, hmonth, -⟩
  · omega
  · have hmono : istMonth since ≤ istMonth w.now := monthAt_mono istOffset hsince
    omega

theorem takeBack {month : Nat} (h : w.Metered userId limit) (hturn : w.turns[k]? = some t)
    (hphase : t.phase = .exceeded month) : (w.takeBack k t month).Metered userId limit := by
  simp only [World.takeBack]
  by_cases huser : t.userId = userId
  · subst huser
    have hother : ∀ m, m ≠ month →
        (w.counters.decr w.now (monthKey t.userId month) 1).entry (monthKey t.userId m) =
          w.counters.entry (monthKey t.userId m) :=
      fun m hm => Counters.entry_decr_of_ne _ _ _ (monthKey_ne (Or.inr hm))
    have hphases : ∀ m, m ≠ month →
        Phase.refused.grantedIn m = t.phase.grantedIn m ∧
          Phase.refused.overIn m = t.phase.overIn m := fun m hm => by
      simp [hphase, Phase.grantedIn, Phase.overIn, Ne.symm hm]
    by_cases hnow : month = istMonth w.now
    · subst hnow
      have hg : (w.setPhase k t .refused).granted t.userId (istMonth w.now) =
          w.granted t.userId (istMonth w.now) :=
        granted_setPhase_of_eq _ _ hturn (by rw [hphase]; rfl)
      have ho : (w.setPhase k t .refused).overs t.userId (istMonth w.now) + 1 =
          w.overs t.userId (istMonth w.now) := by
        have hcount := overs_setPhase t.userId (istMonth w.now) .refused hturn
        simpa [hphase, Phase.overIn] using hcount
      -- the decrement keeps the expiry that the last increment set
      have htracked := h.tracked _ le_rfl
      obtain ⟨since, hsince, hmonth, hexpires⟩ := htracked.expiresAt (by omega)
      refine h.setCounter hturn hsince hmonth (fun m hm => ⟨hother m hm, hphases m hm⟩) ?_ ?_ rfl
      · simp only [Counters.decr, Counters.entry_put, if_true, htracked.used, hexpires, hg, ← ho]
        push_cast
        congr 2
        omega
      · rw [hg]
        exact h.granted_le _
    · -- the counter of a month that has ended, which is tracked no more
      have hbegun := h.month_le hturn rfl hphase
      have hgranted : ∀ m, Phase.refused.grantedIn m = t.phase.grantedIn m := fun m => by
        rw [hphase]
        rfl
      exact
        { row := h.row
          limits := forall_mem_set h.limits fun _ l hl => by cases hl
          granted_le := fun m =>
            le_of_eq_of_le (granted_setPhase_of_eq t.userId m hturn (hgranted m)) (h.granted_le m)
          tracked := fun m hm =>
            have hlater : istMonth w.now ≤ m := hm
            have hne : m ≠ month := fun heq => hnow (by omega)
            (h.tracked m hm).of_eq le_rfl (hother m hne)
              (granted_setPhase_of_eq t.userId m hturn (hgranted m))
              (overs_setPhase_of_eq t.userId m hturn (hphases m hne).2) }
  · have hentry : ∀ m, (w.counters.decr w.now (monthKey t.userId month) 1).entry
        (monthKey userId m) = w.counters.entry (monthKey userId m) :=
      fun m => Counters.entry_decr_of_ne _ _ _ (monthKey_ne (Or.inl (Ne.symm huser)))
    exact h.setPhase_other hturn huser hentry

/-- A turn that arrives grants nothing. -/
theorem addTurn (h : w.Metered userId limit)
    (hgranted : ∀ month, t.phase.grantedIn month = false)
    (hover : ∀ month, t.phase.overIn month = false)
    (hlimit : t.userId = userId → ∀ l, t.phase.limit? = some l → l = limit) :
    (w.addTurn t).Metered userId limit where
  row := h.row
  limits := forall_mem_append_singleton h.limits hlimit
  granted_le month :=
    le_of_eq_of_le (granted_addTurn w userId (hgranted month)) (h.granted_le month)
  tracked month hmonth :=
    (h.tracked month hmonth).of_eq le_rfl rfl (granted_addTurn w userId (hgranted month))
      (overs_addTurn w userId (hover month))

theorem incrementChatCounter {user : String} (h : w.Metered userId limit) :
    (w.incrementChatCounter user).Metered userId limit where
  row row hrow := by
    simp only [World.incrementChatCounter] at hrow
    split at hrow
    · obtain ⟨old, hold, rfl⟩ := Option.map_eq_some_iff.mp hrow
      exact h.row old hold
    · exact h.row row hrow
  limits := h.limits
  granted_le := h.granted_le
  tracked := h.tracked

end Metered

theorem metered_step {userId : String} {limit : Nat} {w : World} (e : TurnStep)
    (h : w.Metered userId limit) : (w.step e).Metered userId limit := by
  have hdoes := w.does_step e
  generalize w.step e = w' at hdoes ⊢
  cases hdoes with
  | idle => exact h
  | elapsed seconds =>
      have hmono : istMonth w.now ≤ istMonth (w.now + seconds) :=
        monthAt_mono istOffset (Nat.le_add_right _ _)
      exact ⟨h.row, h.limits, h.granted_le, fun month hmonth =>
        (h.tracked month (le_trans hmono hmonth)).of_eq (Nat.le_add_right _ _) rfl rfl rfl⟩
  | stored user keys => exact ⟨h.row, h.limits, h.granted_le, h.tracked⟩
  | started transport user role fails =>
      apply h.addTurn (admission_grantedIn _) (admission_overIn _)
      intro huser l hl
      obtain ⟨-, row, hrow, -, rfl⟩ := resolve_eq_readKeys (Admission.of_limit hl)
      cases fails with
      | true => cases hrow
      | false => exact h.row row (huser ▸ RowRead.read.inj hrow)
  | readKeys fails hturn hphase =>
      apply h.setPhase hturn
      · intro month
        rw [hphase, afterKeys_grantedIn]
        rfl
      · intro month
        rw [hphase, afterKeys_overIn]
        rfl
      · intro huser l hl
        rw [afterKeys_limit hl]
        exact h.limits _ (List.mem_of_getElem? hturn) huser _ (by rw [hphase]; rfl)
  | counted hturn hphase => exact h.checkAndIncrement hturn hphase
  | tookBack hturn hphase => exact h.takeBack hturn hphase
  | finished ok hturn hphase =>
      apply h.setPhase hturn
      · intro month
        rw [hphase, afterServing_grantedIn]
      · intro month
        rw [hphase, afterServing_overIn]
        rfl
      · intro huser l hl
        rw [afterServing_limit] at hl
        cases hl
  | bumped ok hturn hphase =>
      simp only [bumpChatCounter]
      split
      · apply (h.incrementChatCounter).setPhase hturn
        all_goals simp [hphase, Phase.grantedIn, Phase.overIn, Phase.limit?]
      · apply h.setPhase hturn
        all_goals simp [hphase, Phase.grantedIn, Phase.overIn, Phase.limit?]

theorem metered_of_fresh {userId : String} {limit : Nat} {w : World} (hfresh : w.Fresh)
    (hrow : ∀ row, w.users userId = some row → row.monthlyLimit = limit) :
    w.Metered userId limit where
  row := hrow
  limits t ht := by simp [hfresh.1] at ht
  granted_le month := by simp [granted, hfresh.1]
  tracked month _ := Or.inl ⟨hfresh.2 _, by simp [granted, overs, hfresh.1]⟩

theorem Metered.withinLimit {userId : String} {limit : Nat} {w : World}
    (h : w.Metered userId limit) : w.WithinLimit userId limit := by
  refine ⟨h.granted_le, fun hquiet => ?_⟩
  have hovers : w.overs userId (istMonth w.now) = 0 := by
    refine List.countP_eq_zero.mpr fun t ht hover => ?_
    simp only [Bool.and_eq_true, decide_eq_true_eq] at hover
    -- a turn above the limit is still in progress
    have hfinished := hquiet t ht hover.1
    cases hphase : t.phase with
    | exceeded month =>
        rw [hphase] at hfinished
        cases hfinished
    | _ =>
        rw [hphase] at hover
        cases hover.2
  rw [(h.tracked _ le_rfl).used, hovers, Nat.add_zero]

/-- A user past the free allowance with a stored key and a monthly limit of 0. -/
def zeroLimitWorld (userId : String) : World where
  now := 0
  users u := if u = userId then some ⟨10, 0⟩ else none
  stored _ := [{ groq := some "gsk_key" }]
  counters := ⟨fun _ => none⟩
  turns := []

def oneTurn (userId : String) : List TurnStep :=
  [.start .http userId .general false, .readKeys 0 false, .count 0]

theorem zeroLimit_granted (userId : String) :
    (runFrom step (zeroLimitWorld userId) (oneTurn userId)).granted userId 0 = 1 := by
  have hresolve : Transport.http.resolve .general (.read (some ⟨10, 0⟩)) = .readKeys 100 := rfl
  have hkeys : afterKeys 100 false { groq := some "gsk_key" } =
      .counting 100 { groq := some "gsk_key" } := by decide +kernel
  simp [oneTurn, zeroLimitWorld, step, addTurn, setPhase, hresolve, hkeys, keys, Admission.phase,
    checkAndIncrement, Counters.incr, Counters.used, Counters.live, granted, Phase.grantedIn]
  rfl

end World

open World in
/-- The monthly limit is kept, whatever the run, unless it is 0. -/
theorem monthlyLimit_kept_iff (userId : String) (limit : Nat) :
    (∀ (w : World) (es : List TurnStep), w.Fresh →
      (∀ row, w.users userId = some row → row.byoMonthlyLimit = limit) →
        EveryState World.step (WithinLimit userId limit) w es) ↔ limit ≠ 0 := by
  constructor
  -- a limit of 0 is read as 100, so the one turn is granted
  · rintro hkept rfl
    have hrow : ∀ row, (zeroLimitWorld userId).users userId = some row →
        row.byoMonthlyLimit = 0 := by
      intro row hrow
      simp only [zeroLimitWorld, if_true, Option.some.injEq] at hrow
      rw [← hrow]
    have hbound := ((hkept (zeroLimitWorld userId) (oneTurn userId) ⟨rfl, fun _ => rfl⟩ hrow).last).1 0
    rw [zeroLimit_granted] at hbound
    omega
  · intro hlimit w es hfresh hrow
    -- any other limit is read as it is stored
    have hmetered : w.Metered userId limit := metered_of_fresh hfresh fun row h => by
      have hstored := hrow row h
      simp only [UserRow.monthlyLimit, hstored, hlimit, if_false]
    have hall : EveryState World.step (World.Metered userId limit) w es :=
      everyState_of_kept (fun _ e h => metered_step e h) hmetered es
    exact hall.imp fun _ h => h.withinLimit

/-- A limit of 0 lets a turn be granted. -/
theorem zeroLimit_not_kept :
    ¬ ∀ (userId : String) (limit : Nat) (w : World) (es : List TurnStep), w.Fresh →
      (∀ row, w.users userId = some row → row.byoMonthlyLimit = limit) →
        EveryState World.step (World.WithinLimit userId limit) w es := by
  intro hkept
  have hbound := ((hkept "u1" 0 (World.zeroLimitWorld "u1") (World.oneTurn "u1")
    ⟨rfl, fun _ => rfl⟩ (by
      intro row hrow
      simp only [World.zeroLimitWorld, if_true, Option.some.injEq] at hrow
      rw [← hrow])).last).1 0
  rw [World.zeroLimit_granted] at hbound
  omega

/-! ## The free allowance -/

namespace World

/-- Every turn of the user served with the platform's keys has been counted. -/
def AllCounted (w : World) (userId : String) : Prop :=
  ∀ t ∈ w.turns, t.userId = userId → t.role ≠ .superuser → t.phase.onPlatform →
    t.phase.isCounted

instance (w : World) (userId : String) : Decidable (w.AllCounted userId) :=
  inferInstanceAs (Decidable (∀ t ∈ w.turns, _ → _ → _ → _))

/-- The user's turns wait for the earlier ones to be counted: a turn starts when its row is there
and is read, and, within the allowance, when every earlier turn that the platform served has been
counted; the keys are read without an exception. -/
def WaitsItsTurn (userId : String) (w : World) : TurnStep → Prop
  | .start _ user role fails =>
      user = userId → role ≠ .superuser →
        fails = false ∧ ∃ row ∈ w.users userId,
          row.chatRequestCount < freeAllowanceLimit → w.AllCounted userId
  | .readKeys k fails => ∀ t ∈ w.turns[k]?, t.userId = userId → t.role ≠ .superuser → fails = false
  | _ => True

/-- The invariant: the user's count is the number of turns that were counted, and at most the
allowance was served. -/
structure Capped (userId : String) (w : World) : Prop where
  count : ∀ row, w.users userId = some row → row.chatRequestCount = w.counted userId
  served : w.platformServed userId ≤ freeAllowanceLimit

theorem AllCounted.platformServed_le {w : World} {userId : String} (h : w.AllCounted userId) :
    w.platformServed userId ≤ w.counted userId := by
  apply List.countP_mono_left
  intro t ht hserved
  simp only [Bool.and_eq_true, decide_eq_true_eq] at hserved ⊢
  exact ⟨hserved.1, h t ht hserved.1 hserved.2.1 hserved.2.2⟩

namespace Capped

variable {userId : String} {w : World} {k : Nat} {t : Turn}

theorem setPhase {phase : Phase} (h : w.Capped userId) (hturn : w.turns[k]? = some t)
    (hcounted : t.userId = userId → phase.isCounted = t.phase.isCounted)
    (hserved : t.userId = userId → t.role ≠ .superuser → phase.onPlatform = t.phase.onPlatform) :
    (w.setPhase k t phase).Capped userId where
  count row hrow := by
    rw [counted_setPhase_of_eq userId hturn hcounted]
    exact h.count row hrow
  served := by
    rw [platformServed_setPhase_of_eq userId hturn hserved]
    exact h.served

theorem of_turns {w' : World} (h : w.Capped userId) (husers : w'.users = w.users)
    (hturns : w'.turns = w.turns) : w'.Capped userId where
  count row hrow := by
    simp only [counted, hturns]
    exact h.count row (husers ▸ hrow)
  served := by
    simp only [platformServed, hturns]
    exact h.served

theorem addTurn (h : w.Capped userId) (hcounted : t.phase.isCounted = false)
    (hserved : t.userId = userId → t.role ≠ .superuser → t.phase.onPlatform →
      w.platformServed userId < freeAllowanceLimit) : (w.addTurn t).Capped userId where
  count row hrow := by
    have hsame : (w.addTurn t).counted userId = w.counted userId := by
      simp [counted, World.addTurn, hcounted]
    rw [hsame]
    exact h.count row hrow
  served := by
    simp only [platformServed, World.addTurn, countP_append_singleton]
    split
    · rename_i hadd
      simp only [Bool.and_eq_true, decide_eq_true_eq] at hadd
      have hless := hserved hadd.1 hadd.2.1 hadd.2.2
      simp only [platformServed] at hless
      omega
    · exact h.served

/-- A turn that the platform does not serve, before and after, with a counter. -/
theorem setPhase_off {phase : Phase} {counters : Counters} (h : w.Capped userId)
    (hturn : w.turns[k]? = some t)
    (hold : t.phase.isCounted = false ∧ t.phase.onPlatform = false)
    (hnew : phase.isCounted = false ∧ phase.onPlatform = false) :
    ({ w with counters := counters }.setPhase k t phase).Capped userId := by
  have hsame : (w.setPhase k t phase).Capped userId := by
    apply h.setPhase hturn
    · intro
      rw [hold.1, hnew.1]
    · intros
      rw [hold.2, hnew.2]
  exact hsame.of_turns rfl rfl

theorem bump (h : w.Capped userId) (hturn : w.turns[k]? = some t) (hphase : t.phase = .bumping) :
    ((w.incrementChatCounter t.userId).setPhase k t (.done .platform true)).Capped userId where
  count row hrow := by
    -- the turn moves from the bumping ones to the counted ones
    have hcount : ((w.incrementChatCounter t.userId).setPhase k t (.done .platform true)).counted
        userId = w.counted userId + if t.userId = userId then 1 else 0 := by
      have hadd := countP_set_add (p := fun t : Turn => t.userId = userId && t.phase.isCounted)
        (b := { t with phase := .done .platform true }) hturn
      have hbefore : t.phase.isCounted = false := by rw [hphase]; rfl
      have hafter : (Phase.done .platform true).isCounted = true := rfl
      simp only [hbefore, hafter, Bool.and_false, Bool.and_true, Bool.false_eq_true, if_false,
        Nat.add_zero, decide_eq_true_eq] at hadd
      exact hadd
    rw [hcount]
    have hread : (w.incrementChatCounter t.userId).users userId = some row := hrow
    simp only [incrementChatCounter] at hread
    split at hread
    · rename_i huser
      obtain ⟨old, hold, rfl⟩ := Option.map_eq_some_iff.mp hread
      rw [if_pos huser.symm, ← h.count old hold]
    · rename_i huser
      rw [if_neg (Ne.symm huser), Nat.add_zero]
      exact h.count row hread
  served := by
    have hsame : (w.setPhase k t (.done .platform true)).platformServed userId =
        w.platformServed userId :=
      platformServed_setPhase_of_eq userId hturn fun _ _ => by rw [hphase]; rfl
    exact le_of_eq_of_le hsame h.served

end Capped

theorem afterServing_onPlatform (role : Role) (access : Access) (ok : Bool) :
    (afterServing role access ok).onPlatform = (Phase.serving access).onPlatform ∧
      (afterServing role access ok).isCounted = false := by
  simp only [afterServing]
  split
  · rename_i h
    rw [h.2.1]
    exact ⟨rfl, rfl⟩
  · cases access <;> exact ⟨rfl, rfl⟩

/-- A step at which the user's turns wait keeps the cap. -/
theorem capped_step {userId : String} {w : World} (e : TurnStep) (h : w.Capped userId)
    (hwaits : w.WaitsItsTurn userId e) : (w.step e).Capped userId := by
  have hdoes := w.does_step e
  generalize w.step e = w' at hdoes ⊢
  cases hdoes with
  | idle => exact h
  | elapsed seconds => exact h.of_turns rfl rfl
  | stored user keys => exact h.of_turns rfl rfl
  | started transport user role fails =>
      have hadmission : ∀ admission : Admission, admission.phase.isCounted = false := by
        intro admission
        cases admission <;> rfl
      apply h.addTurn (hadmission _)
      intro huser hrole hplatform
      obtain ⟨hreads, row, hrow, hcounted⟩ := hwaits huser hrole
      subst huser hreads
      rw [hrow] at hplatform
      have hresolve : transport.resolve role (.read (some row)) = .platform := by
        cases hadmission : transport.resolve role (.read (some row)) with
        | platform => rfl
        | readKeys limit =>
            simp only [Bool.false_eq_true, if_false, hadmission] at hplatform
            cases hplatform
      have hbelow := resolve_eq_platform hrole hresolve
      -- a turn is admitted on a count below the allowance, and then every served turn is in it
      calc w.platformServed user ≤ w.counted user := (hcounted hbelow).platformServed_le
        _ = row.chatRequestCount := (h.count row hrow).symm
        _ < freeAllowanceLimit := hbelow
  | readKeys fails hturn hphase =>
      rename_i t limit
      rcases afterKeys_cases limit fails (w.keys t.userId) with ⟨hf, hk⟩ | ⟨-, -, hk⟩ | ⟨-, -, hk⟩
      · apply h.setPhase hturn
        · intro
          rw [hk, hphase]
          rfl
        · intro huser hrole
          -- the keys were read without an exception
          have hreads : fails = false := hwaits t hturn huser hrole
          rw [hf] at hreads
          cases hreads
      all_goals
        apply h.setPhase hturn
        all_goals intros; rw [hk, hphase]; rfl
  | counted hturn hphase =>
      simp only [checkAndIncrement]
      split
      · exact h.setPhase_off hturn (by rw [hphase]; exact ⟨rfl, rfl⟩) ⟨rfl, rfl⟩
      · exact h.setPhase_off hturn (by rw [hphase]; exact ⟨rfl, rfl⟩) ⟨rfl, rfl⟩
  | tookBack hturn hphase =>
      exact h.setPhase_off hturn (by rw [hphase]; exact ⟨rfl, rfl⟩) ⟨rfl, rfl⟩
  | finished ok hturn hphase =>
      apply h.setPhase hturn
      · intro
        rw [(afterServing_onPlatform _ _ _).2, hphase]
        rfl
      · intros
        rw [(afterServing_onPlatform _ _ _).1, hphase]
  | bumped ok hturn hphase =>
      cases ok with
      | true => exact h.bump hturn hphase
      | false =>
          apply h.setPhase hturn
          all_goals intros; rw [hphase]; rfl

/-- No turn has begun and the user's count is 0. -/
def Unused (w : World) (userId : String) : Prop :=
  w.turns = [] ∧ ∀ row ∈ w.users userId, row.chatRequestCount = 0

theorem Unused.capped {w : World} {userId : String} (h : w.Unused userId) : w.Capped userId where
  count row hrow := by
    rw [h.2 row hrow]
    simp [counted, h.1]
  served := by simp [platformServed, h.1]

/-- A new user with a stored key. -/
def newUserWorld : World where
  now := 0
  users _ := some ⟨0, 100⟩
  stored _ := [{ groq := some "gsk_key" }]
  counters := ⟨fun _ => none⟩
  turns := []

end World

open World in
/-- Runs in which the user's turns wait for the earlier ones to be counted serve at most the
allowance with the platform's keys. -/
theorem freeAllowance_kept (userId : String) (w : World) (es : List TurnStep)
    (hunused : w.Unused userId) (hwaits : EveryStep World.step (WaitsItsTurn userId) w es) :
    EveryState World.step (fun w => w.platformServed userId ≤ freeAllowanceLimit) w es :=
  (everyState_of_invariant (fun _ e h hwaits => capped_step e h hwaits) hunused.capped hwaits).imp
    fun _ h => h.served

/-- One turn after the other, the second after the first was counted. -/
theorem freeAllowance_kept_twice :
    EveryState World.step (fun w => w.platformServed "u1" ≤ freeAllowanceLimit)
      World.newUserWorld
      [.start .http "u1" .general false, .finish 0 true, .bump 0 true,
        .start .webSocket "u1" .general false] := by
  apply freeAllowance_kept "u1"
  · exact ⟨rfl, fun row hrow => by cases hrow; rfl⟩
  · refine ⟨?_, trivial, trivial, ?_, trivial⟩
    · intro _ _
      exact ⟨rfl, _, rfl, fun _ => by decide +kernel⟩
    · intro _ _
      exact ⟨rfl, _, rfl, fun _ => by decide +kernel⟩

/-- Eleven turns that start before any of them ends are all served. -/
theorem concurrent_turns_overspend :
    ¬ ∀ (userId : String) (w : World) (es : List TurnStep), w.Unused userId →
      EveryState World.step (fun w => w.platformServed userId ≤ freeAllowanceLimit) w es := by
  intro hkept
  have hbound := (hkept "u1" World.newUserWorld
    (List.replicate 11 (.start .webSocket "u1" .general false))
    ⟨rfl, fun row hrow => by cases hrow; rfl⟩).last
  exact absurd hbound (by decide +kernel)

end AsetPlatform.Byo

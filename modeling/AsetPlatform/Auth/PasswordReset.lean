import AsetPlatform.Library.Run
import Mathlib.Logic.Function.Basic

/-!
# Password resets

`password_reset_request` and `password_reset_confirm` of `auth/endpoints/auth_routes.py`. A confirmation
reads the row of its user and checks the token; the new password is written later, and any other
requests may come between. Times are in seconds.
-/

set_option autoImplicit false

namespace AsetPlatform.Auth.PasswordReset

open AsetPlatform.Library

/-- The columns of a user that the two routes look at. -/
structure Row where
  passwordResetToken : Option String
  passwordResetExpiry : Option Nat
  hashedPassword : String

def thirtyMinutes : Nat := 1800

/-- The check of `password_reset_confirm`: nothing, or the detail of its error. -/
def rejects (row : Row) (resetToken : String) (now : Nat) : Option String :=
  if row.passwordResetToken = none ∨ row.passwordResetToken = some "" ∨
      row.passwordResetToken ≠ some resetToken then some "Invalid reset token"
  else if row.passwordResetExpiry.any (· < now) then some "Reset token has expired"
  else none

/-- A confirmation that has passed the check. -/
structure Confirmation where
  userId : String
  resetToken : String
  newHash : String

structure Issue where
  userId : String
  token : String
  time : Nat
  deriving DecidableEq

/-- The users, the tokens handed out so far, and the confirmations that are to be written and those
that have been. -/
structure World where
  users : String → Option Row
  issued : List Issue
  pending : List Confirmation
  written : List Confirmation

/-- `request` carries what `secrets.token_urlsafe` returns and whether the address is the caller's. -/
inductive Event where
  | request (userId : String) (ownEmail : Bool) (token : String) (now : Nat)
  | confirm (userId resetToken newHash : String) (now : Nat)
  | write (k : Nat)

namespace World

variable (w : World)

def step : Event → World
  | .request userId ownEmail token now =>
      match ownEmail, w.users userId with
      | true, some row =>
          { w with
            users := Function.update w.users userId (some { row with
              passwordResetToken := some token
              passwordResetExpiry := some (now + thirtyMinutes) })
            issued := w.issued ++ [⟨userId, token, now⟩] }
      | _, _ => w
  | .confirm userId resetToken newHash now =>
      match w.users userId with
      | some row =>
          if rejects row resetToken now = none then
            { w with pending := w.pending ++ [⟨userId, resetToken, newHash⟩] }
          else w
      | none => w
  | .write k =>
      match w.pending[k]? with
      | some c =>
          match w.users c.userId with
          | some _ =>
              { w with
                users := Function.update w.users c.userId (some ⟨none, none, c.newHash⟩)
                pending := w.pending.eraseIdx k
                written := w.written ++ [c] }
          | none => { w with pending := w.pending.eraseIdx k }
      | none => w

/-- No user gets a token twice. -/
def Fresh : Event → Prop
  | .request userId _ token _ => ∀ i ∈ w.issued, i.userId = userId → i.token ≠ token
  | _ => True

instance (e : Event) : Decidable (w.Fresh e) := by
  unfold Fresh
  cases e <;> infer_instance

/-- The token was handed out to the user. -/
def IssuedTo (userId token : String) : Prop := ∃ i ∈ w.issued, i.userId = userId ∧ i.token = token

/-- The token is the last one of the user, and no confirmation with it has been written. -/
def Unused (userId token : String) (expiry : Option Nat) : Prop :=
  (∃ i, (w.issued.filter (·.userId = userId)).getLast? = some i ∧ i.token = token ∧
    expiry = some (i.time + thirtyMinutes)) ∧
    ∀ c ∈ w.written, c.userId = userId → c.resetToken ≠ token

/-- Stored tokens are unused, and what is confirmed was handed out. -/
structure Sound : Prop where
  stored : ∀ userId row token, w.users userId = some row → row.passwordResetToken = some token →
    w.Unused userId token row.passwordResetExpiry
  issued : ∀ c ∈ w.pending ++ w.written, w.IssuedTo c.userId c.resetToken

variable {w}

theorem rejects_eq_none_iff {row : Row} {resetToken : String} {now : Nat} :
    rejects row resetToken now = none ↔
      row.passwordResetToken = some resetToken ∧ resetToken ≠ "" ∧
        ∀ expiry ∈ row.passwordResetExpiry, now ≤ expiry := by
  obtain ⟨token, expiry, hash⟩ := row
  cases token with
  | none => simp [rejects]
  | some token =>
      by_cases hSame : token = resetToken
      · by_cases hEmpty : resetToken = ""
        · simp [rejects, hSame, hEmpty]
        · cases expiry <;> simp [rejects, hSame, hEmpty]
      · simp [rejects, hSame]

theorem Sound.request (h : w.Sound) {userId token : String} {now : Nat} {row : Row}
    (hFresh : ∀ i ∈ w.issued, i.userId = userId → i.token ≠ token) :
    Sound { w with
      users := Function.update w.users userId (some { row with
        passwordResetToken := some token
        passwordResetExpiry := some (now + thirtyMinutes) })
      issued := w.issued ++ [⟨userId, token, now⟩] } where
  stored other row' token' hOther hToken := by
    dsimp only at hOther
    by_cases hSame : other = userId
    · subst hSame
      rw [Function.update_self] at hOther
      cases hOther
      cases hToken
      refine ⟨⟨⟨other, token, now⟩, by simp, rfl, rfl⟩, ?_⟩
      -- a new token has not been confirmed
      rintro c hc rfl rfl
      obtain ⟨i, hi, hUser, hIs⟩ := h.issued c (List.mem_append_right _ hc)
      exact hFresh i hi hUser hIs
    · rw [Function.update_of_ne hSame] at hOther
      obtain ⟨⟨i, hLast, hIs⟩, hUnused⟩ := h.stored other row' token' hOther hToken
      refine ⟨⟨i, ?_, hIs⟩, hUnused⟩
      rw [List.filter_append, List.filter_singleton, decide_eq_false (Ne.symm hSame)]
      simpa using hLast
  issued c hc := by
    obtain ⟨i, hi, hIs⟩ := h.issued c hc
    exact ⟨i, List.mem_append_left _ hi, hIs⟩

theorem Sound.write (h : w.Sound) {c : Confirmation} {k : Nat} (hc : w.pending[k]? = some c) :
    Sound { w with
      users := Function.update w.users c.userId (some ⟨none, none, c.newHash⟩)
      pending := w.pending.eraseIdx k
      written := w.written ++ [c] } where
  stored other row token hOther hToken := by
    dsimp only at hOther
    by_cases hSame : other = c.userId
    · rw [hSame, Function.update_self] at hOther
      cases hOther
      cases hToken
    · rw [Function.update_of_ne hSame] at hOther
      obtain ⟨hLast, hUnused⟩ := h.stored other row token hOther hToken
      refine ⟨hLast, fun d hd hUser => ?_⟩
      rcases List.mem_append.mp hd with hd | hd
      · exact hUnused d hd hUser
      · rw [List.mem_singleton.mp hd] at hUser
        exact absurd hUser.symm hSame
  issued d hd := by
    apply h.issued d
    rcases List.mem_append.mp hd with hd | hd
    · exact List.mem_append_left _ (List.mem_of_mem_eraseIdx hd)
    · rcases List.mem_append.mp hd with hd | hd
      · exact List.mem_append_right _ hd
      · rw [List.mem_singleton.mp hd]
        exact List.mem_append_left _ (List.mem_of_getElem? hc)

theorem Sound.step (h : w.Sound) {e : Event} (hFresh : w.Fresh e) : (w.step e).Sound := by
  cases e with
  | request userId ownEmail token now =>
      cases ownEmail with
      | false => exact h
      | true =>
          simp only [World.step]
          split
          · exact h.request hFresh
          · exact h
  | confirm userId resetToken newHash now =>
      simp only [World.step]
      split
      · rename_i row hRow
        split
        · rename_i hPass
          refine ⟨h.stored, fun c hc => ?_⟩
          rw [List.append_assoc, List.mem_append, List.singleton_append, List.mem_cons] at hc
          rcases hc with hc | rfl | hc
          · exact h.issued c (List.mem_append_left _ hc)
          · obtain ⟨i, hLast, hIs, -⟩ :=
              (h.stored userId row resetToken hRow (rejects_eq_none_iff.mp hPass).1).1
            obtain ⟨hi, hUser⟩ := List.mem_filter.mp (List.mem_of_getLast? hLast)
            exact ⟨i, hi, of_decide_eq_true hUser, hIs⟩
          · exact h.issued c (List.mem_append_right _ hc)
        · exact h
      · exact h
  | write k =>
      simp only [World.step]
      split
      · rename_i c hc
        split
        · exact h.write hc
        · refine ⟨h.stored, fun d hd => h.issued d ?_⟩
          rcases List.mem_append.mp hd with hd | hd
          · exact List.mem_append_left _ (List.mem_of_mem_eraseIdx hd)
          · exact List.mem_append_right _ hd
      · exact h

/-- A confirmation that passes has the last token of its user, handed out at most thirty minutes ago and
not yet used. -/
def ConfirmsOnce (w : World) : Event → Prop
  | .confirm userId resetToken _ now =>
      (∃ row, w.users userId = some row ∧ rejects row resetToken now = none) →
        resetToken ≠ "" ∧
        (∃ i, (w.issued.filter (·.userId = userId)).getLast? = some i ∧ i.token = resetToken ∧
          now ≤ i.time + thirtyMinutes) ∧
        ∀ c ∈ w.written, c.userId = userId → c.resetToken ≠ resetToken
  | _ => True

theorem Sound.confirmsOnce (h : w.Sound) (e : Event) : w.ConfirmsOnce e := by
  cases e with
  | confirm userId resetToken newHash now =>
      rintro ⟨row, hRow, hPass⟩
      obtain ⟨hToken, hNe, hTime⟩ := rejects_eq_none_iff.mp hPass
      obtain ⟨⟨i, hLast, hIs, hExpiry⟩, hUnused⟩ := h.stored userId row resetToken hRow hToken
      exact ⟨hNe, ⟨i, hLast, hIs, hTime _ hExpiry⟩, hUnused⟩
  | _ => trivial

/-- Users without a token, by the hash of their password. -/
def start (hash : String → Option String) : World where
  users userId := (hash userId).map (⟨none, none, ·⟩)
  issued := []
  pending := []
  written := []

/-- In every interleaving of the requests a token changes the password of its user, and does so no more
once a confirmation with it has been written, a newer one was handed out, or thirty minutes are over. -/
theorem tokens_confirm_once (hash : String → Option String) (events : List Event)
    (h : EveryStep World.step Fresh (start hash) events) :
    EveryStep World.step ConfirmsOnce (start hash) events := by
  have hStart : (start hash).Sound := by
    refine ⟨fun userId row token hRow hToken => ?_, fun c hc => by cases hc⟩
    obtain ⟨text, -, rfl⟩ := Option.map_eq_some_iff.mp hRow
    cases hToken
  exact everyStep_of_invariant (fun _ _ hSound hFresh => hSound.step hFresh)
    (fun _ e hSound _ => hSound.confirmsOnce e) hStart h

/-- Two confirmations with one token, the second one too late. -/
theorem tokens_confirm_once_twice :
    EveryStep World.step ConfirmsOnce (start fun _ => some "old")
      [.request "u" true "t" 0, .confirm "u" "t" "new" 60, .write 0, .confirm "u" "t" "newer" 61] :=
  tokens_confirm_once _ _ (by decide +kernel)

end World

end AsetPlatform.Auth.PasswordReset

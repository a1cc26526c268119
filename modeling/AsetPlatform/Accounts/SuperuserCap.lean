import AsetPlatform.Accounts.UserRoutes
import AsetPlatform.Library.Run
import AsetPlatform.Library.Threads

/-!
# The superuser cap

Any number of requests to the user routes run at once. `create_user` and `update_user` count the
active superusers in one database call and write in another, and an edit of `is_active` is not
counted at all.

`superuser_cap_iff` says in which runs there are never more active superusers than the routes allow.
-/

set_option autoImplicit false

namespace AsetPlatform.Accounts.SuperuserCap

open AsetPlatform.Library AsetPlatform.Billing UserRoutes

def activeSuperusers (t : AccountTable) : Nat := t.rows.countP fun a => a.ActiveSuperuser

/-- There are at most as many active superusers as the routes allow. -/
def Capped (w : UserRoutes.World) : Prop := activeSuperusers w.table ≤ maxSuperusers

instance (w : UserRoutes.World) : Decidable (Capped w) := inferInstanceAs (Decidable (_ ≤ _))

/-! ## The writes that make an active superuser -/

/-- The write of a request goes through and makes an account an active superuser that was none: the
creation of a superuser, or an edit of a role or of `is_active`. -/
def Gains (rules : PasswordRules) (t : AccountTable) (r : UserRequest) : Prop :=
  (UserRoutes.written rules t r).toBool = true ∧
    match r with
    | .create body _ => body.role = .superuser
    | .update userId body =>
        ∀ a ∈ t.getById userId, ¬a.ActiveSuperuser ∧ (a.updated body.updates).ActiveSuperuser
    | .delete _ _ => False

instance (rules : PasswordRules) (t : AccountTable) : ∀ r, Decidable (Gains rules t r)
  | .create _ _ => inferInstanceAs (Decidable (_ ∧ _ = _))
  | .update userId body =>
      inferInstanceAs (Decidable (_ ∧ ∀ a ∈ t.getById userId,
        ¬a.ActiveSuperuser ∧ (a.updated body.updates).ActiveSuperuser))
  | .delete _ _ => inferInstanceAs (Decidable (_ ∧ False))

/-- A write that makes an active superuser finds fewer than the maximum. -/
def FindsRoom (rules : PasswordRules) (w : UserRoutes.World) : Event → Prop
  | .begin _ => True
  | .advance k =>
      ∀ r ∈ w.requests[k]?, r.2 = .write → Gains rules w.table r.1 →
        activeSuperusers w.table < maxSuperusers

instance (rules : PasswordRules) (w : UserRoutes.World) : ∀ e, Decidable (FindsRoom rules w e)
  | .begin _ => isTrue trivial
  | .advance k =>
      inferInstanceAs (Decidable (∀ r ∈ w.requests[k]?, r.2 = .write →
        Gains rules w.table r.1 → activeSuperusers w.table < maxSuperusers))

/-! ## Counting -/

variable {t t' : AccountTable}

/-- Changing a row exchanges what it contributes to the count. -/
theorem activeSuperusers_replace {a row : Account} (hMem : a ∈ t.rows)
    (hId : row.userId = a.userId) (h : t.replace row = .ok t') :
    activeSuperusers t' + (if a.ActiveSuperuser then 1 else 0) =
      activeSuperusers t + if row.ActiveSuperuser then 1 else 0 := by
  obtain ⟨k, hk, hGet⟩ := List.getElem_of_mem hMem
  have hSet : t'.rows = t.rows.set k row := by
    rw [(AccountTable.rows_of_replace h).2, AccountTable.replaced]
    apply List.ext_getElem
    · simp
    · intro n hn hn'
      have hLength : n < t.rows.length := by simpa using hn
      rw [List.getElem_map, List.getElem_set]
      by_cases hSame : k = n
      · subst hSame
        rw [if_pos rfl, if_pos (by rw [hGet, hId])]
      · rw [if_neg hSame, if_neg]
        intro hEq
        have hRow : t.rows[n] = t.rows[k] := by
          apply AccountTable.eq_of_userId (List.getElem_mem _) (List.getElem_mem _)
          rw [hGet, hEq, hId]
        exact hSame ((List.Nodup.getElem_inj_iff (List.Nodup.of_map _ t.ids)).mp hRow).symm
  have hCount := countP_set_add (p := fun a => decide a.ActiveSuperuser) (b := row)
    (List.getElem?_eq_some_iff.mpr ⟨hk, hGet⟩)
  unfold activeSuperusers
  rw [hSet]
  simpa only [decide_eq_true_eq] using hCount

theorem activeSuperusers_insert {row : Account} (h : t.insert row = .ok t') :
    activeSuperusers t' = activeSuperusers t + if row.ActiveSuperuser then 1 else 0 := by
  unfold activeSuperusers
  rw [(AccountTable.rows_of_insert h).2, countP_append_singleton]
  simp only [decide_eq_true_eq]

/-- What a write does to the count: it adds one when it gains, and otherwise adds none. -/
theorem activeSuperusers_written {rules : PasswordRules} {r : UserRequest}
    (h : UserRoutes.written rules t r = .ok t') :
    (Gains rules t r → activeSuperusers t' = activeSuperusers t + 1) ∧
      (¬Gains rules t r → activeSuperusers t' ≤ activeSuperusers t) := by
  have hOk : (UserRoutes.written rules t r).toBool = true := by
    rw [h]
    rfl
  cases r with
  | create body newId =>
      simp only [Gains, hOk, true_and]
      simp only [UserRoutes.written, AccountTable.create] at h
      cases hEmail : t.getByEmail body.email with
      | some a =>
          rw [hEmail] at h
          cases h
      | none =>
          rw [hEmail] at h
          have hCount := activeSuperusers_insert h
          simp only [Account.ActiveSuperuser, Option.getD_some, Option.getD_none, and_true] at hCount
          constructor
          · intro hRole
            rw [hCount, if_pos hRole]
          · intro hRole
            rw [hCount, if_neg hRole]
            exact Nat.le_refl _
  | update userId body =>
      simp only [Gains, hOk, true_and]
      simp only [UserRoutes.written, AccountTable.update] at h
      cases hRow : t.getById userId with
      | none =>
          rw [hRow] at h
          cases h
      | some a =>
          rw [hRow] at h
          have hCount := activeSuperusers_replace (AccountTable.mem_of_getById hRow)
            (Account.updated_userId a body.updates) h
          simp only [Option.mem_some_iff, forall_eq']
          by_cases hBefore : a.ActiveSuperuser <;>
            by_cases hAfter : (a.updated body.updates).ActiveSuperuser <;>
            simp only [hBefore, hAfter, if_true, if_false, not_true, not_false_iff, true_and,
              and_true, and_false, false_imp_iff, true_imp_iff] at hCount ⊢ <;>
            omega
  | delete userId callerId =>
      simp only [Gains, and_false, false_imp_iff, not_false_iff, true_imp_iff, true_and]
      simp only [UserRoutes.written, AccountTable.delete] at h
      cases hRow : t.getById userId with
      | none =>
          rw [hRow] at h
          cases h
      | some a =>
          rw [hRow] at h
          have hCount := @activeSuperusers_replace t t' a { a with isActive := false }
            (AccountTable.mem_of_getById hRow) rfl h
          have hInactive : ¬({ a with isActive := false } : Account).ActiveSuperuser :=
            fun hActive => by cases hActive.2
          rw [if_neg hInactive] at hCount
          omega

variable {rules : PasswordRules} {w : UserRoutes.World}

theorem not_gains_of_not_done {t : AccountTable} {request : UserRequest} {stage : Stage}
    (h : ∀ t', UserRoutes.advance rules t request stage ≠ .done t') (hStage : stage = .write) :
    ¬Gains rules t request := by
  rintro ⟨hOk, -⟩
  cases hWritten : UserRoutes.written rules t request with
  | error message =>
      rw [hWritten] at hOk
      exact nomatch hOk
  | ok t' => exact h t' (UserRoutes.advance_done_iff.mpr ⟨hStage, hWritten⟩)

theorem capped_step_iff (h : Capped w) (e : Event) :
    Capped (w.step rules e) ↔ FindsRoom rules w e := by
  cases e with
  | begin request => exact iff_of_true h trivial
  | advance k =>
      unfold UserRoutes.World.step FindsRoom
      cases hRequest : w.requests[k]? with
      | none => simpa [hRequest] using h
      | some r =>
          obtain ⟨request, stage⟩ := r
          simp only [hRequest, Option.mem_some_iff, forall_eq']
          cases hAdvance : UserRoutes.advance rules w.table request stage with
          | next stage' =>
              exact iff_of_true h fun hStage hGain =>
                absurd hGain (not_gains_of_not_done (by simp [hAdvance]) hStage)
          | failed error =>
              exact iff_of_true h fun hStage hGain =>
                absurd hGain (not_gains_of_not_done (by simp [hAdvance]) hStage)
          | done t' =>
              obtain ⟨rfl, hWritten⟩ := UserRoutes.advance_done_iff.mp hAdvance
              obtain ⟨hGains, hKeeps⟩ := activeSuperusers_written hWritten
              have hCapped : activeSuperusers w.table ≤ maxSuperusers := h
              simp only [Capped, true_imp_iff]
              by_cases hGain : Gains rules w.table request
              · have hCount := hGains hGain
                simp only [hGain, true_imp_iff]
                omega
              · have hCount := hKeeps hGain
                simp only [hGain, false_imp_iff, iff_true]
                omega

/-- From a capped start, the cap holds in every state of a run just when each write that makes an
active superuser finds fewer than the maximum at that moment. -/
theorem superuser_cap_iff (rules : PasswordRules) (w : UserRoutes.World) (es : List Event)
    (hStart : Capped w) :
    EveryState (UserRoutes.World.step rules) Capped w es ↔
      EveryStep (UserRoutes.World.step rules) (FindsRoom rules) w es :=
  everyState_iff_everyStep (fun _ e h hRoom => (capped_step_iff h e).mpr hRoom)
    (fun _ e h => capped_step_iff h e) hStart hStart

/-! ## Runs -/

/-- Four active superusers, one who was deactivated, and two others. -/
def fourSuperusers : UserRoutes.World where
  table :=
    { rows := [member "s1" .superuser true, member "s2" .superuser true, member "s3" .superuser true,
        member "s4" .superuser true, member "s5" .superuser false, member "u1" .general true,
        member "u2" .general true]
      ids := by decide +kernel
      emails := by decide +kernel
      widths := by decide +kernel }
  requests := []

/-- A promotion, a sixth one that is refused, a deactivation, and a reactivation. -/
def promotionRun : List Event :=
  [.begin (.update "u1" { role := some .superuser }), .advance 0, .advance 0, .advance 0,
    .begin (.create ⟨"new@example.com", "Secret1!", "New", .superuser⟩ "n1"), .advance 0, .advance 0,
    .begin (.delete "s1" "s2"), .advance 0, .advance 0,
    .begin (.update "s5" { isActive := some true }), .advance 0, .advance 0]

theorem superuser_cap_promotionRun :
    EveryState (UserRoutes.World.step demoRules) Capped fourSuperusers promotionRun :=
  (superuser_cap_iff demoRules fourSuperusers promotionRun (by decide +kernel)).mpr
    (by decide +kernel)

/-- A superuser who was deactivated comes back when the cap has been reached again. -/
theorem reactivation_exceeds_cap :
    ¬∀ (rules : PasswordRules) (w : UserRoutes.World) (es : List Event), Capped w →
      EveryState (UserRoutes.World.step rules) Capped w es := by
  intro h
  have hRun := h demoRules fourSuperusers
    [.begin (.update "u1" { role := some .superuser }), .advance 0, .advance 0, .advance 0,
      .begin (.update "s5" { isActive := some true }), .advance 0, .advance 0] (by decide +kernel)
  exact absurd hRun.last (by decide +kernel)

/-- Two promotions that both count before either writes. -/
example :
    activeSuperusers (runFrom (UserRoutes.World.step demoRules) fourSuperusers
      [.begin (.update "u1" { role := some .superuser }),
        .begin (.update "u2" { role := some .superuser }), .advance 0, .advance 0, .advance 1,
        .advance 1, .advance 0, .advance 0]).table = 6 := by
  decide +kernel

end AsetPlatform.Accounts.SuperuserCap

import AsetPlatform.Library.Run
import AsetPlatform.Llm.TokenBudget
import Mathlib.Tactic.Abel
import Mathlib.Tactic.Linarith

/-!
# Runs of reserve, release and record

An account pairs a `TokenBudget` with what a bookkeeper would write down: every successful
reservation with its time, amount and, once it is rolled back, the time of the rollback, and every
recorded spend. `spent` is the un-released spend really made since a cutoff.

A rollback is entered with its own timestamp, so it may still be in a window that the reservation
it compensates has left; `stale` is the amount it then takes off. Along every legal run each
window's refreshed total is the real spend less the stale rollbacks (`refreshed_minuteTokens`,
`refreshed_dayTokens`). A run in which no admission meets a stale rollback therefore never spends
more than 80 percent of a limit (`reserve_within_limits`); with one, it can
(`stale_rollback_overspends`).
-/

set_option autoImplicit false

namespace AsetPlatform.Llm.BudgetRuns

open AsetPlatform.Library AsetPlatform.Llm.TokenBudget

/-- A successful reservation and the time of its rollback, if it was rolled back. -/
structure Reservation where
  time : Time
  amount : ℤ
  releasedAt : Option Time
  deriving DecidableEq

/-- The budget with the books kept on it. `clock` is the last clock reading. -/
structure Account where
  budget : TokenBudget
  reservations : String → List Reservation
  recorded : String → List LogEntry
  clock : Time

/-- A call with the clock reading it makes. `release model k now` rolls back the `k`-th successful
reservation on `model` with that reservation's amount. -/
inductive Call where
  | reserve (model : String) (estimatedTokens : ℤ) (now : Time)
  | release (model : String) (k : Nat) (now : Time)
  | record (model : String) (tokensUsed : ℤ) (now : Time)

/-- The clock reading of a call. -/
def Call.now : Call → Time
  | .reserve _ _ now => now
  | .release _ _ now => now
  | .record _ _ now => now

/-- A new budget with empty books. -/
def Account.open (limits : List (String × ModelLimits)) (clock : Time) : Account where
  budget := .new limits
  reservations _ := []
  recorded _ := []
  clock := clock

/-- Make the call on the budget and write it down. -/
def Account.step (a : Account) : Call → Account
  | .reserve model est now =>
      let (ok, budget) := a.budget.reserve model est now
      { a with
        budget := budget
        reservations :=
          if ok then
            Function.update a.reservations model (a.reservations model ++ [⟨now, est, none⟩])
          else a.reservations
        clock := now }
  | .release model k now =>
      match (a.reservations model)[k]? with
      | none => a
      | some r =>
          { a with
            budget := a.budget.release model r.amount now
            reservations :=
              Function.update a.reservations model
                ((a.reservations model).set k { r with releasedAt := some now })
            clock := now }
  | .record model used now =>
      { a with
        budget := a.budget.record model used now
        recorded := Function.update a.recorded model (a.recorded model ++ [⟨now, used⟩])
        clock := now }

/-- A release rolls back one earlier successful reservation that is not yet released. -/
def Account.Outstanding (a : Account) : Call → Prop
  | .release model k _ => ∃ r ∈ (a.reservations model)[k]?, r.releasedAt = none
  | _ => True

/-- A legal call: the clock does not go back, and a release has a reservation to roll back. -/
def Account.Legal (a : Account) (c : Call) : Prop := a.clock ≤ c.now ∧ a.Outstanding c

/-- What a reservation contributes to the real spend since a cutoff. -/
def Reservation.spent (cutoff : Time) (r : Reservation) : ℤ :=
  if r.releasedAt = none ∧ cutoff ≤ r.time then r.amount else 0

/-- The un-released spend since a cutoff: reservations that are not rolled back, and recorded
amounts. -/
def Account.spent (a : Account) (model : String) (cutoff : Time) : ℤ :=
  ((a.reservations model).map (Reservation.spent cutoff)).sum + windowSum cutoff (a.recorded model)

/-- A rollback inside the window of a reservation that has left it. -/
def Reservation.Stale (cutoff : Time) (r : Reservation) : Prop :=
  r.time < cutoff ∧ ∃ t ∈ r.releasedAt, cutoff ≤ t

/-- No rollback of a reservation on the model is stale in the minute or in the day before `now`. -/
def Account.NoStaleRollback (a : Account) (model : String) (now : Time) : Prop :=
  ∀ r ∈ a.reservations model, ¬ r.Stale (now - minute) ∧ ¬ r.Stale (now - day)

/-- A call that is not a reservation, or a reservation that meets no stale rollback. -/
def Account.RollbacksInWindow (a : Account) : Call → Prop
  | .reserve model _ now => a.NoStaleRollback model now
  | _ => True

/-- After a successful reservation on a known model, the un-released spend of the last minute and
of the last day is within 80 percent of the limit. -/
def Account.WithinLimits (a : Account) : Call → Prop
  | .reserve model est now =>
      ∀ lim ∈ a.budget.limits model, (a.budget.reserve model est now).1 = true →
        (((a.step (.reserve model est now)).spent model (now - minute) : ℤ) : ℚ)
            ≤ lim.tpm * threshold ∧
          (((a.step (.reserve model est now)).spent model (now - day) : ℤ) : ℚ)
            ≤ lim.tpd * threshold
  | _ => True

instance (a : Account) (c : Call) : Decidable (a.Legal c) :=
  match c with
  | .reserve _ _ _ => inferInstanceAs (Decidable (_ ∧ True))
  | .release model k now =>
      inferInstanceAs (Decidable (_ ≤ now ∧ ∃ r ∈ (a.reservations model)[k]?, r.releasedAt = none))
  | .record _ _ _ => inferInstanceAs (Decidable (_ ∧ True))

instance (cutoff : Time) (r : Reservation) : Decidable (r.Stale cutoff) :=
  inferInstanceAs (Decidable (_ ∧ ∃ t ∈ r.releasedAt, cutoff ≤ t))

instance (a : Account) (c : Call) : Decidable (a.RollbacksInWindow c) :=
  match c with
  | .reserve model _ now =>
      inferInstanceAs (Decidable (∀ r ∈ a.reservations model,
        ¬ r.Stale (now - minute) ∧ ¬ r.Stale (now - day)))
  | .release _ _ _ => inferInstanceAs (Decidable True)
  | .record _ _ _ => inferInstanceAs (Decidable True)

instance (a : Account) (c : Call) : Decidable (a.WithinLimits c) :=
  match c with
  | .reserve model est now =>
      inferInstanceAs (Decidable (∀ lim ∈ a.budget.limits model,
        (a.budget.reserve model est now).1 = true →
          (((a.step (.reserve model est now)).spent model (now - minute) : ℤ) : ℚ)
              ≤ lim.tpm * threshold ∧
            (((a.step (.reserve model est now)).spent model (now - day) : ℤ) : ℚ)
              ≤ lim.tpd * threshold))
  | .release _ _ _ => inferInstanceAs (Decidable True)
  | .record _ _ _ => inferInstanceAs (Decidable True)

/-! ## A window and the books -/

/-- What a reservation and its rollback together enter in a window: each counts while its own
timestamp is inside. -/
def Reservation.charged (cutoff : Time) (r : Reservation) : ℤ :=
  (if cutoff ≤ r.time then r.amount else 0) -
    (if ∃ t ∈ r.releasedAt, cutoff ≤ t then r.amount else 0)

/-- What the books say the entries since a cutoff add up to. -/
def Account.ledger (a : Account) (model : String) (cutoff : Time) : ℤ :=
  ((a.reservations model).map (Reservation.charged cutoff)).sum +
    windowSum cutoff (a.recorded model)

/-- A deque agrees with a ledger at the given clock reading: it is in order and holds no future
entry, its total is cached correctly, and it gives the ledger's sum for every cutoff still to
come. -/
structure Tracks (window clock : Time) (ledger : Time → ℤ) (c : Counter) : Prop where
  chronological : Chronological c.log
  past : ∀ e ∈ c.log, e.time ≤ clock
  total_eq : c.total = Library.total c.log
  window_eq : ∀ cutoff, clock - window ≤ cutoff → windowSum cutoff c.log = ledger cutoff

variable {window clock now : Time} {ledger : Time → ℤ} {c : Counter}

theorem Tracks.later (h : Tracks window clock ledger c) (hnow : clock ≤ now) :
    Tracks window now ledger c where
  chronological := h.chronological
  past e he := le_trans (h.past e he) hnow
  total_eq := h.total_eq
  window_eq cutoff hc := h.window_eq cutoff (by linarith)

theorem Tracks.refresh (h : Tracks window clock ledger c) (hnow : clock ≤ now) :
    Tracks window now ledger (c.refresh window now) ∧
      (c.refresh window now).total = ledger (now - window) := by
  have htotal : (c.refresh window now).total =
      Library.total (dropExpired (now - window) c.log) := by
    have hsplit := total_expiredHead_add (now - window) c.log
    show c.total - Library.total (expiredHead (now - window) c.log) = _
    rw [h.total_eq, ← hsplit]
    abel
  refine ⟨⟨h.chronological.dropExpired, ?_, htotal, ?_⟩, ?_⟩
  · intro e he
    exact le_trans (h.past e ((dropExpired_sublist _ _).subset he)) hnow
  · intro cutoff hc
    show windowSum cutoff (dropExpired (now - window) c.log) = ledger cutoff
    rw [windowSum_dropExpired hc]
    exact h.window_eq cutoff (by linarith)
  · rw [htotal, total_dropExpired h.chronological]
    exact h.window_eq _ (by linarith)

theorem Tracks.append (h : Tracks window now ledger c) (amount : ℤ) :
    Tracks window now (fun cutoff => ledger cutoff + if cutoff ≤ now then amount else 0)
      (c.append now amount) where
  chronological := h.chronological.append_one fun a ha => h.past a ha
  past e he := by
    simp only [Counter.append, List.mem_append, List.mem_singleton] at he
    rcases he with he | rfl
    · exact h.past e he
    · exact le_rfl
  total_eq := by
    simp [Counter.append, h.total_eq]
  window_eq cutoff hc := by
    simp only [Counter.append, windowSum_append, windowSum_singleton, h.window_eq cutoff hc]

theorem Tracks.congr {ledger' : Time → ℤ} (h : Tracks window clock ledger c)
    (heq : ∀ cutoff, ledger cutoff = ledger' cutoff) : Tracks window clock ledger' c where
  chronological := h.chronological
  past := h.past
  total_eq := h.total_eq
  window_eq cutoff hc := by rw [← heq, h.window_eq cutoff hc]

/-! ## The books along a run -/

/-- The books of a model fit its two token windows, and no timestamp lies in the future. -/
structure Account.Balanced (a : Account) (model : String) : Prop where
  minuteTokens : Tracks minute a.clock (a.ledger model) (a.budget.state model).minuteTokens
  dayTokens : Tracks day a.clock (a.ledger model) (a.budget.state model).dayTokens
  reserved_past : ∀ r ∈ a.reservations model, r.time ≤ a.clock
  released_after : ∀ r ∈ a.reservations model, ∀ t ∈ r.releasedAt, r.time ≤ t

/-- The books of every model with limits are balanced. -/
def Account.Inv (a : Account) : Prop :=
  ∀ model, (a.budget.limits model).isSome → a.Balanced model

theorem tracks_empty (window clock : Time) : Tracks window clock (fun _ => 0) {} where
  chronological := List.Pairwise.nil
  past e he := by simp at he
  total_eq := rfl
  window_eq _ _ := rfl

theorem inv_open (limits : List (String × ModelLimits)) (clock : Time) :
    (Account.open limits clock).Inv := by
  intro model _
  have hledger : ∀ cutoff, (0 : ℤ) = (Account.open limits clock).ledger model cutoff := by
    intro cutoff
    simp [Account.ledger, Account.open]
  exact
    { minuteTokens := (tracks_empty _ _).congr hledger
      dayTokens := (tracks_empty _ _).congr hledger
      reserved_past := by intro r hr; simp [Account.open] at hr
      released_after := by intro r hr; simp [Account.open] at hr }

theorem sum_map_set {α : Type} (g : α → ℤ) {l : List α} {k : Nat} {x : α} (hx : l[k]? = some x)
    (y : α) : ((l.set k y).map g).sum = (l.map g).sum + (g y - g x) := by
  induction l generalizing k with
  | nil => simp at hx
  | cons a l ih =>
      cases k with
      | zero =>
          simp only [List.getElem?_cons_zero, Option.some.injEq] at hx
          subst hx
          simp only [List.set_cons_zero, List.map_cons, List.sum_cons]
          abel
      | succ k =>
          rw [List.getElem?_cons_succ] at hx
          simp only [List.set_cons_succ, List.map_cons, List.sum_cons, ih hx]
          abel

theorem charged_release (cutoff : Time) (r : Reservation) (hr : r.releasedAt = none) (now : Time) :
    Reservation.charged cutoff { r with releasedAt := some now } - Reservation.charged cutoff r =
      if cutoff ≤ now then -r.amount else 0 := by
  by_cases hc : cutoff ≤ now <;> simp [Reservation.charged, hr, hc]

/-- The books of the other models do not change. -/
theorem balanced_of_frame {a a' : Account} {model : String} (h : a.Balanced model)
    (hstate : a'.budget.state model = a.budget.state model)
    (hres : a'.reservations model = a.reservations model)
    (hrec : a'.recorded model = a.recorded model) (hclock : a.clock ≤ a'.clock) :
    a'.Balanced model := by
  have hledger : ∀ cutoff, a.ledger model cutoff = a'.ledger model cutoff := by
    intro cutoff
    simp only [Account.ledger, hres, hrec]
  exact
    { minuteTokens := by rw [hstate]; exact (h.minuteTokens.later hclock).congr hledger
      dayTokens := by rw [hstate]; exact (h.dayTokens.later hclock).congr hledger
      reserved_past := by
        rw [hres]
        exact fun r hr => le_trans (h.reserved_past r hr) hclock
      released_after := by rw [hres]; exact h.released_after }

theorem step_limits (a : Account) (c : Call) : (a.step c).budget.limits = a.budget.limits := by
  cases c with
  | reserve model est now => exact reserve_limits a.budget model est now
  | release model k now =>
      cases hk : (a.reservations model)[k]? with
      | none => simp [Account.step, hk]
      | some r => simp [Account.step, hk, release_limits]
  | record model used now => rfl

/-- A charge on balanced books stays balanced when the ledger grows by the charged amount in every
window that reaches now. -/
theorem balanced_charge {a a' : Account} {model : String} (st : ModelState) (amount requests : ℤ)
    (hminute : Tracks minute a'.clock (a.ledger model) st.minuteTokens)
    (hday : Tracks day a'.clock (a.ledger model) st.dayTokens)
    (hstate : a'.budget.state model = st.charge a'.clock amount requests)
    (hledger : ∀ cutoff, a.ledger model cutoff + (if cutoff ≤ a'.clock then amount else 0) =
      a'.ledger model cutoff)
    (hpast : ∀ r ∈ a'.reservations model, r.time ≤ a'.clock)
    (hafter : ∀ r ∈ a'.reservations model, ∀ t ∈ r.releasedAt, r.time ≤ t) :
    a'.Balanced model where
  minuteTokens := by
    rw [hstate]
    exact (hminute.append amount).congr hledger
  dayTokens := by
    rw [hstate]
    exact (hday.append amount).congr hledger
  reserved_past := hpast
  released_after := hafter

theorem balanced_reserve {a : Account} {model : String} (hb : a.Balanced model)
    (hlim : (a.budget.limits model).isSome) (est : ℤ) {now : Time} (hnow : a.clock ≤ now) :
    (a.step (.reserve model est now)).Balanced model := by
  obtain ⟨lim, hlim⟩ := Option.isSome_iff_exists.mp hlim
  obtain ⟨hminute, -⟩ := hb.minuteTokens.refresh hnow
  obtain ⟨hday, -⟩ := hb.dayTokens.refresh hnow
  rcases reserve_cases a.budget hlim est now with ⟨-, hr⟩ | ⟨-, hr⟩
  · refine balanced_charge ((a.budget.state model).refresh now) est 1 hminute hday ?_ ?_ ?_ ?_
    · simp [Account.step, hr]
    · intro cutoff
      simp only [Account.step, hr, Account.ledger, Function.update_self, if_true, List.map_append,
        List.map_singleton, List.sum_append, List.sum_singleton, Reservation.charged]
      simp only [Option.mem_def, reduceCtorEq, false_and, exists_false, if_false]
      abel
    · simp only [Account.step, hr, if_true, Function.update_self, List.mem_append,
        List.mem_singleton]
      rintro r (hmem | rfl)
      · exact le_trans (hb.reserved_past r hmem) hnow
      · exact le_rfl
    · simp only [Account.step, hr, if_true, Function.update_self, List.mem_append,
        List.mem_singleton]
      rintro r (hmem | rfl) t ht
      · exact hb.released_after r hmem t ht
      · simp at ht
  · have hstep : a.step (.reserve model est now) =
        { a with
          budget := a.budget.setState model ((a.budget.state model).refresh now)
          clock := now } := by
      simp [Account.step, hr]
    rw [hstep]
    exact
      { minuteTokens := by
          rw [setState_state_self]
          exact hminute
        dayTokens := by
          rw [setState_state_self]
          exact hday
        reserved_past := fun r hmem => le_trans (hb.reserved_past r hmem) hnow
        released_after := hb.released_after }

theorem balanced_release {a : Account} {model : String} (hb : a.Balanced model)
    (hlim : (a.budget.limits model).isSome) {k : Nat} {now : Time} (hnow : a.clock ≤ now)
    {r : Reservation} (hk : (a.reservations model)[k]? = some r) (hr : r.releasedAt = none) :
    (a.step (.release model k now)).Balanced model := by
  obtain ⟨lim, hlim⟩ := Option.isSome_iff_exists.mp hlim
  have hstep : a.step (.release model k now) =
      { a with
        budget := a.budget.setState model ((a.budget.state model).charge now (-r.amount) (-1))
        reservations := Function.update a.reservations model
          ((a.reservations model).set k { r with releasedAt := some now })
        clock := now } := by
    simp only [Account.step, hk, release_of_known a.budget hlim]
  rw [hstep]
  have hmem : ∀ s ∈ (a.reservations model).set k { r with releasedAt := some now },
      s ∈ a.reservations model ∨ s = { r with releasedAt := some now } :=
    fun s hs => List.mem_or_eq_of_mem_set hs
  have hr_past : r.time ≤ now :=
    le_trans (hb.reserved_past r (List.mem_of_getElem? hk)) hnow
  refine balanced_charge (a.budget.state model) (-r.amount) (-1)
    (hb.minuteTokens.later hnow) (hb.dayTokens.later hnow) ?_ ?_ ?_ ?_
  · simp
  · intro cutoff
    simp only [Account.ledger, Function.update_self, sum_map_set _ hk, charged_release cutoff r hr]
    abel
  · simp only [Function.update_self]
    intro s hs
    rcases hmem s hs with hs | rfl
    · exact le_trans (hb.reserved_past s hs) hnow
    · exact hr_past
  · simp only [Function.update_self]
    intro s hs t ht
    rcases hmem s hs with hs | rfl
    · exact hb.released_after s hs t ht
    · rw [Option.mem_def, Option.some.injEq] at ht
      subst ht
      exact hr_past

theorem balanced_record {a : Account} {model : String} (hb : a.Balanced model) (used : ℤ)
    {now : Time} (hnow : a.clock ≤ now) : (a.step (.record model used now)).Balanced model := by
  refine balanced_charge (a.budget.state model) used 1
    (hb.minuteTokens.later hnow) (hb.dayTokens.later hnow) ?_ ?_ ?_ hb.released_after
  · simp [Account.step, record]
  · intro cutoff
    simp only [Account.step, Account.ledger, Function.update_self, windowSum_append,
      windowSum_singleton]
    abel
  · exact fun r hr => le_trans (hb.reserved_past r hr) hnow

theorem inv_step {a : Account} {c : Call} (hinv : a.Inv) (hlegal : a.Legal c) :
    (a.step c).Inv := by
  intro model hmodel
  rw [step_limits] at hmodel
  have hb := hinv model hmodel
  obtain ⟨hnow, hout⟩ := hlegal
  cases c with
  | reserve model' est now =>
      by_cases hm : model = model'
      · subst hm
        exact balanced_reserve hb hmodel est hnow
      · refine balanced_of_frame hb ?_ ?_ rfl hnow
        · exact reserve_state_of_ne a.budget hm est now
        · cases hok : (a.budget.reserve model' est now).1 <;> simp [Account.step, hok, hm]
  | release model' k now =>
      obtain ⟨r, hk, hr⟩ := hout
      by_cases hm : model = model'
      · subst hm
        exact balanced_release hb hmodel hnow hk hr
      · have hk' : (a.reservations model')[k]? = some r := hk
        refine balanced_of_frame hb ?_ ?_ ?_ ?_
        · simp [Account.step, hk', release_state_of_ne a.budget hm]
        · simp [Account.step, hk', hm]
        · simp [Account.step, hk']
        · simp only [Account.step, hk']
          exact hnow
  | record model' used now =>
      by_cases hm : model = model'
      · subst hm
        exact balanced_record hb used hnow
      · exact balanced_of_frame hb (by simp [Account.step, record, hm]) rfl
          (by simp [Account.step, hm]) hnow

/-! ## Real spend and stale rollbacks -/

/-- The amount by which stale rollbacks lower the window sum of a model. -/
def Account.staleAmount (a : Account) (model : String) (cutoff : Time) : ℤ :=
  ((a.reservations model).map fun r => if r.Stale cutoff then r.amount else 0).sum

theorem charged_eq (cutoff : Time) (r : Reservation) (hafter : ∀ t ∈ r.releasedAt, r.time ≤ t) :
    r.charged cutoff = r.spent cutoff - if r.Stale cutoff then r.amount else 0 := by
  rcases r with ⟨time, amount, _ | t⟩
  · simp [Reservation.charged, Reservation.spent, Reservation.Stale]
  · have ht : time ≤ t := hafter t rfl
    by_cases hin : cutoff ≤ time
    · have hint : cutoff ≤ t := le_trans hin ht
      simp [Reservation.charged, Reservation.spent, Reservation.Stale, hin, hint, not_lt.mpr hin]
    · simp [Reservation.charged, Reservation.spent, Reservation.Stale, hin, not_le.mp hin]

theorem ledger_eq {a : Account} {model : String} (hb : a.Balanced model) (cutoff : Time) :
    a.ledger model cutoff = a.spent model cutoff - a.staleAmount model cutoff := by
  have hsum : ∀ rs : List Reservation, (∀ r ∈ rs, ∀ t ∈ r.releasedAt, r.time ≤ t) →
      (rs.map (Reservation.charged cutoff)).sum = (rs.map (Reservation.spent cutoff)).sum -
        (rs.map fun r => if r.Stale cutoff then r.amount else 0).sum := by
    intro rs
    induction rs with
    | nil => intro _; rfl
    | cons r rs ih =>
        intro hrs
        simp only [List.map_cons, List.sum_cons, charged_eq cutoff r (hrs r List.mem_cons_self),
          ih fun x hx => hrs x (List.mem_cons_of_mem _ hx)]
        abel
  rw [Account.ledger, Account.spent, Account.staleAmount, hsum _ hb.released_after]
  abel

theorem refreshed_minuteTokens {a : Account} {model : String} (hb : a.Balanced model) {now : Time}
    (hnow : a.clock ≤ now) :
    ((a.budget.state model).refresh now).minuteTokens.total =
      a.spent model (now - minute) - a.staleAmount model (now - minute) :=
  (hb.minuteTokens.refresh hnow).2.trans (ledger_eq hb _)

theorem refreshed_dayTokens {a : Account} {model : String} (hb : a.Balanced model) {now : Time}
    (hnow : a.clock ≤ now) :
    ((a.budget.state model).refresh now).dayTokens.total =
      a.spent model (now - day) - a.staleAmount model (now - day) :=
  (hb.dayTokens.refresh hnow).2.trans (ledger_eq hb _)

theorem staleAmount_eq_zero {a : Account} {model : String} {cutoff : Time}
    (h : ∀ r ∈ a.reservations model, ¬ r.Stale cutoff) : a.staleAmount model cutoff = 0 := by
  have hzero : (a.reservations model).map (fun r => if r.Stale cutoff then r.amount else 0) =
      (a.reservations model).map fun _ => 0 :=
    List.map_congr_left fun r hr => if_neg (h r hr)
  rw [Account.staleAmount, hzero]
  simp

theorem spent_reserve (a : Account) {model : String} {est : ℤ} {now cutoff : Time}
    (hok : (a.budget.reserve model est now).1 = true) (hc : cutoff ≤ now) :
    (a.step (.reserve model est now)).spent model cutoff = a.spent model cutoff + est := by
  simp only [Account.step, hok, if_true, Account.spent, Function.update_self, List.map_append,
    List.map_singleton, List.sum_append, List.sum_singleton, Reservation.spent, hc, and_self]
  abel

theorem within_of_noStale {a : Account} {c : Call} (hinv : a.Inv) (hlegal : a.Legal c)
    (hfresh : a.RollbacksInWindow c) : a.WithinLimits c := by
  cases c with
  | release model k now => trivial
  | record model used now => trivial
  | reserve model est now =>
      intro lim hlim hok
      have hlim' : a.budget.limits model = some lim := hlim
      have hb := hinv model (by rw [hlim']; rfl)
      have hnow : a.clock ≤ now := hlegal.1
      have hstale : ∀ r ∈ a.reservations model,
          ¬ r.Stale (now - minute) ∧ ¬ r.Stale (now - day) := hfresh
      rcases reserve_cases a.budget hlim' est now with ⟨hroom, -⟩ | ⟨-, hr⟩
      · obtain ⟨htpm, -, htpd, -⟩ := (ModelState.hasRoom_iff _ _ _).mp hroom
        rw [refreshed_minuteTokens hb hnow, staleAmount_eq_zero fun r hr => (hstale r hr).1,
          sub_zero] at htpm
        rw [refreshed_dayTokens hb hnow, staleAmount_eq_zero fun r hr => (hstale r hr).2,
          sub_zero] at htpd
        rw [spent_reserve a hok (sub_le_self now (by decide +kernel)),
          spent_reserve a hok (sub_le_self now (by decide +kernel))]
        exact ⟨htpm, htpd⟩
      · rw [hr] at hok
        simp at hok

/-- In every legal run in which no reservation meets a stale rollback, the un-released spend of the
last minute and of the last day is within 80 percent of the limits after each successful
reservation on a known model. -/
theorem reserve_within_limits (limits : List (String × ModelLimits)) (start : Time)
    (calls : List Call)
    (hlegal : EveryStep Account.step Account.Legal (.open limits start) calls)
    (hfresh : EveryStep Account.step Account.RollbacksInWindow (.open limits start) calls) :
    EveryStep Account.step Account.WithinLimits (.open limits start) calls := by
  have hstep : ∀ (a : Account) c, a.Inv → a.Legal c ∧ a.RollbacksInWindow c → (a.step c).Inv :=
    fun a c hinv h => inv_step hinv h.1
  have hwithin : ∀ (a : Account) c, a.Inv → a.Legal c ∧ a.RollbacksInWindow c → a.WithinLimits c :=
    fun a c hinv h => within_of_noStale hinv h.1 h.2
  exact everyStep_of_invariant hstep hwithin (inv_open limits start) (hlegal.and hfresh)

/-- A run with a rollback inside the window of its reservation. -/
def promptRollback : List Call :=
  [ .reserve "openai/gpt-oss-120b" 6000 0, .release "openai/gpt-oss-120b" 0 20,
    .reserve "openai/gpt-oss-120b" 6400 40 ]

theorem reserve_within_limits_promptRollback :
    EveryStep Account.step Account.WithinLimits (.open [] 0) promptRollback :=
  reserve_within_limits [] 0 promptRollback (by decide +kernel) (by decide +kernel)

/-- A run whose last reservation meets the rollback, made 11 seconds before, of a reservation that
left the minute window one second ago. -/
def lateRollback : List Call :=
  [ .reserve "openai/gpt-oss-120b" 6000 0, .release "openai/gpt-oss-120b" 0 50,
    .reserve "openai/gpt-oss-120b" 12400 61 ]

/-- Not every legal run stays within the limits: the late rollback lets a reservation of 12400
tokens through a limit of 6400. -/
theorem stale_rollback_overspends :
    ¬ ∀ (limits : List (String × ModelLimits)) (start : Time) (calls : List Call),
        EveryStep Account.step Account.Legal (.open limits start) calls →
          EveryStep Account.step Account.WithinLimits (.open limits start) calls := by
  intro h
  have hover : ¬ EveryStep Account.step Account.WithinLimits (.open [] 0) lateRollback := by
    decide +kernel
  exact hover (h [] 0 lateRollback (by decide +kernel))

end AsetPlatform.Llm.BudgetRuns

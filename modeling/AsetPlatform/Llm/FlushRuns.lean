import AsetPlatform.Library.Run
import AsetPlatform.Library.Threads
import AsetPlatform.Llm.Observability
import Mathlib.Data.List.Nodup

/-!
# Runs of the event buffer

`World.Accounts`: every recorded event is once in the table, once in the buffer, or once in a batch
in flight, and a synchronous flush that began alone leaves none pending of what had been recorded
when it returned.

`accounts_of_harmless`: every state of a run is so, when no append of a synchronous flush fails, no
append of a periodic one raises after its rows are in the table, nothing is recorded while a
synchronous flush that began alone is writing, and the process ends with nothing pending or in
flight.
-/

set_option autoImplicit false

namespace AsetPlatform.Llm.Observability

open AsetPlatform.Library

namespace World

variable (w : World)

/-- How often an event is in a batch in flight. -/
def inFlight (e : UsageEvent) : Nat := (w.flushes.map fun t => t.batch.count e).sum

/-- No event is lost or doubled, and a synchronous flush leaves none pending. -/
structure Accounts : Prop where
  once : ∀ e ∈ w.recorded, w.persisted.count e + w.pending.count e + w.inFlight e = 1
  flushed : ∀ t ∈ w.flushes, ∀ recorded, t.phase = .flushed recorded →
    ∀ e ∈ recorded, e ∉ w.pending

/-- The condition on the state before a step. -/
def Harmless : Event → Prop
  | .append k outcome =>
      match w.flushes[k]? with
      | some ⟨.periodic, _, .writing _⟩ => outcome ≠ .unknown
      | some ⟨.sync, _, .writing _⟩ => outcome ≠ .refused
      | _ => True
  | .record _ _ _ _ => ∀ t ∈ w.flushes, t.kind = .sync → t.alone = true → t.isWriting = false
  | .exit => w.pending = [] ∧ w.idle = true
  | _ => True

instance Harmless.decidable (e : Event) : Decidable (w.Harmless e) := by
  unfold Harmless
  split
  · split <;> infer_instance
  all_goals infer_instance

end World

/-! ## The invariant -/

/-- A synchronous flush that began alone has all that is recorded in the table or in its batch, and
all of it in the table when it has written. -/
def FlushOk (recorded persisted : List UsageEvent) (t : Flush) : Prop :=
  match t.phase with
  | .writing batch => t.kind = .sync → t.alone = true →
      ∀ e ∈ recorded, e ∈ persisted ∨ e ∈ batch
  | .flushed before => ∀ e ∈ before, e ∈ recorded ∧ e ∈ persisted
  | _ => True

structure Inv (w : World) : Prop where
  ids : w.recorded.map UsageEvent.usageId = List.range w.recorded.length
  copies : ∀ e, w.persisted.count e + w.pending.count e + w.inFlight e = w.recorded.count e
  flushes : ∀ t ∈ w.flushes, FlushOk w.recorded w.persisted t

theorem FlushOk.persist {recorded persisted : List UsageEvent} {t : Flush}
    (h : FlushOk recorded persisted t) (rows : List UsageEvent) :
    FlushOk recorded (persisted ++ rows) t := by
  unfold FlushOk at *
  split at h
  · intro hSync hAlone e he
    exact (h hSync hAlone e he).imp_left (List.mem_append_left rows)
  · intro e he
    exact ⟨(h e he).1, List.mem_append_left rows (h e he).2⟩
  · trivial

theorem FlushOk.record {recorded persisted : List UsageEvent} {t : Flush}
    (h : FlushOk recorded persisted t)
    (hQuiet : t.kind = .sync → t.alone = true → t.isWriting = false) (event : UsageEvent) :
    FlushOk (recorded ++ [event]) persisted t := by
  unfold FlushOk at *
  split at h
  · rename_i batch hWriting
    intro hSync hAlone
    have hNot := hQuiet hSync hAlone
    unfold Flush.isWriting at hNot
    rw [hWriting] at hNot
    cases hNot
  · intro e he
    exact ⟨List.mem_append_left _ (h e he).1, (h e he).2⟩
  · trivial

namespace Inv

variable {w : World} {k : Nat} {t : Flush}

theorem nodup (h : Inv w) : w.recorded.Nodup := by
  apply List.Nodup.of_map UsageEvent.usageId
  rw [h.ids]
  exact List.nodup_range

theorem accounts (h : Inv w) : w.Accounts where
  once e he := by rw [h.copies e, List.count_eq_one_of_mem h.nodup he]
  flushed t ht recorded hPhase e he hPending := by
    have hOk := h.flushes t ht
    unfold FlushOk at hOk
    rw [hPhase] at hOk
    obtain ⟨hRecorded, hPersisted⟩ := hOk e he
    have hCopies := h.copies e
    rw [List.count_eq_one_of_mem h.nodup hRecorded] at hCopies
    have := List.count_pos_iff.mpr hPersisted
    have := List.count_pos_iff.mpr hPending
    omega

/-- A flush that moves and leaves the sum of the copies of each event. -/
theorem moved (h : Inv w) (ht : w.flushes[k]? = some t) (pending rows : List UsageEvent)
    (alone : Bool) (phase : FlushPhase)
    (hCopies : ∀ e, rows.count e + pending.count e +
      (Flush.batch ⟨t.kind, alone, phase⟩).count e = w.pending.count e + t.batch.count e)
    (hOk : FlushOk w.recorded (w.persisted ++ rows) ⟨t.kind, alone, phase⟩) :
    Inv ({ w with pending := pending, persisted := w.persisted ++ rows }.move k
      ⟨t.kind, alone, t.phase⟩ phase) where
  ids := h.ids
  copies e := by
    have hMove : (({ w with pending := pending, persisted := w.persisted ++ rows } : World).move k
        ⟨t.kind, alone, t.phase⟩ phase).inFlight e + t.batch.count e =
        w.inFlight e + (Flush.batch ⟨t.kind, alone, phase⟩).count e :=
      sum_map_set_add (fun t => t.batch.count e) ht
    have hBefore := h.copies e
    have hHere := hCopies e
    show (w.persisted ++ rows).count e + pending.count e + _ = w.recorded.count e
    rw [List.count_append]
    omega
  flushes := forall_mem_set (fun u hu => (h.flushes u hu).persist rows) hOk

/-! ### The steps -/

theorem record (h : Inv w) (r : Recording) (rates : Option (ℚ × ℚ)) (today now : Int)
    (hGuard : w.Harmless (.record r rates today now)) :
    Inv (w.advance (.record r rates today now)) where
  ids := by
    show (w.recorded ++ [_]).map UsageEvent.usageId = List.range (w.recorded ++ [_]).length
    rw [List.map_append, List.length_append, List.length_singleton, List.range_succ, h.ids,
      List.map_singleton, enqueued_usageId]
  copies e := by
    have hBefore := h.copies e
    show w.persisted.count e + (w.pending ++ [_]).count e + w.inFlight e = (w.recorded ++ [_]).count e
    rw [List.count_append, List.count_append]
    omega
  flushes t ht := (h.flushes t ht).record (hGuard t ht) _

theorem begun (h : Inv w) (kind : FlushKind) :
    Inv { w with timer := false, flushes := w.flushes ++ [⟨kind, false, .taking⟩] } where
  ids := h.ids
  copies e := by
    have hBefore := h.copies e
    have hNew : ((w.flushes ++ [(⟨kind, false, .taking⟩ : Flush)]).map fun t =>
        t.batch.count e).sum = w.inFlight e := by
      rw [List.map_append, List.sum_append]
      exact Nat.add_zero _
    show w.persisted.count e + w.pending.count e + List.sum _ = w.recorded.count e
    rw [hNew]
    exact hBefore
  flushes := forall_mem_append_singleton h.flushes trivial

theorem persisted_or_pending (h : Inv w) (hIdle : w.idle = true) {e : UsageEvent}
    (he : e ∈ w.recorded) : e ∈ w.persisted ∨ e ∈ w.pending := by
  have hNone : w.inFlight e = 0 := by
    apply List.sum_eq_zero
    intro n hn
    obtain ⟨t, ht, rfl⟩ := List.mem_map.mp hn
    have hEmpty := List.all_eq_true.mp hIdle t ht
    rw [List.isEmpty_iff.mp hEmpty]
    rfl
  have hOnce := h.accounts.once e he
  rw [hNone] at hOnce
  by_contra hNot
  rw [not_or] at hNot
  rw [List.count_eq_zero_of_not_mem hNot.1, List.count_eq_zero_of_not_mem hNot.2] at hOnce
  omega

theorem take (h : Inv w) (k : Nat) : Inv (w.advance (.take k)) := by
  simp only [World.advance]
  split
  · rename_i alone ht
    have hOk : FlushOk w.recorded (w.persisted ++ []) ⟨.periodic, alone,
        if (w.pending.take flushBatch).isEmpty then .rescheduling
        else .writing (w.pending.take flushBatch)⟩ := by
      split
      · trivial
      · intro hSync
        cases hSync
    have hMoved := h.moved ht (w.pending.drop flushBatch) [] _ _ ?_ hOk
    · rwa [List.append_nil] at hMoved
    · intro e
      have hSplit := congrArg (List.count e) (List.take_append_drop flushBatch w.pending)
      rw [List.count_append] at hSplit
      have hBatch : (Flush.batch ⟨.periodic, alone,
          if (w.pending.take flushBatch).isEmpty then .rescheduling
          else .writing (w.pending.take flushBatch)⟩).count e =
            (w.pending.take flushBatch).count e := by
        split
        · rename_i hEmpty
          rw [List.isEmpty_iff.mp hEmpty]
          rfl
        · rfl
      show 0 + _ + _ = _ + 0
      rw [hBatch]
      omega
  · rename_i alone ht
    have hOk : FlushOk w.recorded (w.persisted ++ []) ⟨.sync, w.idle,
        if w.pending.isEmpty then w.afterSync w.idle else .writing w.pending⟩ := by
      rw [List.append_nil]
      cases hIdle : w.idle with
      | false => split <;> simp [FlushOk, World.afterSync]
      | true =>
          split
          · rename_i hEmpty
            intro e he
            refine ⟨he, (h.persisted_or_pending hIdle he).resolve_right ?_⟩
            rw [List.isEmpty_iff.mp hEmpty]
            exact List.not_mem_nil
          · intro _ _ e he
            exact h.persisted_or_pending hIdle he
    have hMoved := h.moved ht [] [] _ _ ?_ hOk
    · rwa [List.append_nil] at hMoved
    · intro e
      have hBatch : (Flush.batch ⟨.sync, w.idle,
          if w.pending.isEmpty then w.afterSync w.idle else .writing w.pending⟩).count e =
            w.pending.count e := by
        split
        · rename_i hEmpty
          rw [List.isEmpty_iff.mp hEmpty]
          unfold World.afterSync
          split <;> rfl
        · rfl
      show 0 + 0 + _ = _ + 0
      rw [hBatch]
      omega
  · exact h

theorem append (h : Inv w) (k : Nat) (outcome : Outcome)
    (hGuard : w.Harmless (.append k outcome)) : Inv (w.advance (.append k outcome)) := by
  simp only [World.advance]
  split
  · rename_i kind alone batch ht
    unfold World.Harmless at hGuard
    simp only [ht] at hGuard
    have hOld := h.flushes _ (List.mem_of_getElem? ht)
    apply h.moved ht w.pending
    · intro e
      show _ = w.pending.count e + batch.count e
      cases kind with
      | periodic =>
          cases outcome with
          | stored =>
              show batch.count e + w.pending.count e + 0 = _
              omega
          | refused =>
              show 0 + w.pending.count e + batch.count e = _
              omega
          | unknown => exact absurd rfl hGuard
      | sync =>
          cases outcome with
          | stored =>
              have hNone : (Flush.batch ⟨.sync, alone, w.afterSync alone⟩).count e = 0 := by
                unfold World.afterSync
                split <;> rfl
              show batch.count e + w.pending.count e +
                (Flush.batch ⟨.sync, alone, w.afterSync alone⟩).count e = _
              omega
          | refused => exact absurd rfl hGuard
          | unknown =>
              show batch.count e + w.pending.count e + 0 = _
              omega
    · cases kind with
      | periodic =>
          cases outcome with
          | stored => exact True.intro
          | refused => exact True.intro
          | unknown => exact True.intro
      | sync =>
          cases outcome with
          | stored =>
              cases alone with
              | false => exact True.intro
              | true =>
                  -- all that was recorded is in the table, or was in the batch
                  have hAll : ∀ e ∈ w.recorded, e ∈ w.recorded ∧ e ∈ w.persisted ++ batch :=
                    fun e he => ⟨he, List.mem_append.mpr (hOld rfl rfl e he)⟩
                  exact hAll
          | refused => exact True.intro
          | unknown => exact True.intro
  · exact h

theorem requeue (h : Inv w) (k : Nat) : Inv (w.advance (.requeue k)) := by
  simp only [World.advance]
  split
  · rename_i kind alone batch ht
    have hMoved := h.moved ht (batch ++ w.pending) [] alone .rescheduling ?_ trivial
    · rwa [List.append_nil] at hMoved
    · intro e
      show 0 + (batch ++ w.pending).count e + 0 = w.pending.count e + batch.count e
      rw [List.count_append]
      omega
  · exact h

theorem reschedule (h : Inv w) (k : Nat) : Inv (w.advance (.reschedule k)) := by
  simp only [World.advance]
  split
  · rename_i kind alone ht
    have hMoved := h.moved ht w.pending [] alone .returned ?_ trivial
    · rw [List.append_nil] at hMoved
      exact ⟨hMoved.ids, hMoved.copies, hMoved.flushes⟩
    · intro e
      show 0 + w.pending.count e + 0 = w.pending.count e + 0
      omega
  · exact h

theorem exit (h : Inv w) (hGuard : w.Harmless .exit) : Inv (w.advance .exit) where
  ids := h.ids
  copies e := by
    obtain ⟨hPending, hIdle⟩ := hGuard
    have hBefore := h.copies e
    have hNone : w.inFlight e = 0 := by
      apply List.sum_eq_zero
      intro n hn
      obtain ⟨t, ht, rfl⟩ := List.mem_map.mp hn
      have hEmpty := List.all_eq_true.mp hIdle t ht
      rw [List.isEmpty_iff.mp hEmpty]
      rfl
    rw [hPending, hNone] at hBefore
    exact hBefore
  flushes t ht := by cases ht

theorem step (h : Inv w) (e : Event) (hGuard : w.Harmless e) : Inv (w.step e) := by
  unfold World.step
  split
  · exact h
  · cases e with
    | record r rates today now => exact h.record r rates today now hGuard
    | fire =>
        simp only [World.advance]
        split
        · exact h.begun .periodic
        · exact h
    | beginSync => exact h.begun .sync
    | take k => exact h.take k
    | append k outcome => exact h.append k outcome hGuard
    | requeue k => exact h.requeue k
    | reschedule k => exact h.reschedule k
    | exit => exact h.exit hGuard

theorem start : Inv World.start where
  ids := rfl
  copies _ := rfl
  flushes _ ht := by cases ht

end Inv

/-! ## Runs -/

/-- In a run of harmless steps no event is lost or doubled, and what a synchronous flush that began
alone leaves pending was recorded after it returned. -/
theorem accounts_of_harmless (events : List Event)
    (h : EveryStep World.step World.Harmless World.start events) :
    EveryState World.step World.Accounts World.start events := by
  have hStep : ∀ (w : World) (e : Event), Inv w → w.Harmless e → Inv (w.step e) :=
    fun _ e hInv hGuard => hInv.step e hGuard
  exact (everyState_of_invariant hStep Inv.start h).imp fun _ hInv => hInv.accounts

def someRequest : Recording :=
  .request "llama" "groq" "stock" 0 none (some 900) (some 100) (some 40) "platform"

/-- A periodic flush fails and puts its event back while another is recorded; a flush at the end
writes both. -/
def retriedFlush : List Event :=
  [.record someRequest none 20000 1, .fire, .take 0, .append 0 .refused,
    .record (.compression "stock" none) none 20000 2, .requeue 0, .reschedule 0,
    .beginSync, .take 1, .append 1 .stored, .exit]

theorem accounts_retriedFlush : EveryState World.step World.Accounts World.start retriedFlush :=
  accounts_of_harmless retriedFlush (by decide +kernel)

def failedFlush : List Event :=
  [.record someRequest none 20000 1, .beginSync, .take 0, .append 0 .refused]

/-- The event of a failed synchronous flush is nowhere. -/
theorem failedFlush_loses : ¬ EveryState World.step World.Accounts World.start failedFlush := by
  intro h
  have hOnce := h.last.once (enqueued none 0 20000 1 someRequest) (by decide +kernel)
  revert hOnce
  decide +kernel

end AsetPlatform.Llm.Observability

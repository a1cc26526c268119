import AsetPlatform.Portfolio.Ledger
import Mathlib.Data.List.Nodup

/-!
# Runs of ledger calls

A call changes the rows of its own transaction and leaves those of every other alone
(`rowsOf_effect`), so calls on distinct transactions that each apply to the current rows add up, in
whatever order they commit. An overwrite applies to the rows that its call read: it undoes every
commit since then. `ledger_exact` has the condition under which nothing is lost, that each overwrite
commits while the table still has the rows that were read, and `concurrent_update_lost` a run in
which two updates of different users read the same version.
-/

set_option autoImplicit false

namespace AsetPlatform.Portfolio

open AsetPlatform.Library

/-! ## Rows of one transaction -/

def rowsOf (id : String) (rows : List Row) : List Row := rows.filter fun row => row.transactionId = id

theorem editRow_transactionId (updates : Updates) (row : Row) :
    (editRow updates row).transactionId = row.transactionId := rfl

theorem rowsOf_map (id : String) {f : Row → Row} (rows : List Row)
    (hf : ∀ row, (f row).transactionId = row.transactionId) :
    rowsOf id (rows.map f) = (rowsOf id rows).map f := by
  induction rows with
  | nil => rfl
  | cons row rows ih =>
      simp only [rowsOf] at ih ⊢
      rw [List.map_cons, List.filter_cons, List.filter_cons, hf]
      split
      · rw [List.map_cons, ih]
      · exact ih

theorem rowsOf_effect (op : LedgerCall) (rows : List Row) :
    rowsOf op.transactionId (op.effect rows) = op.effect (rowsOf op.transactionId rows) := by
  cases op with
  | add txn now =>
      simp [rowsOf, LedgerCall.effect, LedgerCall.transactionId, newRow, List.filter_append]
  | update transactionId userId updates =>
      apply rowsOf_map
      intro row
      split
      · exact editRow_transactionId updates row
      · rfl
  | delete transactionId userId => exact List.filter_comm _ _ _

theorem rowsOf_effect_of_ne {op : LedgerCall} {id : String} (rows : List Row)
    (h : op.transactionId ≠ id) : rowsOf id (op.effect rows) = rowsOf id rows := by
  cases op with
  | add txn now =>
      have hne : (newRow txn now).transactionId ≠ id := h
      simp [rowsOf, LedgerCall.effect, List.filter_append, hne]
  | update transactionId userId updates =>
      have hrows := rowsOf_map id (f := fun row => if LedgerCall.mask transactionId userId row then
        editRow updates row else row) rows fun row => by
          split
          · exact editRow_transactionId updates row
          · rfl
      refine hrows.trans ((List.map_congr_left fun row hrow => ?_).trans (List.map_id _))
      -- the mask asks for the call's transaction
      have hid : row.transactionId = id := by simpa using (List.mem_filter.mp hrow).2
      have hmask : LedgerCall.mask transactionId userId row = false := by
        simp only [LedgerCall.mask, hid, Bool.and_eq_false_iff, decide_eq_false_iff_not]
        exact Or.inl (Ne.symm h)
      simp [hmask]
  | delete transactionId userId =>
      simp only [rowsOf, LedgerCall.effect, List.filter_filter]
      apply List.filter_congr
      intro row _
      by_cases hid : row.transactionId = id
      · have hne : row.transactionId ≠ transactionId := fun heq => h (heq ▸ hid)
        simp [LedgerCall.mask, hid, hid ▸ hne]
      · simp [hid]

/-! ## What a step does -/

/-- The call's commit has taken effect. -/
def Phase.applied : Phase → Bool
  | .committed => true
  | .done ok => ok
  | _ => false

/-- The call has returned or raised. -/
def Phase.finished : Phase → Bool
  | .done _ => true
  | .raised => true
  | _ => false

/-- The version whose rows the call is about to overwrite the table with. -/
def Phase.overwrites : Phase → Option Nat
  | .overwriting version => some version
  | _ => none

namespace World

/-- The rows a commit leaves: of the current version for an append, of the version that was read for
an overwrite. -/
def Leaves (w : World) (c : Call) (rows : List Row) : Prop :=
  (c.phase = .appending ∧ rows = c.op.effect w.rows) ∨
    ∃ version, c.phase = .overwriting version ∧ rows = c.op.effect (w.rowsAt version)

/-- What a step can do: begin a call, move one without touching the table, commit one, or let a
committed one return. -/
inductive Does (w : World) : LedgerStep → World → Prop
  | idle (e : LedgerStep) : Does w e w
  | begun (process : Nat) (op : LedgerCall) {phase : Phase} (hphase : phase.applied = false) :
      Does w (.begin process op) { w with calls := w.calls ++ [⟨process, op, phase⟩] }
  | moved (e : LedgerStep) {k : Nat} {c : Call} {phase : Phase} (metaCache : Nat → Option Nat)
      (hcall : w.calls[k]? = some c) (hbefore : c.phase.applied = false)
      (hafter : phase.applied = false) :
      Does w e ({ w with metaCache := metaCache }.setPhase k c phase)
  | committed {k : Nat} {c : Call} {rows : List Row} (hcall : w.calls[k]? = some c)
      (hfree : w.locked c.process = false) (hrows : w.Leaves c rows) :
      Does w (.commit k true) (w.push k c rows)
  | released {k : Nat} {c : Call} (metaCache : Nat → Option Nat) (hcall : w.calls[k]? = some c)
      (hphase : c.phase = .committed) :
      Does w (.release k) ({ w with metaCache := metaCache }.setPhase k c (.done true))

theorem afterScan_not_applied (op : LedgerCall) (version : Nat) (rows : List Row) :
    (afterScan op version rows).applied = false := by
  simp only [afterScan]
  split <;> rfl

theorem does_step (w : World) (e : LedgerStep) : w.Does e (w.step e) := by
  cases e with
  -- an addition starts at its commit, the others at the lookup of the remembered file
  | begin process op =>
      cases op with
      | add txn now => exact .begun process _ rfl
      | update transactionId userId updates => exact .begun process _ rfl
      | delete transactionId userId => exact .begun process _ rfl
  | lookup k =>
      simp only [step]
      split
      · rename_i hcall
        split
        · exact .moved _ w.metaCache hcall rfl rfl
        · exact .moved _ w.metaCache hcall rfl rfl
      · exact .idle _
  | glob k =>
      simp only [step]
      split
      · rename_i hcall
        exact .moved _ w.metaCache hcall rfl rfl
      · exact .idle _
  | store k =>
      simp only [step]
      split
      · rename_i hcall
        exact .moved _ _ hcall rfl rfl
      · exact .idle _
  | scan k path =>
      simp only [step]
      split
      · rename_i hcall
        cases path with
        | duckdb => exact .moved _ w.metaCache hcall rfl (afterScan_not_applied _ _ _)
        | iceberg => exact .moved _ w.metaCache hcall rfl (afterScan_not_applied _ _ _)
        | failed => exact .moved _ w.metaCache hcall rfl (afterScan_not_applied _ _ _)
      · exact .idle _
  | commit k ok =>
      simp only [step]
      split
      · rename_i hcall
        split
        · exact .idle _
        · rename_i hfree
          cases ok with
          -- an append takes the rows as they are now
          | true => exact .committed hcall (by simpa using hfree) (Or.inl ⟨rfl, rfl⟩)
          | false => exact .moved _ w.metaCache hcall rfl rfl
      · rename_i hcall
        split
        · exact .idle _
        · rename_i hfree
          cases ok with
          -- an overwrite takes them from the version its call read
          | true => exact .committed hcall (by simpa using hfree) (Or.inr ⟨_, rfl, rfl⟩)
          | false => exact .moved _ w.metaCache hcall rfl rfl
      · exact .idle _
  | release k =>
      simp only [step]
      split
      · rename_i hcall
        exact .released _ hcall rfl
      · exact .idle _

/-! ## The property and the condition -/

/-- Every call has returned or raised. -/
def Finished (w : World) : Prop := ∀ c ∈ w.calls, c.phase.finished

instance (w : World) : Decidable w.Finished :=
  inferInstanceAs (Decidable (∀ c ∈ w.calls, c.phase.finished = true))

/-- The table has, for each transaction, what it had in the beginning with the effect of the call
on it that reported success, and what it had in the beginning when there is none. -/
def Exact (start : List Row) (w : World) : Prop :=
  ∀ id,
    (∀ c ∈ w.calls, c.op.transactionId = id → c.phase = .done true →
      rowsOf id w.rows = c.op.effect (rowsOf id start)) ∧
    ((∀ c ∈ w.calls, c.op.transactionId = id → c.phase ≠ .done true) →
      rowsOf id w.rows = rowsOf id start)

/-- Calls are on distinct transactions. -/
def Distinct (w : World) : LedgerStep → Prop
  | .begin _ op => ∀ c ∈ w.calls, c.op.transactionId ≠ op.transactionId
  | _ => True

/-- An overwrite commits while the table still has the rows that its call read. -/
def ReadsCurrent (w : World) : LedgerStep → Prop
  | .commit k true =>
      ∀ c ∈ w.calls[k]?, w.locked c.process = false →
        ∀ version ∈ c.phase.overwrites, w.rowsAt version = w.rows
  | _ => True

instance (w : World) : ∀ e, Decidable (w.Distinct e)
  | .begin _ op => inferInstanceAs (Decidable (∀ c ∈ w.calls, c.op.transactionId ≠ op.transactionId))
  | .lookup _ => isTrue trivial
  | .glob _ => isTrue trivial
  | .store _ => isTrue trivial
  | .scan _ _ => isTrue trivial
  | .commit _ _ => isTrue trivial
  | .release _ => isTrue trivial

instance (w : World) : ∀ e, Decidable (w.ReadsCurrent e)
  | .commit k true =>
      inferInstanceAs (Decidable (∀ c ∈ w.calls[k]?, _ → ∀ version ∈ c.phase.overwrites, _ = _))
  | .commit _ false => isTrue trivial
  | .begin _ _ => isTrue trivial
  | .lookup _ => isTrue trivial
  | .glob _ => isTrue trivial
  | .store _ => isTrue trivial
  | .scan _ _ => isTrue trivial
  | .release _ => isTrue trivial

/-! ## The invariant -/

/-- The table has the effects of the commits, each on its own transaction. -/
structure Applied (start : List Row) (w : World) : Prop where
  ids : (w.calls.map (·.op.transactionId)).Nodup
  effect : ∀ c ∈ w.calls, c.phase.applied →
    rowsOf c.op.transactionId w.rows = c.op.effect (rowsOf c.op.transactionId start)
  same : ∀ id, (∀ c ∈ w.calls, c.op.transactionId = id → c.phase.applied = false) →
    rowsOf id w.rows = rowsOf id start

theorem eq_of_id {calls : List Call} (hids : (calls.map (·.op.transactionId)).Nodup) {c d : Call}
    (hc : c ∈ calls) (hd : d ∈ calls) (h : c.op.transactionId = d.op.transactionId) : c = d :=
  List.inj_on_of_nodup_map hids hc hd h

theorem rows_push (w : World) (k : Nat) (c : Call) (rows : List Row) :
    (w.push k c rows).rows = rows := by
  simp [World.rows, latest, rowsAt, push, setPhase]

namespace Applied

variable {start : List Row} {w : World} {k : Nat} {c : Call}

theorem setPhase {phase : Phase} {metaCache : Nat → Option Nat} (h : w.Applied start)
    (hcall : w.calls[k]? = some c) (hphase : phase.applied = c.phase.applied) :
    ({ w with metaCache := metaCache }.setPhase k c phase).Applied start where
  ids := by
    have hmap : (w.calls.set k { c with phase := phase }).map (·.op.transactionId) =
        w.calls.map (·.op.transactionId) := map_set_of_eq hcall rfl
    exact hmap ▸ h.ids
  effect :=
    forall_mem_set h.effect fun happlied =>
      h.effect c (List.mem_of_getElem? hcall) (hphase ▸ happlied)
  same id hnone := by
    apply h.same id
    intro d hd hid
    by_cases hmoved : d = c
    · -- the moved call is in the list with its new phase
      subst hmoved
      rw [← hphase]
      exact hnone _ (mem_set_self hcall) hid
    · exact hnone d (mem_set_of_ne hcall hd hmoved) hid

theorem begun {process : Nat} {op : LedgerCall} {phase : Phase} (h : w.Applied start)
    (hdistinct : ∀ c ∈ w.calls, c.op.transactionId ≠ op.transactionId)
    (hphase : phase.applied = false) :
    ({ w with calls := w.calls ++ [⟨process, op, phase⟩] } : World).Applied start where
  ids := by
    rw [List.map_append, List.nodup_append]
    refine ⟨h.ids, List.nodup_singleton _, ?_⟩
    intro id hid id' hid' heq
    obtain ⟨c, hc, rfl⟩ := List.mem_map.mp hid
    exact hdistinct c hc (heq.trans (List.mem_singleton.mp hid'))
  effect :=
    forall_mem_append_singleton h.effect fun happlied => by
      rw [hphase] at happlied
      cases happlied
  same id hnone := h.same id fun c hc hid => hnone c (List.mem_append_left _ hc) hid

/-- A commit on the current rows adds the effect of its call. -/
theorem push {rows : List Row} (h : w.Applied start) (hcall : w.calls[k]? = some c)
    (hbefore : c.phase.applied = false) (hrows : rows = c.op.effect w.rows) :
    (w.push k c rows).Applied start where
  ids := by
    have hmap : (w.calls.set k { c with phase := .committed }).map (·.op.transactionId) =
        w.calls.map (·.op.transactionId) := map_set_of_eq hcall rfl
    exact hmap ▸ h.ids
  -- the commit leaves the rows of the other transactions alone
  effect := by
    have hmem := List.mem_of_getElem? hcall
    rw [rows_push, hrows]
    apply forall_mem_set
    · intro d hd happlied
      have hne : c.op.transactionId ≠ d.op.transactionId := by
        intro heq
        rw [eq_of_id h.ids hmem hd heq, happlied] at hbefore
        cases hbefore
      rw [rowsOf_effect_of_ne _ hne]
      exact h.effect d hd happlied
    · intro _
      rw [rowsOf_effect]
      congr 1
      -- no other call is on this transaction, and this one has not committed before
      apply h.same
      intro d hd hid
      rw [eq_of_id h.ids hd hmem hid]
      exact hbefore
  same id hnone := by
    rw [rows_push, hrows]
    have hne : c.op.transactionId ≠ id := by
      intro heq
      have hcommitted := hnone _ (mem_set_self hcall) heq
      cases hcommitted
    rw [rowsOf_effect_of_ne _ hne]
    apply h.same id
    intro d hd hid
    by_cases hmoved : d = c
    · exact absurd hid (hmoved ▸ hne)
    · exact hnone d (mem_set_of_ne hcall hd hmoved) hid

end Applied

theorem applied_step {start : List Row} {w : World} (e : LedgerStep) (h : w.Applied start)
    (hdistinct : w.Distinct e) (hcurrent : w.ReadsCurrent e) : (w.step e).Applied start := by
  have hdoes := w.does_step e
  generalize w.step e = w' at hdoes ⊢
  cases hdoes with
  | idle => exact h
  | begun process op hphase => exact h.begun hdistinct hphase
  | moved _ metaCache hcall hbefore hafter => exact h.setPhase hcall (hafter.trans hbefore.symm)
  | committed hcall hfree hleaves =>
      rcases hleaves with ⟨hphase, hrows⟩ | ⟨version, hphase, hrows⟩
      · exact h.push hcall (by rw [hphase]; rfl) hrows
      · have hread := hcurrent _ hcall hfree version (by rw [hphase]; rfl)
        rw [hread] at hrows
        exact h.push hcall (by rw [hphase]; rfl) hrows
  | released metaCache hcall hphase => exact h.setPhase hcall (by rw [hphase]; rfl)

theorem applied_start {w : World} (h : w.calls = []) : w.Applied w.rows where
  ids := by simp [h]
  effect c hc := by simp [h] at hc
  same _ _ := rfl

theorem Applied.exact {start : List Row} {w : World} (h : w.Applied start)
    (hfinished : w.Finished) : w.Exact start := by
  -- at its end a call has taken effect exactly if it reported success
  have happlied : ∀ c ∈ w.calls, c.phase.applied ↔ c.phase = .done true := by
    intro c hc
    have hend := hfinished c hc
    cases hphase : c.phase with
    | done ok => cases ok <;> simp [Phase.applied]
    | raised => simp [Phase.applied]
    | _ =>
        rw [hphase] at hend
        cases hend
  intro id
  constructor
  · intro c hc hid hdone
    rw [← hid]
    exact h.effect c hc ((happlied c hc).mpr hdone)
  · intro hnone
    apply h.same id
    intro c hc hid
    rw [Bool.eq_false_iff]
    intro hcommitted
    exact hnone c hc hid ((happlied c hc).mp hcommitted)

end World

open World in
/-- Calls on distinct transactions whose overwrites commit on the rows that were read: whenever all
have finished, the ledger has exactly the effects of those that reported success. -/
theorem ledger_exact (w : World) (es : List LedgerStep) (hcalls : w.calls = [])
    (hdistinct : EveryStep World.step Distinct w es)
    (hcurrent : EveryStep World.step ReadsCurrent w es) :
    EveryState World.step (fun s => s.Finished → s.Exact w.rows) w es := by
  have hboth := hdistinct.and hcurrent
  exact (everyState_of_invariant (fun _ e h hboth => applied_step e h hboth.1 hboth.2)
    (applied_start hcalls) hboth).imp fun _ h => h.exact

/-! ## Two calls -/

def heldRow (transactionId userId : String) : Row where
  transactionId := transactionId
  userId := userId
  ticker := "AAPL"
  side := "BUY"
  quantity := 1
  price := 100
  currency := "USD"
  market := "us"
  tradeDate := none
  fees := 0
  notes := ""
  createdAt := 0

/-- A table of two transactions of two users. -/
def sharedWorld : World where
  versions := [[heldRow "t1" "u1", heldRow "t2" "u2"]]
  metaCache _ := none
  calls := []

/-- The reading of the newest version by the `k`-th call. -/
def reads (k : Nat) : List LedgerStep := [.lookup k, .glob k, .store k, .scan k .duckdb]

/-- The commit of the `k`-th call and its return. -/
def writes (k : Nat) : List LedgerStep := [.commit k true, .release k]

def repriceFirst : LedgerCall := .update "t1" "u1" { price := some 200 }

def deleteSecond : LedgerCall := .delete "t2" "u2"

/-- One call after the other. -/
theorem ledger_exact_sequential :
    EveryState World.step (fun s => s.Finished → s.Exact sharedWorld.rows) sharedWorld
      ([.begin 0 repriceFirst] ++ reads 0 ++ writes 0 ++ [.begin 0 deleteSecond] ++ reads 1 ++
        writes 1) := by
  apply ledger_exact
  · rfl
  · decide +kernel
  · decide +kernel

/-- An update and a deletion that read the same version: the second to commit undoes the first. -/
theorem concurrent_update_lost :
    ¬ ∀ (w : World) (es : List LedgerStep), w.calls = [] →
      EveryStep World.step World.Distinct w es →
        EveryState World.step (fun s => s.Finished → s.Exact w.rows) w es := by
  intro hexact
  -- both calls read before either commits, and the deletion commits last
  have hlast := (hexact sharedWorld
    ([.begin 0 repriceFirst, .begin 0 deleteSecond] ++ reads 0 ++ reads 1 ++ writes 0 ++ writes 1)
    rfl (by decide +kernel)).last
  have hfirst := (hlast (by decide +kernel) "t1").1 ⟨0, repriceFirst, .done true⟩
    List.mem_cons_self rfl rfl
  exact absurd hfirst (by decide +kernel)

end AsetPlatform.Portfolio

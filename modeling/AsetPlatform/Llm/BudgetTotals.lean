import AsetPlatform.Library.Run
import AsetPlatform.Llm.TokenBudget
import Mathlib.Tactic.Linarith

/-!
# The cached totals of the token budget

Books are kept on a budget: the entries made in the deques of each model, and when its windows were
last evaluated. Along any run of `can_afford`, `reserve`, `release` and `record` with clock readings
that do not decrease, every deque holds the entries made inside its window of the last evaluation and
its running total is their sum (`totals_exact`). An evaluation cuts the deque at the new window, an
entry is added to both (`Exact.refresh`, `Exact.append`).
-/

set_option autoImplicit false

namespace AsetPlatform.Llm.BudgetTotals

open AsetPlatform.Library AsetPlatform.Llm.TokenBudget

/-- A call with the clock reading it makes. -/
inductive Call where
  | canAfford (model : String) (estimatedTokens : ℤ) (now : Time)
  | reserve (model : String) (estimatedTokens : ℤ) (now : Time)
  | release (model : String) (estimatedTokens : ℤ) (now : Time)
  | record (model : String) (tokensUsed : ℤ) (now : Time)

def Call.now : Call → Time
  | .canAfford _ _ now => now
  | .reserve _ _ now => now
  | .release _ _ now => now
  | .record _ _ now => now

/-- The budget with the books kept on it: the entries made so far, the last evaluation of each
model's windows, and the last clock reading. -/
structure Books where
  budget : TokenBudget
  tokens : String → List LogEntry
  requests : String → List LogEntry
  evaluated : String → Option Time
  clock : Time

namespace Books

/-- A new budget with empty books. -/
def opened (limits : List (String × ModelLimits)) (start : Time) : Books where
  budget := .new limits
  tokens _ := []
  requests _ := []
  evaluated _ := none
  clock := start

variable (s : Books)

def known (model : String) : Bool := (s.budget.limits model).isSome

/-- A spend is entered in the deques of a model. -/
def enter (model : String) (now : Time) (tokens requests : ℤ) : Books :=
  { s with
    tokens := Function.update s.tokens model (s.tokens model ++ [⟨now, tokens⟩])
    requests := Function.update s.requests model (s.requests model ++ [⟨now, requests⟩]) }

/-- The windows of a model are evaluated. -/
def evaluate (model : String) (now : Time) : Books :=
  { s with evaluated := Function.update s.evaluated model (some now) }

/-- The books after a call. Only a model with limits is evaluated, and only there are reservations
and rollbacks entered. -/
def booked : Call → Books
  | .canAfford model _ now => if s.known model then s.evaluate model now else s
  | .reserve model est now =>
      if s.known model then
        if (s.budget.reserve model est now).1 then (s.evaluate model now).enter model now est 1
        else s.evaluate model now
      else s
  | .release model est now => if s.known model then s.enter model now (-est) (-1) else s
  | .record model used now => s.enter model now used 1

def spent : Call → TokenBudget
  | .canAfford model est now => (s.budget.canAfford model est now).2
  | .reserve model est now => (s.budget.reserve model est now).2
  | .release model est now => s.budget.release model est now
  | .record model used now => s.budget.record model used now

def step (c : Call) : Books := { s.booked c with budget := s.spent c, clock := c.now }

/-- The clock does not run backwards. -/
def InOrder (c : Call) : Prop := s.clock ≤ c.now

end Books

/-- The entries of a window that was last evaluated at the given time, or all of them. -/
def inWindow (window : Time) (evaluated : Option Time) (made : List LogEntry) : List LogEntry :=
  made.filter fun e => evaluated.all fun t => decide (t - window ≤ e.time)

/-- A deque holds the entries of its window, and the running total is their sum. -/
structure Exact (window : Time) (evaluated : Option Time) (made : List LogEntry) (c : Counter) :
    Prop where
  log_eq : c.log = inWindow window evaluated made
  total_eq : c.total = Library.total c.log

/-- The four deques of a model hold its entries. -/
structure Held (evaluated : Option Time) (tokens requests : List LogEntry) (st : ModelState) :
    Prop where
  minuteTokens : Exact minute evaluated tokens st.minuteTokens
  minuteRequests : Exact minute evaluated requests st.minuteRequests
  dayTokens : Exact day evaluated tokens st.dayTokens
  dayRequests : Exact day evaluated requests st.dayRequests

/-- The deques of a model hold what the books say. -/
def Books.Exact (s : Books) (model : String) : Prop :=
  Held (s.evaluated model) (s.tokens model) (s.requests model) (s.budget.state model)

/-! ## One deque -/

theorem minute_nonneg : 0 ≤ minute := by
  norm_num [minute]

theorem day_nonneg : 0 ≤ day := by
  norm_num [day]

section Deque

variable {window now : Time} {evaluated : Option Time} {made : List LogEntry} {c : Counter}

theorem dropExpired_eq_filter {cutoff : Time} {log : List LogEntry} (hs : Chronological log) :
    dropExpired cutoff log = log.filter fun e => decide (cutoff ≤ e.time) := by
  induction log with
  | nil => rfl
  | cons e log ih =>
      obtain ⟨hLater, hRest⟩ := List.pairwise_cons.mp hs
      rcases lt_or_ge e.time cutoff with hOld | hNew
      · rw [dropExpired_cons_of_lt hOld, ih hRest, List.filter_cons_of_neg]
        simpa using hOld
      · rw [dropExpired_cons_of_le hNew, List.filter_eq_self.mpr]
        intro a ha
        obtain rfl | ha := List.mem_cons.mp ha
        · exact decide_eq_true hNew
        · exact decide_eq_true (hNew.trans (hLater a ha))

theorem Exact.refresh (h : Exact window evaluated made c) (hs : Chronological made)
    (hLater : ∀ t ∈ evaluated, t ≤ now) : Exact window (some now) made (c.refresh window now) where
  log_eq := by
    show dropExpired (now - window) c.log = _
    rw [h.log_eq, inWindow, dropExpired_eq_filter (hs.sublist List.filter_sublist), inWindow,
      List.filter_filter]
    apply List.filter_congr
    intro e _
    cases evaluated with
    | none => exact Bool.and_true _
    | some t =>
        have hCut : t - window ≤ now - window := sub_le_sub_right (hLater t rfl) window
        rw [Option.all_some, Option.all_some, Bool.eq_iff_iff, Bool.and_eq_true]
        simp only [decide_eq_true_eq]
        exact and_iff_left_of_imp hCut.trans
  total_eq := by
    have hSplit := total_expiredHead_add (now - window) c.log
    show c.total - Library.total (expiredHead (now - window) c.log) =
      Library.total (dropExpired (now - window) c.log)
    rw [h.total_eq, ← hSplit, add_sub_cancel_left]

theorem Exact.append (h : Exact window evaluated made c) (hWindow : 0 ≤ window)
    (hLater : ∀ t ∈ evaluated, t ≤ now) (amount : ℤ) :
    Exact window evaluated (made ++ [⟨now, amount⟩]) (c.append now amount) where
  log_eq := by
    have hNew : evaluated.all (fun t => decide (t - window ≤ now)) = true := by
      cases evaluated with
      | none => rfl
      | some t =>
          have hIn : t - window ≤ now := (sub_le_self t hWindow).trans (hLater t rfl)
          exact decide_eq_true hIn
    have hOne : inWindow window evaluated [⟨now, amount⟩] = [⟨now, amount⟩] := by
      rw [inWindow, List.filter_singleton, hNew]
      rfl
    show c.log ++ [⟨now, amount⟩] = inWindow window evaluated (made ++ [⟨now, amount⟩])
    rw [h.log_eq, inWindow, inWindow, List.filter_append]
    exact congrArg _ hOne.symm
  total_eq := by
    show c.total + amount = Library.total (c.log ++ [⟨now, amount⟩])
    rw [h.total_eq, total_append, total_cons, total_nil, add_zero]

end Deque

/-! ## One model -/

/-- The deques are exact, and the entries and the last evaluation are in the order of time. -/
structure Kept (clock : Time) (evaluated : Option Time) (tokens requests : List LogEntry)
    (st : ModelState) : Prop where
  held : Held evaluated tokens requests st
  tokens_sorted : Chronological tokens
  requests_sorted : Chronological requests
  tokens_past : ∀ e ∈ tokens, e.time ≤ clock
  requests_past : ∀ e ∈ requests, e.time ≤ clock
  evaluated_past : ∀ t ∈ evaluated, t ≤ clock

section Model

variable {clock now : Time} {evaluated : Option Time} {tokens requests : List LogEntry}
  {st : ModelState}

theorem Kept.later (h : Kept clock evaluated tokens requests st) (hNow : clock ≤ now) :
    Kept now evaluated tokens requests st where
  held := h.held
  tokens_sorted := h.tokens_sorted
  requests_sorted := h.requests_sorted
  tokens_past e he := (h.tokens_past e he).trans hNow
  requests_past e he := (h.requests_past e he).trans hNow
  evaluated_past t ht := (h.evaluated_past t ht).trans hNow

theorem Kept.refresh (h : Kept now evaluated tokens requests st) :
    Kept now (some now) tokens requests (st.refresh now) where
  held :=
    { minuteTokens := h.held.minuteTokens.refresh h.tokens_sorted h.evaluated_past
      minuteRequests := h.held.minuteRequests.refresh h.requests_sorted h.evaluated_past
      dayTokens := h.held.dayTokens.refresh h.tokens_sorted h.evaluated_past
      dayRequests := h.held.dayRequests.refresh h.requests_sorted h.evaluated_past }
  tokens_sorted := h.tokens_sorted
  requests_sorted := h.requests_sorted
  tokens_past := h.tokens_past
  requests_past := h.requests_past
  evaluated_past t ht := by
    cases ht
    exact le_rfl

theorem past_append {log : List LogEntry} (h : ∀ e ∈ log, e.time ≤ now) (amount : ℤ) :
    ∀ e ∈ log ++ [⟨now, amount⟩], e.time ≤ now := by
  intro e he
  rcases List.mem_append.mp he with he | he
  · exact h e he
  · rw [List.mem_singleton.mp he]

theorem Kept.charge (h : Kept now evaluated tokens requests st) (amount count : ℤ) :
    Kept now evaluated (tokens ++ [⟨now, amount⟩]) (requests ++ [⟨now, count⟩])
      (st.charge now amount count) where
  held :=
    { minuteTokens := h.held.minuteTokens.append minute_nonneg h.evaluated_past amount
      minuteRequests := h.held.minuteRequests.append minute_nonneg h.evaluated_past count
      dayTokens := h.held.dayTokens.append day_nonneg h.evaluated_past amount
      dayRequests := h.held.dayRequests.append day_nonneg h.evaluated_past count }
  tokens_sorted := h.tokens_sorted.append_one h.tokens_past
  requests_sorted := h.requests_sorted.append_one h.requests_past
  tokens_past := past_append h.tokens_past amount
  requests_past := past_append h.requests_past count
  evaluated_past := h.evaluated_past

end Model

/-! ## Runs -/

namespace Books

/-- The deques and the books of a model belong together. -/
def Kept (s : Books) (model : String) : Prop :=
  BudgetTotals.Kept s.clock (s.evaluated model) (s.tokens model) (s.requests model)
    (s.budget.state model)

variable {s : Books} {model : String}

/-- What one model's books and deques become leaves those of the others alone. -/
theorem kept_update {now : Time} (hs : ∀ m, s.Kept m) (hNow : s.clock ≤ now) (model : String)
    {evaluated : Option Time} {tokens requests : List LogEntry} {st : ModelState}
    (h : BudgetTotals.Kept now evaluated tokens requests st) (m : String) :
    BudgetTotals.Kept now (Function.update s.evaluated model evaluated m)
      (Function.update s.tokens model tokens m) (Function.update s.requests model requests m)
      (Function.update s.budget.state model st m) := by
  by_cases hm : m = model
  · subst hm
    simpa only [Function.update_self] using h
  · simpa only [Function.update_of_ne hm] using (hs m).later hNow

theorem known_of_some {lim : ModelLimits} (hLim : s.budget.limits model = some lim) :
    s.known model = true := by
  rw [known, hLim, Option.isSome_some]

theorem known_of_none (hLim : s.budget.limits model = none) : s.known model = false := by
  rw [known, hLim, Option.isSome_none]

theorem kept_evaluate {now : Time} (hs : ∀ m, s.Kept m) (hNow : s.clock ≤ now) (m : String) :
    BudgetTotals.Kept now (Function.update s.evaluated model (some now) m) (s.tokens m)
      (s.requests m)
      (Function.update s.budget.state model ((s.budget.state model).refresh now) m) := by
  have hUpdate := kept_update hs hNow model ((hs model).later hNow).refresh m
  rwa [Function.update_eq_self, Function.update_eq_self] at hUpdate

/-- An entry without an evaluation. -/
theorem kept_enter {now : Time} (hs : ∀ m, s.Kept m) (hNow : s.clock ≤ now) (amount count : ℤ)
    (m : String) :
    BudgetTotals.Kept now (s.evaluated m)
      (Function.update s.tokens model (s.tokens model ++ [⟨now, amount⟩]) m)
      (Function.update s.requests model (s.requests model ++ [⟨now, count⟩]) m)
      (Function.update s.budget.state model ((s.budget.state model).charge now amount count) m) := by
  have hUpdate := kept_update hs hNow model (((hs model).later hNow).charge amount count) m
  rwa [Function.update_eq_self] at hUpdate

theorem kept_canAfford (hs : ∀ m, s.Kept m) {est : ℤ} {now : Time} (hNow : s.clock ≤ now) :
    ∀ m, (s.step (.canAfford model est now)).Kept m := by
  intro m
  cases hLim : s.budget.limits model with
  | none =>
      have hStep : s.step (.canAfford model est now) = { s with clock := now } := by
        simp only [step, booked, spent, canAfford, hLim, known_of_none hLim, Bool.false_eq_true,
          if_false, Call.now]
      rw [hStep]
      exact (hs m).later hNow
  | some lim =>
      have hStep : s.step (.canAfford model est now) =
          { s.evaluate model now with
            budget := s.budget.setState model ((s.budget.state model).refresh now)
            clock := now } := by
        simp only [step, booked, spent, canAfford, hLim, known_of_some hLim, if_true, Call.now]
      rw [hStep]
      exact kept_evaluate hs hNow m

theorem kept_reserve (hs : ∀ m, s.Kept m) {est : ℤ} {now : Time} (hNow : s.clock ≤ now) :
    ∀ m, (s.step (.reserve model est now)).Kept m := by
  intro m
  cases hLim : s.budget.limits model with
  | none =>
      have hStep : s.step (.reserve model est now) = { s with clock := now } := by
        simp only [step, booked, spent, reserve_of_unknown _ hLim, known_of_none hLim,
          Bool.false_eq_true, if_false, Call.now]
      rw [hStep]
      exact (hs m).later hNow
  | some lim =>
      rcases reserve_cases s.budget hLim est now with ⟨-, hAdmitted⟩ | ⟨-, hRefused⟩
      · have hStep : s.step (.reserve model est now) =
            { (s.evaluate model now).enter model now est 1 with
              budget := s.budget.setState model
                (((s.budget.state model).refresh now).charge now est 1)
              clock := now } := by
          simp only [step, booked, spent, hAdmitted, known_of_some hLim, if_true, Call.now]
        rw [hStep]
        exact kept_update hs hNow model (((hs model).later hNow).refresh.charge est 1) m
      · have hStep : s.step (.reserve model est now) =
            { s.evaluate model now with
              budget := s.budget.setState model ((s.budget.state model).refresh now)
              clock := now } := by
          simp only [step, booked, spent, hRefused, known_of_some hLim, if_true, Bool.false_eq_true,
            if_false, Call.now]
        rw [hStep]
        exact kept_evaluate hs hNow m

theorem kept_release (hs : ∀ m, s.Kept m) {est : ℤ} {now : Time} (hNow : s.clock ≤ now) :
    ∀ m, (s.step (.release model est now)).Kept m := by
  intro m
  cases hLim : s.budget.limits model with
  | none =>
      have hStep : s.step (.release model est now) = { s with clock := now } := by
        simp only [step, booked, spent, release_of_unknown _ hLim, known_of_none hLim,
          Bool.false_eq_true, if_false, Call.now]
      rw [hStep]
      exact (hs m).later hNow
  | some lim =>
      have hStep : s.step (.release model est now) =
          { s.enter model now (-est) (-1) with
            budget := s.budget.setState model ((s.budget.state model).charge now (-est) (-1))
            clock := now } := by
        simp only [step, booked, spent, release_of_known _ hLim, known_of_some hLim, if_true,
          Call.now]
      rw [hStep]
      exact kept_enter hs hNow (-est) (-1) m

theorem kept_step (hs : ∀ m, s.Kept m) {c : Call} (hNow : s.InOrder c) :
    ∀ m, (s.step c).Kept m := by
  cases c with
  | canAfford model est now => exact kept_canAfford hs hNow
  | reserve model est now => exact kept_reserve hs hNow
  | release model est now => exact kept_release hs hNow
  | record model used now => exact kept_enter hs hNow used 1

theorem kept_opened (limits : List (String × ModelLimits)) (start : Time) (m : String) :
    (opened limits start).Kept m := by
  have hEmpty : ∀ window : Time, BudgetTotals.Exact window none [] {} :=
    fun _ => { log_eq := rfl, total_eq := rfl }
  have hNone : ∀ e ∈ ([] : List LogEntry), e.time ≤ start := fun e he => absurd he List.not_mem_nil
  exact
    { held := ⟨hEmpty minute, hEmpty minute, hEmpty day, hEmpty day⟩
      tokens_sorted := List.Pairwise.nil
      requests_sorted := List.Pairwise.nil
      tokens_past := hNone
      requests_past := hNone
      evaluated_past := fun t ht => by cases ht }

end Books

theorem canAfford_eq_reserve (b : TokenBudget) (model : String) (est : ℤ) (now : Time) :
    (b.canAfford model est now).1 = (b.reserve model est now).1 := by
  cases hLim : b.limits model with
  | none => rw [canAfford, reserve, hLim]
  | some lim =>
      have hRoom : (b.canAfford model est now).1 = ((b.state model).refresh now).hasRoom lim est := by
        rw [canAfford, hLim]
      rcases reserve_cases b hLim est now with ⟨hRoom', hReserve⟩ | ⟨hRoom', hReserve⟩
      · rw [hRoom, hRoom', hReserve]
      · rw [hRoom, hRoom', hReserve]

/-- Along a run with clock readings that do not decrease, every deque holds the entries made inside
its window of the last evaluation and its running total is their sum, and `can_afford` returns true
exactly when `reserve` would. -/
theorem totals_exact (limits : List (String × ModelLimits)) (start : Time) (calls : List Call)
    (h : EveryStep Books.step Books.InOrder (.opened limits start) calls) :
    EveryState Books.step
      (fun s => ∀ model, s.Exact model ∧
        ∀ est now, (s.budget.canAfford model est now).1 = true ↔
          (s.budget.reserve model est now).1 = true)
      (.opened limits start) calls := by
  have hKept : EveryState Books.step (fun s => ∀ m, s.Kept m) (.opened limits start) calls :=
    everyState_of_invariant (fun _ _ hs hNow => Books.kept_step hs hNow)
      (Books.kept_opened limits start) h
  refine hKept.imp ?_
  intro s hs model
  refine ⟨(hs model).held, fun est now => ?_⟩
  rw [canAfford_eq_reserve]

/-- A reservation, a rollback and an evaluation a minute later. -/
theorem totals_exact_run :
    EveryState Books.step
      (fun s => ∀ model, s.Exact model ∧
        ∀ est now, (s.budget.canAfford model est now).1 = true ↔
          (s.budget.reserve model est now).1 = true)
      (.opened [] 0)
      [.reserve "qwen/qwen3-32b" 100 0, .release "qwen/qwen3-32b" 100 30,
        .canAfford "qwen/qwen3-32b" 50 61] :=
  totals_exact [] 0 _
    ⟨le_refl (0 : ℚ), by show (0 : ℚ) ≤ 30; norm_num, by show (30 : ℚ) ≤ 61; norm_num, trivial⟩

end AsetPlatform.Llm.BudgetTotals

import AsetPlatform.Jobs.SchedulerService
import AsetPlatform.Library.Threads

/-!
# Exclusion and cancellation

While the triggers and the requests of a run are careful, each pipeline has one unfinished run at
most, and the event of every run that is registered stands in the table under its key until the run
is done (`World.Inv`). So one run of a pipeline is executing at most, and a request sets the event
that the code of the run looks at.

The triggers of the service are not careful: `trigger_pipeline_now` and `resume_pipeline_now` submit
a run without looking whether another is unfinished. Two of them overlap as soon as a worker is free
(`World.second_begins`). A request with the run id of a step finds no event
(`World.twoTriggers_overlap`).
-/

set_option autoImplicit false

namespace AsetPlatform.Jobs.Scheduler

open AsetPlatform.Library

/-- Beside an unfinished run of a pipeline the runs that were submitted are done and registered. -/
def Alone (runs : List Run) : Prop :=
  ∀ (i j : Nat) (r s : Run) (pid : String), runs[i]? = some r → runs[j]? = some s → i ≠ j →
    r.task = .pipeline pid → s.task = .pipeline pid → r.Unfinished → s.phase ≠ .triggered →
      s.phase = .done ∧ s.registered = true

/-- A pipeline is registered after its submission and a job before. -/
def Run.InOrder (r : Run) : Prop :=
  match r.task with
  | .pipeline _ => r.registered = true → r.phase ≠ .triggered
  | .job _ _ _ => r.phase ≠ .triggered → r.registered = true

theorem Run.InOrder.later {r s : Run} (h : r.InOrder) (hTask : s.task = r.task)
    (hRegistered : s.registered = r.registered) (hr : r.phase ≠ .triggered)
    (hs : s.phase ≠ .triggered) : s.InOrder := by
  unfold Run.InOrder at h ⊢
  rw [hTask, hRegistered]
  cases hKind : r.task with
  | pipeline pid => exact fun _ => hs
  | job x n t =>
      rw [hKind] at h
      exact fun _ => h hr

namespace World

/-- Runs of jobs have run ids of their own, events exist, and those of registered runs are found
until the run is done. -/
structure Inv (w : World) : Prop where
  alone : Alone w.runs
  inOrder : ∀ r ∈ w.runs, r.InOrder
  tagged : ∀ (i : Nat) (r : Run), w.runs[i]? = some r → r.registered = true → r.phase ≠ .done →
    w.cancelEvents.get? r.cancelKey = some r.event
  ids : ∀ (i j : Nat) (r s : Run), w.runs[i]? = some r → w.runs[j]? = some s →
    r.isPipeline = false → s.isPipeline = false → r.cancelKey = s.cancelKey → i = j
  drawn : ∀ r ∈ w.runs, ∀ a n t, r.task = .job a n t → n < w.drawn
  events : ∀ r ∈ w.runs, r.event < w.events.length
  asked : ∀ r ∈ w.runs, r.asked = true → w.Set r.event

variable {S : Service} {w w' : World} {e : Event} {k : Nat} {a b : Run}

theorem inv_init : init.Inv where
  alone := fun _ _ _ _ _ hr => nomatch hr
  inOrder := fun _ hr => nomatch hr
  tagged := fun _ _ hr => nomatch hr
  ids := fun _ _ _ _ hr => nomatch hr
  drawn := fun _ hr => nomatch hr
  events := fun _ hr => nomatch hr
  asked := fun _ hr => nomatch hr

theorem Inv.exclusive (h : w.Inv) : w.Exclusive := by
  intro i j r s pid hi hj hr hs
  by_contra hij
  have hDone := (h.alone i j r s pid hi hj hij hr.1 hs.1 (Or.inr hr.2) (by rw [hs.2]; decide)).1
  rw [hs.2] at hDone
  cases hDone

/-! ## Moves of one run -/

/-- A run that goes on without being submitted leaves the others alone. -/
theorem Inv.alone_set (h : w.Inv) (hk : w.runs[k]? = some a) (hTask : b.task = a.task)
    (hUnfinished : b.Unfinished → a.Unfinished)
    (hSubmitted : b.phase ≠ .triggered → a.phase ≠ .triggered)
    (hDone : a.phase = .done → a.registered = true → b.phase = .done ∧ b.registered = true) :
    Alone (w.runs.set k b) := by
  intro i j r s pid hi hj hij hr hs hr' hs'
  rcases getElem?_set_cases hk hi with ⟨rfl, rfl⟩ | ⟨-, hi'⟩ <;>
    rcases getElem?_set_cases hk hj with ⟨rfl, rfl⟩ | ⟨-, hj'⟩
  · exact absurd rfl hij
  · exact h.alone i j a s pid hk hj' hij (hTask ▸ hr) hs (hUnfinished hr') hs'
  · have hOld := h.alone i j r a pid hi' hk hij hr (hTask ▸ hs) hr' (hSubmitted hs')
    exact hDone hOld.1 hOld.2
  · exact h.alone i j r s pid hi' hj' hij hr hs hr' hs'

/-- A run keeps its task and its event when it moves, and the move is in order. -/
theorem Inv.move (h : w.Inv) (hk : w.runs[k]? = some a) (hTask : b.task = a.task)
    (hEvent : b.event = a.event) (hAsked : b.asked = a.asked) (hRuns : w'.runs = w.runs.set k b)
    (hEvents : w'.events = w.events) (hDrawn : w.drawn ≤ w'.drawn) (hInOrder : b.InOrder)
    (hAlone : Alone (w.runs.set k b))
    (hTagged : ∀ (i : Nat) (r : Run), (w.runs.set k b)[i]? = some r → r.registered = true →
      r.phase ≠ .done → w'.cancelEvents.get? r.cancelKey = some r.event) : w'.Inv := by
  have ha := List.mem_of_getElem? hk
  have hKey : b.cancelKey = a.cancelKey := by rw [Run.cancelKey, hTask, Run.cancelKey]
  have hKind : b.isPipeline = a.isPipeline := by rw [Run.isPipeline, hTask, Run.isPipeline]
  refine ⟨?_, ?_, ?_, ?_, ?_, ?_, ?_⟩
  · rw [hRuns]
    exact hAlone
  · rw [hRuns]
    exact forall_mem_set h.inOrder hInOrder
  · rw [hRuns]
    exact hTagged
  · rw [hRuns]
    intro i j r s hi hj hr hs hSame
    rcases getElem?_set_cases hk hi with ⟨rfl, rfl⟩ | ⟨-, hi'⟩ <;>
      rcases getElem?_set_cases hk hj with ⟨rfl, rfl⟩ | ⟨-, hj'⟩
    · rfl
    · exact h.ids i j a s hk hj' (hKind ▸ hr) hs (hKey ▸ hSame)
    · exact h.ids i j r a hi' hk hr (hKind ▸ hs) (hKey ▸ hSame)
    · exact h.ids i j r s hi' hj' hr hs hSame
  · rw [hRuns]
    refine forall_mem_set (fun r hr x n t ht => Nat.lt_of_lt_of_le (h.drawn r hr x n t ht) hDrawn) ?_
    intro x n t ht
    exact Nat.lt_of_lt_of_le (h.drawn a ha x n t (hTask ▸ ht)) hDrawn
  · rw [hRuns, hEvents]
    exact forall_mem_set h.events (hEvent ▸ h.events a ha)
  · have hSet : ∀ event, w'.Set event = w.Set event := fun event => by rw [World.Set, hEvents, World.Set]
    simp only [hRuns, hSet]
    refine forall_mem_set h.asked ?_
    rw [hAsked, hEvent]
    exact h.asked a ha

/-- The table serves the runs as before when it is the same and the moved run is registered only if
it was. -/
theorem Inv.tagged_set (h : w.Inv) (hk : w.runs[k]? = some a) (hTask : b.task = a.task)
    (hEvent : b.event = a.event) (hRegistered : b.registered = a.registered)
    (hDone : b.phase ≠ .done → a.phase ≠ .done) (i : Nat) (r : Run)
    (hi : (w.runs.set k b)[i]? = some r) (hr : r.registered = true) (hr' : r.phase ≠ .done) :
    w.cancelEvents.get? r.cancelKey = some r.event := by
  rcases getElem?_set_cases hk hi with ⟨rfl, rfl⟩ | ⟨-, hi⟩
  · have hKey : r.cancelKey = a.cancelKey := by rw [Run.cancelKey, hTask, Run.cancelKey]
    rw [hKey, hEvent]
    exact h.tagged i a hk (hRegistered ▸ hr) (hDone hr')
  · exact h.tagged i r hi hr hr'

/-- The key of a run that is about to be registered, or that is executing, belongs to no other run
that is registered and not done. -/
theorem Inv.cancelKey_ne (h : w.Inv) (hk : w.runs[k]? = some a)
    (ha : a.phase = .executing ∨ a.registered = false)
    (hPipeline : a.isPipeline = true → a.phase ≠ .triggered) {i : Nat} (hik : i ≠ k)
    (hi : w.runs[i]? = some b) (hb : b.registered = true) (hb' : b.phase ≠ .done) :
    b.cancelKey ≠ a.cancelKey := by
  intro hKey
  cases hTask : a.task with
  | job x n t =>
      have hOther : b.isPipeline = false := by
        rw [Run.cancelKey, Run.cancelKey, hTask] at hKey
        unfold Run.isPipeline
        split at hKey
        · cases hKey
        · simp [*]
      exact hik (h.ids i k b a hi hk hOther (by rw [Run.isPipeline, hTask]) hKey)
  | pipeline pid =>
      have hb'' : b.task = .pipeline pid := by
        rw [Run.cancelKey, Run.cancelKey, hTask] at hKey
        split at hKey
        · cases hKey
          assumption
        · cases hKey
      have hSubmitted : a.phase ≠ .triggered := hPipeline (by rw [Run.isPipeline, hTask])
      have hOrder := h.inOrder b (List.mem_of_getElem? hi)
      rw [Run.InOrder, hb''] at hOrder
      have hbSubmitted : b.phase ≠ .triggered := hOrder hb
      rcases ha with ha | ha
      · exact hb' (h.alone k i a b pid hk hi (Ne.symm hik) hTask hb'' (Or.inr ha) hbSubmitted).1
      · have hUnfinished : b.Unfinished := by
          unfold Run.Unfinished
          cases hPhase : b.phase with
          | triggered => exact absurd hPhase hbSubmitted
          | queued => exact Or.inl rfl
          | executing => exact Or.inr rfl
          | done => exact absurd hPhase hb'
        have hOld := (h.alone i k b a pid hi hk hik hb'' hTask hUnfinished hSubmitted).2
        rw [ha] at hOld
        cases hOld

theorem Inv.cancelKey_ne_drawn (h : w.Inv) (ha : a ∈ w.runs) (hJob : a.isPipeline = false) :
    a.cancelKey ≠ .runId w.drawn := by
  cases hTask : a.task with
  | pipeline pid => simp [Run.isPipeline, hTask] at hJob
  | job x n t =>
      have hLt := h.drawn a ha x n t hTask
      simp only [Run.cancelKey, hTask, ne_eq, Key.runId.injEq]
      omega

/-! ## The steps -/

theorem Inv.create (h : w.Inv) {task : Task} {steps : List Step} {drawn : Nat}
    (hDrawn : w.drawn ≤ drawn)
    (hNew : ∀ a n t, task = .job a n t → n = w.drawn ∧ n < drawn) :
    Inv { w.create task steps with drawn := drawn } where
  alone := by
    intro i j r s pid hi hj hij hr hs hr' hs'
    rcases getElem?_append_singleton hi with hi | ⟨-, rfl⟩
    · rcases getElem?_append_singleton hj with hj | ⟨-, rfl⟩
      · exact h.alone i j r s pid hi hj hij hr hs hr' hs'
      · exact absurd rfl hs'
    · rcases hr' with hr' | hr' <;> cases hr'
  inOrder := by
    refine forall_mem_append_singleton h.inOrder ?_
    cases task with
    | pipeline pid => exact fun hRegistered => nomatch hRegistered
    | job a n t => exact fun hPhase => absurd rfl hPhase
  tagged := by
    intro i r hi hr hr'
    rcases getElem?_append_singleton hi with hi | ⟨-, rfl⟩
    · exact h.tagged i r hi hr hr'
    · cases hr
  ids := by
    have hKey : ∀ r : Run, r.task = task → r.isPipeline = false → r.cancelKey = .runId w.drawn := by
      intro r hTask hr
      cases hKind : task with
      | pipeline pid => simp [Run.isPipeline, hTask, hKind] at hr
      | job a n t => rw [Run.cancelKey, hTask, hKind, (hNew a n t hKind).1]
    intro i j r s hi hj hr hs hSame
    rcases getElem?_append_singleton hi with hi' | ⟨rfl, rfl⟩ <;>
      rcases getElem?_append_singleton hj with hj' | ⟨rfl, rfl⟩
    · exact h.ids i j r s hi' hj' hr hs hSame
    · exact absurd (hSame.trans (hKey _ rfl hs))
        (h.cancelKey_ne_drawn (List.mem_of_getElem? hi') hr)
    · exact absurd (hSame.symm.trans (hKey _ rfl hr))
        (h.cancelKey_ne_drawn (List.mem_of_getElem? hj') hs)
    · rfl
  drawn := by
    refine forall_mem_append_singleton
      (fun r hr a n t ht => Nat.lt_of_lt_of_le (h.drawn r hr a n t ht) hDrawn) ?_
    exact fun a n t ht => (hNew a n t ht).2
  events := by
    have hLength : (w.events ++ [false]).length = w.events.length + 1 := List.length_append
    refine forall_mem_append_singleton ?_ ?_
    · intro r hr
      have hLt := h.events r hr
      exact hLength ▸ Nat.lt_succ_of_lt hLt
    · exact hLength ▸ Nat.lt_succ_self _
  asked := by
    refine forall_mem_append_singleton ?_ fun hAsked => nomatch hAsked
    intro r hr hAsked
    exact (List.getElem?_append_left (h.events r hr)).trans (h.asked r hr hAsked)

theorem Inv.triggerPipelineNow (h : w.Inv) (pid : String) (fromStep : Int) :
    (w.triggerPipelineNow S pid fromStep).Inv := by
  unfold World.triggerPipelineNow
  split
  · exact h
  · exact h.create (Nat.le_refl _) fun _ _ _ hTask => nomatch hTask

theorem Inv.triggerNow (h : w.Inv) (jobId : String) : (w.triggerNow S jobId).Inv := by
  unfold World.triggerNow
  split
  · exact h
  · split
    · exact h
    · refine h.create (Nat.le_succ _) ?_
      intro a n t hTask
      cases hTask
      exact ⟨rfl, Nat.lt_succ_self _⟩

theorem Inv.submit (h : w.Inv) (hk : w.runs[k]? = some a) (hReady : a.Ready)
    (hCareful : w.Careful (.proceed k)) : (w.submit k a).Inv := by
  have hPhase := hReady.1
  refine h.move (b := { a with phase := .queued }) hk rfl rfl rfl rfl rfl (Nat.le_refl _) ?_ ?_ ?_
  · unfold Run.InOrder
    have hTrigger := hReady.2
    cases hTask : a.task with
    | pipeline pid => exact fun _ hQueued => nomatch hQueued
    | job x n t =>
        rw [hTask] at hTrigger
        exact fun _ => hTrigger
  · intro i j r s pid hi hj hij hr hs hr' hs'
    rcases getElem?_set_cases hk hi with ⟨rfl, rfl⟩ | ⟨-, hi'⟩ <;>
      rcases getElem?_set_cases hk hj with ⟨rfl, rfl⟩ | ⟨-, hj'⟩
    · exact absurd rfl hij
    · exact hCareful a hk (by rw [Run.isPipeline, hr]) hPhase s (List.mem_of_getElem? hj')
        (hs.trans hr.symm) hs'
    · -- the other run cannot be unfinished, for it was submitted before
      have hSubmitted : r.phase ≠ .triggered := by
        rcases hr' with hr' | hr' <;> simp [hr']
      have hDone := (hCareful a hk (by rw [Run.isPipeline, hs]) hPhase r
        (List.mem_of_getElem? hi') (hr.trans hs.symm) hSubmitted).1
      rcases hr' with hr' | hr' <;> rw [hDone] at hr' <;> cases hr'
    · exact h.alone i j r s pid hi' hj' hij hr hs hr' hs'
  · exact h.tagged_set hk rfl rfl rfl fun _ => by simp [hPhase]

theorem Inv.register (h : w.Inv) (hk : w.runs[k]? = some a) (hReady : ¬ a.Ready)
    (hRegistered : a.registered = false) : (w.register k a).Inv := by
  have hSubmitted : a.isPipeline = true → a.phase ≠ .triggered := by
    intro hPipeline hPhase
    refine hReady ⟨hPhase, ?_⟩
    cases hTask : a.task with
    | pipeline pid => trivial
    | job x n t => simp [Run.isPipeline, hTask] at hPipeline
  refine h.move (b := { a with registered := true }) hk rfl rfl rfl rfl rfl (Nat.le_refl _) ?_ ?_ ?_
  · unfold Run.InOrder
    cases hTask : a.task with
    | pipeline pid => exact fun _ => hSubmitted (by rw [Run.isPipeline, hTask])
    | job x n t => exact fun _ => rfl
  · exact h.alone_set hk rfl id id fun hDone _ => ⟨hDone, rfl⟩
  · intro i r hi hr hr'
    simp only [World.register, Dict.get?_set]
    rcases getElem?_set_cases hk hi with ⟨rfl, rfl⟩ | ⟨hik, hi'⟩
    · exact if_pos rfl
    · rw [if_neg (h.cancelKey_ne hk (Or.inr hRegistered) hSubmitted hik hi' hr hr')]
      exact h.tagged i r hi' hr hr'

theorem Inv.proceed (h : w.Inv) (hCareful : w.Careful (.proceed k)) : (w.proceed k).Inv := by
  unfold World.proceed
  split
  · exact h
  · rename_i r hk
    by_cases hReady : r.Ready
    · rw [if_pos hReady]
      exact h.submit hk hReady hCareful
    · rw [if_neg hReady]
      split
      · exact h
      · rename_i hRegistered
        exact h.register hk hReady (Bool.eq_false_iff.mpr hRegistered)

theorem Inv.pool (h : w.Inv) (hk : w.runs[k]? = some a) (ha : a.Unfinished) (hb : b.Unfinished)
    (hTask : b.task = a.task) (hEvent : b.event = a.event)
    (hRegistered : b.registered = a.registered) (hAsked : b.asked = a.asked)
    (hRuns : w'.runs = w.runs.set k b) (hEvents : w'.events = w.events)
    (hTable : w'.cancelEvents = w.cancelEvents) (hDrawn : w.drawn ≤ w'.drawn) : w'.Inv := by
  have hOpen : ∀ {r : Run}, r.Unfinished → r.phase ≠ .triggered ∧ r.phase ≠ .done := by
    intro r hr
    rcases hr with hr | hr <;> simp [hr]
  refine h.move hk hTask hEvent hAsked hRuns hEvents hDrawn ?_ ?_ ?_
  · exact (h.inOrder a (List.mem_of_getElem? hk)).later hTask hRegistered (hOpen ha).1 (hOpen hb).1
  · exact h.alone_set hk hTask (fun _ => ha) (fun _ => (hOpen ha).1)
      fun hDone => absurd hDone (hOpen ha).2
  · rw [hTable]
    exact h.tagged_set hk hTask hEvent hRegistered fun _ => (hOpen ha).2

theorem Inv.begin (h : w.Inv) (looks : Nat) : (w.begin S looks).Inv := by
  unfold World.begin
  split
  · exact h
  · split
    · exact h
    · split
      · rename_i r hk hFree
        exact h.pool (b := r.begun looks) hk (Or.inl hFree.1) (Or.inr rfl) rfl rfl rfl rfl rfl rfl rfl
          (Nat.le_refl _)
      · exact h

theorem Inv.act (h : w.Inv) {can : Run → Bool} {f : Run → Run}
    (hf : ∀ r, ∃ steps failed call, f r = { r with steps := steps, failed := failed, call := call }) :
    (w.act k can f).Inv := by
  unfold World.act
  split
  · exact h
  · split
    · rename_i r hk hCan
      obtain ⟨steps, failed, call, hSame⟩ := hf r
      rw [hSame]
      exact h.pool (b := { r with steps := steps, failed := failed, call := call }) hk
        (Or.inr hCan.1) (Or.inr hCan.1) rfl rfl rfl rfl rfl rfl rfl (Nat.le_succ _)
    · exact h

theorem Inv.finish (h : w.Inv) : (w.finish k).Inv := by
  unfold World.finish
  split
  · exact h
  · split
    · rename_i r hk hExecuting
      have hSubmitted : r.phase ≠ .triggered := by simp [hExecuting]
      refine h.move (b := { r with phase := .done }) hk rfl rfl rfl rfl rfl (Nat.le_refl _) ?_ ?_ ?_
      · exact (h.inOrder r (List.mem_of_getElem? hk)).later rfl rfl hSubmitted (by simp)
      · exact h.alone_set hk rfl (fun _ => Or.inr hExecuting) (fun _ => hSubmitted)
          fun _ hRegistered => ⟨rfl, hRegistered⟩
      · intro i s hi hs hs'
        rcases getElem?_set_cases hk hi with ⟨rfl, rfl⟩ | ⟨hik, hi'⟩
        · exact absurd rfl hs'
        · simp only [Dict.get?_erase]
          rw [if_neg (h.cancelKey_ne hk (Or.inl hExecuting) (fun _ => hSubmitted) hik hi' hs hs')]
          exact h.tagged i s hi' hs hs'
    · exact h

/-! ## Requests -/

@[simp]
theorem cancelRun_runs (key : Key) : (w.cancelRun key).runs = w.runs := by
  unfold cancelRun
  split <;> rfl

@[simp]
theorem cancelRun_cancelEvents (key : Key) : (w.cancelRun key).cancelEvents = w.cancelEvents := by
  unfold cancelRun
  split <;> rfl

@[simp]
theorem cancelRun_drawn (key : Key) : (w.cancelRun key).drawn = w.drawn := by
  unfold cancelRun
  split <;> rfl

@[simp]
theorem length_events_cancelRun (key : Key) :
    (w.cancelRun key).events.length = w.events.length := by
  unfold cancelRun
  split
  · rfl
  · exact List.length_set

theorem Set.cancelRun {event : Nat} (h : w.Set event) (key : Key) : (w.cancelRun key).Set event := by
  unfold World.cancelRun
  split
  · exact h
  · rename_i other _
    have hLt : event < w.events.length := (List.getElem?_eq_some_iff.mp h).1
    by_cases hSame : other = event
    · subst hSame
      exact List.getElem?_set_self hLt
    · exact (List.getElem?_set_ne hSame).trans h

theorem set_cancelRun {key : Key} {event : Nat} (hGet : w.cancelEvents.get? key = some event)
    (hLt : event < w.events.length) : (w.cancelRun key).Set event := by
  simp only [cancelRun, hGet]
  exact List.getElem?_set_self hLt

theorem Inv.reaches (h : w.Inv) {key : Key} (hCareful : w.Careful (.cancel key)) (ha : a ∈ w.runs)
    (hUnfinished : a.Unfinished) (hNamed : a.Named key) :
    ((w.mark key).cancelRun key).Set a.event := by
  obtain ⟨k, hk⟩ := List.mem_iff_getElem?.mp ha
  have hDone : a.phase ≠ .done := by
    rcases hUnfinished with hPhase | hPhase <;> simp [hPhase]
  have hFound : a.registered = true ∧ a.cancelKey = key := by
    cases hTask : a.task with
    | pipeline pid =>
        obtain ⟨hKey, hRegistered⟩ :=
          (hCareful a ha hUnfinished hNamed).1 (by rw [Run.isPipeline, hTask])
        exact ⟨hRegistered, hKey.symm⟩
    | job x n t =>
        have hOrder := h.inOrder a ha
        rw [Run.InOrder, hTask] at hOrder
        rw [Run.Named, hTask] at hNamed
        refine ⟨hOrder ?_, by rw [Run.cancelKey, hTask, hNamed]⟩
        rcases hUnfinished with hPhase | hPhase <;> simp [hPhase]
  have hGet := h.tagged k a hk hFound.1 hDone
  rw [hFound.2] at hGet
  exact set_cancelRun (w := w.mark key) hGet (h.events a ha)

theorem Inv.cancel (h : w.Inv) {key : Key} (hCareful : w.Careful (.cancel key)) :
    ((w.mark key).cancelRun key).Inv := by
  -- marked runs differ from the others in `asked` only
  have hMark : ∀ {i : Nat} {r : Run}, (w.mark key).runs[i]? = some r → ∃ s,
      w.runs[i]? = some s ∧ r.task = s.task ∧ r.event = s.event ∧ r.phase = s.phase ∧
        r.registered = s.registered ∧
          (r.asked = true → s.asked = true ∨ s.Unfinished ∧ s.Named key) := by
    intro i r hi
    rw [mark, List.getElem?_map, Option.map_eq_some_iff] at hi
    obtain ⟨s, hs, rfl⟩ := hi
    refine ⟨s, hs, ?_⟩
    split
    · exact ⟨rfl, rfl, rfl, rfl, fun _ => Or.inr ‹_›⟩
    · exact ⟨rfl, rfl, rfl, rfl, Or.inl⟩
  have hMem : ∀ r ∈ (w.mark key).runs, ∃ i, (w.mark key).runs[i]? = some r := fun r hr =>
    List.mem_iff_getElem?.mp hr
  refine ⟨?_, ?_, ?_, ?_, ?_, ?_, ?_⟩ <;>
    simp only [cancelRun_runs, cancelRun_cancelEvents, cancelRun_drawn, length_events_cancelRun]
  · intro i j r s pid hi hj hij hr hs hr' hs'
    obtain ⟨r₀, hi₀, hTask, -, hPhase, -, -⟩ := hMark hi
    obtain ⟨s₀, hj₀, hTask', -, hPhase', hRegistered', -⟩ := hMark hj
    rw [hPhase'] at hs'
    rw [Run.Unfinished, hPhase] at hr'
    rw [hPhase', hRegistered']
    exact h.alone i j r₀ s₀ pid hi₀ hj₀ hij (hTask ▸ hr) (hTask' ▸ hs) hr' hs'
  · intro r hr
    obtain ⟨i, hi⟩ := hMem r hr
    obtain ⟨s, hs, hTask, -, hPhase, hRegistered, -⟩ := hMark hi
    rw [Run.InOrder, hTask, hPhase, hRegistered]
    exact h.inOrder s (List.mem_of_getElem? hs)
  · intro i r hi hr hr'
    obtain ⟨s, hs, hTask, hEvent, hPhase, hRegistered, -⟩ := hMark hi
    rw [Run.cancelKey, hTask, hEvent]
    exact h.tagged i s hs (hRegistered ▸ hr) (hPhase ▸ hr')
  · intro i j r s hi hj hr hs hSame
    obtain ⟨r₀, hi₀, hTask, -⟩ := hMark hi
    obtain ⟨s₀, hj₀, hTask', -⟩ := hMark hj
    rw [Run.isPipeline, hTask] at hr
    rw [Run.isPipeline, hTask'] at hs
    rw [Run.cancelKey, Run.cancelKey, hTask, hTask'] at hSame
    exact h.ids i j r₀ s₀ hi₀ hj₀ hr hs hSame
  · intro r hr x n t ht
    obtain ⟨i, hi⟩ := hMem r hr
    obtain ⟨s, hs, hTask, -⟩ := hMark hi
    exact h.drawn s (List.mem_of_getElem? hs) x n t (hTask ▸ ht)
  · intro r hr
    obtain ⟨i, hi⟩ := hMem r hr
    obtain ⟨s, hs, -, hEvent, -⟩ := hMark hi
    exact hEvent ▸ h.events s (List.mem_of_getElem? hs)
  · intro r hr hAsked
    obtain ⟨i, hi⟩ := hMem r hr
    obtain ⟨s, hs, -, hEvent, -, -, hWhy⟩ := hMark hi
    rw [hEvent]
    rcases hWhy hAsked with hAsked | ⟨hUnfinished, hNamed⟩
    · have hSet : (w.mark key).Set s.event := h.asked s (List.mem_of_getElem? hs) hAsked
      exact hSet.cancelRun key
    · exact h.reaches hCareful (List.mem_of_getElem? hs) hUnfinished hNamed

/-! ## Whole runs -/

theorem Inv.schedulePipeline (h : w.Inv) (pid : String) (today : Nat) :
    (w.schedulePipeline S pid today).Inv := by
  unfold World.schedulePipeline
  split
  · exact h
  · split
    · exact h.triggerPipelineNow pid 1
    · exact h

theorem Inv.scheduleJob (h : w.Inv) (jobId : String) (today : Nat) :
    (w.scheduleJob S jobId today).Inv := by
  unfold World.scheduleJob
  split
  · exact h
  · split
    · exact h.triggerNow jobId
    · exact h

theorem Inv.chainStep (h : w.Inv) (looks : Nat) :
    (w.step S (.chainStep k looks)).Inv := by
  refine h.act fun r => ?_
  unfold Run.atStep
  split
  · exact ⟨_, _, _, rfl⟩
  · split_ifs <;> exact ⟨_, _, _, rfl⟩

theorem Inv.step (h : w.Inv) (hCareful : w.Careful e) : (w.step S e).Inv := by
  cases e with
  | schedulePipeline pid today => exact h.schedulePipeline pid today
  | triggerPipeline pid => exact h.triggerPipelineNow pid 1
  | resumePipeline pid fromStep => exact h.triggerPipelineNow pid fromStep
  | scheduleJob jobId today => exact h.scheduleJob jobId today
  | triggerJob jobId => exact h.triggerNow jobId
  | proceed k => exact h.proceed hCareful
  | begin looks => exact h.begin looks
  | chainStep k looks => exact h.chainStep looks
  | look k => exact h.act fun r => ⟨r.steps, r.failed, (r.looked _).call, rfl⟩
  | endStep k ok => exact h.act fun r => ⟨r.steps, r.failed || !ok, none, rfl⟩
  | finish k => exact h.finish
  | cancel key => exact h.cancel hCareful

theorem Inv.signals (h : w.Inv) (hCareful : w.Careful e) : w.Signals S e := by
  cases e with
  | cancel key =>
      intro r hr hUnfinished hNamed
      exact ⟨h.reaches hCareful hr hUnfinished hNamed, (hCareful r hr hUnfinished hNamed).2⟩
  | chainStep k looks => exact fun r hk => h.asked r (List.mem_of_getElem? hk)
  | look k => exact fun r hk => h.asked r (List.mem_of_getElem? hk)
  | _ => trivial

/-- A pipeline of two steps and a job. -/
def sample : Service where
  pipelines := fun pid =>
    if pid = "nightly" then
      some (⟨"nightly", "india",
        [⟨1, "data_refresh", "Refresh"⟩, ⟨2, "compute_analytics", "Analytics"⟩]⟩, ⟨true, none⟩)
    else none
  jobs := fun jobId => if jobId = "news" then some ⟨"run_sentiment", ⟨true, none⟩⟩ else none
  maxWorkers := 3

def sampleRun : List Event :=
  [.schedulePipeline "nightly" 1, .proceed 0, .proceed 0, .begin 0, .chainStep 0 2,
    .triggerJob "news", .proceed 1, .proceed 1, .begin 4, .cancel (.tag "nightly"), .look 0,
    .cancel (.runId 1), .endStep 0 false, .look 1, .chainStep 0 0, .finish 0, .finish 1,
    .triggerPipeline "nightly", .proceed 2, .proceed 2, .begin 0]

/-- In a run of careful steps at most one run of each pipeline is executing at any time, and every
request sets an event that the code it is meant for looks at. -/
theorem exclusive_and_signals {events : List Event}
    (hCareful : EveryStep (step S) Careful init events) :
    EveryStep (step S) (fun w e => (w.step S e).Exclusive ∧ w.Signals S e) init events := by
  have hStep : ∀ (w : World) (e : Event), w.Inv → w.Careful e → (w.step S e).Inv :=
    fun _ _ h => h.step
  refine everyStep_of_invariant hStep (fun w e h hCareful => ?_) inv_init hCareful
  exact ⟨(h.step hCareful).exclusive, h.signals hCareful⟩

/-- A pipeline that is triggered, cancelled during its first step and triggered again, beside a
job. -/
theorem exclusive_and_signals_nightly :
    EveryStep (step sample) Careful init sampleRun ∧
      EveryStep (step sample) (fun w e => (w.step sample e).Exclusive ∧ w.Signals sample e) init
        sampleRun := by
  have hCareful : EveryStep (step sample) Careful init sampleRun := by decide +kernel
  exact ⟨hCareful, exclusive_and_signals hCareful⟩

/-- A trigger that goes on while a run of its pipeline is executing: once the queue is empty and a
worker is free, both runs are executing. -/
theorem second_begins {i : Nat} {pid : String} {looks : Nat} (hi : w.runs[i]? = some a)
    (ha : a.Executes pid) (hk : w.runs[k]? = some b) (hb : b.task = .pipeline pid)
    (hPhase : b.phase = .triggered) (hQueue : w.queue = [])
    (hFree : w.runs.countP (·.phase = .executing) < S.maxWorkers) :
    ¬ (runFrom (step S) w [.proceed k, .begin looks]).Exclusive := by
  have hik : k ≠ i := by
    rintro rfl
    rw [hk] at hi
    obtain rfl := Option.some.inj hi
    rw [ha.2] at hPhase
    cases hPhase
  have hLt := (List.getElem?_eq_some_iff.mp hk).1
  have hReady : b.Ready := ⟨hPhase, by rw [hb]; trivial⟩
  have hSubmit : w.step S (.proceed k) = w.submit k b := by
    simp only [step, proceed, hk, if_pos hReady]
  have hGet : (w.submit k b).runs[k]? = some { b with phase := .queued } :=
    List.getElem?_set_self hLt
  have hCount : (w.submit k b).runs.countP (·.phase = .executing) < S.maxWorkers := by
    have hSame : (w.submit k b).runs.countP (·.phase = .executing) =
        w.runs.countP (·.phase = .executing) := countP_set_of_eq hk (by simp [hPhase])
    omega
  have hBegin : (w.submit k b).step S (.begin looks) =
      { w.submit k b with
        runs := (w.submit k b).runs.set k (Run.begun { b with phase := .queued } looks)
        queue := [] } := by
    simp only [step, begin]
    rw [show (w.submit k b).queue = [k] by simp [submit, hQueue]]
    simp only [hGet]
    rw [if_pos ⟨trivial, hCount⟩]
  intro hExclusive
  rw [runFrom_cons, runFrom_cons, runFrom_nil, hSubmit, hBegin] at hExclusive
  refine hik (hExclusive k i _ a pid (List.getElem?_set_self ?_) ?_ ⟨hb, rfl⟩ ha)
  · rw [submit, List.length_set]
    exact hLt
  · rw [List.getElem?_set_ne hik, submit, List.getElem?_set_ne hik]
    exact hi

def twoTriggers : List Event :=
  [.triggerPipeline "nightly", .proceed 0, .proceed 0, .begin 0,
    .triggerPipeline "nightly", .proceed 1, .proceed 1, .begin 0]

/-- The run id of the step is the one that the list of runs shows. -/
def stepCancelled : List Event :=
  [.triggerPipeline "nightly", .proceed 0, .proceed 0, .begin 0, .chainStep 0 1, .cancel (.runId 0)]

/-- Both runs of the pipeline are executing in the one case, and the request is lost in the other. -/
theorem twoTriggers_overlap :
    ¬ EveryStep (step sample) (fun w e => (w.step sample e).Exclusive ∧ w.Signals sample e) init
        twoTriggers ∧
      ¬ EveryStep (step sample) (fun w e => (w.step sample e).Exclusive ∧ w.Signals sample e) init
        stepCancelled := by
  constructor
  · intro h
    have hStates : EveryState (step sample) Exclusive init twoTriggers :=
      ⟨inv_init.exclusive, h.imp fun _ _ hHere => hHere.1⟩
    have hFirst : ∃ r ∈ (runFrom (step sample) init twoTriggers).runs[0]?,
        r.Executes "nightly" := by decide +kernel
    have hSecond : ∃ r ∈ (runFrom (step sample) init twoTriggers).runs[1]?,
        r.Executes "nightly" := by decide +kernel
    obtain ⟨r, hr, hr'⟩ := hFirst
    obtain ⟨s, hs, hs'⟩ := hSecond
    cases hStates.last 0 1 r s "nightly" hr hs hr' hs'
  · intro h
    have hSignals : EveryStep (step sample) (Signals sample) init stepCancelled :=
      h.imp fun _ _ hHere => hHere.2
    revert hSignals
    decide +kernel

end World

end AsetPlatform.Jobs.Scheduler

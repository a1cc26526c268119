import AsetPlatform.Library.Run
import AsetPlatform.ScreenQL.ScreenScope

/-!
# ScreenQL answers along a run

A run interleaves requests with changes of what the route reads, the passing of time, and the loss
of cache entries. The monitor records every answer that was computed. An answer replayed from the
cache is one that was computed for the same user less than `ttlStable` seconds before
(`Recorded`), so that it shows what the scope of that user allowed then.
-/

set_option autoImplicit false

namespace AsetPlatform.ScreenQL

open AsetPlatform.Library AsetPlatform.Library.Sql

/-! ## Runs -/

inductive Event where
  | screen (user : UserContext) (req : ScreenQLRequest) (readable writable : Bool)
  | sources (src : Sources)
  | elapse (seconds : Nat)
  | drop (keep : List Char → Bool)

/-- An answer that was computed, with what it was computed from. -/
structure Computation where
  user : UserContext
  req : ScreenQLRequest
  sources : Sources
  time : Nat
  response : ScreenQLResponse

/-- The route with the answers computed so far, the last first. -/
structure Monitor where
  screener : Screener
  log : List Computation

def Monitor.fresh (src : Sources) (now : Nat) : Monitor := ⟨⟨src, .empty, now⟩, []⟩

section Steps

variable (P : Platform)

def Screener.step (s : Screener) : Event → Screener
  | .screen user req readable writable => (runScreen P s user req readable writable).2
  | .sources src => { s with sources := src }
  | .elapse seconds => { s with now := s.now + seconds }
  | .drop keep => { s with cache := s.cache.filter fun k _ => keep k }

/-- The answer an event computes, if any. -/
def Screener.computations (s : Screener) : Event → List Computation
  | .screen user req readable _ =>
      match s.cached (cacheKey P user req) readable with
      | some _ => []
      | none =>
          match computeScreen P.engine P.chars P.floatText s.sources user req with
          | .ok r => [⟨user, req, s.sources, s.now, r⟩]
          | _ => []
  | _ => []

def Monitor.step (m : Monitor) (e : Event) : Monitor :=
  ⟨m.screener.step P e, m.screener.computations P e ++ m.log⟩

/-- The computation stayed within the scope its user had when it was made. -/
def Computation.Within (c : Computation) : Prop :=
  WithinScope P c.sources c.user c.req c.response

/-- The answer was computed for the user, now or less than `ttlStable` seconds ago, and stayed
within the scope. -/
def Recorded (log : List Computation) (user : UserContext) (now : Nat) (resp : ScreenQLResponse) :
    Prop :=
  ∃ c ∈ log, c.user.userId = user.userId ∧ c.time ≤ now ∧ now < c.time + ttlStable ∧
    c.response = resp ∧ c.Within P

/-- Every answer the event gives is recorded. -/
def AnsweredWithin (m : Monitor) : Event → Prop
  | .screen user req readable writable =>
      ∀ resp, (runScreen P m.screener user req readable writable).1 = .ok resp →
        Recorded P (m.step P (.screen user req readable writable)).log user m.screener.now resp
  | _ => True

/-- The scope applies when the answer is computed, and the digest of the request is not that of an
earlier request with another key text. -/
def ScreenGuard (m : Monitor) : Event → Prop
  | .screen user req readable _ =>
      (m.screener.cached (cacheKey P user req) readable = none →
        ScopeApplies P m.screener.sources user req) ∧
      ∀ c ∈ m.log, P.digest (cacheKeyText c.user c.req) = P.digest (cacheKeyText user req) →
        cacheKeyText c.user c.req = cacheKeyText user req
  | _ => True

/-- What the cache holds was computed. -/
structure CacheSound (m : Monitor) : Prop where
  past : ∀ c ∈ m.log, c.time ≤ m.screener.now
  within : ∀ c ∈ m.log, c.Within P
  entries : ∀ k e, m.screener.cache.get? k = some e → ∃ c ∈ m.log,
    k = cacheKey P c.user c.req ∧ e.response = c.response ∧ e.expires = c.time + ttlStable

variable {P}

theorem userId_eq_of_cacheKeyText {user user' : UserContext} {req req' : ScreenQLRequest}
    (h : cacheKeyText user req = cacheKeyText user' req') : user.userId = user'.userId :=
  eq_of_append_sep user.uuid user'.uuid h

theorem runScreen_of_miss {s : Screener} {user : UserContext} {req : ScreenQLRequest}
    {readable : Bool} (hmiss : s.cached (cacheKey P user req) readable = none) (writable : Bool) :
    (runScreen P s user req readable writable).1 =
      computeScreen P.engine P.chars P.floatText s.sources user req := by
  simp only [runScreen, hmiss]
  cases computeScreen P.engine P.chars P.floatText s.sources user req <;> rfl

theorem runScreen_sources (s : Screener) (user : UserContext) (req : ScreenQLRequest)
    (readable writable : Bool) :
    (runScreen P s user req readable writable).2.sources = s.sources := by
  simp only [runScreen]
  split
  · rfl
  · split
    · simp only [Screener.store]
      split <;> rfl
    · rfl

end Steps

/-! ## The cache keeps what was computed -/

section Invariant

variable {P : Platform} {m : Monitor}

/-- A cached answer of a request is the answer of a recorded computation for the same user. -/
theorem recorded_of_cached (hsound : CacheSound P m) {user : UserContext} {req : ScreenQLRequest}
    {readable : Bool} {resp : ScreenQLResponse}
    (hsep : ∀ c ∈ m.log, P.digest (cacheKeyText c.user c.req) = P.digest (cacheKeyText user req) →
      cacheKeyText c.user c.req = cacheKeyText user req)
    (hhit : m.screener.cached (cacheKey P user req) readable = some resp) :
    Recorded P m.log user m.screener.now resp := by
  simp only [Screener.cached] at hhit
  split at hhit
  · obtain ⟨e, he, rfl⟩ := Option.map_eq_some_iff.1 hhit
    obtain ⟨hget, hlive⟩ := Option.filter_eq_some_iff.1 he
    obtain ⟨c, hc, hkey, hresp, hexpires⟩ := hsound.entries _ e hget
    have hdigest : P.digest (cacheKeyText c.user c.req) = P.digest (cacheKeyText user req) :=
      (List.append_cancel_left hkey).symm
    refine ⟨c, hc, userId_eq_of_cacheKeyText (hsep c hc hdigest), hsound.past c hc, ?_,
      hresp.symm, hsound.within c hc⟩
    rw [← hexpires]
    exact of_decide_eq_true hlive
  · cases hhit

/-- What a request leaves in the log and in the cache: nothing new, or the computed answer. -/
theorem step_screen_cases (user : UserContext) (req : ScreenQLRequest) (readable writable : Bool) :
    m.step P (.screen user req readable writable) = m ∨
      ∃ r, m.screener.cached (cacheKey P user req) readable = none ∧
        computeScreen P.engine P.chars P.floatText m.screener.sources user req = .ok r ∧
        m.step P (.screen user req readable writable) =
          ⟨m.screener.store (cacheKey P user req) r writable,
            ⟨user, req, m.screener.sources, m.screener.now, r⟩ :: m.log⟩ := by
  simp only [Monitor.step, Screener.step, Screener.computations, runScreen]
  cases hhit : m.screener.cached (cacheKey P user req) readable with
  | some resp => exact Or.inl rfl
  | none =>
      cases hcompute : computeScreen P.engine P.chars P.floatText m.screener.sources user req with
      | ok r => exact Or.inr ⟨r, rfl, rfl, rfl⟩
      | unprocessable detail => exact Or.inl rfl
      | serverError => exact Or.inl rfl

theorem cacheSound_fresh (src : Sources) (now : Nat) : CacheSound P (Monitor.fresh src now) := by
  constructor
  · intro c hc
    cases hc
  · intro c hc
    cases hc
  · intro k e h
    rw [show (Monitor.fresh src now).screener.cache = .empty from rfl, Dict.get?_empty] at h
    cases h

/-- Computing an answer within the scope, and storing it, keeps the cache sound. -/
theorem cacheSound_computed (hsound : CacheSound P m) {user : UserContext} {req : ScreenQLRequest}
    {r : ScreenQLResponse} (hwithin : WithinScope P m.screener.sources user req r)
    (writable : Bool) :
    CacheSound P ⟨m.screener.store (cacheKey P user req) r writable,
      ⟨user, req, m.screener.sources, m.screener.now, r⟩ :: m.log⟩ := by
  have hnow : (m.screener.store (cacheKey P user req) r writable).now = m.screener.now := by
    simp only [Screener.store]
    split <;> rfl
  constructor
  · intro c hc
    show c.time ≤ (m.screener.store _ r writable).now
    rw [hnow]
    rcases List.mem_cons.1 hc with rfl | hc
    · exact Nat.le_refl _
    · exact hsound.past c hc
  · intro c hc
    rcases List.mem_cons.1 hc with rfl | hc
    · exact hwithin
    · exact hsound.within c hc
  · intro k e h
    have hold : ∀ k e, m.screener.cache.get? k = some e → ∃ c ∈
        (⟨user, req, m.screener.sources, m.screener.now, r⟩ : Computation) :: m.log,
        k = cacheKey P c.user c.req ∧ e.response = c.response ∧
          e.expires = c.time + ttlStable := by
      intro k e h
      obtain ⟨c, hc, hrest⟩ := hsound.entries k e h
      exact ⟨c, List.mem_cons_of_mem _ hc, hrest⟩
    cases writable with
    | false => exact hold k e h
    | true =>
        have hset : (m.screener.cache.set (cacheKey P user req)
            ⟨r, m.screener.now + ttlStable⟩).get? k = some e := h
        rw [Dict.get?_set] at hset
        split at hset
        · rename_i hk
          cases hset
          exact ⟨_, List.mem_cons_self, hk, rfl, rfl⟩
        · exact hold k e hset

theorem cacheSound_step (m : Monitor) (e : Event) (hsound : CacheSound P m)
    (hguard : ScreenGuard P m e) : CacheSound P (m.step P e) := by
  cases e with
  | screen user req readable writable =>
      rcases step_screen_cases (P := P) (m := m) user req readable writable with
        hsame | ⟨r, hmiss, hcompute, hstep⟩
      · rw [hsame]
        exact hsound
      · rw [hstep]
        exact cacheSound_computed hsound
          (computed_within_iff.2 (hguard.1 hmiss) r hcompute) writable
  | sources src => exact ⟨hsound.past, hsound.within, hsound.entries⟩
  | elapse seconds =>
      refine ⟨?_, hsound.within, hsound.entries⟩
      intro c hc
      exact Nat.le_add_right_of_le (hsound.past c hc)
  | drop keep =>
      refine ⟨hsound.past, hsound.within, ?_⟩
      intro k e h
      have hget : (m.screener.cache.filter fun k _ => keep k).get? k = some e := h
      rw [Dict.get?_filter, Option.filter_eq_some_iff] at hget
      exact hsound.entries k e hget.1

theorem answeredWithin_of_sound (m : Monitor) (e : Event) (hsound : CacheSound P m)
    (hguard : ScreenGuard P m e) : AnsweredWithin P m e := by
  cases e with
  | screen user req readable writable =>
      intro resp hanswer
      cases hhit : m.screener.cached (cacheKey P user req) readable with
      | some hit =>
          -- the answer is the cached one, and the log is as before
          have hresp : hit = resp := by
            simp only [runScreen, hhit] at hanswer
            exact Outcome.ok.inj hanswer
          rcases step_screen_cases (P := P) (m := m) user req readable writable with
            hsame | ⟨r, hmiss, -, -⟩
          · rw [hsame]
            exact recorded_of_cached hsound hguard.2 (hresp ▸ hhit)
          · rw [hhit] at hmiss
            cases hmiss
      | none =>
          rw [runScreen_of_miss hhit] at hanswer
          have hwithin := computed_within_iff.2 (hguard.1 hhit) resp hanswer
          refine ⟨⟨user, req, m.screener.sources, m.screener.now, resp⟩, ?_, rfl, Nat.le_refl _,
            Nat.lt_add_of_pos_right (by decide), rfl, hwithin⟩
          apply List.mem_append_left
          simp only [Screener.computations, hhit, hanswer, List.mem_singleton]
  | sources src => trivial
  | elapse seconds => trivial
  | drop keep => trivial

end Invariant

/-! ## The scope of every answer -/

section Example

/-- A platform with ASCII tables and an engine that sorts stably. -/
def demoPlatform : Platform := ⟨.ascii, fun q => toString q, id, .stable⟩

/-- A user with the role every account starts with. -/
def generalUser : UserContext := ⟨"7f3c".toList, "general", by decide⟩

def demoRow (ticker : String) (pe : ℚ) : Row := fun column =>
  if column = "ticker" then some (.text ticker)
  else if column = "pe_ratio" then some (.number pe)
  else none

/-- Two companies, and the watchlist of every user. -/
def demoSources (watchlist : List String) : Sources where
  registry := .empty
  watchlist _ := watchlist
  holdings _ := []
  warehouse table :=
    if table = "stocks.company_info" then some [demoRow "AAPL" 10, demoRow "TCS.NS" 30] else none
  stockMaster := none

def cheapStocks : ScreenQLRequest where
  query := "pe_ratio < 15".toList
  query_length := by decide
  page_pos := by decide
  pageSize_range := by decide

/-- The answer with the one company below 15. -/
def cheapAnswer : ScreenQLResponse where
  rows := [[("ticker", some (.text "AAPL")), ("company_name", none), ("sector", none),
    ("market_cap", none), ("current_price", none), ("currency", none),
    ("pe_ratio", some (.number (10 : ℚ)))]]
  total := 1
  page := 1
  pageSize := 25
  columnsUsed := ["pe_ratio"]
  excludedNullCount := 0

end Example

end AsetPlatform.ScreenQL

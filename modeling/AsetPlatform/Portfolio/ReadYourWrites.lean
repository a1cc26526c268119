import AsetPlatform.Library.Months
import AsetPlatform.Library.Text
import AsetPlatform.Portfolio.DashboardCache

/-!
# Reading one's own writes

`World.ReadsReflectWrites`: every answered read has the body that its endpoint computes from versions
of the table that hold the writes of the user that had returned when it started.

The routes and the table cover the keys of performance and forecast, and of nothing else
(`covered_iff`). `readsReflectWrites_of_harmless`: in a run in which no write commits while an answer
of its user that it does not cover is cached or on its way into the cache, and no pattern is
invalidated while a covered answer from before the write is on its way, every state is good. The key
of a performance request separates the currency from the period by a colon, so that the currency
must have none.
-/

set_option autoImplicit false

namespace AsetPlatform.Portfolio.Dashboard

open AsetPlatform.Library

universe u

/-! ## Keys -/

theorem UserId.colon_notMem (user : UserId) : ':' ∉ user.text.toList := by
  intro hMem
  have hUuid := List.all_eq_true.mp user.uuid ':' hMem
  exact absurd hUuid (by decide)

theorem portfolioKey_toList (kind : String) (user : UserId) (rest : String) :
    (portfolioKey kind user rest).toList =
      "cache:portfolio:".toList ++
        (kind.toList ++ ':' :: (user.text.toList ++ ':' :: rest.toList)) := by
  unfold portfolioKey
  rw [String.toList_append, String.toList_append, String.toList_append, String.toList_append,
    String.toList_append, List.append_assoc, List.append_assoc, List.append_assoc,
    List.append_assoc]
  exact congrArg _ rfl

/-- A key says which kind of answer it is for, whose, and for which arguments. -/
theorem portfolioKey_inj {kind kind' : String} {user user' : UserId} {rest rest' : String}
    (hKind : ':' ∉ kind.toList) (hKind' : ':' ∉ kind'.toList)
    (h : portfolioKey kind user rest = portfolioKey kind' user' rest') :
    kind = kind' ∧ user = user' ∧ rest = rest' := by
  have hText := congrArg String.toList h
  rw [portfolioKey_toList, portfolioKey_toList] at hText
  obtain ⟨hSameKind, hTail⟩ := append_sep_inj hKind hKind' (List.append_cancel_left hText)
  obtain ⟨hSameUser, hRest⟩ := append_sep_inj user.colon_notMem user'.colon_notMem hTail
  refine ⟨String.toList_inj.mp hSameKind, ?_, String.toList_inj.mp hRest⟩
  cases user
  cases user'
  cases String.toList_inj.mp hSameUser
  rfl

/-- A pattern for the keys of a kind and a user covers just those. -/
theorem startsWith_covers_iff {kind kind' : String} {user user' : UserId} {rest : String}
    (hKind : ':' ∉ kind.toList) (hKind' : ':' ∉ kind'.toList) :
    (Pattern.startsWith (portfolioKey kind user "")).covers (portfolioKey kind' user' rest) = true ↔
      kind = kind' ∧ user = user' := by
  unfold Pattern.covers
  rw [List.isPrefixOf_iff_prefix]
  constructor
  · rintro ⟨more, hMore⟩
    have hSame : portfolioKey kind user (String.ofList more) = portfolioKey kind' user' rest := by
      apply String.toList_inj.mp
      rw [← hMore, portfolioKey_toList, portfolioKey_toList]
      simp
    obtain ⟨hSameKind, hSameUser, -⟩ := portfolioKey_inj hKind hKind' hSame
    exact ⟨hSameKind, hSameUser⟩
  · rintro ⟨rfl, rfl⟩
    rw [portfolioKey_toList, portfolioKey_toList]
    refine ⟨rest.toList, ?_⟩
    simp

theorem exactly_covers (user user' : UserId) (kind rest : String) :
    (Pattern.exactly ("cache:portfolio:" ++ user.text)).covers (portfolioKey kind user' rest) =
      false := by
  unfold Pattern.covers
  refine decide_eq_false fun hSame => user.colon_notMem ?_
  have hText := congrArg String.toList hSame
  rw [portfolioKey_toList, String.toList_append] at hText
  rw [← List.append_cancel_left hText]
  simp

/-- A performance request whose currency has no colon; the other keys have one reading. -/
def Request.Clean : Request → Prop
  | .performance _ currency => ':' ∉ currency.toList
  | _ => True

instance Request.Clean.decidable (request : Request) : Decidable request.Clean := by
  unfold Request.Clean
  split <;> infer_instance

theorem currency_horizon_inj {currency currency' : String} {horizon horizon' : Int}
    (h : currency ++ ":" ++ toString horizon = currency' ++ ":" ++ toString horizon') :
    currency = currency' ∧ horizon = horizon' := by
  have hText := congrArg String.toList h
  simp only [String.toList_append, List.append_assoc] at hText
  obtain ⟨hCurrency, hHorizon⟩ := append_cons_inj_of_notMem_right (colon_notMem_toString horizon)
    (colon_notMem_toString horizon') hText
  exact ⟨String.toList_inj.mp hCurrency, toString_int_inj hHorizon⟩

theorem currency_period_inj {currency currency' period period' : String}
    (hCurrency : ':' ∉ currency.toList) (hCurrency' : ':' ∉ currency'.toList)
    (h : currency ++ ":" ++ period = currency' ++ ":" ++ period') :
    currency = currency' ∧ period = period' := by
  have hText := congrArg String.toList h
  simp only [String.toList_append, List.append_assoc] at hText
  obtain ⟨hSame, hPeriod⟩ := append_sep_inj hCurrency hCurrency' hText
  exact ⟨String.toList_inj.mp hSame, String.toList_inj.mp hPeriod⟩

/-- The kind of answer of a request, and its arguments in the key. -/
def Request.parts : Request → Option (String × String)
  | .portfolio => none
  | .transactions _ => none
  | .performance period currency => some ("perf", currency ++ ":" ++ period)
  | .forecast horizon currency => some ("forecast", currency ++ ":" ++ toString horizon)
  | .allocation market => some ("alloc", market)
  | .news market => some ("news", market)

theorem Request.key_eq (user : UserId) (request : Request) :
    request.key user = request.parts.map fun (kind, rest) => portfolioKey kind user rest := by
  cases request <;> rfl

theorem Request.kind_mem {request : Request} {kind rest : String}
    (h : request.parts = some (kind, rest)) : kind ∈ ["perf", "forecast", "alloc", "news"] := by
  cases request <;> cases h <;> decide

theorem colon_notMem_kind {kind : String} (h : kind ∈ ["perf", "forecast", "alloc", "news"]) :
    ':' ∉ kind.toList := by
  revert kind
  decide

theorem Request.parts_inj {request request' : Request} {p : String × String}
    (h : request.parts = some p) (h' : request'.parts = some p) (hClean : request.Clean)
    (hClean' : request'.Clean) : request = request' := by
  -- the kinds tell the endpoints apart, the rest the arguments
  cases request <;> cases request' <;> cases h <;>
    simp only [Request.parts, Option.some.injEq, Prod.mk.injEq, reduceCtorEq, String.reduceEq,
      false_and, true_and] at h'
  case performance.performance.refl period currency period' currency' =>
    obtain ⟨rfl, rfl⟩ := currency_period_inj hClean' hClean h'
    rfl
  case forecast.forecast.refl horizon currency horizon' currency' =>
    obtain ⟨rfl, rfl⟩ := currency_horizon_inj h'
    rfl
  case allocation.allocation.refl market market' => exact congrArg Request.allocation h'.symm
  case news.news.refl market market' => exact congrArg Request.news h'.symm

theorem Request.scans_pos (request : Request) : 0 < request.scans := by
  cases request <;> simp [Request.scans]

theorem Request.key_inj {user user' : UserId} {request request' : Request} {key : String}
    (h : request.key user = some key) (h' : request'.key user' = some key)
    (hClean : request.Clean) (hClean' : request'.Clean) : user = user' ∧ request = request' := by
  rw [Request.key_eq, Option.map_eq_some_iff] at h h'
  obtain ⟨⟨kind, rest⟩, hParts, rfl⟩ := h
  obtain ⟨⟨kind', rest'⟩, hParts', hKey⟩ := h'
  obtain ⟨rfl, rfl, rfl⟩ := portfolioKey_inj (colon_notMem_kind (Request.kind_mem hParts'))
    (colon_notMem_kind (Request.kind_mem hParts)) hKey
  exact ⟨rfl, Request.parts_inj hParts hParts' hClean hClean'⟩

/-! ## What a write covers -/

def ownKey (user : UserId) (key : String) : Bool :=
  ["perf", "forecast", "alloc", "news"].any fun kind =>
    (Pattern.startsWith (portfolioKey kind user "")).covers key

theorem Request.ownKey_of_key {user : UserId} {request : Request} {key : String}
    (h : request.key user = some key) : ownKey user key = true := by
  rw [Request.key_eq, Option.map_eq_some_iff] at h
  obtain ⟨⟨kind, rest⟩, hParts, rfl⟩ := h
  have hKind := Request.kind_mem hParts
  have hColon := colon_notMem_kind hKind
  exact List.any_eq_true.mpr ⟨kind, hKind, (startsWith_covers_iff hColon hColon).mpr ⟨rfl, rfl⟩⟩

def covered (patterns : List Pattern) (key : String) : Bool := patterns.any (Pattern.covers key)

/-- A write invalidates the answers of performance and forecast, and no others. -/
theorem covered_iff (user : UserId) (submission : Submission) {request : Request} {key : String}
    (h : request.key user = some key) :
    covered (submission.patterns user) key = true ↔
      (∃ period currency, request = .performance period currency) ∨
        ∃ horizon currency, request = .forecast horizon currency := by
  have hPerf : ':' ∉ "perf".toList := by decide
  have hForecast : ':' ∉ "forecast".toList := by decide
  have hRoute : covered (submission.patterns user) key = true ↔
      (Pattern.startsWith (portfolioKey "perf" user "")).covers key = true ∨
        (Pattern.startsWith (portfolioKey "forecast" user "")).covers key = true := by
    have hTable : tablePatterns "stocks.portfolio_transactions" = [] := by decide
    unfold covered Submission.patterns
    rw [hTable, List.nil_append]
    cases submission with
    | add =>
        rw [Request.key_eq, Option.map_eq_some_iff] at h
        obtain ⟨⟨kind, rest⟩, -, rfl⟩ := h
        simp only [Submission.routePatterns, List.any_cons, exactly_covers, Bool.false_or,
          List.any_nil, Bool.or_false, Bool.or_eq_true]
    | edit => simp only [Submission.routePatterns, List.any_cons, List.any_nil, Bool.or_false,
        Bool.or_eq_true]
    | delete => simp only [Submission.routePatterns, List.any_cons, List.any_nil, Bool.or_false,
        Bool.or_eq_true]
  rw [hRoute]
  cases request with
  | portfolio => cases h
  | transactions ticker => cases h
  | performance period currency =>
      cases h
      rw [startsWith_covers_iff hPerf hPerf]
      simp
  | forecast horizon currency =>
      cases h
      rw [startsWith_covers_iff hForecast hForecast]
      simp
  | allocation market =>
      cases h
      rw [startsWith_covers_iff hPerf (by decide), startsWith_covers_iff hForecast (by decide)]
      simp
  | news market =>
      cases h
      rw [startsWith_covers_iff hPerf (by decide), startsWith_covers_iff hForecast (by decide)]
      simp

/-- The allocation of a market stays cached when a transaction is deleted. -/
theorem covered_iff_allocation : (Request.allocation "us").key ⟨"a1", by decide⟩ =
    some "cache:portfolio:alloc:a1:us" ∧
      (covered ((Submission.delete "t1").patterns ⟨"a1", by decide⟩)
          "cache:portfolio:alloc:a1:us" = true ↔
        (∃ period currency, Request.allocation "us" = .performance period currency) ∨
          ∃ horizon currency, Request.allocation "us" = .forecast horizon currency) :=
  ⟨by decide, covered_iff _ _ (by decide)⟩

/-! ## The property and the condition -/

section Property

variable {β : Type u} (views : Views β)

/-- The body is what the endpoint computes from versions of the table that are not older than `v`. -/
def Reflects (versions : List (List Row)) (user : UserId) (request : Request) (v : Nat)
    (body : Body β) : Prop :=
  ∃ seen : List Nat, seen.length = request.scans ∧
    (∀ j ∈ seen, v ≤ j ∧ j < versions.length) ∧
    (compute views user (seen.map (World.rowsAt versions)) request).body = body

/-- Every answered read reflects the writes of its user that had returned when it started. -/
def World.ReadsReflectWrites (w : World β) : Prop :=
  ∀ r ∈ w.reads, ∀ body, r.phase = .answered body →
    Reflects views w.versions r.user r.request r.since body

/-- The answers of the user that are cached or on their way into the cache are covered by the
patterns of the write. -/
def World.AllCovered (w : World β) (user : UserId) (submission : Submission) : Prop :=
  (∀ key ∈ w.cache.keys, ownKey user key = true → covered (submission.patterns user) key = true) ∧
    ∀ r ∈ w.reads, r.user = user → r.phase.seen ≠ [] →
      (r.request.key user).all (covered (submission.patterns user)) = true

/-- No answer that the pattern covers is on its way into the cache from before the version. -/
def World.NoneBehind (w : World β) (user : UserId) (version : Nat) (pattern : Pattern) : Prop :=
  ∀ r ∈ w.reads, r.user = user → (r.request.key user).any pattern.covers = true →
    ∀ j ∈ r.phase.seen, version ≤ j

/-- The condition on the state before a step. -/
def World.Harmless (w : World β) : Event → Prop
  | .commit k true =>
      match w.writes[k]? with
      | some ⟨user, submission, .appending⟩ => w.AllCovered user submission
      | some ⟨user, submission, .overwriting _⟩ => w.AllCovered user submission
      | _ => True
  | .invalidate k =>
      match w.writes[k]? with
      | some ⟨user, _, .invalidating version (pattern :: _)⟩ => w.NoneBehind user version pattern
      | _ => True
  | .beginRead _ request => request.Clean
  | _ => True

instance World.AllCovered.decidable (w : World β) (user : UserId) (submission : Submission) :
    Decidable (w.AllCovered user submission) := inferInstanceAs (Decidable (_ ∧ _))

instance World.NoneBehind.decidable (w : World β) (user : UserId) (version : Nat)
    (pattern : Pattern) : Decidable (w.NoneBehind user version pattern) :=
  inferInstanceAs (Decidable (∀ r ∈ w.reads, _))

instance World.Harmless.decidable (w : World β) (e : Event) : Decidable (w.Harmless e) := by
  unfold World.Harmless
  split
  · split <;> infer_instance
  · split <;> infer_instance
  · infer_instance
  · infer_instance

end Property

/-! ## The invariant -/

section Invariant

variable {β : Type u} {views : Views β}

theorem rowsAt_append {versions : List (List Row)} {rows : List Row} {j : Nat}
    (hj : j < versions.length) : World.rowsAt (versions ++ [rows]) j = World.rowsAt versions j := by
  unfold World.rowsAt
  rw [List.getElem?_append_left hj]

theorem map_rowsAt_append {versions : List (List Row)} {rows : List Row} {seen : List Nat}
    (hSeen : ∀ j ∈ seen, j < versions.length) :
    seen.map (World.rowsAt (versions ++ [rows])) = seen.map (World.rowsAt versions) :=
  List.map_congr_left fun j hj => rowsAt_append (hSeen j hj)

theorem Reflects.append {versions : List (List Row)} {user : UserId} {request : Request} {v : Nat}
    {body : Body β} (h : Reflects views versions user request v body) (rows : List Row) :
    Reflects views (versions ++ [rows]) user request v body := by
  obtain ⟨seen, hLen, hSeen, hBody⟩ := h
  refine ⟨seen, hLen, fun j hj => ⟨(hSeen j hj).1, ?_⟩, ?_⟩
  · have := (hSeen j hj).2
    rw [List.length_append]
    omega
  · rw [map_rowsAt_append fun j hj => (hSeen j hj).2]
    exact hBody

theorem Reflects.mono {versions : List (List Row)} {user : UserId} {request : Request} {v v' : Nat}
    {body : Body β} (h : Reflects views versions user request v body) (hv : v' ≤ v) :
    Reflects views versions user request v' body := by
  obtain ⟨seen, hLen, hSeen, hBody⟩ := h
  exact ⟨seen, hLen, fun j hj => ⟨hv.trans (hSeen j hj).1, (hSeen j hj).2⟩, hBody⟩

/-- What a read has scanned: nothing from before the writes that had returned when it started, and,
when the answer may be stored, nothing from before the writes that have returned. -/
def SeenOk (versions : List (List Row)) (returned : UserId → Nat) (r : Read β) : Prop :=
  ∀ j ∈ r.phase.seen, r.since ≤ j ∧ j < versions.length ∧
    ((r.request.key r.user).isSome = true → returned r.user ≤ j)

def PhaseOk (views : Views β) (versions : List (List Row)) (r : Read β) : Prop :=
  match r.phase with
  | .lookingUp => True
  | .scanning seen => seen.length < r.request.scans
  | .storing seen body => seen.length = r.request.scans ∧
      (compute views r.user (seen.map (World.rowsAt versions)) r.request).body = body
  | .answered body => Reflects views versions r.user r.request r.since body

structure ReadOk (views : Views β) (versions : List (List Row)) (returned : UserId → Nat)
    (r : Read β) : Prop where
  since : r.since ≤ returned r.user
  clean : r.request.Clean
  seen : SeenOk versions returned r
  phase : PhaseOk views versions r

/-- The entries of the cache that are older than a version are covered by the patterns. -/
def EntriesAt (views : Views β) (w : World β) (user : UserId) (v : Nat) (patterns : List Pattern) :
    Prop :=
  ∀ request key body, request.Clean → request.key user = some key → w.cache.get? key = some body →
    covered patterns key = false → Reflects views w.versions user request v body

/-- The reads that have scanned an older version are covered by the patterns. -/
def PendingAt (w : World β) (user : UserId) (v : Nat) (patterns : List Pattern) : Prop :=
  ∀ r ∈ w.reads, r.user = user → ∀ key, r.request.key user = some key →
    covered patterns key = false → ∀ j ∈ r.phase.seen, v ≤ j

/-- What a committed write has still to invalidate is all that is older than it. -/
structure WriteOk (views : Views β) (w : World β) (x : Write) (version : Nat)
    (patterns : List Pattern) : Prop where
  inTable : version < w.versions.length
  entries : EntriesAt views w x.user version patterns
  pending : PendingAt w x.user version patterns

structure Inv (views : Views β) (w : World β) : Prop where
  returned : ∀ user, w.returned user < w.versions.length
  reads : ∀ r ∈ w.reads, ReadOk views w.versions w.returned r
  entries : ∀ user, EntriesAt views w user (w.returned user) []
  writes : ∀ x ∈ w.writes, ∀ version patterns, x.phase = .invalidating version patterns →
    WriteOk views w x version patterns

variable {w : World β}

theorem covered_nil (key : String) : covered [] key = false := rfl

theorem covered_cons_eq_false {pattern : Pattern} {rest : List Pattern} {key : String} :
    covered (pattern :: rest) key = false ↔ pattern.covers key = false ∧ covered rest key = false := by
  unfold covered
  rw [List.any_cons, Bool.or_eq_false_iff]

/-! ### What a step keeps -/

theorem Inv.moveWrite (h : Inv views w) {k : Nat} {x : Write} {phase : WritePhase}
    (hx : ∀ version patterns, phase = .invalidating version patterns →
      WriteOk views w x version patterns) : Inv views (w.moveWrite k x phase) where
  returned := h.returned
  reads := h.reads
  entries := h.entries
  writes := by
    apply forall_mem_set
    · intro y hy version patterns hPhase
      have hOk := h.writes y hy version patterns hPhase
      exact ⟨hOk.inTable, hOk.entries, hOk.pending⟩
    · intro version patterns hPhase
      have hOk := hx version patterns hPhase
      exact ⟨hOk.inTable, hOk.entries, hOk.pending⟩

theorem Inv.moveRead (h : Inv views w) {k : Nat} {r : Read β} {phase : ReadPhase β}
    (hOk : ReadOk views w.versions w.returned { r with phase := phase })
    (hPending : ∀ x ∈ w.writes, ∀ version patterns, x.phase = .invalidating version patterns →
      r.user = x.user → ∀ key, r.request.key x.user = some key → covered patterns key = false →
      ∀ j ∈ phase.seen, version ≤ j) : Inv views (w.moveRead k r phase) where
  returned := h.returned
  reads := forall_mem_set h.reads hOk
  entries := h.entries
  writes := by
    intro x hx version patterns hPhase
    have hOld := h.writes x hx version patterns hPhase
    refine ⟨hOld.inTable, hOld.entries, ?_⟩
    apply forall_mem_set
    · exact hOld.pending
    · exact hPending x hx version patterns hPhase

theorem Inv.moveRead_of_seen_nil (h : Inv views w) {k : Nat} {r : Read β}
    (hr : w.reads[k]? = some r) {phase : ReadPhase β} (hSeen : phase.seen = [])
    (hPhase : PhaseOk views w.versions { r with phase := phase }) :
    Inv views (w.moveRead k r phase) := by
  have hOld := h.reads r (List.mem_of_getElem? hr)
  refine h.moveRead ⟨hOld.since, hOld.clean, ?_, hPhase⟩ ?_
  · intro j hj
    have hNil : j ∈ phase.seen := hj
    rw [hSeen] at hNil
    cases hNil
  · intro x hx version patterns hx' hUser key hKey hCovered j hj
    rw [hSeen] at hj
    cases hj

theorem ReadOk.append {versions : List (List Row)} {returned : UserId → Nat} {r : Read β}
    (h : ReadOk views versions returned r) (rows : List Row) :
    ReadOk views (versions ++ [rows]) returned r := by
  refine ⟨h.since, h.clean, fun j hj => ?_, ?_⟩
  · obtain ⟨hSince, hLt, hReturned⟩ := h.seen j hj
    refine ⟨hSince, ?_, hReturned⟩
    rw [List.length_append]
    omega
  · have hSeen := h.seen
    have hPhase := h.phase
    unfold PhaseOk SeenOk at *
    cases hp : r.phase with
    | lookingUp => trivial
    | scanning seen =>
        rw [hp] at hPhase
        exact hPhase
    | storing seen body =>
        rw [hp] at hPhase hSeen
        have hIn : ∀ j ∈ seen, j < versions.length := fun j hj => (hSeen j hj).2.1
        refine ⟨hPhase.1, ?_⟩
        rw [map_rowsAt_append hIn]
        exact hPhase.2
    | answered body =>
        rw [hp] at hPhase
        exact hPhase.append rows

theorem Inv.grow (h : Inv views w) (rows : List Row) :
    Inv views { w with versions := w.versions ++ [rows] } where
  returned user := by
    have := h.returned user
    show w.returned user < (w.versions ++ [rows]).length
    rw [List.length_append]
    omega
  reads r hr := (h.reads r hr).append rows
  entries user request key body hClean hKey hEntry hCovered :=
    (h.entries user request key body hClean hKey hEntry hCovered).append rows
  writes x hx version patterns hPhase := by
    have hOld := h.writes x hx version patterns hPhase
    refine ⟨?_, fun request key body hClean hKey hEntry hCovered =>
      (hOld.entries request key body hClean hKey hEntry hCovered).append rows, hOld.pending⟩
    have := hOld.inTable
    show version < (w.versions ++ [rows]).length
    rw [List.length_append]
    omega

theorem Inv.shrink (h : Inv views w) {cache : Dict String (Body β)}
    (hCache : ∀ key body, cache.get? key = some body → w.cache.get? key = some body) :
    Inv views { w with cache := cache } where
  returned := h.returned
  reads := h.reads
  entries user request key body hClean hKey hEntry :=
    h.entries user request key body hClean hKey (hCache key body hEntry)
  writes x hx version patterns hPhase := by
    have hOld := h.writes x hx version patterns hPhase
    exact ⟨hOld.inTable, fun request key body hClean hKey hEntry =>
      hOld.entries request key body hClean hKey (hCache key body hEntry), hOld.pending⟩

/-! ### The steps -/

theorem Inv.beginWrite (h : Inv views w) (user : UserId) (submission : Submission) :
    Inv views (w.step views (.beginWrite user submission)) where
  returned := h.returned
  reads := h.reads
  entries := h.entries
  writes := by
    apply forall_mem_append_singleton
    · intro x hx version patterns hPhase
      have hOld := h.writes x hx version patterns hPhase
      exact ⟨hOld.inTable, hOld.entries, hOld.pending⟩
    · intro version patterns hPhase
      have hFirst : World.firstPhase submission = .invalidating version patterns := hPhase
      unfold World.firstPhase at hFirst
      split at hFirst
      · cases hFirst
      · split at hFirst <;> cases hFirst
      · cases hFirst

theorem Inv.readTable (h : Inv views w) (k : Nat) : Inv views (w.step views (.readTable k)) := by
  simp only [World.step]
  split
  · apply h.moveWrite
    intro version patterns hPhase
    split at hPhase <;> cases hPhase
  · exact h

/-- When all that its user has in the cache or on the way is covered, a new commit has only that to
invalidate. -/
theorem Inv.push (h : Inv views w) {k : Nat} {x : Write} (hCovered : w.AllCovered x.user x.submission)
    (rows : List Row) : Inv views (w.push k x rows) := by
  apply (h.grow rows).moveWrite
  intro version patterns hPhase
  cases hPhase
  refine ⟨?_, ?_, ?_⟩
  · show w.versions.length < (w.versions ++ [rows]).length
    rw [List.length_append]
    exact Nat.lt_succ_self _
  · intro request key body hClean hKey hEntry hNot
    have hMem : key ∈ w.cache.keys := Dict.mem_keys_iff.mpr ⟨body, hEntry⟩
    have hYes := hCovered.1 key hMem (Request.ownKey_of_key hKey)
    rw [hYes] at hNot
    cases hNot
  · intro r hr hUser key hKey hNot j hj
    have hAll := hCovered.2 r hr hUser (List.ne_nil_of_mem hj)
    rw [hKey] at hAll
    have hYes : covered (x.submission.patterns x.user) key = true := hAll
    rw [hYes] at hNot
    cases hNot

theorem Inv.commit (h : Inv views w) (k : Nat) (ok : Bool) (hGuard : w.Harmless (.commit k ok)) :
    Inv views (w.step views (.commit k ok)) := by
  simp only [World.step]
  cases ok with
  | false =>
      split
      · exact h.moveWrite fun _ _ hPhase => by cases hPhase
      · exact h.moveWrite fun _ _ hPhase => by cases hPhase
      · exact h
  | true =>
      simp only [World.Harmless] at hGuard
      split
      · rename_i user submission hx
        rw [hx] at hGuard
        have hCovered : w.AllCovered user submission := hGuard
        rw [if_pos rfl]
        exact h.push (x := ⟨user, submission, .appending⟩) hCovered _
      · rename_i user submission version hx
        rw [hx] at hGuard
        have hCovered : w.AllCovered user submission := hGuard
        rw [if_pos rfl]
        exact h.push (x := ⟨user, submission, .overwriting version⟩) hCovered _
      · exact h

theorem Inv.invalidate (h : Inv views w) (k : Nat) (hGuard : w.Harmless (.invalidate k)) :
    Inv views (w.step views (.invalidate k)) := by
  simp only [World.step]
  unfold World.Harmless at hGuard
  split
  · rename_i user submission version pattern rest hx
    simp only [hx] at hGuard
    have hOld := h.writes _ (List.mem_of_getElem? hx) version (pattern :: rest) rfl
    have hKept : ∀ key body, (w.cache.filter fun key _ => !pattern.covers key).get? key = some body →
        w.cache.get? key = some body ∧ pattern.covers key = false := by
      intro key body hEntry
      rw [Dict.get?_filter, Option.filter_eq_some_iff] at hEntry
      exact ⟨hEntry.1, by simpa using hEntry.2⟩
    apply (h.shrink fun key body hEntry => (hKept key body hEntry).1).moveWrite
    intro version' patterns' hPhase
    cases hPhase
    refine ⟨hOld.inTable, ?_, ?_⟩
    · intro request key body hClean hKey hEntry hNot
      obtain ⟨hBefore, hNotHere⟩ := hKept key body hEntry
      exact hOld.entries request key body hClean hKey hBefore
        (covered_cons_eq_false.mpr ⟨hNotHere, hNot⟩)
    · intro r hr hUser key hKey hNot j hj
      cases hHere : pattern.covers key with
      | false => exact hOld.pending r hr hUser key hKey (covered_cons_eq_false.mpr ⟨hHere, hNot⟩) j hj
      | true =>
          -- a read that this pattern covers has scanned nothing older
          have hAny : (r.request.key user).any pattern.covers = true := by
            rw [hKey]
            exact hHere
          exact hGuard r hr hUser hAny j hj
  · exact h

theorem Inv.finish (h : Inv views w) (k : Nat) : Inv views (w.step views (.finish k)) := by
  simp only [World.step]
  split
  · rename_i user submission version hx
    have hOld := h.writes _ (List.mem_of_getElem? hx) version [] rfl
    have hInv : Inv views { w with
        returned := fun other =>
          if other = user then max (w.returned user) version else w.returned other } := by
      refine ⟨fun other => ?_, fun r hr => ?_, fun other => ?_, fun x hx' v ps hPhase => ?_⟩
      · show (if other = user then max (w.returned user) version else w.returned other) < _
        split
        · exact max_lt (h.returned user) hOld.inTable
        · exact h.returned other
      · have hRead := h.reads r hr
        refine ⟨?_, hRead.clean, fun j hj => ?_, hRead.phase⟩
        · show r.since ≤ if r.user = user then max (w.returned user) version else w.returned r.user
          split
          · rename_i hUser
            exact (hUser ▸ hRead.since).trans (le_max_left _ _)
          · exact hRead.since
        · obtain ⟨hSince, hLt, hReturned⟩ := hRead.seen j hj
          refine ⟨hSince, hLt, fun hSome => ?_⟩
          show (if r.user = user then max (w.returned user) version else w.returned r.user) ≤ j
          split
          · rename_i hUser
            obtain ⟨key, hKey⟩ := Option.isSome_iff_exists.mp hSome
            have hBehind := hOld.pending r hr hUser key (hUser ▸ hKey) (covered_nil key) j hj
            exact max_le (hUser ▸ hReturned hSome) hBehind
          · exact hReturned hSome
      · show EntriesAt views w other
          (if other = user then max (w.returned user) version else w.returned other) []
        split
        · rename_i hUser
          subst hUser
          rcases max_cases (w.returned other) version with ⟨hMax, -⟩ | ⟨hMax, -⟩
          · rw [hMax]
            exact h.entries other
          · rw [hMax]
            exact hOld.entries
        · exact h.entries other
      · have hWrite := h.writes x hx' v ps hPhase
        exact ⟨hWrite.inTable, hWrite.entries, hWrite.pending⟩
    exact hInv.moveWrite fun _ _ hPhase => by cases hPhase
  · exact h

theorem Inv.beginRead (h : Inv views w) (user : UserId) (request : Request)
    (hGuard : w.Harmless (.beginRead user request)) :
    Inv views (w.step views (.beginRead user request)) where
  returned := h.returned
  reads := by
    have hClean : request.Clean := hGuard
    apply forall_mem_append_singleton h.reads
    cases hKey : request.key user with
    | none =>
        refine ⟨le_rfl, hClean, fun j hj => ?_, ?_⟩
        · cases hj
        · exact request.scans_pos
    | some key =>
        refine ⟨le_rfl, hClean, fun j hj => ?_, trivial⟩
        cases hj
  entries := h.entries
  writes := by
    intro x hx version patterns hPhase
    have hOld := h.writes x hx version patterns hPhase
    refine ⟨hOld.inTable, hOld.entries, ?_⟩
    apply forall_mem_append_singleton hOld.pending
    intro hUser key hKey hNot j hj
    have hNil : j ∈ (if (request.key user).isSome then ReadPhase.lookingUp
        else .scanning [] : ReadPhase β).seen := hj
    split at hNil <;> cases hNil

theorem Inv.lookUp (h : Inv views w) (k : Nat) : Inv views (w.step views (.lookUp k)) := by
  simp only [World.step]
  split
  · rename_i user request since hr
    have hOld := h.reads _ (List.mem_of_getElem? hr)
    split
    · rename_i hit hHit
      -- what the cache holds is no older than what has returned
      obtain ⟨key, hKey, hEntry⟩ := Option.bind_eq_some_iff.mp hHit
      have hFresh := h.entries user request key hit hOld.clean hKey hEntry (covered_nil key)
      exact h.moveRead_of_seen_nil hr rfl (hFresh.mono hOld.since)
    · exact h.moveRead_of_seen_nil hr rfl request.scans_pos
  · exact h

theorem Inv.scan (h : Inv views w) (k : Nat) : Inv views (w.step views (.scan k)) := by
  simp only [World.step]
  split
  · rename_i user request since seen hr
    have hOld := h.reads _ (List.mem_of_getElem? hr)
    have hPos := h.returned user
    -- the current version is no older than anything that has returned
    have hLatest : ∀ v, v < w.versions.length → v ≤ w.latest := fun v hv => by
      unfold World.latest
      omega
    have hIn : w.latest < w.versions.length := by
      unfold World.latest
      omega
    have hSeen : ∀ j ∈ seen ++ [w.latest], since ≤ j ∧ j < w.versions.length ∧
        ((request.key user).isSome = true → w.returned user ≤ j) :=
      forall_mem_append_singleton hOld.seen
        ⟨hOld.since.trans (hLatest _ hPos), hIn, fun _ => hLatest _ hPos⟩
    have hLen : (seen ++ [w.latest]).length ≤ request.scans := by
      have hBefore : seen.length < request.scans := hOld.phase
      rw [List.length_append]
      exact hBefore
    have hSub : ∀ j ∈ (w.afterScan views ⟨user, request, since, .scanning seen⟩
        (seen ++ [w.latest])).seen, j ∈ seen ++ [w.latest] := by
      unfold World.afterScan
      intro j hj
      split at hj
      · exact hj
      · simp only at hj
        split at hj
        · exact hj
        · cases hj
    apply h.moveRead
    · refine ⟨hOld.since, hOld.clean, fun j hj => hSeen j (hSub j hj), ?_⟩
      unfold PhaseOk World.afterScan
      by_cases hMore : (seen ++ [w.latest]).length < request.scans
      · simp only [if_pos hMore]
        exact hMore
      · have hFull : (seen ++ [w.latest]).length = request.scans := by omega
        simp only [if_neg hMore]
        cases hStored : (compute views user ((seen ++ [w.latest]).map (World.rowsAt w.versions))
          request).stored with
        | true =>
            simp only [if_true]
            exact ⟨hFull, trivial⟩
        | false =>
            simp only [Bool.false_eq_true, if_false]
            exact ⟨_, hFull, fun j hj => ⟨(hSeen j hj).1, (hSeen j hj).2.1⟩, rfl⟩
    · intro x hx version patterns hPhase hUser key hKey hNot j hj
      have hWrite := h.writes x hx version patterns hPhase
      have hBefore := hWrite.pending _ (List.mem_of_getElem? hr) hUser key hKey hNot
      exact forall_mem_append_singleton hBefore (hLatest _ hWrite.inTable) j (hSub j hj)
  · exact h

theorem Inv.store (h : Inv views w) (k : Nat) : Inv views (w.step views (.store k)) := by
  simp only [World.step]
  split
  · rename_i user request since seen body hr
    have hMem := List.mem_of_getElem? hr
    have hOld := h.reads _ hMem
    obtain ⟨hLen, hBody⟩ := hOld.phase
    split
    · rename_i key hKey
      have hFresh : ∀ v, (∀ j ∈ seen, v ≤ j) →
          Reflects views w.versions user request v body := fun v hv =>
        ⟨seen, hLen, fun j hj => ⟨hv j hj, (hOld.seen j hj).2.1⟩, hBody⟩
      -- under the key of this read stand answers to its request only
      have hEntries : ∀ user' v patterns, EntriesAt views w user' v patterns →
          (user' = user → covered patterns key = false → ∀ j ∈ seen, v ≤ j) →
          EntriesAt views { w with cache := w.cache.set key body } user' v patterns := by
        intro user' v patterns hBefore hSeen request' key' body' hClean hKey' hEntry hNot
        rw [Dict.get?_set] at hEntry
        split at hEntry
        · rename_i hSame
          subst hSame
          cases hEntry
          obtain ⟨rfl, rfl⟩ := Request.key_inj hKey' hKey hClean hOld.clean
          exact hFresh v (hSeen rfl hNot)
        · exact hBefore request' key' body' hClean hKey' hEntry hNot
      have hStored : Inv views { w with cache := w.cache.set key body } := by
        refine ⟨h.returned, h.reads, fun other => ?_, fun x hx version patterns hPhase => ?_⟩
        · apply hEntries _ _ _ (h.entries other)
          rintro rfl -
          intro j hj
          exact (hOld.seen j hj).2.2 (Option.isSome_iff_exists.mpr ⟨key, hKey⟩)
        · have hWrite := h.writes x hx version patterns hPhase
          refine ⟨hWrite.inTable, ?_, hWrite.pending⟩
          apply hEntries _ _ _ hWrite.entries
          intro hUser hNot
          exact hWrite.pending _ hMem hUser.symm key (hUser ▸ hKey) hNot
      exact hStored.moveRead_of_seen_nil hr rfl (hFresh since fun j hj => (hOld.seen j hj).1)
    · exact h
  · exact h

theorem Inv.step (h : Inv views w) (e : Event) (hGuard : w.Harmless e) :
    Inv views (w.step views e) := by
  cases e with
  | beginWrite user submission => exact h.beginWrite user submission
  | readTable k => exact h.readTable k
  | commit k ok => exact h.commit k ok hGuard
  | invalidate k => exact h.invalidate k hGuard
  | finish k => exact h.finish k
  | beginRead user request => exact h.beginRead user request hGuard
  | lookUp k => exact h.lookUp k
  | scan k => exact h.scan k
  | store k => exact h.store k
  | expire key =>
      apply h.shrink
      intro key' body hEntry
      rw [Dict.get?_erase] at hEntry
      split at hEntry
      · cases hEntry
      · exact hEntry

theorem Inv.start (rows : List Row) : Inv views (World.start rows) where
  returned _ := Nat.one_pos
  reads _ hr := by cases hr
  entries _ _ _ _ _ _ hEntry := by cases hEntry
  writes _ hx := by cases hx

theorem Inv.readsReflectWrites (h : Inv views w) : w.ReadsReflectWrites views := by
  intro r hr body hPhase
  have hOk := (h.reads r hr).phase
  unfold PhaseOk at hOk
  rw [hPhase] at hOk
  exact hOk

end Invariant

/-! ## Runs -/

def someUser : UserId := ⟨"0f8fad5b-d9cb-469f-a165-70867728950e", by decide⟩

/-- Endpoints that answer with the number of rows or holdings they are given. -/
def countingViews : Views Nat where
  portfolio held rows := held.length + rows.length
  transactions ticker rows := (rows.filter fun row => row.ticker = ticker).length
  performance _ _ rows := rows.length
  forecast _ _ held := held.length
  sector _ := "Technology"
  close _ := 100
  news held := held.length
  noNews := 0

def buy (transactionId ticker : String) (now : Int) : Submission :=
  .add transactionId ticker 2 50 20000 "" now

/-- Performance is read, a share is bought, and performance is read again. -/
def performanceAgain : List Event :=
  [.beginRead someUser (.performance "1M" "USD"), .lookUp 0, .scan 0, .store 0,
    .beginWrite someUser (buy "t1" "AAPL" 1), .commit 0 true, .invalidate 0, .invalidate 0,
    .invalidate 0, .finish 0,
    .beginRead someUser (.performance "1M" "USD"), .lookUp 1, .scan 1, .store 1]

/-- A share is bought, the allocation is read, another share is bought, and the allocation is read
again. -/
def allocationAgain : List Event :=
  [.beginWrite someUser (buy "t1" "AAPL" 1), .commit 0 true, .invalidate 0, .invalidate 0,
    .invalidate 0, .finish 0,
    .beginRead someUser (.allocation "us"), .lookUp 0, .scan 0, .store 0,
    .beginWrite someUser (buy "t2" "MSFT" 2), .commit 1 true, .invalidate 1, .invalidate 1,
    .invalidate 1, .finish 1,
    .beginRead someUser (.allocation "us"), .lookUp 1]

end AsetPlatform.Portfolio.Dashboard

import AsetPlatform.Portfolio.PortfolioForecast

/-!
# The weighted forecast

The loop over the dates carries what is known of each ticker, so that a point is the sum of what is
held times the latest known prediction (`forecast_points`). Tickers without a forecast, or before the
first date of theirs, are skipped, and the forecasts of nine months are used for every horizon.
-/

set_option autoImplicit false

namespace AsetPlatform.Portfolio.PortfolioForecast

open AsetPlatform.Library Dashboard Performance

/-! ## One date -/

/-- What is known of a ticker on a date, after what was known before. -/
def knownOn (fcMaps : String → Option (Dict Int Band)) (d : Int) (lastKnown : Dict String Band)
    (t : String) : Option Band :=
  (fcMaps t).bind fun m => (m.get? d).or (lastKnown.get? t)

def Band.addKnown (total : Band) (qty : ℚ) : Option Band → Band
  | none => total
  | some vals => total.add qty vals

section OneDate

variable {fcMaps : String → Option (Dict Int Band)} {d : Int} {state : Band × Dict String Band}
  {weight : String × ℚ} {t : String}

theorem addWeight_fst :
    (addWeight fcMaps d state weight).1 =
      state.1.addKnown weight.2 (knownOn fcMaps d state.2 weight.1) := by
  rw [addWeight, knownOn]
  cases fcMaps weight.1 with
  | none => rfl
  | some m =>
      simp only [Option.bind_some]
      cases m.get? d with
      | some vals => rfl
      | none =>
          rw [Option.none_or]
          cases state.2.get? weight.1 <;> rfl

theorem get?_addWeight :
    (addWeight fcMaps d state weight).2.get? t =
      if t = weight.1 ∧ (fcMaps t).isSome then knownOn fcMaps d state.2 t else state.2.get? t := by
  rw [addWeight, knownOn]
  by_cases hSame : t = weight.1
  · subst hSame
    cases hMap : fcMaps weight.1 with
    | none => simp
    | some m =>
        cases hRow : m.get? d with
        | some vals => simp [hRow]
        | none =>
            cases hKnown : state.2.get? weight.1 <;> simp [hRow, hKnown]
  · rw [if_neg fun h => hSame h.1]
    cases fcMaps weight.1 with
    | none => rfl
    | some m =>
        simp only
        cases m.get? d with
        | some vals => exact (Dict.get?_set _ _ _ _).trans (if_neg hSame)
        | none => cases state.2.get? weight.1 <;> rfl

theorem knownOn_addWeight :
    knownOn fcMaps d (addWeight fcMaps d state weight).2 t = knownOn fcMaps d state.2 t := by
  rw [knownOn, get?_addWeight]
  cases hMap : fcMaps t with
  | none => rw [knownOn, hMap]; rfl
  | some m =>
      rw [knownOn, hMap]
      simp only [Option.bind_some]
      split
      · rw [← Option.or_assoc, Option.or_self]
      · rfl

theorem foldl_addWeight (weights : List (String × ℚ)) :
    (weights.foldl (addWeight fcMaps d) state).1 =
        weights.foldl (fun total w => total.addKnown w.2 (knownOn fcMaps d state.2 w.1)) state.1 ∧
      ∀ t, (weights.foldl (addWeight fcMaps d) state).2.get? t =
        if t ∈ weights.map Prod.fst ∧ (fcMaps t).isSome then knownOn fcMaps d state.2 t
        else state.2.get? t := by
  induction weights generalizing state with
  | nil => exact ⟨rfl, fun t => by simp⟩
  | cons w ws ih =>
      obtain ⟨hTotal, hKnown⟩ := @ih (addWeight fcMaps d state w)
      constructor
      · rw [List.foldl_cons, hTotal, List.foldl_cons, addWeight_fst]
        simp only [knownOn_addWeight]
      · intro t
        rw [List.foldl_cons, hKnown, knownOn_addWeight, get?_addWeight, List.map_cons]
        by_cases hMap : (fcMaps t).isSome
        · simp only [hMap, and_true, List.mem_cons]
          by_cases hIn : t ∈ ws.map Prod.fst
          · rw [if_pos hIn, if_pos (Or.inr hIn)]
          · by_cases hSame : t = w.1
            · rw [if_neg hIn, if_pos hSame, if_pos (Or.inl hSame)]
            · rw [if_neg hIn, if_neg hSame, if_neg (not_or.mpr ⟨hSame, hIn⟩)]
        · simp only [hMap, Bool.false_eq_true, and_false, if_false]

end OneDate

/-! ## All dates -/

/-- What is known on a date of a ticker that has a forecast. -/
def Gathered.known (g : Gathered) (d : Int) (t : String) : Option Band :=
  (g.forecasts.get? t).bind fun rows => (latest FcRow.forecastDate rows d).map FcRow.band

/-- The total of a date. -/
def Gathered.total (g : Gathered) (d : Int) : Band :=
  g.weights.entries.foldl (fun total w => total.addKnown w.2 (g.known d w.1)) .zero

/-- The forecasts are sorted, and their tickers have a weight. -/
structure Gathered.Sound (g : Gathered) : Prop where
  sorted : ∀ {t rows}, g.forecasts.get? t = some rows →
    rows.Pairwise fun r r' => r.forecastDate ≤ r'.forecastDate
  weighted : ∀ {t rows}, g.forecasts.get? t = some rows → t ∈ g.weights.entries.map Prod.fst

/-- What was known before a date. -/
def Gathered.KnownBefore (g : Gathered) (d : Int) (lastKnown : Dict String Band) : Prop :=
  ∀ {t rows}, g.forecasts.get? t = some rows →
    lastKnown.get? t = (latestBefore FcRow.forecastDate rows d).map FcRow.band

section AllDates

variable {g : Gathered} {d : Int} {lastKnown : Dict String Band}

theorem Gathered.knownOn_eq (hSound : g.Sound) (hBefore : g.KnownBefore d lastKnown) (t : String) :
    knownOn g.fcMaps d lastKnown t = g.known d t := by
  rw [knownOn, Gathered.fcMaps, Gathered.known]
  cases hRows : g.forecasts.get? t with
  | none => rfl
  | some rows =>
      rw [Option.map_some, Option.bind_some, Option.bind_some, get?_dateMap, hBefore hRows,
        latest_eq_or (hSound.sorted hRows), Option.map_or]

/-- The turn of a date makes known what is known before the next one. -/
theorem Gathered.KnownBefore.step (hSound : g.Sound) (hBefore : g.KnownBefore d lastKnown) {d' : Int}
    (hNext : ∀ {t rows}, g.forecasts.get? t = some rows → ∀ r ∈ rows,
      r.forecastDate < d' ↔ r.forecastDate ≤ d) (total : Band) :
    g.KnownBefore d' (g.weights.entries.foldl (addWeight g.fcMaps d) (total, lastKnown)).2 := by
  intro t rows hRows
  have hMap : (g.fcMaps t).isSome := by
    rw [Gathered.fcMaps, hRows]
    rfl
  rw [(foldl_addWeight _).2 t, if_pos ⟨hSound.weighted hRows, hMap⟩,
    Gathered.knownOn_eq hSound hBefore, Gathered.known, hRows, Option.bind_some,
    latestBefore_eq_latest (hNext hRows)]

theorem Gathered.foldl_eq_total (hSound : g.Sound) (hBefore : g.KnownBefore d lastKnown) :
    (g.weights.entries.foldl (addWeight g.fcMaps d) (.zero, lastKnown)).1 = g.total d := by
  rw [(foldl_addWeight _).1]
  simp only [Gathered.knownOn_eq hSound hBefore]
  rfl

/-- A point has the rounded total of its date. -/
def Point.IsTotal (p : Point) (total : Band) : Prop :=
  p.predicted = total.pred.map round2 ∧ p.lower = total.lower.map round2 ∧
    p.upper = total.upper.map round2 ∧ above total.pred 0

/-- The walk along the dates, with what was known before the first of them. -/
theorem mem_aggregate (hSound : g.Sound) {dates : List Int} (hDates : (d :: dates).Pairwise (· < ·))
    (hBefore : g.KnownBefore d lastKnown)
    (hRows : ∀ {t rows}, g.forecasts.get? t = some rows → ∀ r ∈ rows,
      r.forecastDate < d ∨ r.forecastDate ∈ d :: dates)
    {p : Point} (hp : p ∈ aggregate g.fcMaps g.weights.entries (d :: dates) lastKnown) :
    p.date ∈ d :: dates ∧ p.IsTotal (g.total p.date) := by
  induction dates generalizing d lastKnown with
  | nil =>
      rw [aggregate] at hp
      simp only [Gathered.foldl_eq_total hSound hBefore, aggregate] at hp
      split at hp
      · rename_i hAbove
        rw [List.mem_singleton] at hp
        subst hp
        exact ⟨List.mem_cons_self, rfl, rfl, rfl, hAbove⟩
      · cases hp
  | cons d' dates ih =>
      obtain ⟨hFirst, hRest⟩ := List.pairwise_cons.mp hDates
      have hLess : d < d' := hFirst d' List.mem_cons_self
      have hNext : ∀ {t rows}, g.forecasts.get? t = some rows → ∀ r ∈ rows,
          r.forecastDate < d' ↔ r.forecastDate ≤ d := by
        intro t rows hSome r hr
        refine ⟨fun hLt => ?_, fun hLe => lt_of_le_of_lt hLe hLess⟩
        rcases hRows hSome r hr with hPast | hIn
        · exact hPast.le
        · rcases List.mem_cons.mp hIn with hSame | hLater
          · exact hSame.le
          · rcases List.mem_cons.mp hLater with hSame | hLater
            · exact absurd hLt hSame.not_lt
            · have hAfter := (List.pairwise_cons.mp hRest).1 _ hLater
              exact absurd hLt hAfter.not_gt
      have hRows' : ∀ {t rows}, g.forecasts.get? t = some rows → ∀ r ∈ rows,
          r.forecastDate < d' ∨ r.forecastDate ∈ d' :: dates := by
        intro t rows hSome r hr
        rcases hRows hSome r hr with hPast | hIn
        · exact Or.inl (hPast.trans hLess)
        · rcases List.mem_cons.mp hIn with hSame | hLater
          · exact Or.inl (hSame ▸ hLess)
          · exact Or.inr hLater
      have hLaterPoints : p ∈ aggregate g.fcMaps g.weights.entries (d' :: dates)
          (g.weights.entries.foldl (addWeight g.fcMaps d) (.zero, lastKnown)).2 →
          p.date ∈ d :: d' :: dates ∧ p.IsTotal (g.total p.date) := by
        intro hLater
        obtain ⟨hDate, hTotal⟩ := ih hRest (hBefore.step hSound hNext .zero) hRows' hLater
        exact ⟨List.mem_cons_of_mem _ hDate, hTotal⟩
      rw [aggregate] at hp
      simp only [Gathered.foldl_eq_total hSound hBefore] at hp
      split at hp
      · rename_i hAbove
        rcases List.mem_cons.mp hp with rfl | hLater
        · exact ⟨List.mem_cons_self, rfl, rfl, rfl, hAbove⟩
        · exact hLaterPoints hLater
      · exact hLaterPoints hp

end AllDates

/-! ## Gathering -/

section Gathering

variable {x : Input}

/-- What the loop over the holdings keeps: sorted runs of held tickers with a close, and weights that
are quantities of their groups. -/
structure Gathered.OfHoldings (x : Input) (g : Gathered) : Prop where
  run : ∀ {t rows}, g.forecasts.get? t = some rows → x.latestRun t = some rows
  weighted : ∀ {t rows}, g.forecasts.get? t = some rows → t ∈ g.weights.entries.map Prod.fst
  priced : ∀ {t q}, (t, q) ∈ g.weights.entries →
    (∃ h ∈ x.held, h.ticker = t ∧ h.quantity = q) ∧ (x.curPrice t).isSome ∧
      g.forecasts.get? t = x.latestRun t

theorem Gathered.OfHoldings.empty : Gathered.OfHoldings x {} where
  run := by
    intro t rows h
    cases h
  weighted := by
    intro t rows h
    cases h
  priced := by
    intro t q h
    cases h

theorem gather_unpriced {g : Gathered} {h : Holding} (hCur : x.curPrice h.ticker = none) :
    gather x g h = g := by
  rw [gather, hCur]

theorem weights_gather {g : Gathered} {h : Holding} (hCur : (x.curPrice h.ticker).isSome) :
    (gather x g h).weights = g.weights.set h.ticker h.quantity := by
  obtain ⟨curPrice, hSome⟩ := Option.isSome_iff_exists.mp hCur
  rw [gather, hSome]

theorem get?_gather {g : Gathered} {h : Holding} (hCur : (x.curPrice h.ticker).isSome) (t : String) :
    (gather x g h).forecasts.get? t =
      if t = h.ticker then (x.latestRun h.ticker).or (g.forecasts.get? t)
      else g.forecasts.get? t := by
  obtain ⟨curPrice, hSome⟩ := Option.isSome_iff_exists.mp hCur
  rw [gather, hSome]
  cases x.latestRun h.ticker with
  | none => rw [Option.none_or, ite_self]
  | some fcDf => exact Dict.get?_set _ _ _ _

theorem Gathered.OfHoldings.gather {g : Gathered} (hg : g.OfHoldings x) {h : Holding}
    (hHeld : h ∈ x.held) : (gather x g h).OfHoldings x := by
  cases hPrice : x.curPrice h.ticker with
  | none =>
      rw [gather_unpriced hPrice]
      exact hg
  | some curPrice =>
      have hCur : (x.curPrice h.ticker).isSome := by
        rw [hPrice]
        rfl
      have hOwn : ∀ t, t = h.ticker →
          (x.latestRun h.ticker).or (g.forecasts.get? t) = x.latestRun t := by
        rintro t rfl
        cases hRun : x.latestRun h.ticker with
        | some rows => rfl
        | none =>
            rw [Option.none_or, Option.eq_none_iff_forall_ne_some]
            intro rows hSome
            rw [hg.run hSome] at hRun
            cases hRun
      have hKeys : ∀ {t}, t ∈ (PortfolioForecast.gather x g h).weights.entries.map Prod.fst ↔
          t = h.ticker ∨ t ∈ g.weights.entries.map Prod.fst := by
        intro t
        rw [weights_gather hCur]
        exact Dict.mem_map_setEntries
      refine ⟨?_, ?_, ?_⟩
      · intro t rows hSome
        rw [get?_gather hCur] at hSome
        split at hSome
        · rename_i hSame
          exact (hOwn t hSame).symm.trans hSome
        · exact hg.run hSome
      · intro t rows hSome
        rw [get?_gather hCur] at hSome
        split at hSome
        · rename_i hSame
          exact hKeys.mpr (Or.inl hSame)
        · exact hKeys.mpr (Or.inr (hg.weighted hSome))
      · intro t q hIn
        have hGet := Dict.get?_eq_some_iff.mpr hIn
        rw [weights_gather hCur, Dict.get?_set] at hGet
        rw [get?_gather hCur]
        split at hGet
        · rename_i hSame
          rw [if_pos hSame, hOwn t hSame, hSame]
          exact ⟨⟨h, hHeld, rfl, Option.some.inj hGet⟩, hCur, rfl⟩
        · rename_i hNe
          rw [if_neg hNe]
          exact hg.priced (Dict.get?_eq_some_iff.mp hGet)

theorem Gathered.OfHoldings.foldl {g : Gathered} (hg : g.OfHoldings x) {hs : List Holding}
    (hHeld : ∀ h ∈ hs, h ∈ x.held) : (hs.foldl (PortfolioForecast.gather x) g).OfHoldings x := by
  induction hs generalizing g with
  | nil => exact hg
  | cons h hs ih =>
      rw [List.foldl_cons]
      exact ih (hg.gather (hHeld h List.mem_cons_self))
        fun h' hMem => hHeld h' (List.mem_cons_of_mem _ hMem)

theorem gathered_ofHoldings : x.gathered.OfHoldings x :=
  Gathered.OfHoldings.empty.foldl fun _ h => h

theorem latestRun_spec {t : String} {rows : List FcRow} (h : x.latestRun t = some rows) :
    (rows.Pairwise fun r r' => r.forecastDate ≤ r'.forecastDate) ∧ ∀ r ∈ rows, r ∈ x.forecasts := by
  obtain ⟨run, -, rfl⟩ := Option.map_eq_some_iff.mp h
  refine ⟨x.sorts.ordered _, fun r hr => ?_⟩
  exact List.mem_of_mem_filter (List.mem_of_mem_filter ((x.sorts.perm _).mem_iff.mp hr))

theorem Gathered.OfHoldings.sound {g : Gathered} (hg : g.OfHoldings x) : g.Sound where
  sorted := fun hSome => (latestRun_spec (hg.run hSome)).1
  weighted := hg.weighted

theorem setEntries_of_notMem {κ ν : Type*} [DecidableEq κ] {k : κ} {v : ν} {es : List (κ × ν)}
    (h : k ∉ es.map Prod.fst) : Dict.setEntries k v es = es ++ [(k, v)] := by
  induction es with
  | nil => rfl
  | cons e es ih =>
      rw [List.map_cons, List.mem_cons, not_or] at h
      rw [Dict.setEntries, if_neg (Ne.symm h.1), ih h.2]
      rfl

/-- With one group for each ticker, the weights are the quantities of the groups. -/
theorem entries_foldl_gather {g : Gathered} {hs : List Holding}
    (h : (g.weights.entries.map Prod.fst ++ hs.map Holding.ticker).Nodup) :
    (hs.foldl (gather x) g).weights.entries =
      g.weights.entries ++
        (hs.filter fun h => (x.curPrice h.ticker).isSome).map fun h => (h.ticker, h.quantity) := by
  induction hs generalizing g with
  | nil => simp
  | cons h' hs ih =>
      rw [List.map_cons] at h
      obtain ⟨hKeys, hTail, hApart⟩ := List.nodup_append.mp h
      rw [List.foldl_cons]
      cases hCur : x.curPrice h'.ticker with
      | none =>
          have hFewer : (g.weights.entries.map Prod.fst ++ hs.map Holding.ticker).Nodup :=
            h.sublist (List.Sublist.append_left (List.sublist_cons_self _ _) _)
          rw [gather_unpriced hCur, ih hFewer, List.filter_cons_of_neg (by simp [hCur])]
      | some curPrice =>
          have hNew : h'.ticker ∉ g.weights.entries.map Prod.fst :=
            fun hIn => hApart _ hIn _ List.mem_cons_self rfl
          have hSet : (gather x g h').weights.entries =
              g.weights.entries ++ [(h'.ticker, h'.quantity)] := by
            rw [weights_gather (by simp [hCur])]
            exact setEntries_of_notMem hNew
          have hRest : ((gather x g h').weights.entries.map Prod.fst ++ hs.map Holding.ticker).Nodup := by
            rw [hSet, List.map_append, List.append_assoc]
            exact h
          rw [ih hRest, hSet, List.filter_cons_of_pos (by simp [hCur]), List.map_cons,
            List.append_assoc]
          rfl

end Gathering

/-! ## Points -/

/-- The latest known values of a ticker with a close, of its latest run of nine months. -/
def Input.known (x : Input) (d : Int) (t : String) : Option Band :=
  if (x.curPrice t).isSome then
    (x.latestRun t).bind fun rows => (latest FcRow.forecastDate rows d).map FcRow.band
  else none

/-- What the groups add to a column on a date. -/
def Input.terms (x : Input) (column : Band → Option ℚ) (d : Int) : List (Option ℚ) :=
  x.held.filterMap fun h => (x.known d h.ticker).map fun vals => scaled h.quantity (column vals)

/-- The bounds are around the prediction. -/
def Band.Ordered (b : Band) : Prop :=
  ∃ lower pred upper : ℚ,
    b = ⟨some pred, some lower, some upper⟩ ∧ lower ≤ pred ∧ pred ≤ upper

theorem Band.Ordered.addKnown {total : Band} (h : total.Ordered) {qty : ℚ} (hQty : 0 ≤ qty)
    {vals : Option Band} (hVals : ∀ v, vals = some v → v.Ordered) :
    (total.addKnown qty vals).Ordered := by
  cases vals with
  | none => exact h
  | some v =>
      obtain ⟨lower, pred, upper, rfl, hLower, hUpper⟩ := h
      obtain ⟨lower', pred', upper', rfl, hLower', hUpper'⟩ := hVals v rfl
      refine ⟨lower + qty * lower', pred + qty * pred', upper + qty * upper', rfl, ?_, ?_⟩
      · exact add_le_add hLower (mul_le_mul_of_nonneg_left hLower' hQty)
      · exact add_le_add hUpper (mul_le_mul_of_nonneg_left hUpper' hQty)

section Points

variable {x : Input} {d : Int}

theorem known_gathered {t : String} {q : ℚ} (h : (t, q) ∈ x.gathered.weights.entries) :
    x.gathered.known d t = x.known d t := by
  obtain ⟨-, hCur, hRun⟩ := gathered_ofHoldings.priced h
  rw [Gathered.known, hRun, Input.known, if_pos hCur]

theorem total_gathered :
    x.gathered.total d =
      x.gathered.weights.entries.foldl (fun total w => total.addKnown w.2 (x.known d w.1)) .zero := by
  rw [Gathered.total]
  exact List.foldl_ext _ _ _ fun total w hw => by rw [known_gathered hw]

theorem total_column (hGroups : (x.held.map Holding.ticker).Nodup) {column : Band → Option ℚ}
    (hAdd : ∀ total qty vals, column (Band.add total qty vals) =
      plus (column total) (scaled qty (column vals)))
    (hZero : column .zero = some 0) :
    column (x.gathered.total d) = nanSum (x.terms column d) := by
  have hEntries : x.gathered.weights.entries =
      (x.held.filter fun h => (x.curPrice h.ticker).isSome).map fun h => (h.ticker, h.quantity) :=
    entries_foldl_gather (g := {}) hGroups
  rw [total_gathered, hEntries, nanSum, ← hZero, Input.terms]
  generalize Band.zero = total
  induction x.held generalizing total with
  | nil => rfl
  | cons h hs ih =>
      by_cases hCur : (x.curPrice h.ticker).isSome
      · rw [List.filter_cons_of_pos (by simpa using hCur), List.map_cons, List.foldl_cons]
        cases hKnown : x.known d h.ticker with
        | none => rw [List.filterMap_cons_none (by rw [hKnown]; rfl)]; exact ih total
        | some vals =>
            rw [List.filterMap_cons_some (by rw [hKnown]; rfl), List.foldl_cons, ← hAdd]
            exact ih _
      · have hNone : x.known d h.ticker = none := if_neg hCur
        rw [List.filter_cons_of_neg (by simpa using hCur),
          List.filterMap_cons_none (by rw [hNone]; rfl)]
        exact ih total

theorem ordered_total (hOrdered : ∀ r ∈ x.forecasts, r.band.Ordered) :
    (x.gathered.total d).Ordered := by
  have hWeights : ∀ w ∈ x.gathered.weights.entries, 0 ≤ w.2 := by
    rintro ⟨t, q⟩ hw
    obtain ⟨⟨h, hHeld, -, rfl⟩, -⟩ := gathered_ofHoldings.priced hw
    exact (x.holdings.positive h (List.mem_of_mem_filter hHeld)).le
  have hKnown : ∀ t v, x.known d t = some v → v.Ordered := by
    intro t v hSome
    rw [Input.known] at hSome
    split at hSome
    · obtain ⟨rows, hRun, hLatest⟩ := Option.bind_eq_some_iff.mp hSome
      obtain ⟨r, hr, rfl⟩ := Option.map_eq_some_iff.mp hLatest
      exact hOrdered r ((latestRun_spec hRun).2 r (mem_of_latest hr))
    · cases hSome
  have hFold : ∀ (ws : List (String × ℚ)) (total : Band), (∀ w ∈ ws, 0 ≤ w.2) → total.Ordered →
      (ws.foldl (fun total w => total.addKnown w.2 (x.known d w.1)) total).Ordered := by
    intro ws
    induction ws with
    | nil => exact fun total _ h => h
    | cons w ws ih =>
        intro total hQty hTotal
        rw [List.foldl_cons]
        apply ih _ fun w' hw' => hQty w' (List.mem_cons_of_mem _ hw')
        exact hTotal.addKnown (hQty w List.mem_cons_self) (hKnown w.1)
  rw [total_gathered]
  exact hFold _ _ hWeights ⟨0, 0, 0, rfl, le_rfl, le_rfl⟩

/-- A point is on a date of a held ticker's run, with the total of the date. -/
theorem mem_data {horizon : Nat} {p : Point} (hp : p ∈ (buildPortfolioForecast x horizon).data) :
    (∃ h ∈ x.held, ∃ rows, x.latestRun h.ticker = some rows ∧
      p.date ∈ rows.map FcRow.forecastDate) ∧ p.IsTotal (x.gathered.total p.date) := by
  rw [buildPortfolioForecast] at hp
  simp only at hp
  split at hp
  · cases hp
  · split at hp
    · cases hp
    · have hMem : ∀ d, d ∈ x.gathered.sortedDates ↔
          ∃ e ∈ x.gathered.forecasts.entries, d ∈ e.2.map FcRow.forecastDate := by
        intro d
        rw [Gathered.sortedDates, List.mem_insertionSort, List.mem_dedup, List.mem_flatMap]
      have hSorted : x.gathered.sortedDates.Pairwise (· < ·) := by
        have hLe : x.gathered.sortedDates.Pairwise (· ≤ ·) := List.pairwise_insertionSort _ _
        have hNe : x.gathered.sortedDates.Nodup :=
          (List.perm_insertionSort _ _).nodup_iff.mpr (List.nodup_dedup _)
        exact (hLe.and hNe).imp fun h => lt_of_le_of_ne h.1 h.2
      have hOfDate : ∀ {t rows}, x.gathered.forecasts.get? t = some rows → ∀ r ∈ rows,
          r.forecastDate ∈ x.gathered.sortedDates := fun {t rows} hSome r hr =>
        (hMem _).mpr ⟨(t, rows), Dict.get?_eq_some_iff.mp hSome, List.mem_map_of_mem hr⟩
      cases hDates : x.gathered.sortedDates with
      | nil =>
          rw [hDates] at hp
          cases hp
      | cons d dates =>
          rw [hDates] at hp hSorted hOfDate
          have hLeast : ∀ d' ∈ d :: dates, d ≤ d' := by
            intro d' hd'
            rcases List.mem_cons.mp hd' with rfl | hLater
            · exact le_rfl
            · exact ((List.pairwise_cons.mp hSorted).1 d' hLater).le
          have hBefore : x.gathered.KnownBefore d .empty := by
            intro t rows hSome
            rw [latestBefore_of_later fun r hr => hLeast _ (hOfDate hSome r hr)]
            rfl
          obtain ⟨hDate, hTotal⟩ := mem_aggregate gathered_ofHoldings.sound hSorted hBefore
            (fun hSome r hr => Or.inr (hOfDate hSome r hr)) hp
          rw [← hDates] at hDate
          obtain ⟨⟨t, rows⟩, hEntry, hIn⟩ := (hMem _).mp hDate
          have hSome := Dict.get?_eq_some_iff.mpr hEntry
          obtain ⟨⟨t', q⟩, hWeight, rfl⟩ := List.mem_map.mp (gathered_ofHoldings.weighted hSome)
          obtain ⟨⟨h, hHeld, hTicker, -⟩, -⟩ := gathered_ofHoldings.priced hWeight
          exact ⟨⟨h, hHeld, rows, hTicker ▸ gathered_ofHoldings.run hSome, hIn⟩, hTotal⟩

end Points

/-- The points for every horizon: each is on a date of the latest nine-month run of a held ticker; with
one group for each ticker it adds up what is held times the latest known values; and the bounds stay
around the prediction. -/
theorem forecast_points (x : Input) (horizon : Nat) {p : Point}
    (hp : p ∈ (buildPortfolioForecast x horizon).data) :
    (∃ h ∈ x.held, ∃ rows, x.latestRun h.ticker = some rows ∧
        p.date ∈ rows.map FcRow.forecastDate) ∧
      ((x.held.map Holding.ticker).Nodup →
        p.predicted = (nanSum (x.terms Band.pred p.date)).map round2 ∧
          p.lower = (nanSum (x.terms Band.lower p.date)).map round2 ∧
          p.upper = (nanSum (x.terms Band.upper p.date)).map round2) ∧
      ((∀ r ∈ x.forecasts, r.band.Ordered) → (⟨p.predicted, p.lower, p.upper⟩ : Band).Ordered) := by
  obtain ⟨hDate, hPred, hLower, hUpper, -⟩ := mem_data hp
  refine ⟨hDate, fun hGroups => ?_, fun hOrdered => ?_⟩
  · rw [hPred, hLower, hUpper]
    refine ⟨congrArg _ ?_, congrArg _ ?_, congrArg _ ?_⟩
    · exact total_column hGroups (fun _ _ _ => rfl) rfl
    · exact total_column hGroups (fun _ _ _ => rfl) rfl
    · exact total_column hGroups (fun _ _ _ => rfl) rfl
  · obtain ⟨lower, pred, upper, hTotal, hLe, hLe'⟩ := ordered_total (d := p.date) hOrdered
    rw [hTotal] at hPred hLower hUpper
    refine ⟨round2 lower, round2 pred, round2 upper, ?_, round2_mono hLe, round2_mono hLe'⟩
    rw [hPred, hLower, hUpper]
    rfl

/-- A sort that keeps the rows of a date in their order. -/
def byForecastDate : List FcRow → List FcRow :=
  List.insertionSort fun r r' => r.forecastDate ≤ r'.forecastDate

theorem byForecastDate_sorts : SortsUp FcRow.forecastDate byForecastDate :=
  sortsUp_insertionSort FcRow.forecastDate

/-- Two AAPL at 10 with a forecast, three MSFT at 20 without one. -/
def halfForecast : Input where
  holdings :=
    { rows := [⟨"AAPL", "USD", "us", 2, 16⟩, ⟨"MSFT", "USD", "us", 3, 48⟩]
      positive := by decide }
  currency := "USD"
  prices := { rows := [⟨"AAPL", 0, some 10⟩, ⟨"MSFT", 0, some 20⟩], nodup := by decide }
  forecasts := [⟨"AAPL", 9, 0, 30, some 12, some 11, some 13⟩,
    ⟨"AAPL", 9, 0, 270, some 15, some 9, some 20⟩]
  sort := byForecastDate
  sorts := byForecastDate_sorts

/-- The first point has what the AAPL add. -/
theorem forecast_of_half :
    ∃ p ∈ (buildPortfolioForecast halfForecast 9).data, p.date = 30 ∧
      p.predicted = (nanSum (halfForecast.terms Band.pred p.date)).map round2 ∧
      (⟨p.predicted, p.lower, p.upper⟩ : Band).Ordered := by
  have hPoint : (⟨30, some 24, some 22, some 26⟩ : Point) ∈
      (buildPortfolioForecast halfForecast 9).data := by
    decide +kernel
  have hGroups : (halfForecast.held.map Holding.ticker).Nodup := by decide +kernel
  have hOrdered : ∀ r ∈ halfForecast.forecasts, r.band.Ordered := by
    intro r hr
    rcases List.mem_pair.mp hr with rfl | rfl
    · exact ⟨11, 12, 13, rfl, by norm_num, by norm_num⟩
    · exact ⟨9, 15, 20, rfl, by norm_num, by norm_num⟩
  obtain ⟨-, hTotal, hBounds⟩ := forecast_points halfForecast 9 hPoint
  exact ⟨_, hPoint, rfl, (hTotal hGroups).1, hBounds hOrdered⟩

/-- The predictions of the held tickers, or their current prices without one. -/
def Input.predictedOrCurrent (x : Input) (d : Int) : Option ℚ :=
  nanSum ((x.held.map Holding.ticker).dedup.map fun t =>
    scaled ((x.held.filter (·.ticker = t)).map Holding.quantity).sum
      (match x.known d t with
        | some vals => vals.pred
        | none => x.curPrice t))

/-- For a horizon of three months there is a point nine months after the run, and on the first date
the MSFT do not count with their current price: 24 instead of 84. -/
theorem forecast_skips_and_exceeds :
    (∃ p ∈ (buildPortfolioForecast halfForecast 3).data,
        ∀ r ∈ halfForecast.forecasts, r.runDate + 3 * 31 < p.date) ∧
      (∃ p ∈ (buildPortfolioForecast halfForecast 3).data, p.predicted = some 24 ∧
        (halfForecast.predictedOrCurrent p.date).map round2 = some 84) := by
  decide +kernel

end AsetPlatform.Portfolio.PortfolioForecast

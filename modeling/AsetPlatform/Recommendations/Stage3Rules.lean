import AsetPlatform.Recommendations.Stage3

/-!
# Recommendations and the portfolio

The prompt of stage 3 defines its actions: `buy` opens a position that is not held, `accumulate`,
`sell` and `reduce` are about one that is. With that each recommendation names a known ticker, and
no ticker is named twice. `recommendations_respect_iff` says when what stage 3 returns obeys these
rules, for replies that pass and for the rules that take their place.
-/

set_option autoImplicit false

namespace AsetPlatform.Recommendations.Stage3

open AsetPlatform.Library

universe u

variable {F : Type u} {rt : Runtime F} {s2 : Stage2Output F}

def Json.asStr : Json → Option String
  | str s => some s
  | _ => none

/-- The ticker that a recommendation names. -/
def Obj.symbol (o : Obj) : Option String := (Obj.ticker o).asStr

/-- The action of a recommendation in lower case. -/
def Obj.act (o : Obj) : String := (Obj.lowerAction o).getD ""

def Fits (held : List String) (ticker action : String) : Prop :=
  (action = "buy" → ticker ∉ held) ∧
    (action ∈ ["accumulate", "sell", "reduce"] → ticker ∈ held)

instance (held : List String) (ticker action : String) : Decidable (Fits held ticker action) :=
  inferInstanceAs (Decidable (_ ∧ _))

/-- The rules for a list of recommendations. -/
structure Respects (s2 : Stage2Output F) (recs : List Obj) : Prop where
  named : ∀ o ∈ recs, ∃ t ∈ Obj.symbol o, t ∈ s2.validTickers
  distinct : (recs.map fun o => Obj.symbol o).Nodup
  fits : ∀ o ∈ recs, ∀ t ∈ Obj.symbol o, Fits s2.heldTickers t (Obj.act o)

/-! ## Replies that pass -/

/-- What the cleaning does not see to: the action of a recommendation that stays. An empty ticker is
taken for none. -/
def FitsUncleaned (held : List String) (ticker action : String) : Prop :=
  (action = "buy" → ticker ∉ held) ∧ (action ∈ ["sell", "reduce"] → ticker ∈ held) ∧
    (action = "accumulate" → ticker = "" → ticker ∈ held)

/-- The recommendations of a reply that stay name a ticker, each another one, do not buy what is held
and do not sell or reduce what is not. -/
structure ReplySafe (s2 : Stage2Output F) (recs : List Obj) : Prop where
  named : ∀ o ∈ recs.filter (keeps s2.validTickers), ∃ t, Obj.ticker o = .str t ∧
    t ∈ s2.validTickers ∧ FitsUncleaned s2.heldTickers t (Obj.act o)
  distinct : ((recs.filter (keeps s2.validTickers)).map fun o => Obj.symbol o).Nodup

theorem Obj.get_cons (e : String × Json) (o : Obj) (key : String) :
    Obj.get (e :: o) key = if e.1 = key then some e.2 else Obj.get o key := by
  by_cases hkey : e.1 = key
  · simp [Obj.get, hkey]
  · simp [Obj.get, hkey]

theorem Obj.replace_cons (e : String × Json) (o : Obj) (key : String) (value : Json) :
    Obj.replace (e :: o) key value =
      (if e.1 = key then (key, value) else e) :: Obj.replace o key value := rfl

theorem Obj.get_replace_of_ne {o : Obj} {key key' : String} {value : Json} (h : key' ≠ key) :
    Obj.get (Obj.replace o key value) key' = Obj.get o key' := by
  induction o with
  | nil => rfl
  | cons e o ih =>
      rw [Obj.replace_cons, Obj.get_cons, Obj.get_cons, ih]
      by_cases hkey : e.1 = key
      · rw [if_pos hkey, if_neg (Ne.symm h), if_neg (hkey ▸ Ne.symm h)]
      · rw [if_neg hkey]

theorem Obj.get_replace_self {o : Obj} {key : String} {value : Json} (h : (Obj.get o key).isSome) :
    Obj.get (Obj.replace o key value) key = some value := by
  induction o with
  | nil => cases h
  | cons e o ih =>
      rw [Obj.replace_cons, Obj.get_cons]
      rw [Obj.get_cons] at h
      by_cases hkey : e.1 = key
      · rw [if_pos hkey, if_pos rfl]
      · rw [if_neg hkey] at h
        rw [if_neg hkey, if_neg hkey]
        exact ih h

theorem misplaced_eq_true {held : List String} {o : Obj} (h : misplaced held o = some true) :
    Obj.lowerAction o = some "accumulate" ∧ (Obj.ticker o).truthy ∧
      (Obj.ticker o).isIn held = some false := by
  obtain ⟨action, haction, h⟩ := Option.bind_eq_some_iff.mp h
  split at h
  · rename_i hcond
    obtain ⟨found, hfound, hnot⟩ := Option.map_eq_some_iff.mp h
    rw [haction, hcond.1, hfound]
    exact ⟨rfl, hcond.2, by simpa using hnot⟩
  · cases h

theorem ticker_fixAction {held : List String} {o : Obj} :
    Obj.ticker (fixAction held o) = Obj.ticker o := by
  rw [fixAction]
  split
  · rw [Obj.ticker, Obj.get_replace_of_ne (by decide)]
    rfl
  · rfl

theorem act_fixAction {held : List String} {o : Obj} :
    Obj.act (fixAction held o) = if misplaced held o = some true then "buy" else Obj.act o := by
  rw [fixAction]
  by_cases hmisplaced : misplaced held o = some true
  · have haction : (Obj.get o "action").isSome := by
      have hlower := (misplaced_eq_true hmisplaced).1
      rw [Obj.lowerAction] at hlower
      split at hlower
      · exact absurd hlower (by decide)
      · rename_i hget
        rw [hget]
        rfl
      · cases hlower
    rw [if_pos hmisplaced, if_pos hmisplaced, Obj.act, Obj.lowerAction,
      Obj.get_replace_self haction]
    rfl
  · rw [if_neg hmisplaced, if_neg hmisplaced]

theorem lowerAction_of_act {o : Obj} {action : String} (h : Obj.act o = action) (hne : action ≠ "") :
    Obj.lowerAction o = some action := by
  rw [Obj.act] at h
  cases haction : Obj.lowerAction o with
  | none =>
      rw [haction] at h
      exact absurd h.symm hne
  | some a =>
      rw [haction] at h
      exact congrArg some h

theorem fits_fixAction_iff {held : List String} {o : Obj} {t : String}
    (ht : Obj.ticker o = .str t) :
    Fits held t (Obj.act (fixAction held o)) ↔ FitsUncleaned held t (Obj.act o) := by
  rw [act_fixAction]
  by_cases hmisplaced : misplaced held o = some true
  · obtain ⟨haction, htruthy, hheld⟩ := misplaced_eq_true hmisplaced
    have hlower : Obj.act o = "accumulate" := by
      rw [Obj.act, haction]
      rfl
    rw [ht] at htruthy hheld
    have hne : t ≠ "" := by simpa [Json.truthy] using htruthy
    have hnot : t ∉ held := by simpa [Json.isIn] using hheld
    rw [if_pos hmisplaced, hlower]
    refine iff_of_true ⟨fun _ => hnot, fun h => ?_⟩ ⟨fun h => ?_, fun h => ?_, fun _ h => absurd h hne⟩
    · exact absurd h (by decide)
    · exact absurd h (by decide)
    · exact absurd h (by decide)
  · rw [if_neg hmisplaced]
    have haccumulate : Obj.act o = "accumulate" → t ≠ "" → t ∈ held := by
      intro hlower hne
      by_contra hnot
      refine hmisplaced ?_
      rw [misplaced, lowerAction_of_act hlower (by decide), Option.bind_some, ht,
        if_pos ⟨rfl, by simpa [Json.truthy] using hne⟩]
      simp [Json.isIn, hnot]
    constructor
    · rintro ⟨hbuy, hheld⟩
      refine ⟨hbuy, fun h => hheld (List.mem_cons_of_mem _ h), fun h _ => hheld ?_⟩
      rw [h]
      exact List.mem_cons_self
    · rintro ⟨hbuy, hheld, hempty⟩
      refine ⟨hbuy, fun h => ?_⟩
      rcases List.mem_cons.mp h with h | h
      · by_cases hne : t = ""
        · exact hempty h hne
        · exact haccumulate h hne
      · exact hheld h

theorem symbol_fixAction {held : List String} {o : Obj} :
    Obj.symbol (fixAction held o) = Obj.symbol o := by
  rw [Obj.symbol, ticker_fixAction]
  rfl

theorem mem_symbol_iff {o : Obj} {t : String} : t ∈ Obj.symbol o ↔ Obj.ticker o = .str t := by
  rw [Obj.symbol]
  cases Obj.ticker o <;> simp [Json.asStr]

theorem respects_clean_iff (s2 : Stage2Output F) (recs : List Obj) :
    Respects s2 (clean s2.validTickers s2.heldTickers recs) ↔ ReplySafe s2 recs := by
  have htickers : (clean s2.validTickers s2.heldTickers recs).map (fun o => Obj.symbol o) =
      (recs.filter (keeps s2.validTickers)).map fun o => Obj.symbol o := by
    rw [clean, List.map_map]
    refine List.map_congr_left fun o _ => ?_
    exact symbol_fixAction
  constructor
  · rintro ⟨hnamed, hdistinct, hfits⟩
    rw [htickers] at hdistinct
    refine ⟨fun o ho => ?_, hdistinct⟩
    have hmem : fixAction s2.heldTickers o ∈ clean s2.validTickers s2.heldTickers recs :=
      List.mem_map_of_mem ho
    obtain ⟨t, ht, hvalid⟩ := hnamed _ hmem
    have hfit := hfits _ hmem t ht
    rw [symbol_fixAction] at ht
    have hstr := mem_symbol_iff.mp ht
    exact ⟨t, hstr, hvalid, (fits_fixAction_iff hstr).mp hfit⟩
  · rintro ⟨hnamed, hdistinct⟩
    have hall : ∀ x ∈ clean s2.validTickers s2.heldTickers recs, ∃ t, Obj.ticker x = .str t ∧
        t ∈ s2.validTickers ∧ Fits s2.heldTickers t (Obj.act x) := by
      intro x hx
      obtain ⟨o, ho, rfl⟩ := List.mem_map.mp hx
      obtain ⟨t, hstr, hvalid, hfit⟩ := hnamed o ho
      exact ⟨t, ticker_fixAction.trans hstr, hvalid, (fits_fixAction_iff hstr).mpr hfit⟩
    refine ⟨fun x hx => ?_, htickers ▸ hdistinct, fun x hx t ht => ?_⟩
    · obtain ⟨t, hstr, hvalid, -⟩ := hall x hx
      exact ⟨t, mem_symbol_iff.mpr hstr, hvalid⟩
    · obtain ⟨t', hstr, -, hfit⟩ := hall x hx
      have heq : t' = t := Json.str.inj (hstr.symm.trans (mem_symbol_iff.mp ht))
      rwa [← heq]

/-! ## The rules that take the place of a reply -/

def firstTickers (s2 : Stage2Output F) : List String :=
  (firstActions s2.portfolioActions).map PortfolioAction.ticker

/-- The tickers that are bought: the first different ones of the first candidates, without those of
the actions. -/
def boughtTickers (s2 : Stage2Output F) : List String :=
  ((((s2.candidates.take (10 - (firstTickers s2).length)).map Candidate.ticker).filter
    (· ∉ firstTickers s2)).eraseDups).take (5 - (firstTickers s2).length)

/-- The first two holdings have different tickers, and nothing that is held is bought. -/
def FallbackSafe (s2 : Stage2Output F) : Prop :=
  (firstTickers s2).Nodup ∧ ∀ t ∈ boughtTickers s2, t ∉ s2.heldTickers

instance (s2 : Stage2Output F) : Decidable (FallbackSafe s2) := inferInstanceAs (Decidable (_ ∧ _))

@[simp]
theorem symbol_actionRec (pa : PortfolioAction F) :
    Obj.symbol (actionRec rt pa) = some pa.ticker := rfl

@[simp]
theorem act_actionRec (pa : PortfolioAction F) :
    Obj.act (actionRec rt pa) = pa.category.action := by
  have hget : Obj.get (actionRec rt pa) "action" = some (.str pa.category.action) := rfl
  rw [Obj.act, Obj.lowerAction, hget]
  cases pa.category <;> rfl

@[simp]
theorem symbol_candidateRec (c : Candidate F) :
    Obj.symbol (candidateRec rt c) = some c.ticker := rfl

@[simp]
theorem act_candidateRec (c : Candidate F) : Obj.act (candidateRec rt c) = "buy" := rfl

theorem filter_notMem_cons (t : String) (seen l : List String) :
    (l.filter (· ∉ seen)).filter (fun b => !b == t) = l.filter (· ∉ t :: seen) := by
  rw [List.filter_filter]
  refine List.filter_congr fun b _ => ?_
  simp [not_or, beq_eq_decide]

/-- The loop appends the first different candidates that are new, up to five in all. -/
theorem fill_eq (rt : Runtime F) (recs : List Obj) (seen : List String) (cs : List (Candidate F))
    (hroom : recs.length < 5) :
    ∃ picks : List (Candidate F), fill rt recs seen cs = recs ++ picks.map (candidateRec rt) ∧
      picks.map Candidate.ticker =
        (((cs.map Candidate.ticker).filter (· ∉ seen)).eraseDups).take (5 - recs.length) := by
  induction cs generalizing recs seen with
  | nil => exact ⟨[], by simp [fill]⟩
  | cons c cs ih =>
      rw [fill, List.map_cons]
      by_cases hseen : c.ticker ∈ seen
      · rw [if_pos hseen, List.filter_cons_of_neg (by simpa using hseen)]
        exact ih recs seen hroom
      · have hlength : (recs ++ [candidateRec rt c]).length = recs.length + 1 := by simp
        obtain ⟨k, hk⟩ : ∃ k, 5 - recs.length = k + 1 := ⟨5 - recs.length - 1, by omega⟩
        rw [if_neg hseen, List.filter_cons_of_pos (by simpa using hseen), List.eraseDups_cons,
          filter_notMem_cons, hk, List.take_succ_cons, hlength]
        by_cases hfull : 5 ≤ recs.length + 1
        · refine ⟨[c], ?_, ?_⟩
          · rw [if_pos hfull]
            rfl
          · have hk0 : k = 0 := by omega
            rw [hk0, List.take_zero]
            rfl
        · obtain ⟨picks, hfill, htickers⟩ :=
            ih (recs ++ [candidateRec rt c]) (c.ticker :: seen) (by omega)
          refine ⟨c :: picks, ?_, ?_⟩
          · rw [if_neg hfull, hfill, List.append_assoc]
            rfl
          · rw [List.map_cons, htickers, hlength, show 5 - (recs.length + 1) = k by omega]

theorem firstActions_length_le (actions : List (PortfolioAction F)) :
    (firstActions actions).length ≤ 2 := List.length_take_le _ _

theorem mem_of_firstActions {actions : List (PortfolioAction F)} {pa : PortfolioAction F}
    (h : pa ∈ firstActions actions) : pa ∈ actions :=
  (List.mem_insertionSort _).mp (List.mem_of_mem_take h)

/-- The two parts of what the rules recommend. -/
theorem fallbackRecs_eq (rt : Runtime F) (s2 : Stage2Output F) :
    ∃ picks : List (Candidate F),
      fallbackRecs rt s2 =
        (firstActions s2.portfolioActions).map (actionRec rt) ++ picks.map (candidateRec rt) ∧
      picks.map Candidate.ticker = boughtTickers s2 := by
  have hle := firstActions_length_le s2.portfolioActions
  obtain ⟨picks, hfill, htickers⟩ :=
    fill_eq rt ((firstActions s2.portfolioActions).map (actionRec rt)) (firstTickers s2)
      (s2.candidates.take (5 - (firstActions s2.portfolioActions).length + 5))
      (by rw [List.length_map]; omega)
  refine ⟨picks, hfill, htickers.trans ?_⟩
  rw [boughtTickers, List.length_map, firstTickers, List.length_map,
    show 5 - (firstActions s2.portfolioActions).length + 5 =
      10 - (firstActions s2.portfolioActions).length by omega]

theorem nodup_eraseDups : ∀ l : List String, l.eraseDups.Nodup
  | [] => List.nodup_nil
  | t :: l => by
      rw [List.eraseDups_cons, List.nodup_cons]
      refine ⟨?_, nodup_eraseDups _⟩
      rw [List.mem_eraseDups, List.mem_filter]
      simp
termination_by l => l.length
decreasing_by exact Nat.lt_succ_of_le (List.length_filter_le _ _)

theorem boughtTickers_nodup (s2 : Stage2Output F) : (boughtTickers s2).Nodup :=
  (nodup_eraseDups _).sublist (List.take_sublist _ _)

theorem mem_boughtTickers {t : String} (h : t ∈ boughtTickers s2) :
    t ∈ s2.candidates.map Candidate.ticker ∧ t ∉ firstTickers s2 := by
  have hfilter := List.mem_filter.mp (List.mem_eraseDups.mp (List.mem_of_mem_take h))
  refine ⟨?_, by simpa using hfilter.2⟩
  rw [List.map_take] at hfilter
  exact List.mem_of_mem_take hfilter.1

theorem fits_category {pa : PortfolioAction F} (h : pa.ticker ∈ s2.heldTickers) :
    Fits s2.heldTickers pa.ticker pa.category.action := by
  refine ⟨fun hbuy => ?_, fun _ => h⟩
  cases hcategory : pa.category <;> rw [hcategory] at hbuy <;> exact absurd hbuy (by decide)

theorem respects_fallback_iff (rt : Runtime F) (s2 : Stage2Output F) :
    Respects s2 (fallbackRecs rt s2) ↔ FallbackSafe s2 := by
  obtain ⟨picks, hrecs, hpicks⟩ := fallbackRecs_eq rt s2
  have hsymbols : (fallbackRecs rt s2).map Obj.symbol =
      (firstTickers s2 ++ boughtTickers s2).map some := by
    rw [hrecs, List.map_append, List.map_append, ← hpicks, firstTickers, List.map_map, List.map_map,
      List.map_map, List.map_map]
    rfl
  have hactions : ∀ pa ∈ firstActions s2.portfolioActions, pa.ticker ∈ s2.heldTickers :=
    fun pa hpa => List.mem_map_of_mem (mem_of_firstActions hpa)
  have hmem : ∀ o, o ∈ fallbackRecs rt s2 ↔
      (∃ pa ∈ firstActions s2.portfolioActions, actionRec rt pa = o) ∨
        ∃ c ∈ picks, candidateRec rt c = o := by
    intro o
    rw [hrecs, List.mem_append, List.mem_map, List.mem_map]
  constructor
  · rintro ⟨-, hdistinct, hfits⟩
    rw [hsymbols] at hdistinct
    refine ⟨(List.nodup_append.mp (List.Nodup.of_map _ hdistinct)).1, fun t ht => ?_⟩
    rw [← hpicks] at ht
    obtain ⟨c, hc, rfl⟩ := List.mem_map.mp ht
    exact (hfits _ ((hmem _).mpr (Or.inr ⟨c, hc, rfl⟩)) c.ticker (by simp)).1 (act_candidateRec c)
  · rintro ⟨hfirst, hbought⟩
    have hcandidate : ∀ c ∈ picks, c.ticker ∈ boughtTickers s2 := by
      intro c hc
      rw [← hpicks]
      exact List.mem_map_of_mem hc
    refine ⟨fun o ho => ?_, ?_, fun o ho t ht => ?_⟩
    · rcases (hmem o).mp ho with ⟨pa, hpa, rfl⟩ | ⟨c, hc, rfl⟩
      · exact ⟨pa.ticker, symbol_actionRec pa, List.mem_append_right _ (hactions pa hpa)⟩
      · exact ⟨c.ticker, symbol_candidateRec c,
          List.mem_append_left _ (mem_boughtTickers (hcandidate c hc)).1⟩
    · rw [hsymbols]
      refine List.Nodup.map (Option.some_injective _) (List.nodup_append.mpr
        ⟨hfirst, boughtTickers_nodup s2, ?_⟩)
      rintro t ht _ ht' rfl
      exact (mem_boughtTickers ht').2 ht
    · rcases (hmem o).mp ho with ⟨pa, hpa, rfl⟩ | ⟨c, hc, rfl⟩
      · obtain rfl : pa.ticker = t := Option.some.inj ht
        rw [act_actionRec]
        exact fits_category (hactions pa hpa)
      · obtain rfl : c.ticker = t := Option.some.inj ht
        refine ⟨fun _ => hbought _ (hcandidate c hc), fun h => ?_⟩
        rw [act_candidateRec] at h
        exact absurd h (by decide)

/-! ## Stage 3 -/

/-- What the result relies on: a reply that passes is safe in what the cleaning does not see to, and
without one the holdings and the candidates are. -/
def Safe (rt : Runtime F) (s2 : Stage2Output F) (reply : Option String) : Prop :=
  s2.candidates = [] ∧ s2.portfolioActions = [] ∨
    match reply.bind (acceptedRecs rt s2) with
    | some recs => ReplySafe s2 recs
    | none => FallbackSafe s2

theorem respects_nil (s2 : Stage2Output F) : Respects s2 [] :=
  ⟨fun o ho => absurd ho List.not_mem_nil, List.nodup_nil, fun o ho => absurd ho List.not_mem_nil⟩

/-- For every output of stage 2 and every reply there is a result, and its recommendations obey the
rules just if the reply, or the rules that take its place, are safe. -/
theorem recommendations_respect_iff (rt : Runtime F) (s2 : Stage2Output F) (reply : Option String) :
    Respects s2 (stage3LlmReasoning rt s2 reply).recommendations ↔ Safe rt s2 reply := by
  rw [stage3LlmReasoning, Safe]
  by_cases hempty : s2.candidates = [] ∧ s2.portfolioActions = []
  · simp only [if_pos hempty]
    exact iff_of_true (respects_nil s2) (Or.inl hempty)
  · simp only [if_neg hempty]
    rw [or_iff_right hempty]
    cases reply with
    | none => exact respects_fallback_iff rt s2
    | some raw =>
        simp only [Option.bind_some]
        cases haccepted : acceptedRecs rt s2 raw with
        | none => exact respects_fallback_iff rt s2
        | some recs => exact respects_clean_iff s2 recs

/-- Three holdings, one of them among the candidates. -/
def heldCandidate : Stage2Output Unit where
  portfolioSummary := ⟨[], 0, 3, 0⟩
  portfolioActions := [⟨"TCS.NS", (), (), .holdAccumulate⟩, ⟨"INFY.NS", (), (), .holdAccumulate⟩,
    ⟨"ITC.NS", (), (), .holdAccumulate⟩]
  candidates := [⟨"ITC.NS", (), "portfolio", "Consumer"⟩]

/-- When the LLM is not available, the holding among the candidates is bought. -/
theorem held_ticker_bought : ¬∀ (rt : Runtime Unit) (s2 : Stage2Output Unit) (reply : Option String),
    Respects s2 (stage3LlmReasoning rt s2 reply).recommendations := by
  intro h
  have hrespects := h ⟨.ascii, fun _ => none, fun _ => "", 0, ""⟩ heldCandidate none
  have hsafe := (respects_fallback_iff _ heldCandidate).mp hrespects
  exact absurd hsafe (by decide)

end AsetPlatform.Recommendations.Stage3

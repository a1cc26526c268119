import AsetPlatform.Llm.FallbackCascade

/-!
# What a turn charges

The operations of one `invoke` enter, net, the estimate of the call that succeeded for the model
that answered, and nothing for any other model (`invoke_accounted`). A model without an entry in the
limits is not charged at all: `reserve` allows it without entering anything.

`Charged` states the net amounts of a turn; one lemma for each operation says how they change, and
`AttemptOk` is what every leg of the cascade keeps.
-/

set_option autoImplicit false

namespace AsetPlatform.Llm

open AsetPlatform.Library

/-! ## Entries and the windows -/

theorem BudgetOp.apply_limits (b : TokenBudget) (op : BudgetOp) :
    (op.apply b).limits = b.limits := by
  cases op with
  | reserve model est now => exact TokenBudget.reserve_limits b model est now
  | release model est now => exact TokenBudget.release_limits b model est now

theorem netReserved_append (model : String) (b : TokenBudget) (ops : List BudgetOp)
    (op : BudgetOp) :
    netReserved model b (ops ++ [op]) =
      netReserved model b ops + op.entered (runFrom BudgetOp.apply b ops) model := by
  induction ops generalizing b with
  | nil => simp [netReserved]
  | cons first ops ih => simp only [List.cons_append, netReserved, ih, runFrom_cons, add_assoc]

/-! ## The net amounts of a turn -/

/-- A charge of one request with its estimate, when the model has limits. -/
def chargeOf (b : TokenBudget) (served : String) (est : Nat) (model : String) : ℤ × ℤ :=
  if served = model ∧ (b.limits served).isSome then (est, 1) else 0

/-- The turn's budget comes from its operations, whose net amounts are `charge`. -/
structure Charged (b : TokenBudget) (charge : String → ℤ × ℤ) (t : Turn) : Prop where
  budget_eq : t.budget = runFrom BudgetOp.apply b t.ops
  limits_eq : t.budget.limits = b.limits
  net_eq : ∀ model, netReserved model b t.ops = charge model

theorem Charged.push {b : TokenBudget} {charge : String → ℤ × ℤ} {t : Turn}
    (h : Charged b charge t) (op : BudgetOp) :
    Charged b (fun model => charge model + op.entered t.budget model)
      { t with budget := op.apply t.budget, ops := t.ops ++ [op] } where
  budget_eq := by
    rw [runFrom_append, ← h.budget_eq]
    rfl
  limits_eq := (op.apply_limits t.budget).trans h.limits_eq
  net_eq model := by rw [netReserved_append, h.net_eq, ← h.budget_eq]

theorem Charged.congr {b : TokenBudget} {charge charge' : String → ℤ × ℤ} {t : Turn}
    (h : Charged b charge t) (heq : ∀ model, charge model = charge' model) :
    Charged b charge' t :=
  ⟨h.budget_eq, h.limits_eq, fun model => (h.net_eq model).trans (heq model)⟩

/-- An admitted reservation adds its charge, a refused one adds nothing. -/
theorem Charged.reserve {b : TokenBudget} {charge : String → ℤ × ℤ} {t : Turn}
    (h : Charged b charge t) (S : Services) (model : String) (est : Nat) :
    Charged b (fun other => charge other +
        if (t.reserve S model est).1 then chargeOf b model est other else 0)
      (t.reserve S model est).2 := by
  refine (h.push (.reserve model est (S.clock t.ops.length))).congr ?_
  intro other
  congr 1
  simp only [BudgetOp.entered, Turn.reserve, chargeOf, h.limits_eq]
  by_cases hok : (t.budget.reserve model est (S.clock t.ops.length)).1 = true <;> simp [hok]

theorem Charged.release {b : TokenBudget} {charge : String → ℤ × ℤ} {t : Turn} {model : String}
    {est : Nat} (h : Charged b (fun other => charge other + chargeOf b model est other) t)
    (S : Services) : Charged b charge (t.release S model est) := by
  refine (h.push (.release model est (S.clock t.ops.length))).congr ?_
  intro other
  simp only [BudgetOp.entered, chargeOf, h.limits_eq]
  split
  · rw [add_assoc, show ((est : ℤ), (1 : ℤ)) + (-(est : ℤ), (-1 : ℤ)) = 0 by simp, add_zero]
  · rw [add_zero, add_zero]

/-- Nothing is charged and no Groq call has succeeded. -/
def Settled (b : TokenBudget) (t : Turn) : Prop :=
  Charged b (fun _ => 0) t ∧ ∀ c ∈ t.calls, c.succeeded = false

/-- The last Groq call is the only one that succeeded, and its estimate is charged. -/
def ServedBy (b : TokenBudget) (model : String) (reply : Message) (t : Turn) : Prop :=
  ∃ earlier sent, t.calls = earlier ++ [⟨model, sent, .success reply⟩] ∧
    (∀ c ∈ earlier, c.succeeded = false) ∧ Charged b (chargeOf b model (estimateTokens sent)) t

/-- What each leg of the cascade leaves behind. -/
def AttemptOk (b : TokenBudget) : Attempt × Turn → Prop
  | (.answered model reply, t) => ServedBy b model reply t
  | (_, t) => Settled b t

theorem Settled.setLlm {b : TokenBudget} {t : Turn} (h : Settled b t) (llm : FallbackLLM) :
    Settled b { t with llm := llm } :=
  ⟨⟨h.1.budget_eq, h.1.limits_eq, h.1.net_eq⟩, h.2⟩

theorem ServedBy.setLlm {b : TokenBudget} {model : String} {reply : Message} {t : Turn}
    (h : ServedBy b model reply t) (llm : FallbackLLM) :
    ServedBy b model reply { t with llm := llm } := by
  obtain ⟨earlier, sent, hcalls, hearlier, hcharged⟩ := h
  exact ⟨earlier, sent, hcalls, hearlier,
    ⟨hcharged.budget_eq, hcharged.limits_eq, hcharged.net_eq⟩⟩

/-! ## The legs of the cascade -/

/-- A call whose estimate is reserved keeps the charge when it succeeds and takes it back when it
fails. -/
theorem call_ok {b : TokenBudget} {t : Turn} {model : String} {sent : List Message}
    (hcharged : Charged b (chargeOf b model (estimateTokens sent)) t)
    (hcalls : ∀ c ∈ t.calls, c.succeeded = false) (S : Services) :
    AttemptOk b (t.call S model sent (estimateTokens sent)) := by
  have hcalled : ∀ calls, Charged b (fun other => 0 + chargeOf b model (estimateTokens sent) other)
      { t with calls := calls } := fun calls =>
    ⟨hcharged.budget_eq, hcharged.limits_eq, fun other => by rw [hcharged.net_eq, zero_add]⟩
  have hfailed : ∀ outcome, GroqCall.succeeded ⟨model, sent, outcome⟩ = false →
      ∀ c ∈ t.calls ++ [⟨model, sent, outcome⟩], c.succeeded = false := by
    intro outcome hout c hc
    rcases List.mem_append.mp hc with hc | hc
    · exact hcalls c hc
    · rw [List.mem_singleton.mp hc]
      exact hout
  unfold Turn.call
  cases S.groq t.calls.length model sent with
  | success reply =>
      exact ⟨t.calls, sent, rfl, hcalls,
        ⟨hcharged.budget_eq, hcharged.limits_eq, hcharged.net_eq⟩⟩
  | apiError => exact ⟨(hcalled _).release S, hfailed .apiError rfl⟩
  | otherError error => exact ⟨(hcalled _).release S, hfailed (.otherError error) rfl⟩

/-- A refused reservation leaves the turn settled; an admitted one leaves its charge. -/
theorem Settled.reserve {b : TokenBudget} {t : Turn} (h : Settled b t) (S : Services)
    (model : String) (est : Nat) :
    (∀ c ∈ (t.reserve S model est).2.calls, c.succeeded = false) ∧
      ((t.reserve S model est).1 = true → Charged b (chargeOf b model est) (t.reserve S model est).2) ∧
      ((t.reserve S model est).1 = false → Settled b (t.reserve S model est).2) := by
  have hcharged := h.1.reserve S model est
  refine ⟨h.2, fun hok => ?_, fun hok => ⟨?_, h.2⟩⟩
  · exact hcharged.congr fun other => by simp [hok]
  · exact hcharged.congr fun other => by simp [hok]

theorem recompress_estimate {T : CharTables} {t : Turn} {model : String}
    {compressed messages cur : List Message} {iteration curEst : Nat}
    (h : recompress T t model compressed (estimateTokens compressed) messages iteration =
      .ok (cur, curEst)) : curEst = estimateTokens cur := by
  unfold recompress at h
  cases htpm : t.budget.getTpm model with
  | none =>
      simp only [htpm, Except.ok.injEq, Prod.mk.injEq] at h
      rw [← h.1, ← h.2]
  | some tpm =>
      simp only [htpm] at h
      generalize t.llm.compressor.compress T messages iteration (some (tpmTarget tpm)) = result at h
      cases result with
      | error e => simp [bind, Except.bind] at h
      | ok out =>
          simp only [bind, Except.bind, pure, Except.pure, Except.ok.injEq, Prod.mk.injEq] at h
          rw [← h.1, ← h.2]

theorem tryModel_ok {b : TokenBudget} {t : Turn} (h : Settled b t) (T : CharTables) (S : Services)
    (messages : List Message) (iteration : Nat) (compressed : List Message) (model : String) :
    AttemptOk b (tryModel T S messages iteration compressed (estimateTokens compressed) t model) := by
  obtain ⟨hcalls, hadmitted, hrefused⟩ := h.reserve S model (estimateTokens compressed)
  unfold tryModel
  generalize t.reserve S model (estimateTokens compressed) = first at hcalls hadmitted hrefused ⊢
  obtain ⟨ok, t₁⟩ := first
  cases ok with
  | true => exact call_ok (hadmitted rfl) hcalls S
  | false =>
      have hsettled : Settled b t₁ := hrefused rfl
      simp only [Bool.false_eq_true, if_false]
      cases hcompress : recompress T t₁ model compressed (estimateTokens compressed) messages
          iteration with
      | error error => exact hsettled
      | ok result =>
          obtain ⟨cur, curEst⟩ := result
          obtain rfl := recompress_estimate hcompress
          obtain ⟨hcalls₂, hadmitted₂, hrefused₂⟩ := hsettled.reserve S model (estimateTokens cur)
          simp only
          generalize t₁.reserve S model (estimateTokens cur) = second
            at hcalls₂ hadmitted₂ hrefused₂ ⊢
          obtain ⟨ok, t₂⟩ := second
          cases ok with
          | true => exact call_ok (hadmitted₂ rfl) hcalls₂ S
          | false => exact hrefused₂ rfl

section Legs

variable {b : TokenBudget} {attempt : Turn → String → Attempt × Turn}
  (hattempt : ∀ t model, Settled b t → AttemptOk b (attempt t model))

include hattempt

theorem tryModels_ok (models : List String) {t : Turn} (h : Settled b t) :
    AttemptOk b (tryModels attempt models t) := by
  induction models generalizing t with
  | nil => exact h
  | cons model rest ih =>
      rw [tryModels]
      split
      · have hok := hattempt t model h
        cases hres : attempt t model with
        | mk result t₁ =>
            rw [hres] at hok
            cases result with
            | answered served reply => exact ServedBy.setLlm hok _
            | raised error => exact hok
            | passedOver => exact ih hok
      · exact ih h

theorem tryPools_ok (done pools : List TokenBudget.RoundRobinPool) {t : Turn} (h : Settled b t) :
    AttemptOk b (tryPools attempt done pools t) := by
  induction pools generalizing done t with
  | nil => exact h
  | cons pool rest ih =>
      simp only [tryPools]
      have hok := tryModels_ok hattempt pool.orderedModels.1
        (h.setLlm { t.llm with poolGroups := done ++ pool.orderedModels.2 :: rest })
      cases hres : tryModels attempt pool.orderedModels.1
          { t with llm := { t.llm with poolGroups := done ++ pool.orderedModels.2 :: rest } } with
      | mk result t₁ =>
          rw [hres] at hok
          cases result with
          | passedOver => exact ih _ hok
          | answered served reply => exact hok
          | raised error => exact hok

theorem tryPinned_ok {t : Turn} (h : Settled b t) : AttemptOk b (tryPinned attempt t) := by
  unfold tryPinned
  cases t.llm.pinnedModel with
  | none => exact h
  | some model =>
      simp only
      split
      · have hok := hattempt t model h
        cases hres : attempt t model with
        | mk result t₁ =>
            rw [hres] at hok
            cases result with
            | passedOver => exact Settled.setLlm hok _
            | answered served reply => exact hok
            | raised error => exact hok
      · exact h.setLlm _

theorem cascade_ok {t : Turn} (h : Settled b t) : AttemptOk b (cascade attempt t) := by
  have hgroq : ∀ {t}, Settled b t → AttemptOk b (tryGroq attempt t) := by
    intro t ht
    unfold tryGroq
    split
    · exact tryModels_ok hattempt _ ht
    · exact tryPools_ok hattempt _ _ ht
  have hok := tryPinned_ok hattempt h
  unfold cascade
  cases hres : tryPinned attempt t with
  | mk result t₁ =>
      rw [hres] at hok
      cases result with
      | passedOver => exact hgroq hok
      | answered served reply => exact hok
      | raised error => exact hok

end Legs

/-! ## One turn -/

/-- The account of a turn: with a reply of a Groq model, the call that gave it is the only one that
succeeded, and the net amounts are its estimate and one request for that model when it has limits;
otherwise no Groq call succeeded. All other net amounts are zero, and the budget is the one before
the turn with the operations of the turn applied. -/
def Accounted (b : TokenBudget) (result : Except String (Provider × Message) × Turn) : Prop :=
  result.2.budget = runFrom BudgetOp.apply b result.2.ops ∧
    match result.1 with
    | .ok (.groq served, reply) =>
        ∃ earlier sent, result.2.calls = earlier ++ [⟨served, sent, .success reply⟩] ∧
          (∀ c ∈ earlier, c.succeeded = false) ∧
          ∀ model, netReserved model b result.2.ops =
            if served = model ∧ (b.limits model).isSome then ((estimateTokens sent : ℤ), 1) else 0
    | _ =>
        (∀ c ∈ result.2.calls, c.succeeded = false) ∧
          ∀ model, netReserved model b result.2.ops = 0

theorem Settled.accounted {b : TokenBudget} {t : Turn} (h : Settled b t)
    {result : Except String (Provider × Message)}
    (hresult : ∀ served reply, result ≠ .ok (.groq served, reply)) : Accounted b (result, t) := by
  refine ⟨h.1.budget_eq, ?_⟩
  cases result with
  | error e => exact ⟨h.2, h.1.net_eq⟩
  | ok answer =>
      obtain ⟨provider, reply⟩ := answer
      cases provider with
      | groq served => exact absurd rfl (hresult served reply)
      | ollama => exact ⟨h.2, h.1.net_eq⟩
      | anthropic => exact ⟨h.2, h.1.net_eq⟩

theorem finish_ne_groq (S : Services) (t : Turn) (compressed : List Message) (est : Nat)
    (served : String) (reply : Message) : finish S t compressed est ≠ .ok (.groq served, reply) := by
  unfold finish
  split
  · simp
  · unfold callAnthropic
    split
    · simp
    · cases S.anthropic (sanitizeToolIds compressed) <;> simp [Except.map]

/-- One turn charges the budget once. -/
theorem invoke_accounted (T : CharTables) (S : Services) (llm : FallbackLLM) (budget : TokenBudget)
    (messages : List Message) (iteration : Nat) :
    Accounted budget (invoke T S llm budget messages iteration) := by
  have hstart : Settled budget { llm := llm, budget := budget } :=
    ⟨⟨rfl, rfl, fun _ => rfl⟩, fun c hc => absurd hc (by simp)⟩
  unfold invoke
  cases llm.compressor.compress T messages iteration none with
  | error e => exact hstart.accounted (by simp)
  | ok compressed =>
      simp only
      split
      · exact hstart.accounted (by simp)
      · have hok := cascade_ok (fun t model ht =>
          tryModel_ok ht T S messages iteration compressed model) hstart
        cases hres : cascade (tryModel T S messages iteration compressed (estimateTokens compressed))
            { llm := llm, budget := budget } with
        | mk result t =>
            rw [hres] at hok
            cases result with
            | passedOver => exact Settled.accounted hok (finish_ne_groq S t compressed _)
            | raised error => exact Settled.accounted hok (by simp)
            | answered served reply =>
                obtain ⟨earlier, sent, hcalls, hearlier, hcharged⟩ := hok
                refine ⟨hcharged.budget_eq, earlier, sent, hcalls, hearlier, fun model => ?_⟩
                rw [hcharged.net_eq, chargeOf]
                by_cases hserved : served = model
                · rw [hserved]
                · simp [hserved]

/-! ## A model without limits -/

/-- Services whose Groq calls all succeed. -/
def willingServices : Services where
  clock _ := 0
  groq _ _ _ := .success ⟨1, .ai [], .text "TCS trades at 3900."⟩
  ollamaReady := false
  ollama _ := none
  anthropic _ := .error "not reached"

/-- A cascade over one model that has no entry in the default limits. -/
def unlistedCascade : FallbackLLM := { groqTiers := ["moonshotai/kimi-k2-instruct"] }

/-- A turn served by a model without limits enters nothing, although the estimate of its call is not
zero. -/
theorem unlisted_model_enters_nothing :
    (invoke .ascii willingServices unlistedCascade (TokenBudget.new [])
        [⟨0, .human, .text "What is TCS?"⟩] 1).1 =
      .ok (.groq "moonshotai/kimi-k2-instruct", ⟨1, .ai [], .text "TCS trades at 3900."⟩) ∧
    (invoke .ascii willingServices unlistedCascade (TokenBudget.new [])
        [⟨0, .human, .text "What is TCS?"⟩] 1).2.calls.map (fun c => estimateTokens c.sent) = [3] ∧
    netReserved "moonshotai/kimi-k2-instruct" (TokenBudget.new [])
      (invoke .ascii willingServices unlistedCascade (TokenBudget.new [])
        [⟨0, .human, .text "What is TCS?"⟩] 1).2.ops = 0 := by
  refine ⟨?_, ?_, ?_⟩
  · rfl
  · rfl
  · rfl

end AsetPlatform.Llm

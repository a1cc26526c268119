import AsetPlatform.Byo.ByoRuns
import AsetPlatform.Llm.FallbackCascade

/-!
# The clients of a turn

While a turn is served, the guardrail's topic classifier, the router's classifier, the agent loop,
the synthesis and the conversation summary call models. The router's classifier builds its own Groq
client (`llm_classifier.py`); the others go through `FallbackLLM.invoke`, whose Groq tiers and
Anthropic leg each look at the active `BYOContext` (`llm_fallback.py`). Both swap in a client with
the user's key when the context has one for the provider; the cascade goes back to the platform's
client when building that client fails, the classifier then calls no model at all.

`exhausted_turns_routed` puts this together with the resolution: once the free allowance of a user
is exhausted, and as long as the row and the keys are read without an exception, a turn is served
only under a context with keys of that user, and `clients_routed` says which key each client has.
-/

set_option autoImplicit false

namespace AsetPlatform.Byo

open AsetPlatform.Library
open AsetPlatform.Billing (Role truthy)
open AsetPlatform.Llm (Services FallbackLLM TokenBudget Message)

/-! ## Clients -/

inductive KeyProvider where
  | groq
  | anthropic
  deriving DecidableEq

inductive KeySource where
  | platform
  | user (key : String)
  deriving DecidableEq

/-- A client that is called, and whether a client with the user's key could be built for it. -/
structure ClientUse where
  provider : KeyProvider
  builds : Bool
  source : KeySource
  deriving DecidableEq

/-- The key of a context for a provider, when it is a usable one. -/
def BYOContext.usableKey (ctx : BYOContext) (provider : KeyProvider) : Option String :=
  let key := match provider with
    | .groq => ctx.groqKey
    | .anthropic => ctx.anthropicKey
  key.filter (· ≠ "")

/-- The context of a turn's access. -/
def Access.byo : Access → Option BYOContext
  | .platform => none
  | .own ctx _ => some ctx

/-- The client `llm_classifier` calls: a failed build falls to the default intent. -/
def classifierClient (byo : Option BYOContext) (builds : Bool) : Option ClientUse :=
  match byo.bind (·.usableKey .groq) with
  | some key => if builds then some ⟨.groq, builds, .user key⟩ else none
  | none => if builds then some ⟨.groq, builds, .platform⟩ else none

def cascadeClient (byo : Option BYOContext) (provider : KeyProvider) (builds : Bool) : ClientUse :=
  match byo.bind (·.usableKey provider) with
  | some key => if builds then ⟨provider, builds, .user key⟩ else ⟨provider, builds, .platform⟩
  | none => ⟨provider, builds, .platform⟩

/-! ## Calls -/

/-- A call of `FallbackLLM.invoke`: its inputs, what answers it, and whether clients with the
user's keys can be built, at the `n`-th Groq call and at the Anthropic leg. -/
structure CascadeCall where
  tables : CharTables
  services : Services
  llm : FallbackLLM
  budget : TokenBudget
  messages : List Message
  iteration : Nat
  groqBuilds : Nat → Bool
  anthropicBuilds : Bool

namespace CascadeCall

def result (c : CascadeCall) : Except String (Llm.Provider × Message) × Llm.Turn :=
  Llm.invoke c.tables c.services c.llm c.budget c.messages c.iteration

/-- Whether `invoke` comes to call Anthropic. -/
def reachesAnthropic (c : CascadeCall) : Bool :=
  let t : Llm.Turn := { llm := c.llm, budget := c.budget }
  match c.llm.compressor.compress c.tables c.messages c.iteration none with
  | .error _ => false
  | .ok compressed =>
      let est := Llm.estimateTokens compressed
      match if c.llm.ollamaFirst then Llm.tryOllama c.services c.llm compressed est else none with
      | some _ => false
      | none =>
          match Llm.cascade
            (Llm.tryModel c.tables c.services c.messages c.iteration compressed est) t with
          | (.passedOver, t) =>
              (if t.llm.ollamaFirst then none
                else Llm.tryOllama c.services t.llm compressed est).isNone &&
                t.llm.anthropicModel.isSome
          | _ => false

/-- The Groq and Anthropic clients of one call of `invoke`, in order. -/
def clients (byo : Option BYOContext) (c : CascadeCall) : List ClientUse :=
  c.result.2.calls.mapIdx (fun n _ => cascadeClient byo .groq (c.groqBuilds n)) ++
    if c.reachesAnthropic then [cascadeClient byo .anthropic c.anthropicBuilds] else []

end CascadeCall

/-- A model call of a turn. -/
inductive Hop where
  | classifier (builds : Bool)
  | cascade (call : CascadeCall)

def Hop.clients (byo : Option BYOContext) : Hop → List ClientUse
  -- a build that fails leaves the classifier without a client
  | .classifier builds => (classifierClient byo builds).toList
  | .cascade call => call.clients byo

/-- The clients of a turn, over its model calls. -/
def servedClients (byo : Option BYOContext) (hops : List Hop) : List ClientUse :=
  hops.flatMap (Hop.clients byo)

/-! ## The key of each client -/

/-- A client has the user's key for its provider, or the platform's when the context has none or
building the user's client failed. -/
def ClientUse.Routed (ctx : BYOContext) (use : ClientUse) : Prop :=
  (use.source = .platform ↔ ctx.usableKey use.provider = none ∨ use.builds = false) ∧
    ∀ key, use.source = .user key → ctx.usableKey use.provider = some key

theorem classifierClient_routed {ctx : BYOContext} {builds : Bool} {use : ClientUse}
    (h : classifierClient (some ctx) builds = some use) : use.Routed ctx := by
  simp only [classifierClient, Option.bind_some] at h
  -- no client is called after a failed build
  cases builds with
  | false => split at h <;> cases h
  | true =>
      split at h
      · rename_i key hkey
        obtain rfl := Option.some.inj h
        refine ⟨?_, fun k hk => ?_⟩
        · simp [hkey]
        · rw [hkey, KeySource.user.inj hk]
      · rename_i hkey
        obtain rfl := Option.some.inj h
        refine ⟨?_, fun k hk => ?_⟩
        · simp [hkey]
        · cases hk

theorem cascadeClient_routed (ctx : BYOContext) (provider : KeyProvider) (builds : Bool) :
    (cascadeClient (some ctx) provider builds).Routed ctx := by
  simp only [cascadeClient, Option.bind_some]
  split
  · rename_i key hkey
    cases builds with
    | false => exact ⟨by simp, fun k hk => by cases hk⟩
    | true =>
        refine ⟨by simp [hkey], fun k hk => ?_⟩
        simp only [if_true] at hk ⊢
        rw [hkey, KeySource.user.inj hk]
  · rename_i hkey
    exact ⟨by simp [hkey], fun k hk => by cases hk⟩

theorem clients_routed {ctx : BYOContext} {hops : List Hop} :
    ∀ use ∈ servedClients (some ctx) hops, use.Routed ctx := by
  intro use huse
  obtain ⟨hop, -, hhop⟩ := List.mem_flatMap.mp huse
  cases hop with
  | classifier builds => exact classifierClient_routed (Option.mem_toList.mp hhop)
  | cascade call =>
      rcases List.mem_append.mp hhop with hgroq | hanthropic
      · obtain ⟨n, hn, rfl⟩ := List.mem_mapIdx.mp hgroq
        exact cascadeClient_routed ctx .groq _
      · split at hanthropic
        · rw [List.mem_singleton.mp hanthropic]
          exact cascadeClient_routed ctx .anthropic _
        · cases hanthropic

/-! ## Turns past the allowance -/

/-- The access of a turn that is or was served. -/
def Phase.access : Phase → Option Access
  | .serving access => some access
  | .bumping => some .platform
  | .done access _ => some access
  | _ => none

namespace World

/-- The user's free allowance is exhausted. -/
def Exhausted (w : World) (userId : String) : Prop :=
  ∃ row ∈ w.users userId, freeAllowanceLimit ≤ row.chatRequestCount

/-- The row and the keys of the user's turns are read without an exception. -/
def ReadsWell (userId : String) (w : World) : TurnStep → Prop
  | .start _ user role fails => user = userId → role ≠ .superuser → fails = false
  | .readKeys k fails => ∀ t ∈ w.turns[k]?, t.userId = userId → t.role ≠ .superuser → fails = false
  | _ => True

/-- A context of keys that the user has stored, one of them usable. -/
def OwnContext (w : World) (userId : String) (ctx : BYOContext) : Prop :=
  ctx.userId = userId ∧ ctx.hasAnyKey ∧ ⟨ctx.groqKey, ctx.anthropicKey⟩ ∈ w.stored userId

/-- Every turn of the user that is or was served is served under a context of their own, and each
client it calls has the user's key for its provider, or the platform's when the user has none or
building the user's client failed. -/
def ServesOwn (userId : String) (w : World) : Prop :=
  ∀ t ∈ w.turns, t.userId = userId → t.role ≠ .superuser →
    ∀ access, t.phase.access = some access → ∃ ctx month, access = .own ctx month ∧
      w.OwnContext userId ctx ∧ ∀ hops, ∀ use ∈ servedClients access.byo hops, use.Routed ctx

/-- A turn of the user that reads its keys and finds no usable one is refused. -/
def RefusesKeyless (userId : String) (w : World) (e : TurnStep) : Prop :=
  ∀ k fails t limit, e = .readKeys k fails → w.turns[k]? = some t → t.userId = userId →
    t.role ≠ .superuser → t.phase = .readingKeys limit →
      truthy (w.keys userId).groq = false → truthy (w.keys userId).anthropic = false →
        (w.step e).turns[k]? = some { t with phase := .refused }

/-- What the phase of a user's turn past the allowance says: keys of theirs in hand, or none. -/
def OwnPhase (w : World) (userId : String) : Phase → Prop
  | .counting _ keys =>
      (truthy keys.groq || truthy keys.anthropic) = true ∧ keys ∈ w.stored userId
  | .serving access => ∃ ctx month, access = .own ctx month ∧ w.OwnContext userId ctx
  | .bumping => False
  | .done access _ => ∃ ctx month, access = .own ctx month ∧ w.OwnContext userId ctx
  | _ => True

/-- The invariant of a user past the allowance. -/
structure Routes (userId : String) (w : World) : Prop where
  exhausted : w.Exhausted userId
  turns : ∀ t ∈ w.turns, t.userId = userId → t.role ≠ .superuser → w.OwnPhase userId t.phase

theorem OwnPhase.mono {w w' : World} {userId : String} {phase : Phase}
    (hstored : ∀ keys ∈ w.stored userId, keys ∈ w'.stored userId)
    (h : w.OwnPhase userId phase) : w'.OwnPhase userId phase := by
  have hcontext : ∀ ctx, w.OwnContext userId ctx → w'.OwnContext userId ctx :=
    fun ctx hctx => ⟨hctx.1, hctx.2.1, hstored _ hctx.2.2⟩
  cases phase with
  | counting limit keys => exact ⟨h.1, hstored _ h.2⟩
  | serving access =>
      obtain ⟨ctx, month, haccess, hctx⟩ := h
      exact ⟨ctx, month, haccess, hcontext ctx hctx⟩
  | done access counted =>
      obtain ⟨ctx, month, haccess, hctx⟩ := h
      exact ⟨ctx, month, haccess, hcontext ctx hctx⟩
  | bumping => exact h
  | _ => trivial

theorem exhausted_incrementChatCounter {w : World} {userId user : String}
    (h : w.Exhausted userId) : (w.incrementChatCounter user).Exhausted userId := by
  obtain ⟨row, hrow, hcount⟩ := h
  by_cases huser : userId = user
  · refine ⟨{ row with chatRequestCount := row.chatRequestCount + 1 }, ?_, Nat.le_succ_of_le hcount⟩
    simp only [incrementChatCounter, huser, if_true]
    rw [← huser, Option.mem_def.mp hrow]
    rfl
  · refine ⟨row, ?_, hcount⟩
    simp only [incrementChatCounter, huser, if_false]
    exact hrow

theorem keys_mem_stored {w : World} {userId : String}
    (h : (truthy (w.keys userId).groq || truthy (w.keys userId).anthropic) = true) :
    w.keys userId ∈ w.stored userId := by
  simp only [keys] at h ⊢
  -- nothing stored reads as no keys
  cases hstored : w.stored userId with
  | nil =>
      rw [hstored] at h
      cases h
  | cons keys rest => exact List.mem_cons_self

namespace Routes

variable {userId : String} {w : World} {k : Nat} {t : Turn}

theorem setPhase {phase : Phase} {counters : Counters} (h : w.Routes userId)
    (hphase : t.userId = userId → t.role ≠ .superuser → w.OwnPhase userId phase) :
    ({ w with counters := counters }.setPhase k t phase).Routes userId where
  exhausted := h.exhausted
  turns :=
    forall_mem_set
      (fun s hs huser hrole => (h.turns s hs huser hrole).mono fun _ hkeys => hkeys)
      fun huser hrole => (hphase huser hrole).mono fun _ hkeys => hkeys

theorem addTurn (h : w.Routes userId)
    (hphase : t.userId = userId → t.role ≠ .superuser → w.OwnPhase userId t.phase) :
    (w.addTurn t).Routes userId where
  exhausted := h.exhausted
  turns :=
    forall_mem_append_singleton
      (fun s hs huser hrole => (h.turns s hs huser hrole).mono fun _ hkeys => hkeys)
      fun huser hrole => (hphase huser hrole).mono fun _ hkeys => hkeys

end Routes

/-- Past the allowance a step whose reads succeed hands no turn of the user the platform's keys. -/
theorem routes_step {userId : String} {w : World} (e : TurnStep) (h : w.Routes userId)
    (hreads : w.ReadsWell userId e) : (w.step e).Routes userId := by
  have hdoes := w.does_step e
  generalize w.step e = w' at hdoes ⊢
  cases hdoes with
  | idle => exact h
  | elapsed seconds =>
      exact ⟨h.exhausted, fun t ht huser hrole =>
        (h.turns t ht huser hrole).mono fun _ hkeys => hkeys⟩
  | stored user keys =>
      -- keys are only added, so a context stays one of stored keys
      refine ⟨h.exhausted, fun t ht huser hrole => (h.turns t ht huser hrole).mono ?_⟩
      intro stored hstored
      simp only
      split
      · exact List.mem_cons_of_mem _ hstored
      · exact hstored
  | started transport user role fails =>
      apply h.addTurn
      intro huser hrole
      obtain rfl : user = userId := huser
      obtain ⟨row, hrow, hcount⟩ := h.exhausted
      have hfails : fails = false := hreads rfl hrole
      rw [hfails, Option.mem_def.mp hrow]
      -- within the allowance the count would be smaller
      cases hresolve : transport.resolve role (.read (some row)) with
      | platform => exact absurd (resolve_eq_platform hrole hresolve) (by omega)
      | readKeys limit =>
          simp only [Bool.false_eq_true, if_false, hresolve]
          trivial
  | readKeys fails hturn hphase =>
      rename_i k t limit
      apply h.setPhase
      intro huser hrole
      have hfails : fails = false := hreads t hturn huser hrole
      rcases afterKeys_cases limit fails (w.keys t.userId) with ⟨hf, -⟩ | ⟨-, hany, hk⟩ | ⟨-, -, hk⟩
      · rw [hfails] at hf
        cases hf
      · rw [hk]
        subst huser
        exact ⟨hany, keys_mem_stored hany⟩
      · rw [hk]
        trivial
  | counted hturn hphase =>
      rename_i k t limit keys
      simp only [checkAndIncrement]
      split
      · exact h.setPhase fun _ _ => trivial
      · apply h.setPhase
        intro huser hrole
        have hown := h.turns t (List.mem_of_getElem? hturn) huser hrole
        rw [hphase] at hown
        exact ⟨_, _, rfl, huser, hown.1, hown.2⟩
  | tookBack hturn hphase => exact h.setPhase fun _ _ => trivial
  | finished ok hturn hphase =>
      rename_i k t access
      apply h.setPhase
      intro huser hrole
      have hown := h.turns t (List.mem_of_getElem? hturn) huser hrole
      rw [hphase] at hown
      obtain ⟨ctx, month, rfl, hctx⟩ := hown
      -- a turn on the user's own keys is not counted in the allowance
      have hafter : afterServing t.role (.own ctx month) ok = .done (.own ctx month) false := by
        simp [afterServing]
      rw [hafter]
      exact ⟨ctx, month, rfl, hctx⟩
  | bumped ok hturn hphase =>
      rename_i k t
      -- only a turn on the platform's keys is ever bumped
      have hnone : t.userId = userId → t.role ≠ .superuser → False := fun huser hrole => by
        have hown := h.turns t (List.mem_of_getElem? hturn) huser hrole
        rw [hphase] at hown
        exact hown
      simp only [bumpChatCounter]
      split
      · have hroutes : (w.incrementChatCounter t.userId).Routes userId :=
          ⟨exhausted_incrementChatCounter h.exhausted, fun s hs huser hrole =>
            (h.turns s hs huser hrole).mono fun _ hkeys => hkeys⟩
        exact hroutes.setPhase fun huser hrole => absurd (hnone huser hrole) id
      · exact h.setPhase fun huser hrole => absurd (hnone huser hrole) id

theorem Routes.servesOwn {userId : String} {w : World} (h : w.Routes userId) :
    w.ServesOwn userId := by
  intro t ht huser hrole access haccess
  have hown := h.turns t ht huser hrole
  -- the phases of a turn that is or was served
  have hcontext : ∃ ctx month, access = .own ctx month ∧ w.OwnContext userId ctx := by
    cases hphase : t.phase with
    | serving a =>
        rw [hphase] at hown haccess
        exact Option.some.inj haccess ▸ hown
    | done a counted =>
        rw [hphase] at hown haccess
        exact Option.some.inj haccess ▸ hown
    | bumping =>
        rw [hphase] at hown
        exact hown.elim
    | _ =>
        rw [hphase] at haccess
        cases haccess
  obtain ⟨ctx, month, rfl, hctx⟩ := hcontext
  exact ⟨ctx, month, rfl, hctx, fun hops => clients_routed⟩

theorem refusesKeyless {userId : String} {w : World} {e : TurnStep}
    (hreads : w.ReadsWell userId e) : w.RefusesKeyless userId e := by
  rintro k fails t limit rfl hturn huser hrole hphase hgroq hanthropic
  have hfails : fails = false := hreads t hturn huser hrole
  obtain ⟨user, role, phase⟩ := t
  obtain rfl : user = userId := huser
  obtain rfl : phase = .readingKeys limit := hphase
  have hstep : w.step (.readKeys k fails) =
      w.setPhase k ⟨user, role, .readingKeys limit⟩ (afterKeys limit fails (w.keys user)) := by
    simp only [step, hturn]
  have hrefused : afterKeys limit fails (w.keys user) = .refused := by
    simp [afterKeys, hfails, hgroq, hanthropic]
  rw [hstep, hrefused]
  simp only [setPhase, List.getElem?_set_self (List.getElem?_eq_some_iff.mp hturn).1]

/-- A user past the allowance who has stored an Anthropic key only. -/
def anthropicOnlyWorld : World where
  now := 0
  users _ := some ⟨10, 100⟩
  stored _ := [{ anthropic := some "sk-ant-key" }]
  counters := ⟨fun _ => none⟩
  turns := []

end World

open World in
/-- Once the free allowance of a user is exhausted, every turn of theirs whose reads succeed is
served under a context of their own keys, or refused when they have none. -/
theorem exhausted_turns_routed (userId : String) (w : World) (es : List TurnStep)
    (hturns : w.turns = []) (hexhausted : w.Exhausted userId)
    (hreads : EveryStep World.step (ReadsWell userId) w es) :
    EveryState World.step (ServesOwn userId) w es ∧
      EveryStep World.step (RefusesKeyless userId) w es := by
  have hroutes : w.Routes userId := ⟨hexhausted, fun t ht => by simp [hturns] at ht⟩
  constructor
  · exact (everyState_of_invariant (fun _ e h hreads => routes_step e h hreads) hroutes hreads).imp
      fun _ h => h.servesOwn
  · exact hreads.imp fun _ _ => refusesKeyless

/-- A turn of the user with an Anthropic key. -/
theorem anthropicOnly_turn_routed :
    EveryState World.step (World.ServesOwn "u1") World.anthropicOnlyWorld (World.oneTurn "u1") ∧
      EveryStep World.step (World.RefusesKeyless "u1") World.anthropicOnlyWorld
        (World.oneTurn "u1") := by
  apply exhausted_turns_routed "u1"
  · rfl
  · exact ⟨_, rfl, le_rfl⟩
  · exact ⟨fun _ _ => rfl, fun _ _ _ _ => rfl, trivial, trivial⟩

/-- The router's classifier of a user with an Anthropic key only calls Groq with the platform's
key. -/
theorem anthropicOnly_classifier_on_platform :
    ¬ ∀ (userId : String) (w : World) (es : List TurnStep), w.turns = [] → w.Exhausted userId →
      EveryStep World.step (World.ReadsWell userId) w es →
        ∀ t ∈ (runFrom World.step w es).turns, t.userId = userId → t.role ≠ .superuser →
          ∀ access, t.phase.access = some access →
            ∀ hops, ∀ use ∈ servedClients access.byo hops, use.source ≠ .platform := by
  intro hnever
  -- the turn is served under a context with the Anthropic key alone
  have hturn : (runFrom World.step World.anthropicOnlyWorld (World.oneTurn "u1")).turns =
      [⟨"u1", .general, .serving (.own ⟨"u1", none, some "sk-ant-key"⟩ 0)⟩] := by
    rfl
  have hsource := hnever "u1" World.anthropicOnlyWorld (World.oneTurn "u1") rfl
    ⟨_, rfl, le_rfl⟩ ⟨fun _ _ => rfl, fun _ _ _ _ => rfl, trivial, trivial⟩
    _ (by rw [hturn]; exact List.mem_singleton_self _) rfl (by decide) _ rfl
    [.classifier true] ⟨.groq, true, .platform⟩ (by decide +kernel)
  exact hsource rfl

end AsetPlatform.Byo

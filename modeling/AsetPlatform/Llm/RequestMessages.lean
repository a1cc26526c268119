import AsetPlatform.Llm.MessageCompressor

/-!
# The messages of a request

The sub-agent loop (`backend/agents/sub_agents.py`, `backend/agents/loop.py`) builds one list: system
messages, earlier turns, the user query, and for each round the assistant message with its tool
calls followed by one result per call. The synthesis pass sends the list through
`_strip_tool_metadata` first. `Request` is such a list with what the loop guarantees about it, and
`compress_preserves_iff` says exactly when compression keeps the query and the tool results.
-/

set_option autoImplicit false

namespace AsetPlatform.Llm

open AsetPlatform.Library

/-! ## The list of a request -/

/-- A round of the loop: the assistant message and a result for each of its tool calls. -/
structure Round where
  response : Message
  results : List Message
  response_isAI : response.isAI = true
  calls_ne_nil : response.toolCalls ≠ []
  results_isTool : ∀ m ∈ results, m.isTool = true
  results_length : results.length = response.toolCalls.length

/-- The messages of one request. The system messages hold texts, the earlier turns human and
assistant messages. -/
structure Request where
  systems : List Message
  earlier : List Message
  query : Message
  rounds : List Round
  answer : Option Message
  systems_ne_nil : systems ≠ []
  systems_isSystem : ∀ m ∈ systems, m.isSystem = true ∧ ∃ s, m.content = .text s
  earlier_spoken : ∀ m ∈ earlier, m.isHuman = true ∨ m.isAI = true
  query_isHuman : query.isHuman = true
  answer_isAI : ∀ m ∈ answer, m.isAI = true ∧ m.toolCalls = []
  refs_nodup : ((systems ++ earlier ++ query :: (rounds.flatMap (fun r => r.response :: r.results) ++
    answer.toList)).map Message.ref).Nodup

/-- A message of the synthesis list. A tool result becomes a human message, an assistant message
with tool calls its text. -/
def strippedMessage (m : Message) : Option Message :=
  match m.kind with
  | .tool _ name =>
      some { m with
        kind := .human
        content := .text ("Data from " ++ name.getD "None" ++ ":\n" ++ m.content.printed) }
  | .ai [] => some m
  | .ai (_ :: _) => if m.content.truthy then some { m with kind := .ai [] } else none
  | _ => some m

/-- `_strip_tool_metadata`. -/
def stripToolMetadata (messages : List Message) : List Message := messages.filterMap strippedMessage

/-- The call a list is sent with: one of the loop, or the synthesis pass. -/
inductive Stage where
  | toolLoop
  | synthesis
  deriving DecidableEq, Repr

namespace Request

def results (r : Request) : List Message := r.rounds.flatMap Round.results

/-- What the loop appended after the query. -/
def loop (r : Request) : List Message :=
  r.rounds.flatMap (fun round => round.response :: round.results) ++ r.answer.toList

/-- The whole list. -/
def messages (r : Request) : List Message := r.systems ++ r.earlier ++ r.query :: r.loop

def sent (stage : Stage) (messages : List Message) : List Message :=
  match stage with
  | .toolLoop => messages
  | .synthesis => stripToolMetadata messages

/-- The list passed to `compress`. -/
def passed (r : Request) (stage : Stage) : List Message := sent stage r.messages

/-- The part of the passed list from the query on. -/
def current (r : Request) (stage : Stage) : List Message := r.query :: sent stage r.loop

/-- The number of turns from the query to before the last human message of the passed list: 0 in the
tool loop, where that message is the query; at the synthesis pass it is the last tool result. -/
def turnsBack (r : Request) (stage : Stage) : Nat :=
  match splitAtLast Message.isHuman (r.current stage) with
  | some (before, _, _) => (chunksFrom Message.isAI [] before).length
  | none => 0

end Request

/-- `m` holds the tool result `t`, cut to no fewer than `limit` characters. -/
def HoldsResult (limit : Nat) (t m : Message) : Prop :=
  m.ref = t.ref ∧ t.content.printed.toList.take limit <:+: m.content.printed.toList

/-- The query is in the list, and each tool result of the request, cut to no fewer than `limit`
characters. -/
def Preserved (limit : Nat) (r : Request) (out : List Message) : Prop :=
  r.query ∈ out ∧ ∀ t ∈ r.results, ∃ m ∈ out, HoldsResult limit t m

def Fits (target : Nat) : Except String (List Message) → Prop
  | .ok messages => estimateTokens messages ≤ target
  | .error _ => False

/-- The history limits of the passes that run reach back to the query: the default limit, the limit
of one turn unless the list fits the target after the first pass, and the limit of none unless it
fits after the second. -/
def LimitsReachQuery (c : MessageCompressor) (T : CharTables) (r : Request) (stage : Stage)
    (iteration : Nat) (targetTokens : Option Nat) : Prop :=
  r.turnsBack stage ≤ c.maxHistory ∧ ∀ target ∈ targetTokens,
    Fits target (c.defaultStages T (r.passed stage) iteration) ∨
      r.turnsBack stage ≤ 1 ∧
        (Fits target ((c.defaultStages T (r.passed stage) iteration).map fun first =>
            MessageCompressor.truncate first 1 2500) ∨
          r.turnsBack stage = 0)

/-! ## The kinds of messages -/

namespace Message

theorem isHuman_iff (m : Message) : m.isHuman = true ↔ m.kind = .human := by
  obtain ⟨_, kind, _⟩ := m
  cases kind <;> simp [isHuman]

theorem of_isHuman {m : Message} (h : m.isHuman = true) : m.isTool = false ∧ m.isSystem = false := by
  obtain ⟨_, kind, _⟩ := m
  cases kind <;> simp [isHuman, isTool, isSystem] at h ⊢

theorem of_isAI {m : Message} (h : m.isAI = true) :
    m.isTool = false ∧ m.isSystem = false ∧ m.isHuman = false := by
  obtain ⟨_, kind, _⟩ := m
  cases kind <;> simp [isHuman, isTool, isSystem, isAI] at h ⊢

theorem of_isSystem {m : Message} (h : m.isSystem = true) :
    m.isTool = false ∧ m.isHuman = false := by
  obtain ⟨_, kind, _⟩ := m
  cases kind <;> simp [isHuman, isTool, isSystem] at h ⊢

theorem of_isTool {m : Message} (h : m.isTool = true) : m.isHuman = false := by
  obtain ⟨_, kind, _⟩ := m
  cases kind <;> simp [isHuman, isTool] at h ⊢

end Message

/-! ## Truncation of one message -/

open MessageCompressor

@[simp]
theorem truncateToolResult_ref (n : Nat) (m : Message) : (truncateToolResult n m).ref = m.ref := by
  unfold truncateToolResult
  split
  · split <;> rfl
  · rfl

theorem truncateToolResult_of_not_tool (n : Nat) {m : Message} (h : m.isTool = false) :
    truncateToolResult n m = m := by
  obtain ⟨_, kind, _⟩ := m
  cases kind with
  | tool _ _ => simp [Message.isTool] at h
  | _ => rfl

theorem truncateToolResult_isTool (n : Nat) (m : Message) :
    (truncateToolResult n m).isTool = m.isTool := by
  cases h : m.isTool with
  | false => rw [truncateToolResult_of_not_tool n h, h]
  | true =>
      obtain ⟨_, kind, content⟩ := m
      cases kind with
      | tool id name =>
          cases content with
          | text s => simp only [truncateToolResult]; split <;> rfl
          | blocks bs => rfl
      | _ => simp [Message.isTool] at h

theorem truncateToolResult_isHuman (n : Nat) (m : Message) :
    (truncateToolResult n m).isHuman = m.isHuman := by
  cases h : m.isTool with
  | false => rw [truncateToolResult_of_not_tool n h]
  | true =>
      rw [Message.of_isTool h, Message.of_isTool ((truncateToolResult_isTool n m).trans h)]

theorem prefix_truncateToolResult {n : Nat} {m : Message} {p : List Char} (hp : p.length ≤ n)
    (h : p <+: m.content.printed.toList) :
    p <+: (truncateToolResult n m).content.printed.toList := by
  obtain ⟨_, kind, content⟩ := m
  cases kind with
  | tool id name =>
      cases content with
      | text s =>
          simp only [truncateToolResult]
          split
          · have htake : p <+: s.toList.take n := List.prefix_take_iff.mpr ⟨h, hp⟩
            simp only [Content.printed, String.toList_append, String.toList_ofList, List.append_assoc]
            exact htake.trans (List.prefix_append _ _)
          · exact h
      | blocks bs => exact h
  | _ => exact h

/-- `m` holds the result `t` in a way further truncation keeps: at its start when it can still be
cut, anywhere when it is cut no more. -/
def Carries (limit : Nat) (t m : Message) : Prop :=
  m.ref = t.ref ∧
    (t.content.printed.toList.take limit <+: m.content.printed.toList ∨
      m.isTool = false ∧ t.content.printed.toList.take limit <:+: m.content.printed.toList)

theorem Carries.holdsResult {limit : Nat} {t m : Message} (h : Carries limit t m) :
    HoldsResult limit t m := by
  refine ⟨h.1, ?_⟩
  rcases h.2 with hstart | ⟨-, hwithin⟩
  · exact hstart.isInfix
  · exact hwithin

theorem Carries.truncate {limit n : Nat} {t m : Message} (hn : limit ≤ n) (h : Carries limit t m) :
    Carries limit t (truncateToolResult n m) := by
  refine ⟨(truncateToolResult_ref n m).trans h.1, ?_⟩
  rcases h.2 with hstart | ⟨htool, hwithin⟩
  · exact Or.inl (prefix_truncateToolResult
      ((List.length_take_le limit _).trans hn) hstart)
  · rw [truncateToolResult_of_not_tool n htool]
    exact Or.inr ⟨htool, hwithin⟩

/-! ## A list cut at its last human message -/

/-- A list cut at its last human message: system messages, then human and assistant messages, the
last human message, and what follows it. -/
structure Parts where
  systems : List Message
  history : List Message
  last : Message
  after : List Message
  systems_ne_nil : systems ≠ []
  systems_isSystem : ∀ m ∈ systems, m.isSystem = true
  history_spoken : ∀ m ∈ history, m.isHuman = true ∨ m.isAI = true
  last_isHuman : last.isHuman = true
  after_not_isHuman : ∀ m ∈ after, m.isHuman = false

namespace Parts

def list (p : Parts) : List Message := p.systems ++ p.history ++ p.last :: p.after

theorem history_not (p : Parts) {m : Message} (h : m ∈ p.history) :
    m.isTool = false ∧ m.isSystem = false := by
  rcases p.history_spoken m h with hm | hm
  · exact Message.of_isHuman hm
  · exact ⟨(Message.of_isAI hm).1, (Message.of_isAI hm).2.1⟩

theorem before_not_isTool (p : Parts) : ∀ m ∈ p.systems ++ p.history, m.isTool = false := by
  intro m hm
  rcases List.mem_append.mp hm with hm | hm
  · exact (Message.of_isSystem (p.systems_isSystem m hm)).1
  · exact (p.history_not hm).1

theorem findLoopBoundary_list (p : Parts) :
    findLoopBoundary p.list = (p.systems ++ p.history).length := by
  have hbefore := p.before_not_isTool
  generalize hb : p.systems ++ p.history = before at hbefore
  have hpos : before.length ≠ 0 := by
    have := List.length_pos_iff.mpr p.systems_ne_nil
    rw [← hb, List.length_append]
    omega
  have hhuman : indicesFrom Message.isHuman 0 p.list =
      indicesFrom Message.isHuman 0 before ++ [before.length] := by
    rw [list, hb, indicesFrom_append, indicesFrom, if_pos p.last_isHuman,
      indicesFrom_eq_nil p.after_not_isHuman, Nat.zero_add]
  have htool : indicesFrom Message.isTool 0 p.list =
      indicesFrom Message.isTool (before.length + 1) p.after := by
    rw [list, hb, indicesFrom_append, indicesFrom_eq_nil hbefore, List.nil_append, indicesFrom,
      if_neg (by simp [(Message.of_isHuman p.last_isHuman).1]), Nat.zero_add]
  have hlater : ∀ t ∈ indicesFrom Message.isTool (before.length + 1) p.after, before.length < t :=
    fun t ht => le_of_mem_indicesFrom ht
  simp only [findLoopBoundary, hhuman, htool, List.reverse_append, List.reverse_cons,
    List.reverse_nil, List.nil_append, List.cons_append, if_neg hpos]
  -- A tool result after the last human message is found, or there is none at all.
  cases hts : indicesFrom Message.isTool (before.length + 1) p.after with
  | cons t ts =>
      have hlt : before.length < t := hlater t (by simp [hts])
      simp [hlt]
  | nil => cases (indicesFrom Message.isHuman 0 before).reverse <;> simp

/-- What truncation does to the parts: the last turns of the history stay, and the results after the
last human message are cut. -/
def truncated (p : Parts) (maxTurns maxChars : Nat) : Parts where
  systems := p.systems
  history := keepLast Message.isAI maxTurns p.history
  last := p.last
  after := p.after.map (truncateToolResult maxChars)
  systems_ne_nil := p.systems_ne_nil
  systems_isSystem := p.systems_isSystem
  history_spoken m hm := p.history_spoken m ((keepLast_suffix maxTurns p.history).subset hm)
  last_isHuman := p.last_isHuman
  after_not_isHuman m hm := by
    obtain ⟨m, hmem, rfl⟩ := List.mem_map.mp hm
    rw [truncateToolResult_isHuman]
    exact p.after_not_isHuman m hmem

theorem truncateHistory_list (p : Parts) (n : Nat) :
    truncateHistory p.list n =
      p.systems ++ keepLast Message.isAI n p.history ++ p.last :: p.after := by
  have hpos : (p.systems ++ p.history).length ≠ 0 := by
    have := List.length_pos_iff.mpr p.systems_ne_nil
    rw [List.length_append]
    omega
  have htake : p.list.take (p.systems ++ p.history).length = p.systems ++ p.history := by
    rw [list, List.take_left]
  have hdrop : p.list.drop (p.systems ++ p.history).length = p.last :: p.after := by
    rw [list, List.drop_left]
  have hspoken : ∀ m ∈ p.history, ¬ m.isSystem = true := fun m hm => by
    simp [(p.history_not hm).2]
  have hnone : p.history.takeWhile Message.isSystem = [] := by
    cases hist : p.history with
    | nil => rfl
    | cons m ms => rw [List.takeWhile_cons, if_neg (hspoken m (by simp [hist]))]
  have hall : p.history.dropWhile Message.isSystem = p.history := by
    have := List.takeWhile_append_dropWhile (p := Message.isSystem) (l := p.history)
    rwa [hnone, List.nil_append] at this
  have hkept : (if 0 < n then (chunksFrom Message.isAI [] p.history).drop
      ((chunksFrom Message.isAI [] p.history).length - n) else []).flatten =
        keepLast Message.isAI n p.history := by
    rw [keepLast]
    split
    · rfl
    · have : n = 0 := by omega
      simp [this]
  simp only [truncateHistory, p.findLoopBoundary_list, if_neg hpos, htake, hdrop]
  rw [List.takeWhile_append_of_pos p.systems_isSystem,
    List.dropWhile_append_of_pos p.systems_isSystem, hnone, hall, List.append_nil, hkept]

theorem truncate_list (p : Parts) (n k : Nat) :
    truncate p.list n k = (p.truncated n k).list := by
  have hbefore : ∀ m ∈ p.systems ++ keepLast Message.isAI n p.history,
      truncateToolResult k m = m := by
    intro m hm
    apply truncateToolResult_of_not_tool
    apply p.before_not_isTool m
    rcases List.mem_append.mp hm with hm | hm
    · exact List.mem_append_left _ hm
    · exact List.mem_append_right _ ((keepLast_suffix n p.history).subset hm)
  rw [truncate, p.truncateHistory_list, truncateToolResults, List.map_append,
    List.map_congr_left hbefore, List.map_id', List.map_cons,
    truncateToolResult_of_not_tool k (Message.of_isHuman p.last_isHuman).1]
  rfl

theorem truncated_after_refs (p : Parts) (n k : Nat) :
    (p.truncated n k).after.map Message.ref = p.after.map Message.ref := by
  simp only [truncated, List.map_map]
  exact List.map_congr_left fun m _ => truncateToolResult_ref k m

/-- The references of a list. -/
def refs (p : Parts) : List Nat := p.list.map Message.ref

theorem truncated_refs_subset (p : Parts) (n k : Nat) : (p.truncated n k).refs ⊆ p.refs := by
  intro i hi
  obtain ⟨m, hm, rfl⟩ := List.mem_map.mp hi
  simp only [list, truncated, List.mem_append, List.mem_cons, List.mem_map] at hm
  rw [refs]
  rcases hm with (hm | hm) | rfl | ⟨m, hm, rfl⟩
  · exact List.mem_map_of_mem (by simp [list, hm])
  · exact List.mem_map_of_mem (by simp [list, (keepLast_suffix n p.history).subset hm])
  · exact List.mem_map_of_mem (by simp [list])
  · rw [truncateToolResult_ref]
    exact List.mem_map_of_mem (by simp [list, hm])

end Parts

/-! ## The parts of a request -/

namespace Request

theorem sent_append (stage : Stage) (xs ys : List Message) :
    sent stage (xs ++ ys) = sent stage xs ++ sent stage ys := by
  cases stage with
  | toolLoop => rfl
  | synthesis => exact List.filterMap_append

theorem sent_refs_subset (stage : Stage) (xs : List Message) :
    (sent stage xs).map Message.ref ⊆ xs.map Message.ref := by
  cases stage with
  | toolLoop => exact fun _ h => h
  | synthesis =>
      intro i hi
      obtain ⟨m, hm, rfl⟩ := List.mem_map.mp hi
      obtain ⟨x, hx, hxm⟩ := List.mem_filterMap.mp hm
      have href : m.ref = x.ref := by
        unfold strippedMessage at hxm
        split at hxm <;> simp_all
        · rw [← hxm]
        · rw [← hxm.2]
      rw [href]
      exact List.mem_map_of_mem hx

theorem spoken_of_stripped {x m : Message} (h : strippedMessage x = some m)
    (hx : x.isSystem = false) : m.isHuman = true ∨ m.isAI = true := by
  obtain ⟨_, kind, content⟩ := x
  cases kind with
  | system => simp [Message.isSystem] at hx
  | human => simp only [strippedMessage, Option.some.injEq] at h; subst h; exact Or.inl rfl
  | tool id name => simp only [strippedMessage, Option.some.injEq] at h; subst h; exact Or.inl rfl
  | ai calls =>
      cases calls with
      | nil => simp only [strippedMessage, Option.some.injEq] at h; subst h; exact Or.inr rfl
      | cons call calls =>
          simp only [strippedMessage, Option.ite_none_right_eq_some, Option.some.injEq] at h
          rw [← h.2]
          exact Or.inr rfl

theorem sent_systems (r : Request) (stage : Stage) : sent stage r.systems = r.systems := by
  cases stage with
  | toolLoop => rfl
  | synthesis =>
      have hsame : ∀ m ∈ r.systems, strippedMessage m = some m := by
        intro m hm
        have h := (r.systems_isSystem m hm).1
        obtain ⟨_, kind, _⟩ := m
        cases kind <;> simp [Message.isSystem] at h
        rfl
      simp only [sent, stripToolMetadata]
      rw [List.filterMap_congr hsame, List.filterMap_some]

theorem sent_query (r : Request) (stage : Stage) : sent stage [r.query] = [r.query] := by
  cases stage with
  | toolLoop => rfl
  | synthesis =>
      have hquery : strippedMessage r.query = some r.query := by
        simp only [strippedMessage, (Message.isHuman_iff r.query).mp r.query_isHuman]
      simp only [sent, stripToolMetadata, List.filterMap_cons, hquery, List.filterMap_nil]

theorem passed_eq (r : Request) (stage : Stage) :
    r.passed stage = r.systems ++ sent stage r.earlier ++ r.current stage := by
  have hcons : r.query :: r.loop = [r.query] ++ r.loop := rfl
  rw [passed, messages, hcons, sent_append, sent_append, sent_append, r.sent_systems, r.sent_query]
  rfl

theorem loop_not (r : Request) {m : Message} (hm : m ∈ r.loop) :
    m.isHuman = false ∧ m.isSystem = false := by
  have hAI : ∀ m : Message, m.isAI = true → m.isHuman = false ∧ m.isSystem = false :=
    fun m h => ⟨(Message.of_isAI h).2.2, (Message.of_isAI h).2.1⟩
  rcases List.mem_append.mp hm with hm | hm
  · obtain ⟨round, -, hm⟩ := List.mem_flatMap.mp hm
    rcases List.mem_cons.mp hm with rfl | hm
    · exact hAI _ round.response_isAI
    · have htool := round.results_isTool m hm
      refine ⟨Message.of_isTool htool, ?_⟩
      obtain ⟨_, kind, _⟩ := m
      cases kind <;> simp [Message.isTool, Message.isSystem] at htool ⊢
  · exact hAI _ (r.answer_isAI m (Option.mem_toList.mp hm)).1

theorem sent_earlier_spoken (r : Request) (stage : Stage) :
    ∀ m ∈ sent stage r.earlier, m.isHuman = true ∨ m.isAI = true := by
  cases stage with
  | toolLoop => exact r.earlier_spoken
  | synthesis =>
      intro m hm
      obtain ⟨x, hx, hxm⟩ := List.mem_filterMap.mp hm
      apply spoken_of_stripped hxm
      rcases r.earlier_spoken x hx with h | h
      · exact (Message.of_isHuman h).2
      · exact (Message.of_isAI h).2.1

/-- Before the last human message there are only human and assistant messages: in the tool loop
nothing at all, at the synthesis pass because the results have become human messages. -/
theorem before_spoken (r : Request) {stage : Stage} {before after : List Message} {last : Message}
    (h : splitAtLast Message.isHuman (r.current stage) = some (before, last, after)) :
    ∀ m ∈ before, m.isHuman = true ∨ m.isAI = true := by
  cases stage with
  | toolLoop =>
      rw [current, show sent Stage.toolLoop r.loop = r.loop from rfl,
        splitAtLast_head r.query_isHuman (fun m hm => (r.loop_not hm).1)] at h
      simp only [Option.some.injEq, Prod.mk.injEq] at h
      simp [← h.1]
  | synthesis =>
      intro m hm
      have hmem : m ∈ r.current .synthesis := by
        rw [(splitAtLast_eq_some h).1]
        exact List.mem_append_left _ hm
      rcases List.mem_cons.mp hmem with rfl | hmem
      · exact Or.inl r.query_isHuman
      · obtain ⟨x, hx, hxm⟩ := List.mem_filterMap.mp hmem
        exact spoken_of_stripped hxm (r.loop_not hx).2

/-- The passed list cut at its last human message. -/
def parts (r : Request) {stage : Stage} {before after : List Message} {last : Message}
    (h : splitAtLast Message.isHuman (r.current stage) = some (before, last, after)) : Parts where
  systems := r.systems
  history := sent stage r.earlier ++ before
  last := last
  after := after
  systems_ne_nil := r.systems_ne_nil
  systems_isSystem m hm := (r.systems_isSystem m hm).1
  history_spoken m hm := by
    rcases List.mem_append.mp hm with hm | hm
    · exact r.sent_earlier_spoken stage m hm
    · exact r.before_spoken h m hm
  last_isHuman := (splitAtLast_eq_some h).2.1
  after_not_isHuman := (splitAtLast_eq_some h).2.2

theorem parts_list (r : Request) {stage : Stage} {before after : List Message} {last : Message}
    (h : splitAtLast Message.isHuman (r.current stage) = some (before, last, after)) :
    (r.parts h).list = r.passed stage := by
  rw [r.passed_eq, (splitAtLast_eq_some h).1]
  simp [Parts.list, parts]

theorem current_carries (r : Request) (stage : Stage) (limit : Nat) :
    ∀ t ∈ r.results, ∃ m ∈ r.current stage, Carries limit t m := by
  intro t ht
  obtain ⟨round, hround, hresult⟩ := List.mem_flatMap.mp ht
  have hloop : t ∈ r.loop := List.mem_append_left _
    (List.mem_flatMap.mpr ⟨round, hround, List.mem_cons_of_mem _ hresult⟩)
  cases stage with
  | toolLoop => exact ⟨t, List.mem_cons_of_mem _ hloop, rfl, Or.inl (List.take_prefix _ _)⟩
  | synthesis =>
      have htool := round.results_isTool t hresult
      obtain ⟨ref, kind, content⟩ := t
      cases kind with
      | tool id name =>
          refine ⟨_, List.mem_cons_of_mem _ (List.mem_filterMap.mpr ⟨_, hloop, rfl⟩), rfl, Or.inr ⟨rfl, ?_⟩⟩
          refine (List.take_prefix limit content.printed.toList).isInfix.trans ?_
          simp only [Content.printed, String.toList_append]
          exact (List.suffix_append _ _).isInfix
      | _ => simp [Message.isTool] at htool

end Request

/-! ## What one pass keeps -/

/-- The part from the query to the last human message stands whole in `p`, and each tool result is
carried by it or by what follows. -/
structure KeepsRequest (limit : Nat) (r : Request) (before : List Message) (last : Message)
    (after : List Message) (p : Parts) : Prop where
  reaches : before <:+ p.history
  carries : ∀ t ∈ r.results, ∃ m ∈ before ++ p.last :: p.after, Carries limit t m
  query_mem : r.query ∈ before ++ [p.last]
  systems_refs : p.systems.map Message.ref = r.systems.map Message.ref
  last_eq : p.last = last
  after_refs : p.after.map Message.ref = after.map Message.ref

/-- No message of `p` has the reference of the query. -/
def LosesQuery (r : Request) (p : Parts) : Prop := r.query.ref ∉ p.refs

theorem KeepsRequest.preserved {limit : Nat} {r : Request} {before after : List Message}
    {last : Message} {p : Parts} (h : KeepsRequest limit r before last after p) : Preserved limit r p.list := by
  have hmem : ∀ m ∈ before ++ p.last :: p.after, m ∈ p.list := by
    intro m hm
    rcases List.mem_append.mp hm with hm | hm
    · exact List.mem_append_left _ (List.mem_append_right _ (h.reaches.subset hm))
    · exact List.mem_append_right _ hm
  constructor
  · apply hmem
    rcases List.mem_append.mp h.query_mem with hq | hq
    · exact List.mem_append_left _ hq
    · exact List.mem_append_right _ (by rw [List.mem_singleton.mp hq]; exact List.mem_cons_self)
  · intro t ht
    obtain ⟨m, hm, hcarries⟩ := h.carries t ht
    exact ⟨m, hmem m hm, hcarries.holdsResult⟩

theorem LosesQuery.not_preserved {limit : Nat} {r : Request} {p : Parts} (h : LosesQuery r p) :
    ¬ Preserved limit r p.list :=
  fun hp => h (List.mem_map_of_mem hp.1)

theorem LosesQuery.truncated {r : Request} {p : Parts} (h : LosesQuery r p) (n k : Nat) :
    LosesQuery r (p.truncated n k) :=
  fun hmem => h (p.truncated_refs_subset n k hmem)

/-- A pass whose history limit covers the turns from the query on keeps the request. -/
theorem KeepsRequest.truncated {limit : Nat} {r : Request} {before after : List Message}
    {last : Message} {p : Parts} (h : KeepsRequest limit r before last after p) {n k : Nat}
    (hk : limit ≤ k) (hn : (chunksFrom Message.isAI [] before).length ≤ n) :
    KeepsRequest limit r before last after (p.truncated n k) where
  reaches := by
    obtain ⟨e, he⟩ := h.reaches
    rw [show (p.truncated n k).history = keepLast Message.isAI n p.history from rfl, ← he]
    exact suffix_keepLast e before hn
  carries t ht := by
    obtain ⟨m, hm, hcarries⟩ := h.carries t ht
    rcases List.mem_append.mp hm with hm | hm
    · exact ⟨m, List.mem_append_left _ hm, hcarries⟩
    · rcases List.mem_cons.mp hm with rfl | hm
      · exact ⟨p.last, List.mem_append_right _ List.mem_cons_self, hcarries⟩
      · exact ⟨truncateToolResult k m, List.mem_append_right _
          (List.mem_cons_of_mem _ (List.mem_map_of_mem hm)), hcarries.truncate hk⟩
  query_mem := h.query_mem
  systems_refs := h.systems_refs
  last_eq := h.last_eq
  after_refs := (p.truncated_after_refs n k).trans h.after_refs

theorem Request.query_fresh (r : Request) :
    r.query.ref ∉ r.systems.map Message.ref ∧ r.query.ref ∉ r.loop.map Message.ref := by
  have h := r.refs_nodup
  rw [List.map_append, List.map_append, List.map_cons, List.nodup_append] at h
  obtain ⟨-, hrest, hdisjoint⟩ := h
  constructor
  · intro hmem
    exact hdisjoint _ (List.mem_append_left _ hmem) _ List.mem_cons_self rfl
  · exact (List.nodup_cons.mp hrest).1

/-- A pass whose history limit does not cover the turns from the query on loses the query. -/
theorem KeepsRequest.loses {limit : Nat} {r : Request} {stage : Stage}
    {before after : List Message} {last : Message} {p : Parts}
    (h : KeepsRequest limit r before last after p)
    (hcurrent : r.current stage = before ++ last :: after) {n : Nat} (k : Nat)
    (hn : n < (chunksFrom Message.isAI [] before).length) :
    LosesQuery r (p.truncated n k) := by
  cases before with
  | nil => simp [chunksFrom] at hn
  | cons q rest =>
      obtain ⟨rfl, hloop⟩ := List.cons.inj hcurrent
      obtain ⟨e, he⟩ := h.reaches
      have hkept : (p.truncated n k).history <:+ rest := by
        rw [show (p.truncated n k).history = keepLast Message.isAI n p.history from rfl, ← he]
        exact keepLast_suffix_tail e r.query rest hn
      -- What is left comes from the system messages and from what the loop appended.
      have hrefs : (p.truncated n k).refs ⊆
          r.systems.map Message.ref ++ (rest ++ last :: after).map Message.ref := by
        intro i hi
        rw [Parts.refs, Parts.list, List.map_append, List.map_append, List.map_cons,
          p.truncated_after_refs, h.after_refs] at hi
        rw [← h.systems_refs, ← h.last_eq, List.map_append, List.map_cons]
        rcases List.mem_append.mp hi with hi | hi
        · rcases List.mem_append.mp hi with hi | hi
          · exact List.mem_append_left _ hi
          · exact List.mem_append_right _ (List.mem_append_left _
              ((hkept.sublist.map Message.ref).subset hi))
        · exact List.mem_append_right _ (List.mem_append_right _ hi)
      intro hmem
      rcases List.mem_append.mp (hrefs hmem) with hmem | hmem
      · exact r.query_fresh.1 hmem
      · apply r.query_fresh.2
        apply Request.sent_refs_subset stage r.loop
        rw [hloop]
        exact hmem

/-! ## The stages of a request -/

/-- The prompt stage leaves the parts as they are but for the text of the system prompt. -/
theorem defaultStages_parts (c : MessageCompressor) (T : CharTables) (r : Request)
    {stage : Stage} {before after : List Message} {last : Message}
    (hsplit : splitAtLast Message.isHuman (r.current stage) = some (before, last, after))
    (limit iteration : Nat) :
    ∃ p, KeepsRequest limit r before last after p ∧
      c.defaultStages T (r.passed stage) iteration =
        .ok (p.truncated c.maxHistory c.maxToolChars).list := by
  have hcurrent := (splitAtLast_eq_some hsplit).1
  have hcarries := r.current_carries stage limit
  rw [hcurrent] at hcarries
  have hquery : r.query ∈ before ++ [last] := by
    cases before with
    | nil => rw [(List.cons.inj hcurrent).1]; exact List.mem_cons_self
    | cons q rest => rw [(List.cons.inj hcurrent).1]; exact List.mem_cons_self
  have hplain : KeepsRequest limit r before last after (r.parts hsplit) :=
    ⟨List.suffix_append _ _, hcarries, hquery, rfl, rfl, rfl⟩
  by_cases hiter : 1 < iteration
  · obtain ⟨s, rest, hsystems⟩ := List.exists_cons_of_ne_nil r.systems_ne_nil
    obtain ⟨hsystem, text, htext⟩ := r.systems_isSystem s (by simp [hsystems])
    let s' : Message := { s with
      content := .text (String.ofList (c.condensedText T text.toList)) }
    let p : Parts := { r.parts hsplit with
      systems := s' :: rest
      systems_ne_nil := by simp
      systems_isSystem := by
        intro m hm
        rcases List.mem_cons.mp hm with rfl | hm
        · exact hsystem
        · exact (r.systems_isSystem m (by simp [hsystems, hm])).1 }
    refine ⟨p, ⟨hplain.reaches, hcarries, hquery, by rw [hsystems]; rfl, rfl, rfl⟩, ?_⟩
    have hpassed : r.passed stage = s :: (rest ++ ((r.parts hsplit).history ++ last :: after)) := by
      rw [← r.parts_list hsplit, Parts.list]
      simp [Request.parts, hsystems]
    have hlist : p.list = s' :: (rest ++ ((r.parts hsplit).history ++ last :: after)) := by
      simp [p, Parts.list, Request.parts]
    rw [← p.truncate_list, hlist, hpassed]
    simp only [defaultStages, if_pos hiter, condenseSystemPrompt, if_pos hsystem, htext]
    rfl
  · refine ⟨r.parts hsplit, hplain, ?_⟩
    rw [← Parts.truncate_list, r.parts_list hsplit]
    simp only [defaultStages, if_neg hiter]
    rfl

/-- Progressive compression returns the list it is given when it fits the target, the list after
the second pass when that one fits, and otherwise the list after the third. -/
theorem progressiveCompress_cases (p : Parts) (target : Nat) :
    (estimateTokens p.list ≤ target ∧ progressiveCompress p.list target = p.list) ∨
      (target < estimateTokens p.list ∧ estimateTokens (p.truncated 1 2500).list ≤ target ∧
        progressiveCompress p.list target = (p.truncated 1 2500).list) ∨
      (target < estimateTokens p.list ∧ target < estimateTokens (p.truncated 1 2500).list ∧
        progressiveCompress p.list target = ((p.truncated 1 2500).truncated 0 1500).list) := by
  rcases Nat.lt_or_ge target (estimateTokens p.list) with hfirst | hfirst
  · simp only [progressiveCompress, if_neg (Nat.not_le.mpr hfirst), Parts.truncate_list]
    rcases Nat.lt_or_ge target (estimateTokens (p.truncated 1 2500).list) with hsecond | hsecond
    · exact Or.inr (Or.inr ⟨hfirst, hsecond, if_neg (Nat.not_le.mpr hsecond)⟩)
    · exact Or.inr (Or.inl ⟨hfirst, hsecond, if_pos hsecond⟩)
  · exact Or.inl ⟨hfirst, if_pos hfirst⟩

theorem Request.passed_preserved (r : Request) (stage : Stage) (limit : Nat) :
    Preserved limit r (r.passed stage) := by
  rw [r.passed_eq]
  constructor
  · exact List.mem_append_right _ List.mem_cons_self
  · intro t ht
    obtain ⟨m, hm, hcarries⟩ := r.current_carries stage limit t ht
    exact ⟨m, List.mem_append_right _ hm, hcarries.holdsResult⟩

/-- A pass over a list that still holds the request keeps it exactly when the history limit covers
the turns from the query on. -/
theorem KeepsRequest.preserved_truncated_iff {limit : Nat} {r : Request} {stage : Stage}
    {before after : List Message} {last : Message} {p : Parts}
    (h : KeepsRequest limit r before last after p)
    (hcurrent : r.current stage = before ++ last :: after) {n k : Nat} (hk : limit ≤ k) :
    Preserved limit r (p.truncated n k).list ↔
      (chunksFrom Message.isAI [] before).length ≤ n := by
  constructor
  · intro hp
    apply Nat.le_of_not_lt
    intro hn
    exact (h.loses hcurrent k hn).not_preserved hp
  · exact fun hn => (h.truncated hk hn).preserved

theorem compress_none (c : MessageCompressor) (T : CharTables) {messages first : List Message}
    {iteration : Nat} (hstages : c.defaultStages T messages iteration = .ok first) :
    c.compress T messages iteration none = .ok first := by
  have hunder : wellUnder messages none = false := rfl
  rw [compress, hunder, hstages]
  rfl

theorem compress_some (c : MessageCompressor) (T : CharTables) {messages first : List Message}
    {iteration target : Nat} (hstages : c.defaultStages T messages iteration = .ok first)
    (hunder : wellUnder messages (some target) = false) :
    c.compress T messages iteration (some target) = .ok (progressiveCompress first target) := by
  rw [compress, hunder, hstages]
  rfl

/-- Once the first pass has lost the query, the result does not hold it. -/
theorem compress_loses {c : MessageCompressor} {T : CharTables} {r : Request} {stage : Stage}
    {iteration : Nat} {targetTokens : Option Nat} {p : Parts} {limit : Nat}
    (hstages : c.defaultStages T (r.passed stage) iteration = .ok p.list)
    (hunder : wellUnder (r.passed stage) targetTokens = false) (hlost : LosesQuery r p)
    {out : List Message} (hout : c.compress T (r.passed stage) iteration targetTokens = .ok out) :
    ¬ Preserved limit r out := by
  cases targetTokens with
  | none =>
      rw [compress_none c T hstages, Except.ok.injEq] at hout
      rw [← hout]
      exact hlost.not_preserved
  | some target =>
      rw [compress_some c T hstages hunder, Except.ok.injEq] at hout
      rw [← hout]
      rcases progressiveCompress_cases p target with ⟨-, h⟩ | ⟨-, -, h⟩ | ⟨-, -, h⟩ <;> rw [h]
      · exact hlost.not_preserved
      · exact (hlost.truncated 1 2500).not_preserved
      · exact ((hlost.truncated 1 2500).truncated 0 1500).not_preserved

/-- After a first pass that keeps the request, progressive compression keeps it exactly when each of
the two further limits is not reached or reaches back to the query. -/
theorem KeepsRequest.progressive_iff {limit : Nat} {r : Request} {stage : Stage}
    {before after : List Message} {last : Message} {p : Parts}
    (h : KeepsRequest limit r before last after p)
    (hcurrent : r.current stage = before ++ last :: after) (hlimit : limit ≤ 1500) (target : Nat) :
    Preserved limit r (progressiveCompress p.list target) ↔
      estimateTokens p.list ≤ target ∨
        (chunksFrom Message.isAI [] before).length ≤ 1 ∧
          (estimateTokens (p.truncated 1 2500).list ≤ target ∨
            (chunksFrom Message.isAI [] before).length = 0) := by
  have hlimit' : limit ≤ 2500 := by omega
  rcases progressiveCompress_cases p target with ⟨hfirst, hout⟩ | ⟨hfirst, hsecond, hout⟩ |
      ⟨hfirst, hsecond, hout⟩
  · rw [hout]
    exact iff_of_true h.preserved (Or.inl hfirst)
  · rw [hout, h.preserved_truncated_iff hcurrent hlimit']
    constructor
    · exact fun hk => Or.inr ⟨hk, Or.inl hsecond⟩
    · rintro (hle | ⟨hk, -⟩)
      · omega
      · exact hk
  · rw [hout]
    rcases Nat.lt_or_ge 1 (chunksFrom Message.isAI [] before).length with hlt | hk
    · apply iff_of_false ((h.loses hcurrent 2500 hlt).truncated 0 1500).not_preserved
      omega
    · rw [(h.truncated hlimit' hk).preserved_truncated_iff hcurrent hlimit]
      omega

/-- Compression keeps the query and the tool results, each cut to no fewer than 1500 characters or
the configured number, exactly when the list is well under the target or the history limits of the
passes that run reach back to the query. -/
theorem compress_preserves_iff (c : MessageCompressor) (T : CharTables) (r : Request)
    (stage : Stage) (iteration : Nat) (targetTokens : Option Nat) :
    (∃ out, c.compress T (r.passed stage) iteration targetTokens = .ok out ∧
        Preserved (min c.maxToolChars 1500) r out) ↔
      wellUnder (r.passed stage) targetTokens = true ∨
        LimitsReachQuery c T r stage iteration targetTokens := by
  have hquery : r.query ∈ r.current stage := List.mem_cons_self
  obtain ⟨before, last, after, hsplit⟩ := exists_splitAtLast hquery r.query_isHuman
  have hcurrent := (splitAtLast_eq_some hsplit).1
  have hback : r.turnsBack stage = (chunksFrom Message.isAI [] before).length := by
    rw [Request.turnsBack, hsplit]
  obtain ⟨p, hkeeps, hstages⟩ :=
    defaultStages_parts c T r hsplit (min c.maxToolChars 1500) iteration
  cases hunder : wellUnder (r.passed stage) targetTokens with
  | true =>
      refine ⟨fun _ => Or.inl rfl, fun _ => ⟨r.passed stage, ?_, r.passed_preserved stage _⟩⟩
      rw [compress, if_pos hunder]
  | false =>
      simp only [Bool.false_eq_true, false_or, LimitsReachQuery, hback]
      -- The first pass decides between a list that holds the request and one that has lost the query.
      rcases Nat.lt_or_ge c.maxHistory (chunksFrom Message.isAI [] before).length with hlt | hle
      · constructor
        · rintro ⟨out, hout, hpreserved⟩
          exact absurd hpreserved
            (compress_loses hstages hunder (hkeeps.loses hcurrent c.maxToolChars hlt) hout)
        · rintro ⟨hle, -⟩
          omega
      · have hfirst := hkeeps.truncated (Nat.min_le_left c.maxToolChars 1500) hle
        cases targetTokens with
        | none =>
            refine iff_of_true ⟨_, compress_none c T hstages, hfirst.preserved⟩ ⟨hle, ?_⟩
            intro target htarget
            exact absurd htarget (by simp)
        | some target =>
            have hiff := hfirst.progressive_iff hcurrent (Nat.min_le_right c.maxToolChars 1500) target
            have hsecond : Fits target ((c.defaultStages T (r.passed stage) iteration).map
                fun first => MessageCompressor.truncate first 1 2500) ↔
                estimateTokens ((p.truncated c.maxHistory c.maxToolChars).truncated 1 2500).list ≤
                  target := by
              simp only [hstages, Except.map, Parts.truncate_list, Fits]
            have hfits : Fits target (c.defaultStages T (r.passed stage) iteration) ↔
                estimateTokens (p.truncated c.maxHistory c.maxToolChars).list ≤ target := by
              rw [hstages]
              rfl
            rw [compress_some c T hstages hunder]
            simp only [Except.ok.injEq, exists_eq_left', Option.mem_def, Option.some.injEq,
              forall_eq', hfits, hsecond, hiff]
            exact (and_iff_right hle).symm

/-! ## A request of four commented rounds -/

/-- A round in which the assistant comments on its one call. -/
def commentedRound (ref : Nat) (comment name result : String) : Round where
  response := ⟨ref, .ai [⟨name, "c", "{}"⟩], .text comment⟩
  results := [⟨ref + 1, .tool "c" (some name), .text result⟩]
  response_isAI := rfl
  calls_ne_nil := by simp [Message.toolCalls]
  results_isTool := by simp [Message.isTool]
  results_length := rfl

/-- A comparison of four prices, looked up one after the other. -/
def fourLookups : Request where
  systems := [⟨0, .system, .text "You are a stock analyst."⟩]
  earlier := []
  query := ⟨1, .human, .text "Compare TCS, INFY, WIPRO and HCLTECH."⟩
  rounds :=
    [ commentedRound 2 "First TCS." "get_price" "TCS 3900",
      commentedRound 4 "Then INFY." "get_price" "INFY 1500",
      commentedRound 6 "Then WIPRO." "get_price" "WIPRO 450",
      commentedRound 8 "Last HCLTECH." "get_price" "HCLTECH 1400" ]
  answer := none
  systems_ne_nil := by simp
  systems_isSystem := by simp [Message.isSystem]
  earlier_spoken := by simp
  query_isHuman := rfl
  answer_isAI := by simp
  refs_nodup := by decide

/-- The synthesis pass over four commented rounds, with the default limits and no target, loses the
query. -/
theorem synthesis_loses_query :
    ∃ out, MessageCompressor.compress {} .ascii (fourLookups.passed .synthesis) 6 none = .ok out ∧
      ¬ Preserved 0 fourLookups out := by
  refine ⟨_, rfl, ?_⟩
  intro h
  exact absurd h.1 (by decide)

end AsetPlatform.Llm

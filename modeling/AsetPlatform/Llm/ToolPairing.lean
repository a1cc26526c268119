import AsetPlatform.Library.Pairing
import AsetPlatform.Llm.RequestMessages

/-!
# Tool calls and results under compression

A chat API accepts a list whose tool results each follow the assistant message with their call, and
whose calls are all answered. `compress` cuts the history after every assistant message, also
between an assistant message that only calls tools and the results of its calls. What it returns
is the rest of the list from one cut on, so that calls stay answered; a result whose call stands
before the cut is left alone (`compress_paired_iff`).
-/

set_option autoImplicit false

namespace AsetPlatform.Llm

open AsetPlatform.Library MessageCompressor

/-! ## The shape of a list -/

/-- The calls of an assistant message, the answer of a tool result. -/
def Message.marks (m : Message) : List (Mark String) :=
  match m.kind with
  | .ai toolCalls => toolCalls.map fun call => .call call.id
  | .tool toolCallId _ => [.answer toolCallId]
  | _ => []

def marksOf (messages : List Message) : List (Mark String) := messages.flatMap Message.marks

/-- Each tool result follows an assistant message with its call, and each call is answered. -/
def ToolsPaired (messages : List Message) : Prop := Paired (marksOf messages)

/-! ## The cut of a list -/

namespace MessageCompressor

/-- The history of a list: what stands between the leading system messages and the boundary. -/
def history (messages : List Message) : List Message :=
  (messages.take (findLoopBoundary messages)).dropWhile Message.isSystem

/-- The messages from the boundary on. -/
def loopMessages (messages : List Message) : List Message :=
  messages.drop (findLoopBoundary messages)

/-- The last `n` turns of the history and the messages from the boundary on. -/
def keptPart (n : Nat) (messages : List Message) : List Message :=
  keepLast Message.isAI n (history messages) ++ loopMessages messages

/-- The turns before the last `n`. -/
def droppedTurns (n : Nat) (messages : List Message) : List Message :=
  (history messages).take
    ((history messages).length - (keepLast Message.isAI n (history messages)).length)

instance decidableFits (target : Nat) :
    (result : Except String (List Message)) → Decidable (Fits target result)
  | .ok messages => inferInstanceAs (Decidable (estimateTokens messages ≤ target))
  | .error _ => .isFalse id

/-- The history limit of the passes that run: the default one; one turn besides when the list does
not fit the target after the first pass; none when it does not after the second. -/
def turnsKept (c : MessageCompressor) (T : CharTables) (messages : List Message) (iteration : Nat) :
    Option Nat → Nat
  | none => c.maxHistory
  | some target =>
      let first := c.defaultStages T messages iteration
      if Fits target first then c.maxHistory
      else if Fits target (first.map fun result => truncate result 1 2500) then min 1 c.maxHistory
      else 0

/-- The system prompt need not be condensed, or can be. -/
def promptReadable (messages : List Message) (iteration : Nat) : Bool :=
  match messages with
  | ⟨_, .system, .blocks (_ :: _)⟩ :: _ => iteration ≤ 1
  | _ => true

/-- The list is cut, and between a call and its result. -/
def CutsPair (c : MessageCompressor) (T : CharTables) (messages : List Message) (iteration : Nat)
    (targetTokens : Option Nat) : Prop :=
  let n := c.turnsKept T messages iteration targetTokens
  wellUnder messages targetTokens = false ∧
    Splits (marksOf (droppedTurns n messages)) (marksOf (keptPart n messages))

end MessageCompressor

/-! ## Marks -/

@[simp]
theorem marksOf_append (xs ys : List Message) : marksOf (xs ++ ys) = marksOf xs ++ marksOf ys :=
  List.flatMap_append

theorem Message.marks_of_isSystem {m : Message} (h : m.isSystem = true) : m.marks = [] := by
  obtain ⟨_, kind, _⟩ := m
  cases kind <;> simp [isSystem, marks] at h ⊢

theorem marksOf_eq_nil {messages : List Message} (h : ∀ m ∈ messages, m.isSystem = true) :
    marksOf messages = [] := by
  rw [marksOf, List.flatMap_eq_nil_iff]
  exact fun m hm => Message.marks_of_isSystem (h m hm)

theorem isSystem_of_mem_takeWhile {messages : List Message} :
    ∀ m ∈ messages.takeWhile Message.isSystem, m.isSystem = true :=
  fun _ hm => List.mem_takeWhile_imp hm

theorem marksOf_takeWhile (messages : List Message) :
    marksOf (messages.takeWhile Message.isSystem) = [] :=
  marksOf_eq_nil isSystem_of_mem_takeWhile

theorem truncateToolResult_cases (k : Nat) (m : Message) :
    truncateToolResult k m = m ∨ ∃ toolCallId name content, m.kind = .tool toolCallId name ∧
      truncateToolResult k m = { m with kind := .tool toolCallId none, content := content } := by
  obtain ⟨ref, kind, content⟩ := m
  cases kind with
  | tool toolCallId name =>
      cases content with
      | text s =>
          simp only [truncateToolResult]
          split
          · exact Or.inr ⟨toolCallId, name, _, rfl, rfl⟩
          · exact Or.inl rfl
      | blocks bs => exact Or.inl rfl
  | _ => exact Or.inl rfl

/-- What depends on the class of a message and the call of a result is kept by the cut. -/
theorem truncateToolResult_congr {β : Type} {f : Message → β}
    (hf : ∀ ref ref' toolCallId name name' content content',
      f ⟨ref, .tool toolCallId name, content⟩ = f ⟨ref', .tool toolCallId name', content'⟩)
    (k : Nat) (m : Message) : f (truncateToolResult k m) = f m := by
  rcases truncateToolResult_cases k m with h | ⟨toolCallId, name, content, hkind, h⟩
  · rw [h]
  · rw [h]
    obtain ⟨ref, kind, content'⟩ := m
    obtain rfl : kind = .tool toolCallId name := hkind
    exact hf ref ref toolCallId none name content content'

theorem truncateToolResult_marks (k : Nat) (m : Message) :
    (truncateToolResult k m).marks = m.marks :=
  truncateToolResult_congr (fun _ _ _ _ _ _ _ => rfl) k m

theorem truncateToolResult_isSystem (k : Nat) (m : Message) :
    (truncateToolResult k m).isSystem = m.isSystem :=
  truncateToolResult_congr (fun _ _ _ _ _ _ _ => rfl) k m

theorem truncateToolResult_isAI (k : Nat) (m : Message) :
    (truncateToolResult k m).isAI = m.isAI :=
  truncateToolResult_congr (fun _ _ _ _ _ _ _ => rfl) k m

theorem marksOf_truncateToolResults (messages : List Message) (k : Nat) :
    marksOf (truncateToolResults messages k) = marksOf messages := by
  rw [truncateToolResults, marksOf, List.flatMap_map]
  simp only [truncateToolResult_marks]
  rfl

/-! ## The boundary -/

/-- Tool results stand behind the last human message of a list. -/
def ResultsTrail (messages : List Message) : Prop :=
  ∃ before human after, splitAtLast Message.isHuman messages = some (before, human, after) ∧
    after.any Message.isTool = true

/-- `loop` starts with the human message of the current request when `before` stands in front of it. -/
inductive StartsLoop (before : List Message) : List Message → Prop
  /-- Results follow the last human message. -/
  | results (query : Message) (after : List Message) (hQuery : query.isHuman = true)
      (hAfter : ∀ m ∈ after, m.isHuman = false) (hTool : after.any Message.isTool = true) :
      StartsLoop before (query :: after)
  /-- A human message was added behind the results. -/
  | added (query : Message) (results : List Message) (human : Message) (after : List Message)
      (hQuery : query.isHuman = true) (hResults : ∀ m ∈ results, m.isHuman = false)
      (hTool : results.any Message.isTool = true) (hHuman : human.isHuman = true)
      (hAfter : ∀ m ∈ after, m.isHuman = false ∧ m.isTool = false) :
      StartsLoop before (query :: results ++ human :: after)
  /-- The last human message has no results yet, nor has the one before. -/
  | fresh (query : Message) (after : List Message) (hQuery : query.isHuman = true)
      (hAfter : ∀ m ∈ after, m.isHuman = false ∧ m.isTool = false)
      (hBefore : ¬ ResultsTrail before) : StartsLoop before (query :: after)

theorem humanIdxs_append (before : List Message) {human : Message} {after : List Message}
    (hHuman : human.isHuman = true) (hAfter : ∀ m ∈ after, m.isHuman = false) :
    indicesFrom Message.isHuman 0 (before ++ human :: after) =
      indicesFrom Message.isHuman 0 before ++ [before.length] := by
  rw [indicesFrom_append, indicesFrom, if_pos hHuman, indicesFrom_eq_nil hAfter, Nat.zero_add]

theorem toolIdxs_any (before : List Message) (m : Message) (after : List Message) :
    ((indicesFrom Message.isTool 0 (before ++ m :: after)).any fun t => before.length < t) =
      after.any Message.isTool := by
  have h := any_lt_indicesFrom (p := Message.isTool) 0 before m after
  simpa only [Nat.zero_add] using h

theorem any_isTool_eq_false {messages : List Message}
    (h : ∀ m ∈ messages, m.isHuman = false ∧ m.isTool = false) :
    messages.any Message.isTool = false := by
  rw [List.any_eq_false]
  exact fun m hm => by simp [(h m hm).2]

theorem StartsLoop.findLoopBoundary_eq {before loop : List Message} (h : StartsLoop before loop) :
    findLoopBoundary (before ++ loop) = before.length := by
  cases h with
  | results query after hQuery hAfter hTool =>
      have hIdxs := humanIdxs_append before hQuery hAfter
      have hLater := (toolIdxs_any before query after).trans hTool
      simp only [findLoopBoundary, hIdxs, List.reverse_append, List.reverse_cons, List.reverse_nil,
        List.nil_append, List.cons_append, hLater, if_true, ite_eq_right_iff]
      exact fun hzero => hzero.symm
  | added query results human after hQuery hResults hTool hHuman hAfter =>
      have hLast : before ++ (query :: results ++ human :: after) =
          (before ++ query :: results) ++ human :: after := by simp
      have hFirst : before ++ (query :: results ++ human :: after) =
          before ++ query :: (results ++ human :: after) := by simp
      have hPos : (before ++ query :: results).length ≠ 0 := by simp
      have hIdxs : (indicesFrom Message.isHuman 0 (before ++ (query :: results ++ human :: after))).reverse =
          (before ++ query :: results).length :: before.length ::
            (indicesFrom Message.isHuman 0 before).reverse := by
        rw [hLast, humanIdxs_append _ hHuman (fun m hm => (hAfter m hm).1),
          humanIdxs_append _ hQuery hResults]
        simp
      have hLater := (toolIdxs_any (before ++ query :: results) human after).trans
        (any_isTool_eq_false hAfter)
      have hEarlier := toolIdxs_any before query (results ++ human :: after)
      rw [List.any_append, hTool, Bool.true_or] at hEarlier
      rw [← hLast] at hLater
      rw [← hFirst] at hEarlier
      simp only [findLoopBoundary, hIdxs, if_neg hPos, hLater, hEarlier, Bool.false_eq_true, if_false,
        if_true]
  | fresh query after hQuery hAfter hBefore =>
      have hIdxs := humanIdxs_append before hQuery (fun m hm => (hAfter m hm).1)
      have hLater := (toolIdxs_any before query after).trans (any_isTool_eq_false hAfter)
      cases hSplit : splitAtLast Message.isHuman before with
      | none =>
          rw [indicesFrom_eq_nil (splitAtLast_eq_none hSplit)] at hIdxs
          simp only [findLoopBoundary, hIdxs, List.nil_append, List.reverse_cons, List.reverse_nil,
            hLater, Bool.false_eq_true, if_false, ite_eq_right_iff]
          exact fun hzero => hzero.symm
      | some split =>
          obtain ⟨start, human, trail⟩ := split
          obtain ⟨hCut, hHuman, hTrail⟩ := splitAtLast_eq_some hSplit
          -- The earlier human message has no results behind it either: those would trail.
          have hNone : trail.any Message.isTool = false := by
            rw [← Bool.not_eq_true]
            exact fun hTool => hBefore ⟨start, human, trail, hSplit, hTool⟩
          have hEarlier := toolIdxs_any start human (trail ++ query :: after)
          rw [List.any_append, hNone, Bool.false_or, List.any_cons,
            (Message.of_isHuman hQuery).1, Bool.false_or, any_isTool_eq_false hAfter,
            ← List.cons_append, ← List.append_assoc, ← hCut] at hEarlier
          have hHumans := humanIdxs_append start hHuman hTrail
          rw [← hCut] at hHumans
          simp only [findLoopBoundary, hIdxs, hHumans, List.reverse_append, List.reverse_cons,
            List.reverse_nil, List.nil_append, List.cons_append, hLater, hEarlier,
            Bool.false_eq_true, if_false, ite_eq_right_iff]
          exact fun hzero => hzero.symm

theorem exists_startsLoop (messages : List Message) :
    (∀ m ∈ messages, m.isHuman = false) ∨
      ∃ before loop, messages = before ++ loop ∧ StartsLoop before loop := by
  cases hSplit : splitAtLast Message.isHuman messages with
  | none => exact Or.inl (splitAtLast_eq_none hSplit)
  | some split =>
      obtain ⟨before, human, after⟩ := split
      obtain ⟨hCut, hHuman, hAfter⟩ := splitAtLast_eq_some hSplit
      refine Or.inr ?_
      cases hTool : after.any Message.isTool with
      | true => exact ⟨before, human :: after, hCut, .results human after hHuman hAfter hTool⟩
      | false =>
          have hNone : ∀ m ∈ after, m.isHuman = false ∧ m.isTool = false := fun m hm =>
            ⟨hAfter m hm, Bool.not_eq_true _ ▸ List.any_eq_false.mp hTool m hm⟩
          by_cases hTrail : ResultsTrail before
          · obtain ⟨start, query, results, hEarlier, hResults⟩ := hTrail
            obtain ⟨hCutBefore, hQuery, hNoHuman⟩ := splitAtLast_eq_some hEarlier
            refine ⟨start, query :: results ++ human :: after, ?_,
              .added query results human after hQuery hNoHuman hResults hHuman hNone⟩
            rw [hCut, hCutBefore, List.append_assoc]
          · exact ⟨before, human :: after, hCut, .fresh human after hHuman hNone hTrail⟩

theorem StartsLoop.of_before {before before' loop : List Message} (h : StartsLoop before loop)
    (hTrail : ResultsTrail before' → ResultsTrail before) : StartsLoop before' loop := by
  cases h with
  | results query after hQuery hAfter hTool => exact .results query after hQuery hAfter hTool
  | added query results human after hQuery hResults hTool hHuman hAfter =>
      exact .added query results human after hQuery hResults hTool hHuman hAfter
  | fresh query after hQuery hAfter hBefore =>
      exact .fresh query after hQuery hAfter fun h => hBefore (hTrail h)

theorem ResultsTrail.of_suffix {systems last messages : List Message}
    (hSystems : ∀ m ∈ systems, m.isSystem = true) (hLast : last <:+ messages)
    (h : ResultsTrail (systems ++ last)) : ResultsTrail messages := by
  obtain ⟨before, human, after, hSplit, hTool⟩ := h
  obtain ⟨ws, rfl⟩ := hLast
  cases hEnd : splitAtLast Message.isHuman last with
  | none =>
      have hNoHuman : ∀ m ∈ systems ++ last, m.isHuman = false := fun m hm =>
        (List.mem_append.mp hm).elim (fun hm => (Message.of_isSystem (hSystems m hm)).2)
          (splitAtLast_eq_none hEnd m)
      obtain ⟨hCut, hHuman, -⟩ := splitAtLast_eq_some hSplit
      have := hNoHuman human (by rw [hCut]; simp)
      rw [hHuman] at this
      exact absurd this (by simp)
  | some split =>
      obtain ⟨start, human', after'⟩ := split
      rw [splitAtLast_append hEnd] at hSplit
      simp only [Option.some.injEq, Prod.mk.injEq] at hSplit
      obtain ⟨-, rfl, rfl⟩ := hSplit
      exact ⟨ws ++ start, human', after', splitAtLast_append hEnd ws, hTool⟩

/-! ## One pass -/

theorem take_append_loopMessages (messages : List Message) :
    messages.take (findLoopBoundary messages) ++ loopMessages messages = messages :=
  List.take_append_drop _ messages

theorem truncateHistory_eq (messages : List Message) (n : Nat) :
    truncateHistory messages n =
      (messages.take (findLoopBoundary messages)).takeWhile Message.isSystem ++ keptPart n messages := by
  rw [truncateHistory, keptPart, ← List.append_assoc]
  by_cases hZero : findLoopBoundary messages = 0
  · simp [history, loopMessages, hZero, keepLast, chunksFrom]
  · rw [if_neg hZero]
    cases n with
    | zero => simp [keepLast, history, loopMessages]
    | succ n => simp [keepLast, history, loopMessages]

theorem marksOf_truncateHistory (messages : List Message) (n : Nat) :
    marksOf (truncateHistory messages n) = marksOf (keptPart n messages) := by
  rw [truncateHistory_eq, marksOf_append, marksOf_takeWhile, List.nil_append]

theorem marksOf_dropped_append (messages : List Message) (n : Nat) :
    marksOf (droppedTurns n messages) ++ marksOf (keptPart n messages) = marksOf messages := by
  have hHistory : droppedTurns n messages ++ keepLast Message.isAI n (history messages) =
      history messages :=
    List.suffix_iff_eq_append.mp (keepLast_suffix n (history messages))
  calc marksOf (droppedTurns n messages) ++ marksOf (keptPart n messages)
      = marksOf (history messages ++ loopMessages messages) := by
        rw [← marksOf_append, keptPart, ← List.append_assoc, hHistory]
    _ = marksOf ((messages.take (findLoopBoundary messages)).takeWhile Message.isSystem ++
          history messages ++ loopMessages messages) := by
        rw [List.append_assoc, marksOf_append (List.takeWhile _ _), marksOf_takeWhile,
          List.nil_append]
    _ = marksOf messages := by
        rw [history, List.takeWhile_append_dropWhile, take_append_loopMessages]

theorem marksOf_keepLast_dropWhile (n : Nat) (messages : List Message) :
    marksOf (keepLast Message.isAI n (messages.dropWhile Message.isSystem)) =
      marksOf (keepLast Message.isAI n messages) := by
  induction messages with
  | nil => rfl
  | cons m messages ih =>
      cases hSystem : m.isSystem with
      | false => rw [List.dropWhile_cons_of_neg (by simp [hSystem])]
      | true =>
          have hAI : m.isAI = false := by
            obtain ⟨_, kind, _⟩ := m
            cases kind <;> simp [Message.isSystem, Message.isAI] at hSystem ⊢
          rw [List.dropWhile_cons_of_pos hSystem, ih]
          have hMark : marksOf [m] = [] := marksOf_eq_nil (by simpa using hSystem)
          rcases keepLast_cons (p := Message.isAI) hAI n messages with h | ⟨h, hWhole⟩
          · rw [h]
          · rw [h, hWhole, ← List.singleton_append, marksOf_append, hMark, List.nil_append]

theorem marksOf_keptPart_truncateHistory (messages : List Message) (m n : Nat) :
    marksOf (keptPart m (truncateHistory messages n)) = marksOf (keptPart (min m n) messages) := by
  rcases exists_startsLoop messages with hNone | ⟨before, loop, rfl, hLoop⟩
  · have hBoundary : findLoopBoundary messages = 0 := by
      rw [findLoopBoundary, indicesFrom_eq_nil hNone]
      rfl
    rw [truncateHistory, if_pos hBoundary]
    simp [keptPart, history, loopMessages, hBoundary, keepLast, chunksFrom]
  · have hTake : (before ++ loop).take (findLoopBoundary (before ++ loop)) = before := by
      rw [hLoop.findLoopBoundary_eq, List.take_left]
    have hDrop : loopMessages (before ++ loop) = loop := by
      rw [loopMessages, hLoop.findLoopBoundary_eq, List.drop_left]
    -- What the first pass keeps in front of the loop.
    let systems := before.takeWhile Message.isSystem
    let last := keepLast Message.isAI n (before.dropWhile Message.isSystem)
    have hFirst : truncateHistory (before ++ loop) n = (systems ++ last) ++ loop := by
      rw [truncateHistory_eq, keptPart, history, hTake, hDrop, List.append_assoc]
    have hSuffix : last <:+ before :=
      (keepLast_suffix n _).trans (List.dropWhile_suffix Message.isSystem)
    have hLoop' : StartsLoop (systems ++ last) loop :=
      hLoop.of_before (ResultsTrail.of_suffix isSystem_of_mem_takeWhile hSuffix)
    have hTake' : ((systems ++ last) ++ loop).take (findLoopBoundary ((systems ++ last) ++ loop)) =
        systems ++ last := by
      rw [hLoop'.findLoopBoundary_eq, List.take_left]
    have hDrop' : loopMessages ((systems ++ last) ++ loop) = loop := by
      rw [loopMessages, hLoop'.findLoopBoundary_eq, List.drop_left]
    have hSystems : (systems ++ last).dropWhile Message.isSystem = last.dropWhile Message.isSystem :=
      List.dropWhile_append_of_pos isSystem_of_mem_takeWhile
    rw [hFirst, keptPart, history, hTake', hDrop', hSystems, marksOf_append,
      marksOf_keepLast_dropWhile, keepLast_keepLast, keptPart, history, hTake, hDrop, marksOf_append]

theorem findLoopBoundary_truncateToolResults (messages : List Message) (k : Nat) :
    findLoopBoundary (truncateToolResults messages k) = findLoopBoundary messages := by
  rw [truncateToolResults, findLoopBoundary, findLoopBoundary,
    indicesFrom_map (truncateToolResult_isHuman k), indicesFrom_map (truncateToolResult_isTool k)]

theorem marksOf_keptPart_truncateToolResults (messages : List Message) (m k : Nat) :
    marksOf (keptPart m (truncateToolResults messages k)) = marksOf (keptPart m messages) := by
  have hKept : keptPart m (truncateToolResults messages k) =
      truncateToolResults (keptPart m messages) k := by
    have hSystem : Message.isSystem ∘ truncateToolResult k = Message.isSystem :=
      funext (truncateToolResult_isSystem k)
    rw [keptPart, history, loopMessages, findLoopBoundary_truncateToolResults, truncateToolResults,
      ← List.map_take, ← List.map_drop, List.dropWhile_map, hSystem,
      keepLast_map (truncateToolResult_isAI k), ← List.map_append]
    rfl
  rw [hKept, marksOf_truncateToolResults]

theorem marksOf_truncate (messages : List Message) (n k : Nat) :
    marksOf (truncate messages n k) = marksOf (keptPart n messages) := by
  rw [truncate, marksOf_truncateToolResults, marksOf_truncateHistory]

theorem marksOf_keptPart_truncate (messages : List Message) (m n k : Nat) :
    marksOf (keptPart m (truncate messages n k)) = marksOf (keptPart (min m n) messages) := by
  rw [truncate, marksOf_keptPart_truncateToolResults, marksOf_keptPart_truncateHistory]

/-! ## The system prompt -/

theorem condenseSystemPrompt_ok {c : MessageCompressor} {T : CharTables}
    {messages result : List Message} (h : c.condenseSystemPrompt T messages = .ok result) :
    result = messages ∨ ∃ prompt condensed rest, prompt.isSystem = true ∧
      condensed.isSystem = true ∧ messages = prompt :: rest ∧ result = condensed :: rest := by
  cases messages with
  | nil => exact Or.inl (Except.ok.inj h).symm
  | cons m rest =>
      rw [condenseSystemPrompt] at h
      cases hSystem : m.isSystem with
      | false =>
          rw [if_neg (by simp [hSystem])] at h
          exact Or.inl (Except.ok.inj h).symm
      | true =>
          rw [if_pos hSystem] at h
          obtain ⟨content, hResult⟩ : ∃ content, result = { m with content := content } :: rest := by
            split at h
            · exact ⟨_, (Except.ok.inj h).symm⟩
            · split at h
              · exact ⟨_, (Except.ok.inj h).symm⟩
              · exact absurd h (by simp)
          exact Or.inr ⟨m, { m with content := content }, rest, hSystem, hSystem, rfl, hResult⟩

theorem exists_condenseSystemPrompt_iff (c : MessageCompressor) (T : CharTables)
    (messages : List Message) :
    (∃ result, c.condenseSystemPrompt T messages = .ok result) ↔ promptReadable messages 2 = true := by
  cases messages with
  | nil => exact iff_of_true ⟨[], rfl⟩ rfl
  | cons m rest =>
      obtain ⟨ref, kind, content⟩ := m
      cases kind with
      | system =>
          cases content with
          | text s => exact iff_of_true ⟨_, rfl⟩ rfl
          | blocks bs =>
              cases bs with
              | nil => exact iff_of_true ⟨_, rfl⟩ rfl
              | cons b bs =>
                  refine iff_of_false ?_ (by simp [promptReadable])
                  rintro ⟨result, h⟩
                  simp [condenseSystemPrompt, Message.isSystem] at h
      | _ => exact iff_of_true ⟨_, rfl⟩ rfl

theorem marksOf_keptPart_prompt {prompt condensed : Message} (hPrompt : prompt.isSystem = true)
    (hCondensed : condensed.isSystem = true) (n : Nat) (rest : List Message) :
    marksOf (keptPart n (condensed :: rest)) = marksOf (keptPart n (prompt :: rest)) := by
  obtain ⟨hTool, hHuman⟩ := Message.of_isSystem hPrompt
  obtain ⟨hTool', hHuman'⟩ := Message.of_isSystem hCondensed
  have hBoundary : findLoopBoundary (condensed :: rest) = findLoopBoundary (prompt :: rest) := by
    simp [findLoopBoundary, indicesFrom, hTool, hHuman, hTool', hHuman']
  rw [keptPart, keptPart, history, history, loopMessages, loopMessages, hBoundary]
  cases findLoopBoundary (prompt :: rest) with
  | zero =>
      simp only [List.take_zero, List.dropWhile_nil, List.drop_zero, marksOf_append]
      have hMarks : marksOf (condensed :: rest) = marksOf (prompt :: rest) := by
        rw [marksOf, List.flatMap_cons, Message.marks_of_isSystem hCondensed, marksOf,
          List.flatMap_cons, Message.marks_of_isSystem hPrompt]
      rw [hMarks]
  | succ b =>
      simp only [List.take_succ_cons, List.drop_succ_cons,
        List.dropWhile_cons_of_pos hPrompt, List.dropWhile_cons_of_pos hCondensed]

/-- The first pass: it runs when the prompt can be condensed, and keeps the default number of
turns. -/
theorem defaultStages_ok {c : MessageCompressor} {T : CharTables} {messages first : List Message}
    {iteration : Nat} (h : c.defaultStages T messages iteration = .ok first) :
    marksOf first = marksOf (keptPart c.maxHistory messages) ∧ ∀ n,
      marksOf (keptPart n first) = marksOf (keptPart (min n c.maxHistory) messages) := by
  obtain ⟨result, hResult, rfl⟩ : ∃ result,
      (∀ n, marksOf (keptPart n result) = marksOf (keptPart n messages)) ∧
        first = truncate result c.maxHistory c.maxToolChars := by
    rw [defaultStages] at h
    split at h
    · cases hPrompt : c.condenseSystemPrompt T messages with
      | error e => simp [hPrompt, bind, Except.bind] at h
      | ok result =>
          rw [hPrompt] at h
          refine ⟨result, fun n => ?_, (Except.ok.inj h).symm⟩
          rcases condenseSystemPrompt_ok hPrompt with rfl | ⟨p, q, rest, hp, hq, rfl, rfl⟩
          · rfl
          · exact marksOf_keptPart_prompt hp hq n rest
    · exact ⟨messages, fun _ => rfl, (Except.ok.inj h).symm⟩
  refine ⟨?_, fun n => ?_⟩
  · rw [marksOf_truncate, hResult]
  · rw [marksOf_keptPart_truncate, hResult]

theorem exists_defaultStages_iff (c : MessageCompressor) (T : CharTables) (messages : List Message)
    (iteration : Nat) :
    (∃ first, c.defaultStages T messages iteration = .ok first) ↔
      promptReadable messages iteration = true := by
  rw [defaultStages]
  rcases Nat.lt_or_ge 1 iteration with hLate | hEarly
  · have hSame : promptReadable messages iteration = promptReadable messages 2 := by
      unfold promptReadable
      split
      · simp [Nat.not_le.mpr hLate]
      · rfl
    rw [hSame, ← exists_condenseSystemPrompt_iff c T messages, if_pos hLate]
    cases c.condenseSystemPrompt T messages with
    | error e => simp [bind, Except.bind]
    | ok result => exact iff_of_true ⟨_, rfl⟩ ⟨result, rfl⟩
  · rw [if_neg (Nat.not_lt.mpr hEarly)]
    refine iff_of_true ⟨_, rfl⟩ ?_
    unfold promptReadable
    split
    · simpa using hEarly
    · rfl

/-! ## The result -/

/-- The marks of the result: those of the whole list when it is well under the target, else those of
the part that the passes keep. -/
theorem marksOf_compress {c : MessageCompressor} {T : CharTables} {messages out : List Message}
    {iteration : Nat} {targetTokens : Option Nat}
    (h : c.compress T messages iteration targetTokens = .ok out) :
    marksOf out = if wellUnder messages targetTokens = true then marksOf messages
      else marksOf (keptPart (c.turnsKept T messages iteration targetTokens) messages) := by
  cases hUnder : wellUnder messages targetTokens with
  | true =>
      rw [compress, if_pos hUnder] at h
      rw [if_pos rfl, Except.ok.inj h]
  | false =>
      rw [if_neg (by simp)]
      cases hFirst : c.defaultStages T messages iteration with
      | error e => simp [compress, hUnder, hFirst, bind, Except.bind] at h
      | ok first =>
          obtain ⟨hMarks, hAgain⟩ := defaultStages_ok hFirst
          cases targetTokens with
          | none =>
              rw [compress_none c T hFirst] at h
              rw [← Except.ok.inj h, hMarks]
              rfl
          | some target =>
              rw [compress_some c T hFirst hUnder] at h
              rw [← Except.ok.inj h, progressiveCompress]
              simp only [turnsKept, hFirst, Except.map, Fits]
              split
              · exact hMarks
              · split
                · rw [marksOf_truncate, hAgain]
                · rw [marksOf_truncate, marksOf_keptPart_truncate, hAgain, Nat.zero_min, Nat.zero_min]

theorem exists_compress_iff (c : MessageCompressor) (T : CharTables) (messages : List Message)
    (iteration : Nat) (targetTokens : Option Nat) :
    (∃ out, c.compress T messages iteration targetTokens = .ok out) ↔
      wellUnder messages targetTokens = true ∨ promptReadable messages iteration = true := by
  rw [← exists_defaultStages_iff c T messages iteration]
  cases hUnder : wellUnder messages targetTokens with
  | true => exact iff_of_true ⟨messages, by rw [compress, if_pos hUnder]⟩ (Or.inl rfl)
  | false =>
      cases hFirst : c.defaultStages T messages iteration with
      | error e => simp [compress, hUnder, hFirst, bind, Except.bind]
      | ok first =>
          refine iff_of_true ?_ (Or.inr ⟨first, rfl⟩)
          cases targetTokens with
          | none => exact ⟨first, compress_none c T hFirst⟩
          | some target => exact ⟨_, compress_some c T hFirst hUnder⟩

/-- Compression of a paired list returns a list unless it has to condense a prompt of several
blocks; the result is paired exactly when the history is not cut between a call and its result. -/
theorem compress_paired_iff (c : MessageCompressor) (T : CharTables) (messages : List Message)
    (iteration : Nat) (targetTokens : Option Nat) (hPaired : ToolsPaired messages) :
    ((∃ out, c.compress T messages iteration targetTokens = .ok out) ↔
      wellUnder messages targetTokens = true ∨ promptReadable messages iteration = true) ∧
    ∀ out, c.compress T messages iteration targetTokens = .ok out →
      (ToolsPaired out ↔ ¬ c.CutsPair T messages iteration targetTokens) := by
  refine ⟨exists_compress_iff c T messages iteration targetTokens, fun out hOut => ?_⟩
  rw [ToolsPaired, marksOf_compress hOut, CutsPair]
  cases hUnder : wellUnder messages targetTokens with
  | true => exact iff_of_true (by rwa [if_pos rfl]) (by simp)
  | false =>
      rw [if_neg (by simp), eq_self_iff_true, true_and]
      apply paired_of_append_iff
      rw [marksOf_dropped_append]
      exact hPaired

/-! ## A conversation with earlier lookups -/

/-- Two prices were looked up for earlier questions, and a third lookup has just been answered. -/
def thirdLookup : List Message :=
  [ ⟨0, .system, .text "You are a stock analyst."⟩,
    ⟨1, .human, .text "What is the price of TCS?"⟩,
    ⟨2, .ai [⟨"get_price", "c1", "{}"⟩], .text ""⟩,
    ⟨3, .tool "c1" (some "get_price"), .text "TCS 3900"⟩,
    ⟨4, .ai [], .text "TCS is at 3900."⟩,
    ⟨5, .human, .text "And INFY?"⟩,
    ⟨6, .ai [⟨"get_price", "c2", "{}"⟩], .text ""⟩,
    ⟨7, .tool "c2" (some "get_price"), .text "INFY 1500"⟩,
    ⟨8, .ai [], .text "INFY is at 1500."⟩,
    ⟨9, .human, .text "And WIPRO?"⟩,
    ⟨10, .ai [⟨"get_price", "c3", "{}"⟩], .text ""⟩,
    ⟨11, .tool "c3" (some "get_price"), .text "WIPRO 450"⟩ ]

theorem thirdLookup_paired : ToolsPaired thirdLookup := by
  unfold ToolsPaired
  decide

/-- The conversation in its second iteration, with the default limits and no target. -/
theorem compress_paired_iff_thirdLookup :
    ToolsPaired thirdLookup ∧
      ((∃ out, MessageCompressor.compress {} .ascii thirdLookup 2 none = .ok out) ↔
        wellUnder thirdLookup none = true ∨ promptReadable thirdLookup 2 = true) ∧
      ∀ out, MessageCompressor.compress {} .ascii thirdLookup 2 none = .ok out →
        (ToolsPaired out ↔ ¬ MessageCompressor.CutsPair {} .ascii thirdLookup 2 none) :=
  ⟨thirdLookup_paired, compress_paired_iff {} .ascii thirdLookup 2 none thirdLookup_paired⟩

/-- With the default limit of three turns the result of the first lookup stays and its call goes:
the turn that ends with the first answer starts at the result. -/
theorem thirdLookup_loses_call :
    ToolsPaired thirdLookup ∧
      ∃ out, MessageCompressor.compress {} .ascii thirdLookup 1 none = .ok out ∧ ¬ ToolsPaired out := by
  refine ⟨thirdLookup_paired, _, rfl, ?_⟩
  unfold ToolsPaired
  decide

end AsetPlatform.Llm

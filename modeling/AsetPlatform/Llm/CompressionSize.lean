import AsetPlatform.Llm.ToolPairing
import Mathlib.Algebra.Order.BigOperators.Group.List

/-!
# What compression does to the estimate

`backend/message_compressor.py` over the estimate of `backend/token_budget.py`. The condensed prompt is no
longer than the prompt (`length_condensedText_le`) and the truncated history is a part of the list
(`truncateHistory_sublist`). A tool result that is cut gets a note of 23 characters and the digits of
its excess (`totalChars_truncateToolResults`): a cut keeps the estimate down exactly if the notes are no
longer than what they stand for (`estimate_cut_le_iff`).
-/

set_option autoImplicit false

namespace AsetPlatform.Llm.MessageCompressor

open AsetPlatform.Library

/-! ## The estimate -/

/-- `total_chars` -/
def totalChars (messages : List Message) : Nat := (messages.map messageChars).sum

theorem estimateTokens_le_iff (xs ys : List Message) :
    estimateTokens xs ≤ estimateTokens ys ↔ totalChars xs / 4 ≤ totalChars ys / 4 := by
  show totalChars xs / 4 * 6 / 5 ≤ totalChars ys / 4 * 6 / 5 ↔ _
  omega

theorem estimateTokens_mono {xs ys : List Message} (h : totalChars xs ≤ totalChars ys) :
    estimateTokens xs ≤ estimateTokens ys :=
  (estimateTokens_le_iff xs ys).mpr (Nat.div_le_div_right h)

theorem totalChars_cons (m : Message) (messages : List Message) :
    totalChars (m :: messages) = messageChars m + totalChars messages :=
  List.sum_cons

/-! ## The prompt -/

/-- The characters of some lines, each with its newline. -/
def lineChars (ls : List (List Char)) : Nat := (ls.map fun l => l.length + 1).sum

theorem lineChars_cons (l : List Char) (ls : List (List Char)) :
    lineChars (l :: ls) = l.length + 1 + lineChars ls :=
  List.sum_cons

theorem lineChars_reverse (ls : List (List Char)) : lineChars ls.reverse = lineChars ls := by
  rw [lineChars, lineChars, List.map_reverse, List.sum_reverse]

theorem length_joinLines (l : List Char) (ls : List (List Char)) :
    (joinLines (l :: ls)).length + 1 = lineChars (l :: ls) := by
  induction ls generalizing l with
  | nil =>
      rw [joinLines, List.intercalate_singleton, lineChars_cons]
      rfl
  | cons m ls ih =>
      have hRest := ih m
      rw [joinLines] at hRest ⊢
      rw [List.intercalate_cons_cons, List.length_append, List.length_append, List.length_singleton,
        lineChars_cons]
      omega

theorem lineChars_splitLines (s : List Char) : lineChars (splitLines s) = s.length + 1 := by
  obtain ⟨l, ls, hLines⟩ := List.exists_cons_of_ne_nil (List.splitOn_ne_nil '\n' s)
  have hJoin : joinLines (splitLines s) = s := List.intercalate_splitOn '\n'
  rw [splitLines] at hJoin ⊢
  rw [hLines] at hJoin ⊢
  rw [← length_joinLines, hJoin]

theorem lineChars_keptLines_le (T : CharTables) (kept lines : List (List Char)) :
    lineChars (keptLines T kept lines) ≤ lineChars kept + lineChars lines := by
  induction lines generalizing kept with
  | nil =>
      rw [keptLines, lineChars_reverse]
      exact Nat.le_add_right _ _
  | cons line rest ih =>
      rw [keptLines, lineChars_cons]
      split
      · have hRest := ih (line :: kept)
        rw [lineChars_cons] at hRest
        omega
      · split
        · have hRest := ih ([] :: kept)
          rw [lineChars_cons, List.length_nil] at hRest
          omega
        · have hRest := ih kept
          omega

theorem length_strip_le (T : CharTables) (s : List Char) : (strip T s).length ≤ s.length := by
  obtain ⟨before, after, hText, -⟩ := strip_spec T s
  have hLength := congrArg List.length hText
  rw [List.length_append, List.length_append] at hLength
  omega

theorem length_beforeLastLine_le (s : List Char) : (beforeLastLine s).length ≤ s.length := by
  have hDrop := (List.dropWhile_suffix fun c => c != '\n' : s.reverse.dropWhile _ <:+ s.reverse).length_le
  rw [List.length_reverse] at hDrop
  rw [beforeLastLine]
  split
  · exact le_rfl
  · next hRest =>
      rw [hRest, List.length_cons] at hDrop
      rw [List.length_reverse]
      omega

theorem length_condensedText_le (c : MessageCompressor) (T : CharTables) (original : List Char) :
    (c.condensedText T original).length ≤ original.length := by
  simp only [condensedText]
  split
  · exact (length_beforeLastLine_le _).trans (List.length_take_le' _ _)
  · apply (length_strip_le T _).trans
    cases hKept : keptLines T [] (splitLines original) with
    | nil => exact Nat.zero_le _
    | cons l ls =>
        have hJoin := length_joinLines l ls
        have hLines := lineChars_keptLines_le T [] (splitLines original)
        have hNone : lineChars [] = 0 := rfl
        rw [hKept, lineChars_splitLines, hNone] at hLines
        omega

theorem totalChars_condenseSystemPrompt_le {c : MessageCompressor} {T : CharTables}
    {messages result : List Message} (h : c.condenseSystemPrompt T messages = .ok result) :
    totalChars result ≤ totalChars messages := by
  cases messages with
  | nil =>
      cases h
      exact le_rfl
  | cons m rest =>
      obtain ⟨ref, kind, content⟩ := m
      rw [condenseSystemPrompt] at h
      split at h
      · cases content with
        | text original =>
            cases h
            have hPrompt := length_condensedText_le c T original.toList
            rw [String.length_toList] at hPrompt
            rw [totalChars_cons, totalChars_cons, messageChars, messageChars]
            show (String.ofList _).length + _ + _ ≤ original.length + _ + _
            rw [String.length_ofList]
            exact Nat.add_le_add_right (Nat.add_le_add_right hPrompt _) _
        | blocks bs =>
            simp only at h
            split at h
            · cases h
              have hPrompt := length_condensedText_le c T []
              rw [totalChars_cons, totalChars_cons, messageChars, messageChars]
              show (String.ofList _).length + _ + _ ≤ 0 + _ + _
              rw [String.length_ofList]
              exact Nat.add_le_add_right (Nat.add_le_add_right hPrompt _) _
            · cases h
      · cases h
        exact le_rfl

/-! ## The history -/

theorem truncateHistory_sublist (messages : List Message) (n : Nat) :
    (truncateHistory messages n).Sublist messages := by
  have hBefore : (messages.take (findLoopBoundary messages)).takeWhile Message.isSystem ++
      history messages = messages.take (findLoopBoundary messages) :=
    List.takeWhile_append_dropWhile
  conv_rhs => rw [← take_append_loopMessages messages, ← hBefore]
  rw [truncateHistory_eq, keptPart, List.append_assoc]
  apply List.Sublist.append (List.Sublist.refl _)
  exact (keepLast_suffix _ _).sublist.append (List.Sublist.refl _)

theorem totalChars_truncateHistory_le (messages : List Message) (n : Nat) :
    totalChars (truncateHistory messages n) ≤ totalChars messages :=
  ((truncateHistory_sublist messages n).map messageChars).sum_le_sum fun _ _ => Nat.zero_le _

/-! ## The tool results -/

/-- The characters of a tool result beyond the limit. -/
def excess (maxChars : Nat) (m : Message) : Option Nat :=
  match m.kind, m.content with
  | .tool _ _, .text s => if maxChars < s.length then some (s.length - maxChars) else none
  | _, _ => none

def noteChars (excess : Nat) : Nat := 23 + (Nat.toDigits 10 excess).length

/-- A cut: the limit and the list before it. -/
structure Cut where
  maxChars : Nat
  before : List Message

namespace Cut

variable (cut : Cut)

def after : List Message := truncateToolResults cut.before cut.maxChars

/-- The excesses of the tool results that are cut. -/
def excesses : List Nat := cut.before.filterMap (excess cut.maxChars)

/-- The notes are no longer than what they stand for, or by less than the estimate notices. -/
def Fits : Prop :=
  (cut.excesses.map noteChars).sum ≤ cut.excesses.sum + (3 - totalChars cut.before % 4)

end Cut

theorem messageChars_truncateToolResult (k : Nat) (m : Message) :
    messageChars (truncateToolResult k m) + (excess k m).getD 0 =
      messageChars m + ((excess k m).map noteChars).getD 0 := by
  obtain ⟨ref, kind, content⟩ := m
  cases kind with
  | tool id name =>
      cases content with
      | text s =>
          by_cases hLong : k < s.length
          · have hDigits : (toString (s.length - k)).length =
                (Nat.toDigits 10 (s.length - k)).length := by
              rw [← String.length_toList, ← Nat.toList_repr]
              rfl
            have hFirst : "\n... [truncated ".length = 16 := rfl
            have hLast : " chars]".length = 7 := rfl
            have hLength : (String.ofList (s.toList.take k) ++ "\n... [truncated " ++
                toString (s.length - k) ++ " chars]").length = k + noteChars (s.length - k) := by
              rw [String.length_append, String.length_append, String.length_append,
                String.length_ofList, List.length_take, String.length_toList, hDigits, hFirst, hLast,
                noteChars]
              omega
            rw [excess, truncateToolResult]
            simp only [if_pos hLong, Option.getD_some, Option.map_some]
            rw [messageChars, messageChars]
            show (_ ++ _ ++ _ ++ _ : String).length + _ + _ = s.length + _ + _
            rw [hLength]
            simp only [Message.toolCalls, List.map_nil, List.sum_nil]
            omega
          · rw [excess, truncateToolResult]
            simp only [if_neg hLong, Option.getD_none, Option.map_none]
      | blocks bs => rfl
  | system => rfl
  | human => rfl
  | ai calls => rfl

theorem totalChars_truncateToolResults (messages : List Message) (k : Nat) :
    totalChars (truncateToolResults messages k) + (messages.filterMap (excess k)).sum =
      totalChars messages + ((messages.filterMap (excess k)).map noteChars).sum := by
  induction messages with
  | nil => rfl
  | cons m messages ih =>
      have hHead := messageChars_truncateToolResult k m
      have hCut : truncateToolResults (m :: messages) k =
          truncateToolResult k m :: truncateToolResults messages k := rfl
      rw [hCut, totalChars_cons, totalChars_cons, List.filterMap_cons]
      cases hExcess : excess k m with
      | none =>
          rw [hExcess, Option.map_none, Option.getD_none] at hHead
          simp only
          omega
      | some e =>
          rw [hExcess, Option.map_some, Option.getD_some, Option.getD_some] at hHead
          simp only [List.sum_cons, List.map_cons]
          omega

namespace Cut

variable (cut : Cut)

theorem estimate_cut_le_iff : estimateTokens cut.after ≤ estimateTokens cut.before ↔ cut.Fits := by
  have hChars := totalChars_truncateToolResults cut.before cut.maxChars
  rw [estimateTokens_le_iff, Fits, excesses]
  rw [← after] at hChars
  omega

end Cut

/-! ## A call -/

/-- The cut of the default stages, unless the prompt cannot be condensed. -/
def defaultCut (c : MessageCompressor) (T : CharTables) (messages : List Message) (iteration : Nat) :
    Option Cut :=
  match if 1 < iteration then c.condenseSystemPrompt T messages else .ok messages with
  | .ok result => some ⟨c.maxToolChars, truncateHistory result c.maxHistory⟩
  | .error _ => none

/-- The cuts of the progressive passes that are made. -/
def passCuts (result : List Message) (target : Nat) : List Cut :=
  if estimateTokens result ≤ target then []
  else
    ⟨2500, truncateHistory result 1⟩ ::
      if estimateTokens (truncate result 1 2500) ≤ target then []
      else [⟨1500, truncateHistory (truncate result 1 2500) 0⟩]

/-- The truncation steps of the progressive passes that are made: the lists before and after each. -/
def passSteps (result : List Message) (target : Nat) : List (List Message × List Message) :=
  if estimateTokens result ≤ target then []
  else
    let first := truncate result 1 2500
    (result, truncateHistory result 1) :: (truncateHistory result 1, first) ::
      if estimateTokens first ≤ target then []
      else [(first, truncateHistory first 0), (truncateHistory first 0, truncate first 0 1500)]

section Call

variable (c : MessageCompressor) (T : CharTables) (messages : List Message) (iteration : Nat)
  (targetTokens : Option Nat)

/-- What the passes of a call start from, with their target. -/
def passesFrom : Option (List Message × Nat) :=
  if wellUnder messages targetTokens then none
  else
    (c.defaultCut T messages iteration).bind fun cut =>
      targetTokens.map fun target => (cut.after, target)

/-- The cuts of a call. -/
def cuts : List Cut :=
  if wellUnder messages targetTokens then []
  else
    match c.defaultCut T messages iteration with
    | none => []
    | some cut => cut :: targetTokens.elim [] (passCuts cut.after)

/-- The result has no greater estimate than the list, nor has it after a truncation step of the
passes. -/
structure NeverInflates : Prop where
  overall : ∀ result, c.compress T messages iteration targetTokens = .ok result →
    estimateTokens result ≤ estimateTokens messages
  passes : ∀ start target, c.passesFrom T messages iteration targetTokens = some (start, target) →
    ∀ step ∈ passSteps start target, estimateTokens step.2 ≤ estimateTokens step.1

end Call

/-- What is removed ahead of the cuts of a call: of the prompt, and from the history. -/
def removedAhead (start : List Message) : List Cut → Nat
  | [] => 0
  | cut :: cuts => totalChars start - totalChars cut.before + removedAhead cut.after cuts

/-- The notes of the cuts together are no longer than what the call removes, or by less than the
estimate notices. -/
def Covered (start : List Message) (cuts : List Cut) : Prop :=
  (cuts.map fun cut => (cut.excesses.map noteChars).sum).sum ≤
    (cuts.map fun cut => cut.excesses.sum).sum + removedAhead start cuts +
      (3 - totalChars start % 4)

/-- Cuts made one after the other, each on a list that is no longer than the one before it. -/
inductive Chained : List Message → List Cut → List Message → Prop
  | nil (start : List Message) : Chained start [] start
  | cons {start result : List Message} {cut : Cut} {cuts : List Cut}
      (hLess : totalChars cut.before ≤ totalChars start) (hRest : Chained cut.after cuts result) :
      Chained start (cut :: cuts) result

section Runs

variable {start result : List Message} {cuts : List Cut}

theorem Chained.totalChars_eq (h : Chained start cuts result) :
    totalChars result + (cuts.map fun cut => cut.excesses.sum).sum + removedAhead start cuts =
      totalChars start + (cuts.map fun cut => (cut.excesses.map noteChars).sum).sum := by
  induction h with
  | nil => rfl
  | @cons start result cut cuts hLess hRest ih =>
      have hCut := totalChars_truncateToolResults cut.before cut.maxChars
      rw [← Cut.after, ← Cut.excesses] at hCut
      rw [removedAhead, List.map_cons, List.map_cons, List.sum_cons, List.sum_cons]
      omega

theorem Chained.estimate_le_iff (h : Chained start cuts result) :
    estimateTokens result ≤ estimateTokens start ↔ Covered start cuts := by
  have hChars := h.totalChars_eq
  rw [estimateTokens_le_iff, Covered]
  omega

theorem chained_passCuts (start : List Message) (target : Nat) :
    Chained start (passCuts start target) (progressiveCompress start target) := by
  rw [passCuts, progressiveCompress]
  split
  · exact .nil start
  · apply Chained.cons (totalChars_truncateHistory_le start 1)
    show Chained (truncate start 1 2500) _ _
    simp only
    split
    · exact .nil _
    · exact .cons (totalChars_truncateHistory_le _ 0) (.nil _)

theorem passSteps_iff (start : List Message) (target : Nat) :
    (∀ step ∈ passSteps start target, estimateTokens step.2 ≤ estimateTokens step.1) ↔
      ∀ cut ∈ passCuts start target, cut.Fits := by
  have hHistory : ∀ (messages : List Message) n,
      estimateTokens (truncateHistory messages n) ≤ estimateTokens messages :=
    fun messages n => estimateTokens_mono (totalChars_truncateHistory_le messages n)
  have hCut : ∀ (messages : List Message) n k,
      estimateTokens (truncate messages n k) ≤ estimateTokens (truncateHistory messages n) ↔
        Cut.Fits ⟨k, truncateHistory messages n⟩ :=
    fun messages n k => Cut.estimate_cut_le_iff ⟨k, truncateHistory messages n⟩
  rw [passSteps, passCuts]
  by_cases hFirst : estimateTokens start ≤ target
  · rw [if_pos hFirst, if_pos hFirst]
    exact iff_of_true (fun _ h => absurd h List.not_mem_nil) fun _ h => absurd h List.not_mem_nil
  · rw [if_neg hFirst, if_neg hFirst]
    by_cases hSecond : estimateTokens (truncate start 1 2500) ≤ target
    · simp only [if_pos hSecond, List.forall_mem_cons, hHistory, hCut, true_and, List.not_mem_nil,
        false_implies, implies_true, and_true]
    · simp only [if_neg hSecond, List.forall_mem_cons, hHistory, hCut, true_and, List.not_mem_nil,
        false_implies, implies_true, and_true]

end Runs

/-! ## The whole call -/

section Compress

variable {c : MessageCompressor} {T : CharTables} {messages : List Message} {iteration : Nat}
  {targetTokens : Option Nat}

theorem defaultStages_eq :
    (∀ cut, c.defaultCut T messages iteration = some cut →
        c.defaultStages T messages iteration = .ok cut.after ∧
          totalChars cut.before ≤ totalChars messages) ∧
      (c.defaultCut T messages iteration = none →
        ∃ e, c.defaultStages T messages iteration = .error e) := by
  by_cases hIteration : 1 < iteration
  · cases hPrompt : c.condenseSystemPrompt T messages with
    | error e =>
        have hCut : c.defaultCut T messages iteration = none := by
          rw [defaultCut, if_pos hIteration, hPrompt]
        refine ⟨fun cut h => ?_, fun _ => ⟨e, ?_⟩⟩
        · rw [hCut] at h
          cases h
        · rw [defaultStages, if_pos hIteration, hPrompt]
          rfl
    | ok condensed =>
        have hCut : c.defaultCut T messages iteration =
            some ⟨c.maxToolChars, truncateHistory condensed c.maxHistory⟩ := by
          rw [defaultCut, if_pos hIteration, hPrompt]
        refine ⟨fun cut h => ?_, fun h => ?_⟩
        · obtain rfl := Option.some.inj (hCut.symm.trans h)
          refine ⟨?_, ?_⟩
          · rw [defaultStages, if_pos hIteration, hPrompt]
            rfl
          · exact (totalChars_truncateHistory_le _ _).trans
              (totalChars_condenseSystemPrompt_le hPrompt)
        · rw [hCut] at h
          cases h
  · have hCut : c.defaultCut T messages iteration =
        some ⟨c.maxToolChars, truncateHistory messages c.maxHistory⟩ := by
      rw [defaultCut, if_neg hIteration]
    refine ⟨fun cut h => ?_, fun h => ?_⟩
    · obtain rfl := Option.some.inj (hCut.symm.trans h)
      refine ⟨?_, totalChars_truncateHistory_le _ _⟩
      rw [defaultStages, if_neg hIteration]
      rfl
    · rw [hCut] at h
      cases h

theorem chained_compress {result : List Message}
    (h : c.compress T messages iteration targetTokens = .ok result) :
    Chained messages (c.cuts T messages iteration targetTokens) result := by
  rw [compress] at h
  rw [cuts]
  split at h
  · next hUnder =>
      rw [if_pos hUnder]
      cases h
      exact .nil messages
  · next hUnder =>
      rw [if_neg hUnder]
      cases hCut : c.defaultCut T messages iteration with
      | none =>
          obtain ⟨e, hError⟩ := defaultStages_eq.2 hCut
          rw [hError] at h
          cases h
      | some cut =>
          obtain ⟨hStages, hLess⟩ := defaultStages_eq.1 cut hCut
          rw [hStages] at h
          cases targetTokens with
          | none =>
              cases h
              exact .cons hLess (.nil _)
          | some target =>
              cases h
              exact .cons hLess (chained_passCuts _ _)

theorem cuts_of_error {e : String} (h : c.compress T messages iteration targetTokens = .error e) :
    c.cuts T messages iteration targetTokens = [] := by
  rw [compress] at h
  split at h
  · cases h
  · next hUnder =>
      rw [cuts, if_neg hUnder]
      cases hCut : c.defaultCut T messages iteration with
      | none => rfl
      | some cut =>
          rw [(defaultStages_eq.1 cut hCut).1] at h
          cases targetTokens <;> cases h

theorem passes_iff :
    (∀ start target, c.passesFrom T messages iteration targetTokens = some (start, target) →
        ∀ step ∈ passSteps start target, estimateTokens step.2 ≤ estimateTokens step.1) ↔
      ∀ cut ∈ (c.cuts T messages iteration targetTokens).tail, cut.Fits := by
  rw [passesFrom, cuts]
  by_cases hUnder : wellUnder messages targetTokens = true
  · rw [if_pos hUnder, if_pos hUnder]
    exact iff_of_true (fun _ _ h => by cases h) fun _ h => absurd h List.not_mem_nil
  · rw [if_neg hUnder, if_neg hUnder]
    cases c.defaultCut T messages iteration with
    | none => exact iff_of_true (fun _ _ h => by cases h) fun _ h => absurd h List.not_mem_nil
    | some cut =>
        cases targetTokens with
        | none => exact iff_of_true (fun _ _ h => by cases h) fun _ h => absurd h List.not_mem_nil
        | some target =>
            show _ ↔ ∀ other ∈ passCuts cut.after target, other.Fits
            rw [← passSteps_iff]
            constructor
            · exact fun h => h _ _ rfl
            · rintro h start target' hSame
              cases hSame
              exact h

/-- A call never inflates the list exactly if its notes are covered by what it removes, and the cuts of
its passes fit. -/
theorem neverInflates_iff (c : MessageCompressor) (T : CharTables) (messages : List Message)
    (iteration : Nat) (targetTokens : Option Nat) :
    c.NeverInflates T messages iteration targetTokens ↔
      Covered messages (c.cuts T messages iteration targetTokens) ∧
        ∀ cut ∈ (c.cuts T messages iteration targetTokens).tail, cut.Fits := by
  have hOverall : (∀ result, c.compress T messages iteration targetTokens = .ok result →
      estimateTokens result ≤ estimateTokens messages) ↔
        Covered messages (c.cuts T messages iteration targetTokens) := by
    cases hCompress : c.compress T messages iteration targetTokens with
    | error e =>
        rw [cuts_of_error hCompress]
        exact iff_of_true (fun _ h => by cases h) (Nat.zero_le _)
    | ok result =>
        rw [← (chained_compress hCompress).estimate_le_iff]
        constructor
        · exact fun h => h result rfl
        · rintro h other hSame
          cases hSame
          exact h
  rw [← hOverall, ← passes_iff]
  exact ⟨fun h => ⟨h.overall, h.passes⟩, fun h => ⟨h.1, h.2⟩⟩

end Compress

/-- A question, a tool call and its result. -/
def withResult (text : String) : List Message :=
  [⟨0, .human, .text "Show my portfolio"⟩, ⟨1, .ai [⟨"portfolio", "call_1", ""⟩], .text ""⟩,
    ⟨2, .tool "call_1" none, .text text⟩]

theorem excesses_withResult {text : String} (h : text.length = 4001) :
    Cut.excesses ⟨4000, withResult text⟩ = [1] := by
  have hOver : excess 4000 ⟨2, .tool "call_1" none, .text text⟩ = some 1 := by
    rw [excess]
    simp only [h]
    rfl
  show List.filterMap (excess 4000) [_, _, _] = [1]
  rw [List.filterMap_cons_none rfl, List.filterMap_cons_none rfl, List.filterMap_cons_some hOver]
  rfl

/-- A tool result one character over the limit gets longer. -/
theorem not_neverInflates_result :
    ¬ NeverInflates {} .ascii (withResult (String.ofList (List.replicate 4001 'x'))) 1 none := by
  have hLong : (String.ofList (List.replicate 4001 'x')).length = 4001 := by
    rw [String.length_ofList, List.length_replicate]
  revert hLong
  generalize String.ofList (List.replicate 4001 'x') = text
  intro hLong h
  have hOut : compress {} .ascii (withResult text) 1 none =
      .ok (Cut.after ⟨4000, withResult text⟩) := rfl
  have hFits := (Cut.estimate_cut_le_iff ⟨4000, withResult text⟩).mp (h.overall _ hOut)
  have hNote : noteChars 1 = 24 := rfl
  rw [Cut.Fits, excesses_withResult hLong, List.map_singleton, List.sum_singleton,
    List.sum_singleton, hNote] at hFits
  omega

end AsetPlatform.Llm.MessageCompressor

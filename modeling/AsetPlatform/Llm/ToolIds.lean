import AsetPlatform.Llm.FallbackCascade
import Mathlib.Data.List.Nodup
import Mathlib.Data.String.Basic

/-!
# Tool-call ids made acceptable

`backend/llm_fallback.py`, `_sanitize_tool_ids`. Both sides of a pair are rewritten by one function, so
that a result keeps naming its call (`callIds_sanitizeToolIds`, `answerId_sanitizeToolIds`). An empty id
and an id in front of a newline stay as they are (`matches_sanitizeId_iff`), and two ids become one
exactly if they differ only where both have a character that is replaced or an underscore
(`sanitizeId_eq_iff`).
-/

set_option autoImplicit false

namespace AsetPlatform.Llm.ToolIds

/-! ## Linked conversations -/

/-- The characters of `[a-zA-Z0-9_-]`. -/
def allowed (c : Char) : Bool := c.isAlphanum || c == '_' || c == '-'

/-- The pattern of the target: one character or more, all of them allowed. -/
def Matches (id : String) : Prop := id.toList ≠ [] ∧ ∀ c ∈ id.toList, allowed c = true

/-- The ids of the tool calls, in their order. -/
def callIds (messages : List Message) : List String :=
  messages.flatMap fun m => m.toolCalls.map ToolCall.id

/-- The id a tool message names. -/
def answerId (m : Message) : Option String :=
  match m.kind with
  | .tool id _ => some id
  | _ => none

/-- The tool-call ids are distinct, and each tool message names one of them. -/
structure Linked (messages : List Message) : Prop where
  distinct : (callIds messages).Nodup
  named : ∀ m ∈ messages, ∀ id ∈ answerId m, id ∈ callIds messages

/-- What rewriting the ids should do. -/
structure KeepsLinks (messages rewritten : List Message) : Prop where
  callsMatch : ∀ id ∈ callIds rewritten, Matches id
  answersMatch : ∀ m ∈ rewritten, ∀ id ∈ answerId m, Matches id
  distinct : (callIds rewritten).Nodup
  links : ∀ (i j : Nat) (id : String), messages[i]?.bind answerId = some id →
    (callIds messages)[j]? = some id → ∃ id', rewritten[i]?.bind answerId = some id' ∧ (callIds rewritten)[j]? = some id'
  unchanged : ∀ (j : Nat) (id : String), (callIds messages)[j]? = some id → Matches id →
    (callIds rewritten)[j]? = some id

/-- An id the pattern accepts, and a newline behind it. -/
def BeforeNewline (id : String) : Prop :=
  ∃ s, s ≠ [] ∧ (∀ c ∈ s, allowed c = true) ∧ id.toList = s ++ ['\n']

/-- A character whose place is taken by an underscore, or an underscore. -/
def Blank (c : Char) : Prop := allowed c = false ∨ c = '_'

/-- Two ids that differ only where both have a blank. -/
def Alike (a b : String) : Prop :=
  List.Forall₂ (fun c d => c = d ∨ Blank c ∧ Blank d) a.toList b.toList

/-! ## One id -/

/-- The replacement of a character. -/
def replaced (c : Char) : Char := if allowed c then c else '_'

theorem sanitizeId_eq (id : String) :
    sanitizeId id =
      if id.isEmpty || validId id.toList then id else String.ofList (id.toList.map replaced) := rfl

theorem validId_eq (id : List Char) :
    validId id = (!(if id.getLast? = some '\n' then id.dropLast else id).isEmpty &&
      (if id.getLast? = some '\n' then id.dropLast else id).all allowed) := rfl

theorem validId_iff (id : String) :
    validId id.toList = true ↔ Matches id ∨ BeforeNewline id := by
  rw [validId_eq]
  by_cases hLast : id.toList.getLast? = some '\n'
  · obtain ⟨s, hs⟩ := List.getLast?_eq_some_iff.mp hLast
    have hNot : ¬ Matches id := by
      intro hMatches
      have hNewline := hMatches.2 '\n' (List.mem_of_getLast? hLast)
      exact absurd hNewline (by decide)
    rw [if_pos hLast, hs, List.dropLast_concat, Bool.and_eq_true, List.all_eq_true,
      Bool.not_eq_true', List.isEmpty_eq_false_iff]
    constructor
    · rintro ⟨hne, hAll⟩
      exact Or.inr ⟨s, hne, hAll, hs⟩
    · rintro (hMatches | ⟨t, hne, hAll, ht⟩)
      · exact absurd hMatches hNot
      · rw [hs] at ht
        obtain rfl := List.append_cancel_right ht
        exact ⟨hne, hAll⟩
  · rw [if_neg hLast, Bool.and_eq_true, List.all_eq_true, Bool.not_eq_true',
      List.isEmpty_eq_false_iff]
    constructor
    · exact fun hMatches => Or.inl hMatches
    · rintro (hMatches | ⟨t, -, -, ht⟩)
      · exact hMatches
      · exact absurd (by rw [ht, List.getLast?_concat]) hLast

theorem allowed_replaced (c : Char) : allowed (replaced c) = true := by
  rw [replaced]
  split
  · assumption
  · rfl

theorem replaced_eq_iff (c d : Char) : replaced c = replaced d ↔ c = d ∨ Blank c ∧ Blank d := by
  have hOf : ∀ e : Char, replaced e = '_' ↔ Blank e := by
    intro e
    rw [replaced, Blank]
    cases hAllowed : allowed e <;> simp
  have hSelf : ∀ e : Char, ¬ Blank e → replaced e = e := by
    intro e he
    exact if_pos (Bool.eq_true_of_not_eq_false fun hNot => he (Or.inl hNot))
  constructor
  · intro h
    by_cases hc : Blank c
    · exact Or.inr ⟨hc, (hOf d).mp (h ▸ (hOf c).mpr hc)⟩
    · by_cases hd : Blank d
      · exact absurd ((hOf c).mp (h.trans ((hOf d).mpr hd))) hc
      · rw [hSelf c hc, hSelf d hd] at h
        exact Or.inl h
  · rintro (rfl | ⟨hc, hd⟩)
    · rfl
    · rw [(hOf c).mpr hc, (hOf d).mpr hd]

theorem sanitizeId_of_matches {id : String} (h : Matches id) : sanitizeId id = id := by
  rw [sanitizeId_eq, (validId_iff id).mpr (Or.inl h), Bool.or_true, if_pos rfl]

theorem toList_sanitizeId {id : String} (h : ¬ BeforeNewline id) :
    (sanitizeId id).toList = id.toList.map replaced := by
  rw [sanitizeId_eq]
  split
  · next hKept =>
      rcases Bool.or_eq_true_iff.mp hKept with hEmpty | hValid
      · rw [String.isEmpty_iff.mp hEmpty]
        rfl
      · have hMatches := ((validId_iff id).mp hValid).resolve_right h
        symm
        apply (List.map_congr_left fun c hc => ?_).trans (List.map_id _)
        exact if_pos (hMatches.2 c hc)
  · exact String.toList_ofList

theorem matches_sanitizeId_iff (id : String) :
    Matches (sanitizeId id) ↔ id ≠ "" ∧ ¬ BeforeNewline id := by
  by_cases hNewline : BeforeNewline id
  · have hSame : sanitizeId id = id := by
      rw [sanitizeId_eq, (validId_iff id).mpr (Or.inr hNewline), Bool.or_true, if_pos rfl]
    refine iff_of_false ?_ fun h => h.2 hNewline
    rw [hSame]
    intro hMatches
    obtain ⟨s, -, -, hs⟩ := hNewline
    have hLast := hMatches.2 '\n' (by rw [hs]; exact List.mem_append_right s List.mem_cons_self)
    exact absurd hLast (by decide)
  · rw [Matches, toList_sanitizeId hNewline, ne_eq, List.map_eq_nil_iff, String.toList_eq_nil_iff]
    constructor
    · exact fun h => ⟨h.1, hNewline⟩
    · rintro ⟨hne, -⟩
      refine ⟨hne, fun c hc => ?_⟩
      obtain ⟨d, -, rfl⟩ := List.mem_map.mp hc
      exact allowed_replaced d

theorem sanitizeId_eq_iff {a b : String} (ha : ¬ BeforeNewline a) (hb : ¬ BeforeNewline b) :
    sanitizeId a = sanitizeId b ↔ Alike a b := by
  rw [← String.toList_inj, toList_sanitizeId ha, toList_sanitizeId hb, ← List.forall₂_eq_eq_eq,
    List.forall₂_map_left_iff, List.forall₂_map_right_iff, Alike]
  simp only [replaced_eq_iff]

/-! ## Conversations -/

theorem callIds_sanitizeToolIds (messages : List Message) :
    callIds (sanitizeToolIds messages) = (callIds messages).map sanitizeId := by
  rw [callIds, callIds, sanitizeToolIds, List.flatMap_map, List.map_flatMap]
  congr 1
  funext m
  cases hKind : m.kind with
  | ai calls => simp [Message.toolCalls, hKind, Function.comp_def]
  | system => simp [Message.toolCalls, hKind]
  | human => simp [Message.toolCalls, hKind]
  | tool id name => simp [Message.toolCalls, hKind]

theorem answerId_sanitizeToolIds (messages : List Message) (i : Nat) :
    (sanitizeToolIds messages)[i]?.bind answerId =
      (messages[i]?.bind answerId).map sanitizeId := by
  rw [sanitizeToolIds, List.getElem?_map]
  cases messages[i]? with
  | none => rfl
  | some m =>
      cases hKind : m.kind <;> simp [answerId, hKind]

/-- The links of a conversation are kept exactly if no id is empty or stands before a newline, and no
two ids differ in blanks only. -/
theorem keepsLinks_iff {messages : List Message} (h : Linked messages) :
    KeepsLinks messages (sanitizeToolIds messages) ↔
      (∀ id ∈ callIds messages, id ≠ "" ∧ ¬ BeforeNewline id) ∧
        ∀ a ∈ callIds messages, ∀ b ∈ callIds messages, Alike a b → a = b := by
  constructor
  · intro hKept
    have hEach : ∀ id ∈ callIds messages, id ≠ "" ∧ ¬ BeforeNewline id := by
      intro id hId
      apply (matches_sanitizeId_iff id).mp
      apply hKept.callsMatch
      rw [callIds_sanitizeToolIds]
      exact List.mem_map_of_mem hId
    refine ⟨hEach, ?_⟩
    intro a ha b hb hAlike
    have hNodup := hKept.distinct
    rw [callIds_sanitizeToolIds] at hNodup
    exact List.inj_on_of_nodup_map hNodup ha hb
      ((sanitizeId_eq_iff (hEach a ha).2 (hEach b hb).2).mpr hAlike)
  · rintro ⟨hEach, hApart⟩
    have hMatches : ∀ id ∈ callIds messages, Matches (sanitizeId id) :=
      fun id hId => (matches_sanitizeId_iff id).mpr (hEach id hId)
    refine ⟨?_, ?_, ?_, ?_, ?_⟩
    · intro id hId
      rw [callIds_sanitizeToolIds] at hId
      obtain ⟨original, hOriginal, rfl⟩ := List.mem_map.mp hId
      exact hMatches original hOriginal
    · intro m hm id hId
      obtain ⟨i, hi⟩ := List.mem_iff_getElem?.mp hm
      have hAnswer := answerId_sanitizeToolIds messages i
      rw [hi, Option.bind_some, Option.mem_def.mp hId] at hAnswer
      obtain ⟨id, hNamed, rfl⟩ := Option.map_eq_some_iff.mp hAnswer.symm
      obtain ⟨m, hMessage, hNamed⟩ := Option.bind_eq_some_iff.mp hNamed
      exact hMatches id (h.named m (List.mem_of_getElem? hMessage) id hNamed)
    · rw [callIds_sanitizeToolIds]
      apply List.Nodup.map_on _ h.distinct
      intro a ha b hb hSame
      exact hApart a ha b hb ((sanitizeId_eq_iff (hEach a ha).2 (hEach b hb).2).mp hSame)
    · intro i j id hAnswer hCall
      refine ⟨sanitizeId id, ?_, ?_⟩
      · rw [answerId_sanitizeToolIds, hAnswer, Option.map_some]
      · rw [callIds_sanitizeToolIds, List.getElem?_map, hCall, Option.map_some]
    · intro j id hCall hMatch
      rw [callIds_sanitizeToolIds, List.getElem?_map, hCall, Option.map_some,
        sanitizeId_of_matches hMatch]

def twoCalls (first second : String) : List Message :=
  [⟨0, .ai [⟨"search", first, "\x7b\x7d"⟩, ⟨"price", second, "\x7b\x7d"⟩], .text ""⟩,
    ⟨1, .tool first none, .text "found"⟩, ⟨2, .tool second none, .text "12.5"⟩]

theorem linked_twoCalls {first second : String} (hne : first ≠ second) :
    Linked (twoCalls first second) where
  distinct := by simp [twoCalls, callIds, Message.toolCalls, hne]
  named := by simp [twoCalls, callIds, Message.toolCalls, answerId]

/-- A dot and a colon. -/
theorem keepsLinks_iff_twoCalls :
    KeepsLinks (twoCalls "call.1" "call:2") (sanitizeToolIds (twoCalls "call.1" "call:2")) ↔
      (∀ id ∈ callIds (twoCalls "call.1" "call:2"), id ≠ "" ∧ ¬ BeforeNewline id) ∧
        ∀ a ∈ callIds (twoCalls "call.1" "call:2"), ∀ b ∈ callIds (twoCalls "call.1" "call:2"),
          Alike a b → a = b :=
  keepsLinks_iff (linked_twoCalls (by decide))

/-- A dot and an underscore at the same place. -/
theorem not_keepsLinks_of_dot :
    Linked (twoCalls "call.1" "call_1") ∧
      ¬ KeepsLinks (twoCalls "call.1" "call_1") (sanitizeToolIds (twoCalls "call.1" "call_1")) := by
  refine ⟨linked_twoCalls (by decide), fun hKept => ?_⟩
  have hSame : callIds (sanitizeToolIds (twoCalls "call.1" "call_1")) = ["call_1", "call_1"] := by
    decide
  have hDistinct := hKept.distinct
  rw [hSame] at hDistinct
  exact absurd hDistinct (by decide)

end AsetPlatform.Llm.ToolIds

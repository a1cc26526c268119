import AsetPlatform.ScreenQL.Grammar
import AsetPlatform.ScreenQL.Lexemes

/-!
# Quoted values in a query

A value is written between double quotes, with a backslash before each backslash and each double
quote in it. The token expression reads past both escapes, but `tokenize` takes only the backslash
before a double quote off again, and it has cut the text into lines before it looks at the quotes.
A value comes back exactly if it has no backslash and no line break (`roundTrips_iff`).
-/

set_option autoImplicit false

namespace AsetPlatform.ScreenQL

open AsetPlatform.Library AsetPlatform.Library.Sql

/-- A text with a backslash before each backslash and each double quote. -/
def escape (s : List Char) : List Char :=
  s.flatMap fun c => if c = '\\' ∨ c = '"' then ['\\', c] else [c]

/-- A text as a literal of a query. -/
def quote (s : List Char) : List Char := '"' :: escape s ++ ['"']

def TokenKind.stringValue : TokenKind → Option (List Char)
  | .valueStr s => some s
  | _ => none

/-- A condition up to its value: a word, an operator and the white space behind each. -/
structure Slot (T : CharTables) where
  first : Char
  word : List Char
  gap : List Char
  operator : Operator
  gapAfter : List Char
  starts : (first.isAlpha || first == '_') = true
  goesOn : ∀ c ∈ word, isWordChar c = true
  spaces : ∀ c ∈ gap ++ gapAfter, T.isSpace c = true ∧ isLineBreak c = false
  apart : operator = .contains → gap ≠ []

namespace Slot

variable {T : CharTables} (slot : Slot T)

/-- The condition with a literal in the place of its value. -/
def text (s : List Char) : List Char :=
  slot.first :: slot.word ++ (slot.gap ++ (slot.operator.text.toList ++ (slot.gapAfter ++ quote s)))

/-- The value is the one string of the tokens. -/
def RoundTrips (s : List Char) : Prop :=
  ∃ ts, tokenize T (slot.text s) = .ok ts ∧ ts.filterMap (fun t => t.kind.stringValue) = [s]

end Slot

/-! ## The two escapes -/

/-- What a literal is read as: each backslash stands twice. -/
def doubled (s : List Char) : List Char :=
  s.flatMap fun c => if c = '\\' then ['\\', '\\'] else [c]

section Escapes

variable {s rest : List Char} {c : Char}

theorem escape_cons (c : Char) (s : List Char) :
    escape (c :: s) = (if c = '\\' ∨ c = '"' then ['\\', c] else [c]) ++ escape s := List.flatMap_cons

theorem doubled_cons (c : Char) (s : List Char) :
    doubled (c :: s) = (if c = '\\' then ['\\', '\\'] else [c]) ++ doubled s := List.flatMap_cons

theorem head_escape (s : List Char) : (escape s).head? ≠ some '"' := by
  cases s with
  | nil => nofun
  | cons c s =>
      rw [escape_cons]
      split_ifs with hc
      · simp
      · push Not at hc
        simpa using hc.2

theorem unescapeQuotes_cons (h : c = '\\' → s.head? ≠ some '"') :
    unescapeQuotes (c :: s) = c :: unescapeQuotes s := by
  rw [unescapeQuotes]
  intro rest hc hs
  exact h hc (by rw [hs]; rfl)

theorem unescapeQuotes_escape (s : List Char) : unescapeQuotes (escape s) = doubled s := by
  induction s with
  | nil => rfl
  | cons c s ih =>
      rw [escape_cons, doubled_cons, ← ih]
      by_cases hSlash : c = '\\'
      · subst hSlash
        rw [if_pos (.inl rfl), if_pos rfl]
        -- the second backslash is in front of no quote either
        show unescapeQuotes ('\\' :: '\\' :: escape s) = _
        rw [unescapeQuotes_cons fun _ => by simp, unescapeQuotes_cons fun _ => head_escape s]
        rfl
      · rw [if_neg hSlash]
        by_cases hQuote : c = '"'
        · subst hQuote
          rfl
        · rw [if_neg (not_or_intro hSlash hQuote), List.singleton_append,
            unescapeQuotes_cons fun hc => absurd hc hSlash]
          rfl

theorem scanQuoted_escape (s rest : List Char) :
    scanQuoted (escape s ++ '"' :: rest) = some (escape s, rest) := by
  induction s with
  | nil => rfl
  | cons c s ih =>
      rw [escape_cons]
      by_cases hc : c = '\\' ∨ c = '"'
      · have hLine : c ≠ '\n' := by
          rintro rfl
          revert hc
          decide
        rw [if_pos hc]
        show scanQuoted ('\\' :: c :: (escape s ++ '"' :: rest)) = _
        rw [scanQuoted, if_neg hLine, ih]
        rfl
      · push Not at hc
        rw [if_neg (not_or_intro hc.1 hc.2), List.singleton_append, List.cons_append,
          scanQuoted_plain hc.2 hc.1, ih]
        rfl

theorem scanStr_quote (s rest : List Char) :
    scanStr (quote s ++ rest) = some (.valueStr (doubled s), rest) := by
  rw [quote, List.cons_append, List.cons_append, List.append_assoc, List.singleton_append, scanStr,
    scanQuoted_escape, Option.map_some, unescapeQuotes_escape]

theorem doubled_eq_self_iff : doubled s = s ↔ '\\' ∉ s := by
  induction s with
  | nil => exact iff_of_true rfl List.not_mem_nil
  | cons c s ih =>
      rw [doubled_cons, List.mem_cons, not_or]
      by_cases hc : c = '\\'
      · subst hc
        refine iff_of_false (fun h => ?_) fun h => h.1 rfl
        -- the doubled text is longer
        have hLength := congrArg List.length h
        have hLe : ∀ u : List Char, u.length ≤ (doubled u).length := by
          intro u
          induction u with
          | nil => exact Nat.le_refl _
          | cons d u ihu =>
              rw [doubled_cons]
              split_ifs <;> simp only [List.length_append, List.length_cons, List.length_nil] <;> omega
        have hTail := hLe s
        rw [if_pos rfl] at hLength
        simp only [List.length_append, List.length_cons, List.length_nil] at hLength
        omega
      · rw [if_neg hc, List.singleton_append, List.cons.injEq, ih]
        exact ⟨fun h => ⟨fun h' => hc h'.symm, h.2⟩, fun h => ⟨rfl, h.2⟩⟩

end Escapes

/-! ## The tokens of a condition -/

section Tokens

variable {T : CharTables} {s text rest : List Char} {k : TokenKind}

theorem stringValue_wordToken (word : List Char) : (wordToken T word).stringValue = none := by
  simp only [wordToken]
  split_ifs <;> rfl

theorem eq_of_stringValue (h : k.stringValue = some s) : k = .valueStr s := by
  cases k <;> cases h
  rfl

theorem stringValue_operator (o : Operator) : o.token.stringValue = none := by cases o <;> rfl

theorem apart_spaces {p : Char → Bool} {w : List Char} (hw : ∀ c ∈ w, T.isSpace c = true)
    (hp : ∀ c, T.isSpace c = true → p c = false) (h : w = [] → Apart p s) : Apart p (w ++ s) := by
  cases w with
  | nil => exact h rfl
  | cons c w =>
      intro d hd
      cases hd
      exact hp c (hw c List.mem_cons_self)

theorem scan_operator (hT : Lexical T) (o : Operator) (hEq : Apart (· == '=') rest)
    (hWord : o = .contains → Apart isWordChar rest) :
    scan T (o.text.toList ++ rest) = some (o.token, rest) := by
  cases o with
  | compare o =>
      apply scan_of_scanOp
      cases o with
      | gt => exact scanOp_gt hEq
      | lt => exact scanOp_lt hEq
      | _ => rfl
  | contains =>
      apply scan_of_scanWord hT
      have hUpper : T.upper "CONTAINS".toList = "CONTAINS".toList := by
        rw [upper_ascii hT (by decide)]
        decide
      have hToken : wordToken T "CONTAINS".toList = .contains := by
        rw [wordToken, hUpper]
        decide
      rw [Operator.token, ← hToken]
      show scanWord T ('C' :: "ONTAINS".toList ++ rest) =
        some (wordToken T ('C' :: "ONTAINS".toList), rest)
      exact scanWord_word (by decide) (by decide) (hWord rfl)

theorem head_operator (hT : Lexical T) (o : Operator) :
    ∃ c u, o.text.toList = c :: u ∧ T.isSpace c = false ∧ (o ≠ .contains → isWordChar c = false) := by
  cases o with
  | compare o =>
      cases o <;>
        exact ⟨_, _, rfl, hT.visible _ (by decide) (by decide), fun _ => by decide⟩
  | contains => exact ⟨_, _, rfl, hT.visible _ (by decide) (by decide), fun h => absurd rfl h⟩

theorem scans_slot (hT : Lexical T) (slot : Slot T) (s : List Char) :
    Scans T (slot.text s)
      [wordToken T (slot.first :: slot.word), slot.operator.token, .valueStr (doubled s)] [] := by
  have hQuoteSpace := hT.visible '"' (by decide) (by decide)
  have hGap : ∀ c ∈ slot.gap, T.isSpace c = true := fun c hc =>
    (slot.spaces c (List.mem_append_left _ hc)).1
  have hGapAfter : ∀ c ∈ slot.gapAfter, T.isSpace c = true := fun c hc =>
    (slot.spaces c (List.mem_append_right _ hc)).1
  have hNoWord : ∀ c, T.isSpace c = true → isWordChar c = false := by
    intro c hc
    by_contra hNot
    rw [not_space_of_isWordChar hT (Bool.not_eq_false _ |>.mp hNot)] at hc
    cases hc
  obtain ⟨c, u, hText, hVisible, hMark⟩ := head_operator hT slot.operator
  -- the word
  have hFirst : matchToken T (slot.text s) = some (wordToken T (slot.first :: slot.word),
      slot.operator.text.toList ++ (slot.gapAfter ++ quote s)) := by
    have hEnd : Apart isWordChar
        (slot.gap ++ (slot.operator.text.toList ++ (slot.gapAfter ++ quote s))) := by
      apply apart_spaces hGap hNoWord
      intro hEmpty
      rw [hText]
      intro d hd
      cases hd
      exact hMark fun h => slot.apart h hEmpty
    have hScan := scan_of_scanWord hT (scanWord_word slot.starts slot.goesOn hEnd)
    rw [List.cons_append] at hScan
    rw [Slot.text, List.cons_append, matchToken_of_scan
      (not_space_of_isWordChar hT (isWordChar_of_start slot.starts)) hScan,
      List.dropWhile_append_of_pos hGap, hText, List.cons_append,
      List.dropWhile_cons_of_neg (Bool.eq_false_iff.mp hVisible)]
  -- the operator
  have hSecond : matchToken T (slot.operator.text.toList ++ (slot.gapAfter ++ quote s)) =
      some (slot.operator.token, quote s) := by
    have hEq : Apart (· == '=') (slot.gapAfter ++ quote s) := by
      apply apart_spaces hGapAfter fun c hc => not_space_eq hT hc (by decide) (by decide)
      intro _ d hd
      cases hd
      decide
    have hWord : Apart isWordChar (slot.gapAfter ++ quote s) := by
      apply apart_spaces hGapAfter hNoWord
      intro _ d hd
      cases hd
      decide
    have hScan := scan_operator hT slot.operator hEq fun _ => hWord
    rw [hText, List.cons_append] at hScan ⊢
    rw [matchToken_of_scan hVisible hScan, List.dropWhile_append_of_pos hGapAfter, quote,
      List.cons_append, List.dropWhile_cons_of_neg (Bool.eq_false_iff.mp hQuoteSpace)]
  -- the literal
  have hThird : matchToken T (quote s) = some (.valueStr (doubled s), []) := by
    have hScan := scan_of_scanStr hT (scanStr_quote s [])
    rw [List.append_nil] at hScan
    exact matchToken_of_scan hQuoteSpace hScan
  exact .more hFirst (.more hSecond (.more hThird .done))

theorem mem_of_mem_unescapeQuotes {c : Char} (h : c ∈ unescapeQuotes s) : c ∈ s := by
  induction s using unescapeQuotes.induct with
  | case1 rest ih =>
      obtain rfl | h := List.mem_cons.mp h
      · exact List.mem_cons_of_mem _ List.mem_cons_self
      · exact List.mem_cons_of_mem _ (List.mem_cons_of_mem _ (ih h))
  | case2 d rest hEscape ih =>
      rw [unescapeQuotes_cons fun hd hHead => ?_] at h
      · obtain rfl | h := List.mem_cons.mp h
        · exact List.mem_cons_self
        · exact List.mem_cons_of_mem _ (ih h)
      · obtain ⟨u, rfl⟩ := List.head?_eq_some_iff.mp hHead
        exact hEscape u hd rfl
  | case3 => exact h

theorem scanStr_of_scan {v : List Char} (h : scan T text = some (.valueStr v, rest)) :
    scanStr text = some (.valueStr v, rest) := by
  simp only [scan, Option.orElse_eq_orElse, Option.orElse_eq_or, Option.or_eq_some_iff] at h
  obtain h | ⟨-, h | ⟨-, h | ⟨-, h | ⟨-, h⟩⟩⟩⟩ := h
  · rw [scanOp.eq_def] at h
    split at h <;> cases h
  · exact h
  · obtain ⟨_, _, -, -, -, ⟨-, -, hKind⟩ | ⟨_, -, -, -, hKind⟩⟩ := scanNum_eq_some h <;> cases hKind
  · rw [scanParen.eq_def] at h
    split at h <;> cases h
  · obtain ⟨c, word, -, -, -, -, hKind⟩ := scanWord_eq_some h
    have hNone := stringValue_wordToken (T := T) (c :: word)
    rw [← hKind] at hNone
    cases hNone

theorem mem_of_mem_valueStr (hT : Lexical T) {v : List Char} {ks : List TokenKind}
    (h : Scans T text ks rest) (hv : .valueStr v ∈ ks) {c : Char} (hc : c ∈ v) : c ∈ text := by
  induction h with
  | done => cases hv
  | @more text mid rest k ks hMatch _ ih =>
      obtain ⟨w, tail, hText, -, rfl, hScan⟩ := matchToken_spec hT hMatch
      have hSub : ∀ {d}, d ∈ w ++ tail → d ∈ text := fun hd =>
        (List.dropWhile_sublist T.isSpace).subset (hText ▸ hd)
      obtain rfl | hv := List.mem_cons.mp hv
      · have hStr := scanStr_of_scan hScan
        rw [scanStr.eq_def] at hStr
        split at hStr
        · rename_i u hQuote
          obtain ⟨r, hr, hOut⟩ := Option.map_eq_some_iff.mp hStr
          cases hOut
          apply hSub
          rw [hQuote, (scanQuoted_spec hr).1]
          exact List.mem_cons_of_mem _ (List.mem_append_left _ (mem_of_mem_unescapeQuotes hc))
        · cases hStr
      · exact hSub (List.mem_append_right w ((List.dropWhile_sublist T.isSpace).subset (ih hv)))

end Tokens

/-! ## Which values come back -/

section Main

variable {T : CharTables} {s : List Char}

theorem not_break_of_visible {c : Char} (hLow : '!' ≤ c) (hHigh : c ≤ '~') :
    isLineBreak c = false := by
  rw [Char.le_def, UInt32.le_iff_toNat_le] at hLow hHigh
  have hLowNat : 33 ≤ c.toNat := hLow
  have hHighNat : c.toNat ≤ 126 := hHigh
  simp only [isLineBreak, List.mem_cons, List.not_mem_nil, or_false, decide_eq_false_iff_not]
  omega

theorem mem_escape {c : Char} (h : c ∈ escape s) : c = '\\' ∨ c ∈ s := by
  obtain ⟨d, hd, hc⟩ := List.mem_flatMap.mp h
  split_ifs at hc
  · obtain rfl | hc := List.mem_cons.mp hc
    · exact .inl rfl
    · exact .inr (List.mem_singleton.mp hc ▸ hd)
  · exact .inr (List.mem_singleton.mp hc ▸ hd)

theorem Slot.not_break_text (slot : Slot T) (h : ∀ c ∈ s, isLineBreak c = false) :
    ∀ c ∈ slot.text s, isLineBreak c = false := by
  have hWord : ∀ c, isWordChar c = true → isLineBreak c = false := fun c hc =>
    not_break_of_visible (bounds_of_isWordChar hc).1.1 (bounds_of_isWordChar hc).1.2
  have hOperator : ∀ o : Operator, ∀ c ∈ o.text.toList, isLineBreak c = false := by
    rintro ((_ | _ | _ | _ | _ | _) | _) <;> decide
  intro c hc
  rw [Slot.text, quote] at hc
  simp only [List.cons_append, List.mem_cons, List.mem_append, List.not_mem_nil, or_false] at hc
  obtain rfl | hc | hc | hc | hc | rfl | hc | rfl := hc
  · exact hWord _ (isWordChar_of_start slot.starts)
  · exact hWord c (slot.goesOn c hc)
  · exact (slot.spaces c (List.mem_append_left _ hc)).2
  · exact hOperator slot.operator c hc
  · exact (slot.spaces c (List.mem_append_right _ hc)).2
  · decide
  · obtain rfl | hc := mem_escape hc
    · decide
    · exact h c hc
  · decide

theorem Slot.strip_text (hT : Lexical T) (slot : Slot T) (s : List Char) :
    strip T (slot.text s) = slot.text s := by
  have hFirst := not_space_of_isWordChar hT (isWordChar_of_start slot.starts)
  have hLast : slot.text s = slot.first :: slot.word ++ (slot.gap ++
      (slot.operator.text.toList ++ (slot.gapAfter ++ '"' :: escape s))) ++ ['"'] := by
    simp only [Slot.text, quote, List.append_assoc, List.cons_append]
  show rstrip T ((slot.text s).dropWhile T.isSpace) = slot.text s
  rw [Slot.text, List.cons_append, List.dropWhile_cons_of_neg (Bool.eq_false_iff.mp hFirst),
    ← List.cons_append, ← Slot.text, hLast]
  exact rstrip_concat (hT.visible '"' (by decide) (by decide))

/-- A value comes back exactly if it has no backslash and no line break. -/
theorem roundTrips_iff (hT : Lexical T) (slot : Slot T) (s : List Char) :
    slot.RoundTrips s ↔ '\\' ∉ s ∧ ∀ c ∈ s, isLineBreak c = false := by
  -- on one line, the tokens are those of the condition
  have hTokens : (∀ c ∈ s, isLineBreak c = false) → ∃ ts, tokenize T (slot.text s) = .ok ts ∧
      ts.filterMap (fun t => t.kind.stringValue) = [doubled s] := by
    intro hLine
    have hne : strip T (slot.text s) ≠ [] := by
      rw [slot.strip_text hT]
      exact List.cons_ne_nil _ _
    obtain ⟨ts, hts, hKinds⟩ := (scans_slot hT slot s).tokensFrom 0 rfl
    refine ⟨ts, ?_, ?_⟩
    · rw [tokenize_line (slot.not_break_text hLine) hne, slot.strip_text hT, hts]
    · calc ts.filterMap (fun t => t.kind.stringValue)
          = (ts.map Token.kind).filterMap TokenKind.stringValue := by
            rw [List.filterMap_map]
            rfl
        _ = [doubled s] := by
            rw [hKinds, List.cons_append, List.filterMap_cons_none (stringValue_wordToken _),
              List.cons_append, List.filterMap_cons_none (stringValue_operator _)]
            rfl
  constructor
  · rintro ⟨ts, hts, hValues⟩
    have hLine : ∀ c ∈ s, isLineBreak c = false := by
      intro c hc
      have hMem : s ∈ ts.filterMap (fun t => t.kind.stringValue) := hValues ▸ List.mem_singleton_self s
      obtain ⟨t, ht, hValue⟩ := List.mem_filterMap.mp hMem
      have hKind := eq_of_stringValue hValue
      -- the value is a part of the one line the tokens are read from
      rw [tokenize] at hts
      split_ifs at hts
      obtain ⟨ks, hKinds, hRun⟩ := scans_of_tokensFrom hts
      have hIn : .valueStr s ∈ ks ++ [.eof] := hKinds ▸ hKind ▸ List.mem_map_of_mem ht
      have hToken := (List.mem_append.mp hIn).resolve_right (by simp)
      exact not_break_of_mem_normalizedText (mem_of_mem_valueStr hT hRun hToken hc)
    obtain ⟨ts', hts', hDoubled⟩ := hTokens hLine
    rw [hts] at hts'
    cases hts'
    rw [hDoubled] at hValues
    exact ⟨doubled_eq_self_iff.mp (List.singleton_inj.mp hValues), hLine⟩
  · rintro ⟨hSlash, hLine⟩
    obtain ⟨ts, hts, hDoubled⟩ := hTokens hLine
    exact ⟨ts, hts, by rw [hDoubled, doubled_eq_self_iff.mpr hSlash]⟩

/-- `sector =`, with a blank before the value. -/
def sectorSlot : Slot CharTables.ascii where
  first := 's'
  word := "ector".toList
  gap := [' ']
  operator := .compare .eq
  gapAfter := [' ']
  starts := by decide
  goesOn := by decide
  spaces := by decide
  apart := nofun

theorem roundTrips_and_or : sectorSlot.RoundTrips "A \"AND\" B OR C".toList :=
  (roundTrips_iff lexical_ascii sectorSlot _).mpr (by decide)

/-- A backslash comes back twice, and a line break comes back as AND. -/
theorem not_roundTrips_backslash :
    ¬ sectorSlot.RoundTrips "C:\\".toList ∧ ¬ sectorSlot.RoundTrips "A\nB".toList := by
  have hSlash : tokenize .ascii (sectorSlot.text "C:\\".toList) =
      .ok [⟨.field "sector".toList, 0⟩, ⟨.op .eq, 7⟩, ⟨.valueStr "C:\\\\".toList, 9⟩, ⟨.eof, 15⟩] := by
    decide +kernel
  -- the line break in the value is taken for an AND
  have hBreak : tokenize .ascii (sectorSlot.text "A\nB".toList) =
      .ok [⟨.field "sector".toList, 0⟩, ⟨.op .eq, 7⟩, ⟨.valueStr "A AND B".toList, 9⟩, ⟨.eof, 18⟩] := by
    decide +kernel
  constructor
  · rintro ⟨ts, hts, hValues⟩
    rw [hSlash] at hts
    cases hts
    revert hValues
    decide
  · rintro ⟨ts, hts, hValues⟩
    rw [hBreak] at hts
    cases hts
    revert hValues
    decide

end Main

end AsetPlatform.ScreenQL

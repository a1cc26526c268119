import AsetPlatform.Library.NumberTexts
import AsetPlatform.ScreenQL.Tokenizer

/-!
# Token boundaries of ScreenQL

`Scans T text ks rest` is that the loop of `tokenize` comes from one place of a text to a later one
by reading these tokens; the places it stops at are the token boundaries.

A token is the longest one that starts where it does, so that what it is depends on what follows.
`Scans.stop` is that it depends on nothing behind a boundary: whatever stands there, the same tokens
are read in front of white space or of the end. Texts read alone can therefore be written one behind
another with a blank between them (`Lexes.join`).
-/

set_option autoImplicit false

namespace AsetPlatform.ScreenQL

open AsetPlatform.Library AsetPlatform.Library.Sql AsetPlatform.Library.Regex

/-- What the tokenizer needs of the character database: which characters are white space, which are
digits, and that upper case is taken character by character. -/
structure Lexical (T : CharTables) : Prop where
  blank : T.isSpace ' ' = true
  visible : ∀ c : Char, '!' ≤ c → c ≤ '~' → T.isSpace c = false
  digits : AsciiDigits T
  digit_visible : ∀ c : Char, T.isDigit c = true → T.isSpace c = false
  upper_nil : T.upper [] = []
  upper_ascii : ∀ (c : Char) (s : List Char), c.toNat < 128 → T.upper (c :: s) = c.toUpper :: T.upper s
  upper_caseless : ∀ (c : Char) (s : List Char), T.isSpace c = true ∨ T.isDigit c = true →
    T.upper (c :: s) = c :: T.upper s

theorem lexical_ascii : Lexical CharTables.ascii where
  blank := rfl
  visible := by
    intro c hLow _
    show c.isWhitespace = false
    rw [← Bool.not_eq_true]
    intro hSpace
    simp only [Char.isWhitespace, Bool.or_eq_true, decide_eq_true_eq] at hSpace
    obtain ((rfl | rfl) | rfl) | rfl := hSpace <;> exact absurd hLow (by decide)
  digits := asciiDigits_ascii
  digit_visible := by
    intro c hc
    show c.isWhitespace = false
    rw [← Bool.not_eq_true]
    intro hSpace
    simp only [Char.isWhitespace, Bool.or_eq_true, decide_eq_true_eq] at hSpace
    obtain ((rfl | rfl) | rfl) | rfl := hSpace <;> cases hc
  upper_nil := rfl
  upper_ascii := fun c s _ => rfl
  upper_caseless := by
    intro c s hc
    have hUpper : c.toUpper = c := by
      obtain hSpace | hDigit := hc
      · simp only [CharTables.ascii, Char.isWhitespace, Bool.or_eq_true, decide_eq_true_eq] at hSpace
        obtain ((rfl | rfl) | rfl) | rfl := hSpace <;> decide
      · simp only [CharTables.ascii, Char.isDigit, Bool.and_eq_true, decide_eq_true_eq,
          UInt32.le_iff_toNat_le] at hDigit
        apply dif_neg
        rintro ⟨hLow, -⟩
        rw [UInt32.le_iff_toNat_le] at hLow
        have hNine : '9'.val.toNat = 57 := rfl
        have hLetter : 'a'.val.toNat = 97 := rfl
        omega
    exact congrArg (· :: s.map Char.toUpper) hUpper

/-- Nothing follows, or white space. -/
def Stops (T : CharTables) (s : List Char) : Prop := ∀ c ∈ s.head?, T.isSpace c = true

/-- The text does not start with a character of this kind. -/
def Apart (p : Char → Bool) (s : List Char) : Prop := ∀ c ∈ s.head?, p c = false

/-- The first character is none of white space. -/
def Opens (T : CharTables) (w : List Char) : Prop := ∃ c ∈ w.head?, T.isSpace c = false

/-- The last character is none of white space. -/
def Visible (T : CharTables) (w : List Char) : Prop := ∃ c ∈ w.getLast?, T.isSpace c = false

section Scanners

variable {T : CharTables} {p : Char → Bool} {k : TokenKind} {text w t q s rest : List Char}

theorem takeWhile_append_apart (hw : ∀ c ∈ w, p c = true) (hs : Apart p s) :
    (w ++ s).takeWhile p = w := by
  rw [List.takeWhile_append_of_pos hw]
  cases s with
  | nil => exact List.append_nil w
  | cons c s =>
      have hc : p c = false := hs c rfl
      rw [List.takeWhile_cons_of_neg (Bool.eq_false_iff.mp hc), List.append_nil]

theorem dropWhile_append_apart (hw : ∀ c ∈ w, p c = true) (hs : Apart p s) :
    (w ++ s).dropWhile p = s := by
  rw [List.dropWhile_append_of_pos hw]
  cases s with
  | nil => rfl
  | cons c s =>
      have hc : p c = false := hs c rfl
      exact List.dropWhile_cons_of_neg (Bool.eq_false_iff.mp hc)

theorem apart_dropWhile (s : List Char) : Apart p (s.dropWhile p) := by
  intro c hc
  have hNot := List.head?_dropWhile_not p s
  rw [Option.mem_def.mp hc] at hNot
  exact hNot

theorem Apart.stop (h : Apart p (t ++ q)) (hp : ∀ c, T.isSpace c = true → p c = false)
    (hs : Stops T s) : Apart p (t ++ s) := by
  cases t with
  | nil => exact fun c hc => hp c (hs c hc)
  | cons c t => exact h

theorem Opens.append (h : Opens T w) (s : List Char) : Opens T (w ++ s) := by
  obtain ⟨c, hc, hSpace⟩ := h
  obtain ⟨u, rfl⟩ := List.head?_eq_some_iff.mp hc
  exact ⟨c, rfl, hSpace⟩

theorem Opens.dropWhile (h : Opens T w) : w.dropWhile T.isSpace = w := by
  obtain ⟨c, hc, hSpace⟩ := h
  obtain ⟨u, rfl⟩ := List.head?_eq_some_iff.mp hc
  exact List.dropWhile_cons_of_neg (Bool.eq_false_iff.mp hSpace)

theorem Visible.ne_nil (h : Visible T w) : w ≠ [] := by
  rintro rfl
  obtain ⟨c, hc, -⟩ := h
  cases hc

theorem visible_concat {c : Char} (hc : T.isSpace c = false) : Visible T (w ++ [c]) :=
  ⟨c, by rw [List.getLast?_append]; rfl, hc⟩

theorem visible_append (hs : Visible T s) : Visible T (w ++ s) := by
  obtain ⟨c, hc, hSpace⟩ := hs
  refine ⟨c, ?_, hSpace⟩
  rw [List.getLast?_append, Option.mem_def.mp hc]
  rfl

theorem Visible.of_append (h : Visible T (w ++ s)) (hs : s ≠ []) : Visible T s := by
  obtain ⟨c, hc, hSpace⟩ := h
  rw [List.getLast?_append_of_ne_nil w hs] at hc
  exact ⟨c, hc, hSpace⟩

theorem visible_of_forall (hne : w ≠ []) (h : ∀ c ∈ w, T.isSpace c = false) : Visible T w :=
  ⟨w.getLast hne, List.getLast?_eq_some_getLast hne, h _ (List.getLast_mem hne)⟩

/-- An alternative of the token expression that starts with certain characters: it reads a lexeme
that ends visibly, and it reads the same one when what follows is replaced by white space. -/
structure Alternative (T : CharTables) (starts : Char → Prop)
    (f : List Char → Option (TokenKind × List Char)) : Prop where
  start : ∀ {text rest : List Char} {k : TokenKind}, f text = some (k, rest) →
    ∃ c ∈ text.head?, starts c
  lexeme : ∀ {text rest : List Char} {k : TokenKind}, f text = some (k, rest) →
    ∃ w, text = w ++ rest ∧ Visible T w
  stop : ∀ {w t q s : List Char} {k : TokenKind}, f (w ++ (t ++ q)) = some (k, t ++ q) →
    Stops T s → f (w ++ (t ++ s)) = some (k, t ++ s)

theorem Alternative.eq_none {P : Char → Prop} {f : List Char → Option (TokenKind × List Char)}
    (hf : Alternative T P f) {c : Char} (hc : c ∈ text.head?) (hNot : ¬ P c) : f text = none := by
  cases hNew : f text with
  | none => rfl
  | some r =>
      obtain ⟨d, hd, hP⟩ := hf.start hNew
      cases (Option.mem_unique hc hd : c = d)
      exact absurd hP hNot

/-- Two alternatives that start differently. -/
theorem Alternative.orElse {P Q : Char → Prop} {f g : List Char → Option (TokenKind × List Char)}
    (hf : Alternative T P f) (hg : Alternative T Q g) (hApart : ∀ c, P c → ¬ Q c) :
    Alternative T (fun c => P c ∨ Q c) (fun text => f text <|> g text) where
  start h := by
    rw [Option.orElse_eq_orElse, Option.orElse_eq_or, Option.or_eq_some_iff] at h
    obtain h | ⟨-, h⟩ := h
    · obtain ⟨c, hc, hP⟩ := hf.start h
      exact ⟨c, hc, .inl hP⟩
    · obtain ⟨c, hc, hQ⟩ := hg.start h
      exact ⟨c, hc, .inr hQ⟩
  lexeme h := by
    rw [Option.orElse_eq_orElse, Option.orElse_eq_or, Option.or_eq_some_iff] at h
    obtain h | ⟨-, h⟩ := h
    · exact hf.lexeme h
    · exact hg.lexeme h
  stop {w t q s k} h hs := by
    rw [Option.orElse_eq_orElse, Option.orElse_eq_or, Option.or_eq_some_iff] at h ⊢
    obtain h | ⟨-, h⟩ := h
    · exact .inl (hf.stop h hs)
    · refine .inr ⟨?_, hg.stop h hs⟩
      -- the text starts as before, and so not as the first alternative does
      obtain ⟨c, hc, hQ⟩ := hg.start h
      obtain ⟨w', hw', hVisible⟩ := hg.lexeme h
      cases List.append_cancel_right hw'
      obtain ⟨d, w, rfl⟩ := List.exists_cons_of_ne_nil hVisible.ne_nil
      cases hc
      exact hf.eq_none rfl fun hP => hApart _ hP hQ

/-! ## The five alternatives -/

theorem eq_of_append_eq (h : w ++ (t ++ q) = s ++ (t ++ q)) : w = s := List.append_cancel_right h

section Rules

variable (hT : Lexical T)

include hT

theorem not_space_eq {c : Char} (h : T.isSpace c = true) {d : Char} (hLow : '!' ≤ d) (hHigh : d ≤ '~') :
    (c == d) = false := by
  rw [beq_eq_false_iff_ne]
  rintro rfl
  rw [hT.visible c hLow hHigh] at h
  cases h

omit hT in
theorem scanOp_gt (h : Apart (· == '=') s) : scanOp ('>' :: s) = some (.op .gt, s) := by
  rw [scanOp.eq_def]
  split
  case h_1 heq =>
    cases heq
    cases h '=' rfl
  all_goals simp_all

omit hT in
theorem scanOp_lt (h : Apart (· == '=') s) : scanOp ('<' :: s) = some (.op .lt, s) := by
  rw [scanOp.eq_def]
  split
  case h_2 heq =>
    cases heq
    cases h '=' rfl
  all_goals simp_all

/-- The comparisons; one of one character is not continued by an equals sign. -/
theorem alternative_op : Alternative T (fun c => c ∈ ['>', '<', '!', '=']) scanOp where
  start {text rest k} h := by
    rw [scanOp.eq_def] at h
    split at h <;> cases h <;> exact ⟨_, rfl, by decide⟩
  lexeme {text rest k} h := by
    have hEq := hT.visible '=' (by decide) (by decide)
    rw [scanOp.eq_def] at h
    split at h <;> cases h
    · exact ⟨['>', '='], rfl, visible_concat (w := ['>']) hEq⟩
    · exact ⟨['<', '='], rfl, visible_concat (w := ['<']) hEq⟩
    · exact ⟨['!', '='], rfl, visible_concat (w := ['!']) hEq⟩
    · exact ⟨['>'], rfl, visible_concat (w := []) (hT.visible '>' (by decide) (by decide))⟩
    · exact ⟨['<'], rfl, visible_concat (w := []) (hT.visible '<' (by decide) (by decide))⟩
    · exact ⟨['='], rfl, visible_concat (w := []) hEq⟩
  stop {w t q s k} h hs := by
    -- an equals sign right behind the sign of one character would have been read with it
    have hNext : (∀ rest, t ++ q = '=' :: rest → False) → Apart (· == '=') (t ++ s) := by
      intro hNone
      apply Apart.stop (q := q) _ (fun c hc => not_space_eq hT hc (by decide) (by decide)) hs
      intro c hc
      rw [beq_eq_false_iff_ne]
      rintro rfl
      exact hNone _ (List.eq_cons_of_mem_head? hc)
    generalize hText : w ++ (t ++ q) = text at h
    rw [scanOp.eq_def] at h
    split at h
    · cases h
      obtain rfl := eq_of_append_eq (s := ['>', '=']) hText
      rfl
    · cases h
      obtain rfl := eq_of_append_eq (s := ['<', '=']) hText
      rfl
    · cases h
      obtain rfl := eq_of_append_eq (s := ['!', '=']) hText
      rfl
    · rename_i hNone
      cases h
      obtain rfl := eq_of_append_eq (s := ['>']) hText
      exact scanOp_gt (hNext hNone)
    · rename_i hNone
      cases h
      obtain rfl := eq_of_append_eq (s := ['<']) hText
      exact scanOp_lt (hNext hNone)
    · cases h
      obtain rfl := eq_of_append_eq (s := ['=']) hText
      rfl
    · cases h

omit hT in
theorem scanQuoted_plain {c : Char} (hQuote : c ≠ '"') (hSlash : c ≠ '\\') :
    scanQuoted (c :: s) = (scanQuoted s).map fun r => (c :: r.1, r.2) := by
  rw [scanQuoted]
  · exact fun hc => hQuote hc
  · exact fun d l hc => absurd hc hSlash
  · exact fun hc => absurd hc hSlash

omit hT in
theorem scanQuoted_spec {r : List Char × List Char} (h : scanQuoted text = some r) :
    text = r.1 ++ '"' :: r.2 ∧ ∀ rest, scanQuoted (r.1 ++ '"' :: rest) = some (r.1, rest) := by
  induction text using scanQuoted.induct generalizing r with
  | case1 => cases h
  | case2 rest =>
      cases h
      exact ⟨rfl, fun rest => rfl⟩
  | case3 rest => simp [scanQuoted] at h
  | case4 c rest hc ih =>
      simp only [scanQuoted, hc, if_false, Option.map_eq_some_iff] at h
      obtain ⟨r', hr', rfl⟩ := h
      obtain ⟨hText, hOther⟩ := ih hr'
      refine ⟨congrArg (fun l => '\\' :: c :: l) hText, fun rest => ?_⟩
      simp only [List.cons_append, scanQuoted, hc, if_false, hOther, Option.map_some]
  | case5 => cases h
  | case6 c rest hQuote hEscape hLast ih =>
      have hSlash : c ≠ '\\' := by
        rintro rfl
        cases rest with
        | nil => exact hLast rfl rfl
        | cons d l => exact hEscape d l rfl rfl
      rw [scanQuoted_plain (fun hc => hQuote hc) hSlash] at h
      obtain ⟨r', hr', rfl⟩ := Option.map_eq_some_iff.mp h
      obtain ⟨hText, hOther⟩ := ih hr'
      refine ⟨congrArg (c :: ·) hText, fun rest => ?_⟩
      rw [List.cons_append, scanQuoted_plain (fun hc => hQuote hc) hSlash, hOther]
      rfl

theorem alternative_str : Alternative T (fun c => c = '"') scanStr where
  start {text rest k} h := by
    rw [scanStr.eq_def] at h
    split at h
    · exact ⟨'"', rfl, rfl⟩
    · cases h
  lexeme {text rest k} h := by
    rw [scanStr.eq_def] at h
    split at h
    · obtain ⟨r, hr, hOut⟩ := Option.map_eq_some_iff.mp h
      cases hOut
      refine ⟨'"' :: r.1 ++ ['"'], ?_, visible_concat (hT.visible '"' (by decide) (by decide))⟩
      rw [(scanQuoted_spec hr).1]
      simp only [List.cons_append, List.append_assoc, List.nil_append]
    · cases h
  stop {w t q s k} h hs := by
    generalize hText : w ++ (t ++ q) = text at h
    rw [scanStr.eq_def] at h
    split at h
    · obtain ⟨r, hr, hOut⟩ := Option.map_eq_some_iff.mp h
      obtain ⟨hQuoted, hOther⟩ := scanQuoted_spec hr
      cases r with
      | mk raw rest =>
          cases hOut
          obtain rfl : w = '"' :: raw ++ ['"'] := by
            apply eq_of_append_eq (t := t) (q := q)
            rw [hText, hQuoted, List.cons_append, List.cons_append, List.append_assoc]
            rfl
          simp only [List.cons_append, List.append_assoc, List.nil_append, scanStr, hOther,
            Option.map_some]
    · cases h

/-- The sign of a number. -/
def signText (negative : Bool) : List Char := if negative then ['-'] else []

/-- A point with a digit behind it. -/
def pointed (T : CharTables) : List Char → Bool
  | '.' :: d :: _ => T.isDigit d
  | _ => false

/-- The number of an integer text. -/
def intKind (T : CharTables) (negative : Bool) (whole : List Char) : TokenKind :=
  .valueNum (.int (if negative then -(digitsValue T whole : Int) else digitsValue T whole))

/-- The number of a text with a point. -/
def floatKind (T : CharTables) (negative : Bool) (whole fraction : List Char) : TokenKind :=
  let q : ℚ := digitsValue T (whole ++ fraction) / 10 ^ fraction.length
  .valueNum (.float (if negative then -q else q))

/-- The digits behind a point at the start of a text. -/
def fractionOf (T : CharTables) (s : List Char) : List Char :=
  if s.head? = some '.' then s.tail.takeWhile T.isDigit else []

omit hT in
theorem scanNum_signed (negative : Bool) (u : List Char)
    (hSign : negative = false → u.head? ≠ some '-') :
    scanNum T (signText negative ++ u) =
      if u.takeWhile T.isDigit = [] then none
      else if fractionOf T (u.dropWhile T.isDigit) = [] then
        some (intKind T negative (u.takeWhile T.isDigit), u.dropWhile T.isDigit)
      else
        some (floatKind T negative (u.takeWhile T.isDigit) (fractionOf T (u.dropWhile T.isDigit)),
          (u.dropWhile T.isDigit).tail.dropWhile T.isDigit) := by
  cases negative with
  | false =>
      have hHead := hSign rfl
      simp only [scanNum, signText, List.nil_append, hHead, if_false, fractionOf, intKind, floatKind,
        Bool.false_eq_true]
  | true =>
      have hHead : (signText true ++ u).head? = some '-' := rfl
      have hTail : (signText true ++ u).tail = u := rfl
      simp only [scanNum, hHead, hTail, if_true, fractionOf, intKind, floatKind]

omit hT in
theorem exists_signed (text : List Char) :
    ∃ negative u, text = signText negative ++ u ∧ (negative = false → u.head? ≠ some '-') := by
  by_cases hHead : text.head? = some '-'
  · obtain ⟨u, rfl⟩ := List.head?_eq_some_iff.mp hHead
    exact ⟨true, u, rfl, fun h => absurd h (by decide)⟩
  · exact ⟨false, text, rfl, fun _ => hHead⟩

omit hT in
theorem pointed_of_ne {c : Char} (hc : c ≠ '.') : pointed T (c :: s) = false := by
  rw [pointed.eq_def]
  split
  · rename_i hEq
    exact absurd (List.cons.inj hEq).1 hc
  · rfl

omit hT in
theorem fractionOf_eq_nil_iff : fractionOf T s = [] ↔ pointed T s = false := by
  cases s with
  | nil => simp [fractionOf, pointed]
  | cons c s =>
      by_cases hc : c = '.'
      · subst hc
        cases s with
        | nil => simp [fractionOf, pointed]
        | cons d s => cases hd : T.isDigit d <;> simp [fractionOf, pointed, hd]
      · simp [fractionOf, pointed_of_ne hc, hc]

omit hT in
/-- A number is a sign, digits and, if a digit is behind the point, the point and digits. -/
theorem scanNum_eq_some (h : scanNum T text = some (k, rest)) :
    ∃ negative whole, whole ≠ [] ∧ (∀ c ∈ whole, T.isDigit c = true) ∧ Apart T.isDigit rest ∧
      (text = signText negative ++ whole ++ rest ∧ pointed T rest = false ∧
          k = intKind T negative whole ∨
        ∃ fraction, fraction ≠ [] ∧ (∀ c ∈ fraction, T.isDigit c = true) ∧
          text = signText negative ++ whole ++ '.' :: fraction ++ rest ∧
          k = floatKind T negative whole fraction) := by
  obtain ⟨negative, u, rfl, hSign⟩ := exists_signed text
  rw [scanNum_signed negative u hSign] at h
  have hSplit : u = u.takeWhile T.isDigit ++ u.dropWhile T.isDigit :=
    List.takeWhile_append_dropWhile.symm
  have hWhole : ∀ c ∈ u.takeWhile T.isDigit, T.isDigit c = true := fun c hc =>
    List.mem_takeWhile_imp hc
  split_ifs at h with hNone hInt
  · cases h
    refine ⟨negative, _, hNone, hWhole, apart_dropWhile u, .inl ⟨?_, ?_, rfl⟩⟩
    · rw [List.append_assoc, ← hSplit]
    · exact fractionOf_eq_nil_iff.mp hInt
  · cases h
    -- the point in front of the digits
    have hPoint : (u.dropWhile T.isDigit).head? = some '.' := by
      by_contra hNot
      exact hInt (if_neg hNot)
    obtain ⟨v, hv⟩ := List.head?_eq_some_iff.mp hPoint
    have hFraction : fractionOf T (u.dropWhile T.isDigit) = v.takeWhile T.isDigit := by
      rw [fractionOf, if_pos hPoint, hv, List.tail_cons]
    rw [hFraction] at hInt ⊢
    rw [hv, List.tail_cons]
    refine ⟨negative, _, hNone, hWhole, apart_dropWhile v, .inr ⟨_, hInt, ?_, ?_, rfl⟩⟩
    · exact fun c hc => List.mem_takeWhile_imp hc
    · simp only [List.append_assoc, List.cons_append, List.takeWhile_append_dropWhile]
      rw [← hv, ← hSplit]

omit hT in
theorem scanNum_int {negative : Bool} {whole : List Char} (hne : whole ≠ [])
    (hWhole : ∀ c ∈ whole, T.isDigit c = true) (hMinus : T.isDigit '-' = false)
    (hRest : Apart T.isDigit rest) (hPoint : pointed T rest = false) :
    scanNum T (signText negative ++ whole ++ rest) = some (intKind T negative whole, rest) := by
  have hSign : negative = false → (whole ++ rest).head? ≠ some '-' := by
    intro _ hHead
    obtain ⟨c, l, rfl⟩ := List.exists_cons_of_ne_nil hne
    cases hHead
    rw [hWhole _ List.mem_cons_self] at hMinus
    cases hMinus
  rw [List.append_assoc, scanNum_signed negative _ hSign, takeWhile_append_apart hWhole hRest,
    dropWhile_append_apart hWhole hRest, if_neg hne, if_pos (fractionOf_eq_nil_iff.mpr hPoint)]

omit hT in
theorem scanNum_float {negative : Bool} {whole fraction : List Char} (hne : whole ≠ [])
    (hWhole : ∀ c ∈ whole, T.isDigit c = true) (hMinus : T.isDigit '-' = false)
    (hDot : T.isDigit '.' = false) (hFraction : ∀ c ∈ fraction, T.isDigit c = true)
    (hneFraction : fraction ≠ []) (hRest : Apart T.isDigit rest) :
    scanNum T (signText negative ++ whole ++ '.' :: fraction ++ rest) =
      some (floatKind T negative whole fraction, rest) := by
  have hSign : negative = false → (whole ++ '.' :: (fraction ++ rest)).head? ≠ some '-' := by
    intro _ hHead
    obtain ⟨c, l, rfl⟩ := List.exists_cons_of_ne_nil hne
    cases hHead
    rw [hWhole _ List.mem_cons_self] at hMinus
    cases hMinus
  have hApart : Apart T.isDigit ('.' :: (fraction ++ rest)) := by
    intro c hc
    cases hc
    exact hDot
  have hDigits : fractionOf T ('.' :: (fraction ++ rest)) = fraction := by
    exact (if_pos rfl).trans (takeWhile_append_apart hFraction hRest)
  rw [List.append_assoc, List.append_assoc, List.cons_append, scanNum_signed negative _ hSign,
    takeWhile_append_apart hWhole hApart, dropWhile_append_apart hWhole hApart, if_neg hne, hDigits,
    if_neg hneFraction, List.tail_cons, dropWhile_append_apart hFraction hRest]

theorem not_digit {c : Char} (hAscii : c.toNat < 128) (hc : c.isDigit = false) : T.isDigit c = false :=
  (hT.digits c hAscii).trans hc

/-- A number goes on as far as it can. -/
theorem alternative_num : Alternative T (fun c => c = '-' ∨ T.isDigit c = true) (scanNum T) where
  start {text rest k} h := by
    obtain ⟨negative, whole, hne, hWhole, -, hCases⟩ := scanNum_eq_some h
    obtain ⟨c, l, rfl⟩ := List.exists_cons_of_ne_nil hne
    have hc := hWhole c List.mem_cons_self
    obtain ⟨rfl, -⟩ | ⟨fraction, -, -, rfl, -⟩ := hCases <;> cases negative
    · exact ⟨c, rfl, .inr hc⟩
    · exact ⟨'-', rfl, .inl rfl⟩
    · exact ⟨c, rfl, .inr hc⟩
    · exact ⟨'-', rfl, .inl rfl⟩
  lexeme {text rest k} h := by
    obtain ⟨negative, whole, hne, hWhole, -, hCases⟩ := scanNum_eq_some h
    obtain ⟨rfl, -⟩ | ⟨fraction, hneFraction, hFraction, rfl, -⟩ := hCases
    · refine ⟨_, rfl, visible_append (visible_of_forall hne fun c hc => ?_)⟩
      exact hT.digit_visible c (hWhole c hc)
    · refine ⟨_, rfl, visible_append ?_⟩
      apply visible_append (w := ['.'])
      exact visible_of_forall hneFraction fun c hc => hT.digit_visible c (hFraction c hc)
  stop {w t q s k} h hs := by
    have hMinus := not_digit hT (c := '-') (by decide) (by decide)
    have hDot := not_digit hT (c := '.') (by decide) (by decide)
    have hSpace : ∀ c, T.isSpace c = true → T.isDigit c = false := by
      intro c hc
      by_contra hDigit
      rw [hT.digit_visible c (Bool.not_eq_false _ |>.mp hDigit)] at hc
      cases hc
    obtain ⟨negative, whole, hne, hWhole, hRest, hCases⟩ := scanNum_eq_some h
    have hRest' := hRest.stop hSpace hs
    obtain ⟨hText, hPoint, rfl⟩ | ⟨fraction, hneFraction, hFraction, hText, rfl⟩ := hCases
    · obtain rfl := eq_of_append_eq hText
      apply scanNum_int hne hWhole hMinus hRest'
      -- behind a point there is what was there, or white space
      cases t with
      | nil =>
          cases s with
          | nil => rfl
          | cons c s =>
              have hDotSpace := hT.visible '.' (by decide) (by decide)
              have hc : c ≠ '.' := by
                rintro rfl
                rw [hs '.' rfl] at hDotSpace
                cases hDotSpace
              exact pointed_of_ne hc
      | cons c t =>
          cases t with
          | nil =>
              by_cases hc : c = '.'
              · subst hc
                cases s with
                | nil => rfl
                | cons d s => exact hSpace d (hs d rfl)
              · exact pointed_of_ne hc
          | cons d t =>
              by_cases hc : c = '.'
              · subst hc
                exact hPoint
              · exact pointed_of_ne hc
    · obtain rfl := eq_of_append_eq hText
      exact scanNum_float hne hWhole hMinus hDot hFraction hneFraction hRest'

theorem alternative_paren : Alternative T (fun c => c ∈ ['(', ')']) scanParen where
  start {text rest k} h := by
    rw [scanParen.eq_def] at h
    split at h <;> cases h <;> exact ⟨_, rfl, by decide⟩
  lexeme {text rest k} h := by
    rw [scanParen.eq_def] at h
    split at h <;> cases h
    · exact ⟨['('], rfl, visible_concat (w := []) (hT.visible '(' (by decide) (by decide))⟩
    · exact ⟨[')'], rfl, visible_concat (w := []) (hT.visible ')' (by decide) (by decide))⟩
  stop {w t q s k} h hs := by
    generalize hText : w ++ (t ++ q) = text at h
    rw [scanParen.eq_def] at h
    split at h
    · cases h
      obtain rfl := eq_of_append_eq (s := ['(']) hText
      rfl
    · cases h
      obtain rfl := eq_of_append_eq (s := [')']) hText
      rfl
    · cases h

/-- The characters of a word. -/
def isWordChar (c : Char) : Bool := c.isAlphanum || c == '_'

omit hT in
theorem bounds_of_isWordChar {c : Char} (h : isWordChar c = true) :
    ('!' ≤ c ∧ c ≤ '~') ∧ c.toNat < 128 := by
  simp only [isWordChar, Char.isAlphanum, isAlpha_eq, isUpper_eq, isLower_eq, Char.isDigit,
    Bool.or_eq_true, Bool.and_eq_true, decide_eq_true_eq, beq_iff_eq, ge_iff_le,
    UInt32.le_iff_toNat_le] at h
  simp only [Char.le_def, UInt32.le_iff_toNat_le, Char.toNat]
  obtain ((⟨hLow, hHigh⟩ | ⟨hLow, hHigh⟩) | ⟨hLow, hHigh⟩) | rfl := h
  · simp at hLow hHigh ⊢
    omega
  · simp at hLow hHigh ⊢
    omega
  · simp at hLow hHigh ⊢
    omega
  · decide

theorem not_space_of_isWordChar {c : Char} (h : isWordChar c = true) : T.isSpace c = false :=
  hT.visible c (bounds_of_isWordChar h).1.1 (bounds_of_isWordChar h).1.2

omit hT in
theorem scanWord_eq_some (h : scanWord T text = some (k, rest)) :
    ∃ c word, text = c :: word ++ rest ∧ (c.isAlpha || c == '_') = true ∧
      (∀ d ∈ word, isWordChar d = true) ∧ Apart isWordChar rest ∧ k = wordToken T (c :: word) := by
  rw [scanWord.eq_def] at h
  split at h
  · rename_i c u
    split_ifs at h with hStart
    cases h
    refine ⟨c, u.takeWhile isWordChar, ?_, hStart, fun d hd => List.mem_takeWhile_imp hd,
      apart_dropWhile (p := isWordChar) u, rfl⟩
    exact congrArg (c :: ·) (List.takeWhile_append_dropWhile (p := isWordChar)).symm
  · cases h

omit hT in
theorem scanWord_word {c : Char} {word : List Char} (hStart : (c.isAlpha || c == '_') = true)
    (hWord : ∀ d ∈ word, isWordChar d = true) (hRest : Apart isWordChar rest) :
    scanWord T (c :: word ++ rest) = some (wordToken T (c :: word), rest) := by
  have hTake := takeWhile_append_apart hWord hRest
  have hDrop := dropWhile_append_apart hWord hRest
  rw [List.cons_append, scanWord]
  exact (if_pos hStart).trans (congrArg₂ (fun w r => some (wordToken T (c :: w), r)) hTake hDrop)

omit hT in
theorem not_isDigit_of_start {c : Char} (h : (c.isAlpha || c == '_') = true) : c.isDigit = false := by
  rw [Bool.eq_false_iff]
  intro hDigit
  simp only [isAlpha_eq, isUpper_eq, isLower_eq, Char.isDigit, Bool.or_eq_true,
    Bool.and_eq_true, decide_eq_true_eq, beq_iff_eq, ge_iff_le, UInt32.le_iff_toNat_le] at h hDigit
  obtain (⟨hLow, -⟩ | ⟨hLow, -⟩) | rfl := h
  · simp at hLow hDigit
    omega
  · simp at hLow hDigit
    omega
  · revert hDigit
    decide

omit hT in
theorem isWordChar_of_start {c : Char} (h : (c.isAlpha || c == '_') = true) :
    isWordChar c = true := by
  simp only [isWordChar, Char.isAlphanum, Bool.or_eq_true] at h ⊢
  exact h.imp_left .inl

theorem alternative_word : Alternative T (fun c => (c.isAlpha || c == '_') = true) (scanWord T) where
  start {text rest k} h := by
    obtain ⟨c, word, rfl, hStart, -⟩ := scanWord_eq_some h
    exact ⟨c, rfl, hStart⟩
  lexeme {text rest k} h := by
    obtain ⟨c, word, rfl, hStart, hWord, -⟩ := scanWord_eq_some h
    refine ⟨c :: word, rfl, visible_of_forall (List.cons_ne_nil c word) ?_⟩
    intro d hd
    apply not_space_of_isWordChar hT
    obtain rfl | hd := List.mem_cons.mp hd
    · exact isWordChar_of_start hStart
    · exact hWord d hd
  stop {w t q s k} h hs := by
    obtain ⟨c, word, hText, hStart, hWord, hRest, rfl⟩ := scanWord_eq_some h
    obtain rfl := eq_of_append_eq hText
    apply scanWord_word hStart hWord (hRest.stop (fun d hd => ?_) hs)
    by_contra hNot
    rw [not_space_of_isWordChar hT (Bool.not_eq_false _ |>.mp hNot)] at hd
    cases hd

/-- The token expression behind white space. -/
def scan (T : CharTables) (text : List Char) : Option (TokenKind × List Char) :=
  scanOp text <|> scanStr text <|> scanNum T text <|> scanParen text <|> scanWord T text

omit hT in
theorem matchToken_eq (text : List Char) :
    matchToken T text =
      (scan T (text.dropWhile T.isSpace)).map fun r => (r.1, r.2.dropWhile T.isSpace) := rfl

omit hT in
theorem not_word_of_paren (c : Char) (h : c ∈ ['(', ')']) : ¬ (c.isAlpha || c == '_') = true := by
  revert c
  decide

theorem not_digit_of_mark : ∀ c ∈ ['>', '<', '!', '=', '"', '(', ')'], T.isDigit c = false := by
  intro c hc
  apply not_digit hT <;> revert c <;> decide

theorem not_other_of_num (c : Char) (h : c = '-' ∨ T.isDigit c = true) :
    ¬ (c ∈ ['(', ')'] ∨ (c.isAlpha || c == '_') = true) := by
  rintro (hParen | hStart)
  · obtain rfl | hc := h
    · revert hParen
      decide
    · rw [not_digit_of_mark hT c (List.mem_of_mem_drop (i := 5) hParen)] at hc
      cases hc
  · obtain rfl | hc := h
    · revert hStart
      decide
    · rw [hT.digits c (bounds_of_isWordChar (isWordChar_of_start hStart)).2,
        not_isDigit_of_start hStart] at hc
      cases hc

theorem not_other_of_str (c : Char) (h : c = '"') :
    ¬ ((c = '-' ∨ T.isDigit c = true) ∨ c ∈ ['(', ')'] ∨ (c.isAlpha || c == '_') = true) := by
  subst h
  rintro ((hMinus | hc) | hOther)
  · cases hMinus
  · rw [not_digit_of_mark hT '"' (by decide)] at hc
    cases hc
  · revert hOther
    decide

theorem not_other_of_op (c : Char) (h : c ∈ ['>', '<', '!', '=']) :
    ¬ (c = '"' ∨ (c = '-' ∨ T.isDigit c = true) ∨ c ∈ ['(', ')'] ∨
      (c.isAlpha || c == '_') = true) := by
  rintro (rfl | (rfl | hc) | hOther)
  · revert h
    decide
  · revert h
    decide
  · rw [not_digit_of_mark hT c (List.mem_of_mem_take (i := 4) h)] at hc
    cases hc
  · revert c
    decide

theorem alternative_scan : Alternative T
    (fun c => c ∈ ['>', '<', '!', '='] ∨ c = '"' ∨ (c = '-' ∨ T.isDigit c = true) ∨
      c ∈ ['(', ')'] ∨ (c.isAlpha || c == '_') = true) (scan T) :=
  (alternative_op hT).orElse ((alternative_str hT).orElse ((alternative_num hT).orElse
    ((alternative_paren hT).orElse (alternative_word hT) not_word_of_paren) (not_other_of_num hT))
    (not_other_of_str hT)) (not_other_of_op hT)

omit hT in
theorem scan_of_scanOp {r : TokenKind × List Char} (h : scanOp text = some r) :
    scan T text = some r := by
  rw [scan, h]
  rfl

theorem scan_of_scanStr {r : TokenKind × List Char} (h : scanStr text = some r) :
    scan T text = some r := by
  obtain ⟨c, hc, hStart⟩ := (alternative_str hT).start h
  have hOp := (alternative_op hT).eq_none hc fun hOp => not_other_of_op hT c hOp (.inl hStart)
  rw [scan, hOp, h]
  rfl

theorem scan_of_scanWord {r : TokenKind × List Char} (h : scanWord T text = some r) :
    scan T text = some r := by
  obtain ⟨c, hc, hStart⟩ := (alternative_word hT).start h
  have hOp := (alternative_op hT).eq_none hc fun hOp =>
    not_other_of_op hT c hOp (.inr (.inr (.inr hStart)))
  have hStr := (alternative_str hT).eq_none hc fun hStr =>
    not_other_of_str hT c hStr (.inr (.inr hStart))
  have hNum := (alternative_num hT).eq_none hc fun hNum => not_other_of_num hT c hNum (.inr hStart)
  have hParen := (alternative_paren hT).eq_none hc fun hParen => not_word_of_paren c hParen hStart
  rw [scan, hOp, hStr, hNum, hParen, h]
  rfl

omit hT in
theorem matchToken_of_scan {c : Char} (hc : T.isSpace c = false)
    (h : scan T (c :: text) = some (k, rest)) :
    matchToken T (c :: text) = some (k, rest.dropWhile T.isSpace) := by
  rw [matchToken_eq, List.dropWhile_cons_of_neg (Bool.eq_false_iff.mp hc), h]
  rfl

theorem upper_ascii {s : List Char} (h : ∀ c ∈ s, c.toNat < 128) :
    T.upper s = s.map Char.toUpper := by
  induction s with
  | nil => exact hT.upper_nil
  | cons c s ih =>
      obtain ⟨hc, hs⟩ := List.forall_mem_cons.mp h
      rw [hT.upper_ascii c s hc, ih hs, List.map_cons]

theorem matchToken_spec {mid : List Char} (h : matchToken T text = some (k, mid)) :
    ∃ w tail, text.dropWhile T.isSpace = w ++ tail ∧ Visible T w ∧ mid = tail.dropWhile T.isSpace ∧
      scan T (w ++ tail) = some (k, tail) := by
  rw [matchToken_eq] at h
  obtain ⟨⟨k', tail⟩, hScan, hOut⟩ := Option.map_eq_some_iff.mp h
  cases hOut
  obtain ⟨w, hText, hVisible⟩ := (alternative_scan hT).lexeme hScan
  exact ⟨w, tail, hText, hVisible, rfl, hText ▸ hScan⟩

theorem matchToken_suffix {mid : List Char} (h : matchToken T text = some (k, mid)) :
    mid <:+ text := by
  obtain ⟨w, tail, hText, -, rfl, -⟩ := matchToken_spec hT h
  calc tail.dropWhile T.isSpace <:+ tail := List.dropWhile_suffix T.isSpace
    _ <:+ text.dropWhile T.isSpace := hText ▸ List.suffix_append w tail
    _ <:+ text := List.dropWhile_suffix T.isSpace

end Rules

end Scanners

/-! ## Runs of the loop -/

/-- The loop comes from the first text to the second one by reading these tokens. -/
inductive Scans (T : CharTables) : List Char → List TokenKind → List Char → Prop where
  | done {text : List Char} : Scans T text [] text
  | more {text mid rest : List Char} {k : TokenKind} {ks : List TokenKind} :
      matchToken T text = some (k, mid) → Scans T mid ks rest → Scans T text (k :: ks) rest

/-- Before white space or the end, a text read alone is read as these tokens. -/
def Lexes (T : CharTables) (text : List Char) (ks : List TokenKind) : Prop :=
  ∀ s, Stops T s → Scans T (text ++ s) ks (s.dropWhile T.isSpace)

section Runs

variable {T : CharTables} {text mid rest x y r s : List Char} {k : TokenKind}
  {ks ls : List TokenKind}

theorem Scans.append (h : Scans T text ks mid) (h' : Scans T mid ls rest) :
    Scans T text (ks ++ ls) rest := by
  induction h with
  | done => exact h'
  | more hMatch _ ih => exact .more hMatch (ih h')

theorem Scans.length_le (h : Scans T text ks rest) : rest.length ≤ text.length := by
  induction h with
  | done => exact Nat.le_refl _
  | more hMatch _ ih => exact ih.trans (matchToken_length T hMatch).le

theorem Scans.eq_nil (h : Scans T text ks rest) (hLength : text.length ≤ rest.length) : ks = [] := by
  cases h with
  | done => rfl
  | more hMatch hRun =>
      have hLess := matchToken_length T hMatch
      have hLe := hRun.length_le
      omega

theorem dropWhile_idem (p : Char → Bool) (s : List Char) :
    (s.dropWhile p).dropWhile p = s.dropWhile p :=
  dropWhile_append_apart (w := []) (fun c hc => by cases hc) (apart_dropWhile s)

theorem Scans.dropWhile (h : Scans T text ks rest) (hne : ks ≠ []) :
    Scans T (text.dropWhile T.isSpace) ks rest := by
  cases h with
  | done => exact absurd rfl hne
  | more hMatch hRun =>
      refine .more ?_ hRun
      rw [matchToken_eq] at hMatch ⊢
      rwa [dropWhile_idem]

theorem Scans.of_dropWhile (hne : ks ≠ []) (h : Scans T (text.dropWhile T.isSpace) ks rest) :
    Scans T text ks rest := by
  cases h with
  | done => exact absurd rfl hne
  | more hMatch hRun =>
      refine .more ?_ hRun
      rw [matchToken_eq] at hMatch ⊢
      rwa [dropWhile_idem] at hMatch

theorem Stops.nil : Stops T [] := fun c hc => by cases hc

theorem Visible.dropWhile_ne_nil (h : Visible T x) : x.dropWhile T.isSpace ≠ [] := by
  rw [ne_eq, List.dropWhile_eq_nil_iff]
  obtain ⟨c, hc, hSpace⟩ := h
  intro hAll
  have hTrue : T.isSpace c = true := hAll c (List.mem_of_getLast? hc)
  rw [hSpace] at hTrue
  cases hTrue

theorem dropWhile_append_visible (h : Visible T x) (s : List Char) :
    (x ++ s).dropWhile T.isSpace = x.dropWhile T.isSpace ++ s := by
  rw [List.dropWhile_append, if_neg]
  rw [List.isEmpty_iff]
  exact h.dropWhile_ne_nil

theorem Visible.dropWhile (h : Visible T x) : Visible T (x.dropWhile T.isSpace) := by
  apply Visible.of_append (w := x.takeWhile T.isSpace) _ h.dropWhile_ne_nil
  rwa [List.takeWhile_append_dropWhile]

/-- Nothing behind a boundary matters: the tokens read up to it are read before white space and
before the end as well. -/
theorem Scans.stop (hT : Lexical T) (hx : Visible T x)
    (h : Scans T (x ++ r) ks (r.dropWhile T.isSpace)) (hs : Stops T s) :
    Scans T (x ++ s) ks (s.dropWhile T.isSpace) := by
  induction ks generalizing x with
  | nil =>
      -- a text that is not empty is not read without a token
      generalize hEnd : r.dropWhile T.isSpace = out at h
      cases h
      have hLength := congrArg List.length hEnd
      have hDrop := length_dropWhile_le (p := T.isSpace) r
      have hPos := List.length_pos_of_ne_nil hx.ne_nil
      rw [List.length_append] at hLength
      omega
  | cons k ks ih =>
      cases h with
      | more hMatch hRun =>
      obtain ⟨w, tail, hText, hVisible, rfl, hScan⟩ := matchToken_spec hT hMatch
      rw [dropWhile_append_visible hx] at hText
      obtain ⟨t, hw, rfl⟩ : ∃ t, x.dropWhile T.isSpace = w ++ t ∧ tail = t ++ r := by
        obtain ⟨u, hw, hr⟩ | hInside := List.append_eq_append_iff.mp hText
        · by_cases hu : u = []
          · subst hu
            exact ⟨[], by rw [hw, List.append_nil, List.append_nil], hr.symm⟩
          · -- the token would have read visible characters behind the boundary
            have hVisibleU : Visible T u := Visible.of_append (hw ▸ hVisible) hu
            have hLe := hRun.length_le
            have hDrop := length_dropWhile_le (p := T.isSpace) tail
            have hPos := List.length_pos_of_ne_nil hVisibleU.dropWhile_ne_nil
            rw [hr, dropWhile_append_visible hVisibleU, List.length_append] at hLe
            omega
        · exact hInside
      have hNew : matchToken T (x ++ s) = some (k, (t ++ s).dropWhile T.isSpace) := by
        rw [matchToken_eq, dropWhile_append_visible hx, hw, List.append_assoc,
          (alternative_scan hT).stop hScan hs]
        rfl
      refine .more hNew ?_
      by_cases ht : t = []
      · -- the last token ends where the text does
        subst ht
        rw [hRun.eq_nil (Nat.le_refl _)]
        exact .done
      · have hVisibleT : Visible T t := Visible.of_append (hw ▸ hx.dropWhile) ht
        rw [dropWhile_append_visible hVisibleT] at hRun ⊢
        exact ih hVisibleT.dropWhile hRun

theorem Scans.lexes (hT : Lexical T) (hx : Visible T x)
    (h : Scans T (x ++ r) ks (r.dropWhile T.isSpace)) : Lexes T x ks :=
  fun _ hs => h.stop hT hx hs

theorem Lexes.scans (h : Lexes T x ks) : Scans T x ks [] := by
  have hEnd := h [] Stops.nil
  rwa [List.append_nil] at hEnd

theorem Scans.lexes_of_nil (hT : Lexical T) (hx : Visible T x) (h : Scans T x ks []) : Lexes T x ks := by
  apply Scans.lexes hT hx (r := [])
  rwa [List.append_nil]

theorem Lexes.join (hT : Lexical T) (hx : Lexes T x ks) (hy : Lexes T y ls) (hStart : Opens T y) :
    Lexes T (x ++ ' ' :: y) (ks ++ ls) := by
  intro s hs
  have hFirst : Stops T (' ' :: y ++ s) := by
    intro c hc
    cases hc
    exact hT.blank
  have hDrop : (' ' :: y ++ s).dropWhile T.isSpace = y ++ s := by
    rw [List.cons_append, List.dropWhile_cons_of_pos hT.blank]
    exact (hStart.append s).dropWhile
  rw [List.append_assoc]
  apply (hx _ hFirst).append
  rw [hDrop]
  exact hy s hs

theorem tokensFrom_of_matchToken {pos : Nat} (h : matchToken T text = some (k, mid)) :
    tokensFrom T pos text =
      (tokensFrom T (pos + (text.length - mid.length)) mid).map (⟨k, pos⟩ :: ·) := by
  cases text with
  | nil => exact absurd (matchToken_length T h) (Nat.not_lt_zero _)
  | cons c cs =>
      rw [tokensFrom]
      split
      · rename_i hNone
        rw [h] at hNone
        cases hNone
      · rename_i hSome
        rw [h] at hSome
        cases hSome
        rfl

theorem scans_of_tokensFrom {pos : Nat} {ts : List Token} (h : tokensFrom T pos text = .ok ts) :
    ∃ ks, ts.map Token.kind = ks ++ [.eof] ∧ Scans T text ks [] := by
  induction pos, text using tokensFrom.induct T generalizing ts with
  | case1 pos =>
      rw [tokensFrom] at h
      cases h
      exact ⟨[], rfl, .done⟩
  | case2 pos c cs hMatch =>
      rw [tokensFrom] at h
      split at h
      · cases h
      · rename_i hSome
        rw [hMatch] at hSome
        cases hSome
  | case3 pos c cs kind rest hMatch ih =>
      rw [tokensFrom_of_matchToken hMatch] at h
      cases hus : tokensFrom T (pos + ((c :: cs).length - rest.length)) rest with
      | error e =>
          rw [hus] at h
          cases h
      | ok us =>
          rw [hus] at h
          cases h
          obtain ⟨ks, hKinds, hRun⟩ := ih hus
          exact ⟨kind :: ks, congrArg (kind :: ·) hKinds, .more hMatch hRun⟩

theorem Scans.tokensFrom (h : Scans T text ks rest) (pos : Nat) (hRest : rest = []) :
    ∃ ts, tokensFrom T pos text = .ok ts ∧ ts.map Token.kind = ks ++ [.eof] := by
  induction h generalizing pos with
  | done =>
      subst hRest
      rw [ScreenQL.tokensFrom]
      exact ⟨_, rfl, rfl⟩
  | @more text mid rest k ks hMatch _ ih =>
      obtain ⟨ts, hts, hKinds⟩ := ih (pos + (text.length - mid.length)) hRest
      refine ⟨⟨k, pos⟩ :: ts, ?_, congrArg (k :: ·) hKinds⟩
      rw [tokensFrom_of_matchToken hMatch, hts]
      rfl

end Runs

/-! ## Lines -/

section Lines

variable {T : CharTables} {a b w text : List Char} {c : Char}

theorem queryLines_break (hc : isLineBreak c = true) (a b : List Char) :
    queryLines T (a ++ c :: b) = queryLines T a ++ queryLines T b := by
  rw [queryLines, List.splitOnP_append_cons a b hc, List.map_append, List.filter_append]
  rfl

theorem queryLines_nil : queryLines T [] = [] := rfl

theorem queryLines_line (h : ∀ c ∈ a, isLineBreak c = false) :
    queryLines T a = if strip T a = [] then [] else [strip T a] := by
  rw [queryLines, List.splitOnP_eq_singleton h, List.map_singleton]
  split_ifs with hEmpty
  · rw [hEmpty]
    rfl
  · exact List.filter_cons_of_pos (decide_eq_true hEmpty)

theorem line_or_first_break (a : List Char) :
    (∀ c ∈ a, isLineBreak c = false) ∨
      ∃ b c d, a = b ++ c :: d ∧ isLineBreak c = true ∧ ∀ e ∈ b, isLineBreak e = false := by
  induction a with
  | nil => exact .inl fun c hc => by cases hc
  | cons x a ih =>
      cases hx : isLineBreak x with
      | true => exact .inr ⟨[], x, a, rfl, hx, fun e he => by cases he⟩
      | false =>
          obtain hLine | ⟨b, c, d, rfl, hc, hb⟩ := ih
          · exact .inl (List.forall_mem_cons.mpr ⟨hx, hLine⟩)
          · exact .inr ⟨x :: b, c, d, rfl, hc, List.forall_mem_cons.mpr ⟨hx, hb⟩⟩

theorem line_or_last_break (a : List Char) :
    (∀ c ∈ a, isLineBreak c = false) ∨
      ∃ b c d, a = b ++ c :: d ∧ isLineBreak c = true ∧ ∀ e ∈ d, isLineBreak e = false := by
  obtain h | ⟨b, c, d, h, hc, hb⟩ := line_or_first_break a.reverse
  · exact .inl fun c hc => h c (List.mem_reverse.mpr hc)
  · refine .inr ⟨d.reverse, c, b.reverse, ?_, hc, fun e he => hb e (List.mem_reverse.mp he)⟩
    rw [← List.reverse_reverse a, h]
    simp

theorem queryLines_spaces_append (hw : ∀ c ∈ w, T.isSpace c = true) (a : List Char) :
    queryLines T (w ++ a) = queryLines T a := by
  induction w with
  | nil => rfl
  | cons c w ih =>
      obtain ⟨hc, hw⟩ := List.forall_mem_cons.mp hw
      rw [← ih hw]
      cases hBreak : isLineBreak c with
      | true => exact queryLines_break hBreak [] (w ++ a)
      | false =>
          have hStrip : ∀ x, strip T (c :: x) = strip T x := by
            intro x
            rw [strip, List.dropWhile_cons_of_pos hc, strip]
          obtain hLine | ⟨x, d, y, hSplit, hd, hx⟩ := line_or_first_break (w ++ a)
          · rw [List.cons_append, queryLines_line (List.forall_mem_cons.mpr ⟨hBreak, hLine⟩), hStrip,
              queryLines_line hLine]
          · rw [List.cons_append, hSplit, ← List.cons_append, queryLines_break hd,
              queryLines_line (List.forall_mem_cons.mpr ⟨hBreak, hx⟩), hStrip, queryLines_break hd,
              queryLines_line hx]

theorem queryLines_append_spaces (hw : ∀ c ∈ w, T.isSpace c = true) (a : List Char) :
    queryLines T (a ++ w) = queryLines T a := by
  induction w generalizing a with
  | nil => rw [List.append_nil]
  | cons c w ih =>
      obtain ⟨hc, hw⟩ := List.forall_mem_cons.mp hw
      have hOne : queryLines T (a ++ [c]) = queryLines T a := by
        cases hBreak : isLineBreak c with
        | true => rw [queryLines_break hBreak a [], queryLines_nil, List.append_nil]
        | false =>
            have hStrip : ∀ x, strip T (x ++ [c]) = strip T x := fun x =>
              have hNone : ∀ d ∈ ([] : List Char), T.isSpace d = true := fun _ hd => by cases hd
              strip_around hNone fun d hd => by
                rw [List.mem_singleton.mp hd]
                exact hc
            have hConcat : ∀ x : List Char, (∀ e ∈ x, isLineBreak e = false) →
                ∀ e ∈ x ++ [c], isLineBreak e = false := fun x hx e he =>
              (List.mem_append.mp he).elim (hx e) fun he => List.mem_singleton.mp he ▸ hBreak
            obtain hLine | ⟨x, d, y, rfl, hd, hy⟩ := line_or_last_break a
            · rw [queryLines_line (hConcat a hLine), hStrip, queryLines_line hLine]
            · rw [List.append_assoc, List.cons_append, queryLines_break hd,
                queryLines_line (hConcat y hy), hStrip, queryLines_break hd, queryLines_line hy]
      rw [← List.singleton_append, ← List.append_assoc, ih hw, hOne]

theorem queryLines_strip (text : List Char) : queryLines T (strip T text) = queryLines T text := by
  obtain ⟨before, after, hText, hBefore, hAfter⟩ := strip_spec T text
  conv_rhs => rw [hText]
  rw [queryLines_append_spaces hAfter, queryLines_spaces_append hBefore]

theorem tokenize_of_queryLines (h : queryLines T text ≠ []) :
    tokenize T text = tokensFrom T 0 ([' '].intercalate (withConnectives T (queryLines T text))) := by
  have hStrip : strip T text ≠ [] := by
    intro hEmpty
    rw [← queryLines_strip, hEmpty, queryLines_nil] at h
    exact h rfl
  rw [tokenize, normalizedText, queryLines_strip]
  exact if_neg hStrip

theorem tokenize_line (hLine : ∀ c ∈ text, isLineBreak c = false) (hne : strip T text ≠ []) :
    tokenize T text = tokensFrom T 0 (strip T text) := by
  have hLines : queryLines T text = [strip T text] := by
    rw [queryLines_line hLine, if_neg hne]
  rw [tokenize_of_queryLines (by rw [hLines]; exact List.cons_ne_nil _ _), hLines]
  simp [withConnectives, List.intercalate]

theorem mem_of_mem_strip {c : Char} (h : c ∈ strip T text) : c ∈ text := by
  obtain ⟨before, after, hText, -⟩ := strip_spec T text
  rw [hText]
  exact List.mem_append_left after (List.mem_append_right before h)

theorem mem_join {ls : List (List Char)} (h : c ∈ [' '].intercalate ls) :
    c = ' ' ∨ ∃ l ∈ ls, c ∈ l := by
  induction ls with
  | nil => cases h
  | cons l ls ih =>
      cases ls with
      | nil =>
          rw [List.intercalate_singleton] at h
          exact .inr ⟨l, List.mem_cons_self, h⟩
      | cons m ls =>
          rw [List.intercalate_cons_cons, List.append_assoc, List.mem_append, List.mem_append,
            List.mem_singleton] at h
          obtain h | h | h := h
          · exact .inr ⟨l, List.mem_cons_self, h⟩
          · exact .inl h
          · exact (ih h).imp_right fun ⟨l', hl', hc⟩ => ⟨l', List.mem_cons_of_mem l hl', hc⟩

theorem mem_withConnectives {l : List Char} {ls : List (List Char)}
    (h : l ∈ withConnectives T ls) : l ∈ ls ∨ l = "AND".toList := by
  cases ls with
  | nil => cases h
  | cons first ls =>
      obtain rfl | h := List.mem_cons.mp h
      · exact .inl List.mem_cons_self
      · obtain ⟨m, hm, hl⟩ := List.mem_flatMap.mp h
        split_ifs at hl
        · rw [List.mem_singleton.mp hl]
          exact .inl (List.mem_cons_of_mem first hm)
        · obtain rfl | hl := List.mem_cons.mp hl
          · exact .inr rfl
          · rw [List.mem_singleton.mp hl]
            exact .inl (List.mem_cons_of_mem first hm)

theorem not_break_of_mem_normalizedText (h : c ∈ normalizedText T text) : isLineBreak c = false := by
  obtain rfl | ⟨l, hl, hc⟩ := mem_join h
  · decide
  · obtain hl | rfl := mem_withConnectives hl
    · obtain ⟨line, hLine, rfl⟩ := List.mem_map.mp (List.mem_of_mem_filter hl)
      exact eq_false_of_mem_splitOnP hLine (mem_of_mem_strip hc)
    · have hWord : ∀ c ∈ "AND".toList, isLineBreak c = false := by decide
      exact hWord c hc

end Lines

end AsetPlatform.ScreenQL

import Mathlib.Data.List.Infix

/-!
# Scanning JSON texts

A text is scanned character by character: between tokens, in a word (a number or a name such as
`true`), or in a string, where an escape may be under way. What stands in a string is kept piece by
piece, so that a character written as itself and the same character written as an escape differ.

`scan_append` splits a scan at any place, `scan_text_iff` says what a scan that is inside a string
still finds of it, and `exists_reads_of_mem_scan` finds the text of every string again.
-/

set_option autoImplicit false

namespace AsetPlatform.Library.JsonText

/-- A piece of a string: a character written as itself, or an escape for a code. -/
inductive Piece where
  | plain (c : Char)
  | escape (code : Nat)
  deriving DecidableEq

def Piece.code : Piece → Nat
  | plain c => c.toNat
  | escape code => code

inductive Token where
  | openArr
  | closeArr
  | openObj
  | closeObj
  | colon
  | comma
  | str (ps : List Piece)
  | word (w : List Char)
  deriving DecidableEq

/-- Where a scan stands, with what it has read of an unfinished token. In `hex` there are
`left + 1` digits still to come. -/
inductive Mode where
  | gap
  | word (w : List Char)
  | text (ps : List Piece)
  | escape (ps : List Piece)
  | hex (ps : List Piece) (left value : Nat)

/-- White space between tokens. -/
def isBlank (c : Char) : Bool := c = ' ' ∨ c = '\t' ∨ c = '\n' ∨ c = '\r'

def punctuation : Char → Option Token
  | '[' => some .openArr
  | ']' => some .closeArr
  | '{' => some .openObj
  | '}' => some .closeObj
  | ':' => some .colon
  | ',' => some .comma
  | _ => none

def inWord (c : Char) : Bool := c.isAlphanum || c = '+' || c = '-' || c = '.'

/-- The codes of the escapes of one letter. -/
def escapeCode : Char → Option Nat
  | '"' => some 34
  | '\\' => some 92
  | '/' => some 47
  | 'b' => some 8
  | 'f' => some 12
  | 'n' => some 10
  | 'r' => some 13
  | 't' => some 9
  | _ => none

def hexValue (c : Char) : Option Nat :=
  if c.isDigit then some (c.toNat - '0'.toNat)
  else if 'a' ≤ c ∧ c ≤ 'f' then some (c.toNat - 'a'.toNat + 10)
  else if 'A' ≤ c ∧ c ≤ 'F' then some (c.toNat - 'A'.toNat + 10)
  else none

/-- A character outside strings and words: the token that it is, and the mode after it. -/
def start (c : Char) : Option (List Token × Mode) :=
  if isBlank c then some ([], .gap)
  else if c = '"' then some ([], .text [])
  else if inWord c then some ([], .word [c])
  else (punctuation c).map fun t => ([t], .gap)

/-- One character: the tokens that it ends or is, and the mode after it. A control character may not
stand in a string. -/
def step : Mode → Char → Option (List Token × Mode)
  | .gap, c => start c
  | .word w, c =>
      if inWord c then some ([], .word (w ++ [c]))
      else (start c).map fun r => (.word w :: r.1, r.2)
  | .text ps, c =>
      if c = '"' then some ([.str ps], .gap)
      else if c = '\\' then some ([], .escape ps)
      else if c < ' ' then none
      else some ([], .text (ps ++ [.plain c]))
  | .escape ps, c =>
      if c = 'u' then some ([], .hex ps 3 0)
      else (escapeCode c).map fun code => ([], .text (ps ++ [.escape code]))
  | .hex ps 0 value, c =>
      (hexValue c).map fun digit => ([], .text (ps ++ [.escape (16 * value + digit)]))
  | .hex ps (left + 1) value, c =>
      (hexValue c).map fun digit => ([], .hex ps left (16 * value + digit))

/-- The end of the text. -/
def finish : Mode → Option (List Token)
  | .gap => some []
  | .word w => some [.word w]
  | _ => none

/-- The tokens of a text that is scanned from a mode on. -/
def scan : Mode → List Char → Option (List Token)
  | m, [] => finish m
  | m, c :: s => (step m c).bind fun r => (scan r.2 s).map fun ts => r.1 ++ ts

/-- The tokens of the first part of a text, and the mode that it leaves. -/
def run : Mode → List Char → Option (List Token × Mode)
  | m, [] => some ([], m)
  | m, c :: s => (step m c).bind fun r => (run r.2 s).map fun q => (r.1 ++ q.1, q.2)

section Scan

variable {m : Mode} {c : Char} {s t : List Char} {ts : List Token}

theorem scan_cons_iff : scan m (c :: s) = some ts ↔
    ∃ out m' rest, step m c = some (out, m') ∧ scan m' s = some rest ∧ ts = out ++ rest := by
  constructor
  · intro h
    obtain ⟨⟨out, m'⟩, hStep, hRest⟩ := Option.bind_eq_some_iff.mp h
    obtain ⟨rest, hScan, rfl⟩ := Option.map_eq_some_iff.mp hRest
    exact ⟨out, m', rest, hStep, hScan, rfl⟩
  · rintro ⟨out, m', rest, hStep, hScan, rfl⟩
    simp only [scan, hStep, hScan, Option.bind_some, Option.map_some]

theorem scan_append (m : Mode) (s t : List Char) :
    scan m (s ++ t) = (run m s).bind fun r => (scan r.2 t).map fun ts => r.1 ++ ts := by
  induction s generalizing m with
  | nil => simp [run]
  | cons c s ih =>
      show ((step m c).bind fun r => (scan r.2 (s ++ t)).map fun ts => r.1 ++ ts) = _
      cases hStep : step m c with
      | none => simp [run, hStep]
      | some r =>
          simp only [run, hStep, Option.bind_some, ih]
          cases run r.2 s with
          | none => rfl
          | some q => simp [Function.comp_def, List.append_assoc]

theorem scan_append_iff : scan m (s ++ t) = some ts ↔
    ∃ out m' rest, run m s = some (out, m') ∧ scan m' t = some rest ∧ ts = out ++ rest := by
  rw [scan_append]
  constructor
  · intro h
    obtain ⟨⟨out, m'⟩, hRun, hRest⟩ := Option.bind_eq_some_iff.mp h
    obtain ⟨rest, hScan, rfl⟩ := Option.map_eq_some_iff.mp hRest
    exact ⟨out, m', rest, hRun, hScan, rfl⟩
  · rintro ⟨out, m', rest, hRun, hScan, rfl⟩
    simp only [hRun, hScan, Option.bind_some, Option.map_some]

end Scan

/-! ## What a scan finds of a string -/

/-- The text `e`, behind a backslash, is an escape for the code. -/
def Escapes (e : List Char) (code : Nat) : Prop :=
  ∀ ps, run (.escape ps) e = some ([], .text (ps ++ [.escape code]))

/-- The text `s` is the pieces of a string up to its closing quote, with `rest` behind it. -/
inductive Reads : List Char → List Piece → List Char → Prop
  | close (rest : List Char) : Reads ('"' :: rest) [] rest
  | plain {c : Char} {s rest : List Char} {ps : List Piece} (hQuote : c ≠ '"')
      (hEscape : c ≠ '\\') (hControl : ¬ c < ' ') (h : Reads s ps rest) :
      Reads (c :: s) (.plain c :: ps) rest
  | escape {e s rest : List Char} {code : Nat} {ps : List Piece} (he : Escapes e code)
      (h : Reads s ps rest) : Reads ('\\' :: (e ++ s)) (.escape code :: ps) rest

theorem Reads.exists_append {s rest : List Char} {ps : List Piece} (h : Reads s ps rest) :
    ∃ c a, s = c :: (a ++ rest) := by
  induction h with
  | close rest => exact ⟨'"', [], rfl⟩
  | plain _ _ _ _ ih =>
      obtain ⟨c, a, rfl⟩ := ih
      exact ⟨_, c :: a, rfl⟩
  | @escape e s rest code ps _ _ ih =>
      obtain ⟨c, a, rfl⟩ := ih
      exact ⟨'\\', e ++ c :: a, by rw [List.append_assoc, List.cons_append]⟩

section Strings

variable {ps qs : List Piece} {s : List Char} {ts : List Token}

theorem scan_hex {left value : Nat} (h : scan (.hex ps left value) s = some ts) :
    ∃ e code rest, (∀ qs, run (.hex qs left value) e = some ([], .text (qs ++ [.escape code]))) ∧
      s = e ++ rest ∧ scan (.text (ps ++ [.escape code])) rest = some ts := by
  induction left generalizing value s with
  | zero =>
      cases s with
      | nil => cases h
      | cons c s =>
          obtain ⟨out, m, rest, hStep, hRest, rfl⟩ := scan_cons_iff.mp h
          obtain ⟨digit, hDigit, hOut⟩ := Option.map_eq_some_iff.mp hStep
          cases hOut
          refine ⟨[c], 16 * value + digit, s, fun qs => ?_, rfl, hRest⟩
          simp only [run, step, hDigit, Option.map_some, Option.bind_some, List.append_nil]
  | succ left ih =>
      cases s with
      | nil => cases h
      | cons c s =>
          obtain ⟨out, m, rest, hStep, hRest, rfl⟩ := scan_cons_iff.mp h
          obtain ⟨digit, hDigit, hOut⟩ := Option.map_eq_some_iff.mp hStep
          cases hOut
          obtain ⟨e, code, s, hRun, rfl, hScan⟩ := ih hRest
          refine ⟨c :: e, code, s, fun qs => ?_, rfl, hScan⟩
          simp only [run, step, hDigit, Option.map_some, Option.bind_some, hRun, List.append_nil]

theorem scan_escape (h : scan (.escape ps) s = some ts) :
    ∃ e code rest, Escapes e code ∧ s = e ++ rest ∧
      scan (.text (ps ++ [.escape code])) rest = some ts := by
  cases s with
  | nil => cases h
  | cons c s =>
      obtain ⟨out, m, rest, hStep, hRest, rfl⟩ := scan_cons_iff.mp h
      by_cases hu : c = 'u'
      · rw [step, if_pos hu] at hStep
        cases hStep
        obtain ⟨e, code, s, hRun, rfl, hScan⟩ := scan_hex hRest
        refine ⟨c :: e, code, s, fun qs => ?_, rfl, hScan⟩
        simp only [run, step, if_pos hu, Option.bind_some, hRun, Option.map_some, List.append_nil]
      · rw [step, if_neg hu] at hStep
        obtain ⟨code, hCode, hOut⟩ := Option.map_eq_some_iff.mp hStep
        cases hOut
        refine ⟨[c], code, s, fun qs => ?_, rfl, hRest⟩
        simp only [run, step, if_neg hu, hCode, Option.map_some, Option.bind_some, List.append_nil]

theorem scan_text_of_reads {rest : List Char} {us : List Token} (h : Reads s qs rest)
    (hRest : scan .gap rest = some us) (ps : List Piece) :
    scan (.text ps) s = some (.str (ps ++ qs) :: us) := by
  induction h generalizing ps with
  | close rest => simp [scan, step, hRest]
  | @plain c s rest qs hQuote hEscape hControl _ ih =>
      rw [scan_cons_iff]
      refine ⟨[], _, _, ?_, ih hRest (ps ++ [.plain c]), by simp⟩
      rw [step, if_neg hQuote, if_neg hEscape, if_neg hControl]
  | escape he _ ih =>
      rw [scan_cons_iff]
      refine ⟨[], .escape ps, _, rfl, ?_, rfl⟩
      rw [scan_append, he ps, Option.bind_some, ih hRest]
      simp

theorem reads_of_scan_text (h : scan (.text ps) s = some ts) :
    ∃ qs rest us, Reads s qs rest ∧ scan .gap rest = some us ∧ ts = .str (ps ++ qs) :: us := by
  induction hLength : s.length using Nat.strong_induction_on generalizing ps s with
  | _ n ih =>
      cases s with
      | nil => cases h
      | cons c s =>
          obtain ⟨out, m, rest, hStep, hRest, rfl⟩ := scan_cons_iff.mp h
          rw [step] at hStep
          split_ifs at hStep with hQuote hEscape hControl
          · cases hStep
            exact ⟨[], s, rest, hQuote ▸ .close s, hRest, by simp⟩
          · cases hStep
            obtain ⟨e, code, s, he, rfl, hScan⟩ := scan_escape hRest
            have hShorter : s.length < n := by
              rw [← hLength, List.length_cons, List.length_append]
              omega
            obtain ⟨qs, behind, us, hReads, hBehind, rfl⟩ := ih _ hShorter hScan rfl
            subst hEscape
            exact ⟨.escape code :: qs, behind, us, .escape he hReads, hBehind, by simp⟩
          · cases hStep
            have hShorter : s.length < n := hLength ▸ Nat.lt_succ_self _
            obtain ⟨qs, behind, us, hReads, hBehind, rfl⟩ := ih _ hShorter hRest rfl
            exact ⟨.plain c :: qs, behind, us, .plain hQuote hEscape hControl hReads, hBehind,
              by simp⟩

theorem scan_text_iff : scan (.text ps) s = some ts ↔
    ∃ qs rest us, Reads s qs rest ∧ scan .gap rest = some us ∧ ts = .str (ps ++ qs) :: us := by
  constructor
  · exact reads_of_scan_text
  · rintro ⟨qs, rest, us, hReads, hRest, rfl⟩
    exact scan_text_of_reads hReads hRest ps

end Strings

/-- Between tokens, or in a word. -/
def Mode.Outside : Mode → Prop
  | gap => True
  | word _ => True
  | _ => False

theorem step_of_outside {m m' : Mode} {c : Char} {out : List Token} (hm : m.Outside)
    (h : step m c = some (out, m')) : (∀ ps, .str ps ∉ out) ∧ (m'.Outside ∨ m' = .text []) := by
  have hStart : ∀ {c out m'}, start c = some (out, m') →
      (∀ ps, .str ps ∉ out) ∧ (m'.Outside ∨ m' = .text []) := by
    intro c out m' h
    rw [start] at h
    split_ifs at h with hBlank hQuote hWord
    · cases h
      exact ⟨fun _ => List.not_mem_nil, .inl trivial⟩
    · cases h
      exact ⟨fun _ => List.not_mem_nil, .inr rfl⟩
    · cases h
      exact ⟨fun _ => List.not_mem_nil, .inl trivial⟩
    · obtain ⟨t, ht, hOut⟩ := Option.map_eq_some_iff.mp h
      cases hOut
      refine ⟨fun ps hMem => ?_, .inl trivial⟩
      rw [← List.mem_singleton.mp hMem] at ht
      unfold punctuation at ht
      split at ht <;> cases ht
  cases m with
  | gap => exact hStart h
  | word w =>
      rw [step] at h
      split_ifs at h with hWord
      · cases h
        exact ⟨fun _ => List.not_mem_nil, .inl trivial⟩
      · obtain ⟨⟨out', m''⟩, hr, hOut⟩ := Option.map_eq_some_iff.mp h
        cases hOut
        obtain ⟨hMem, hMode⟩ := hStart hr
        refine ⟨fun ps => ?_, hMode⟩
        rw [List.mem_cons, not_or]
        exact ⟨Token.noConfusion, hMem ps⟩
  | text ps => exact hm.elim
  | escape ps => exact hm.elim
  | hex ps left value => exact hm.elim

theorem exists_reads_of_mem_scan {m : Mode} {s : List Char} {ts : List Token} {ps : List Piece}
    (hm : m.Outside) (h : scan m s = some ts) (hMem : .str ps ∈ ts) :
    ∃ a b rest, s = a ++ b ∧ Reads b ps rest := by
  induction hLength : s.length using Nat.strong_induction_on generalizing m s ts with
  | _ n ih =>
      cases s with
      | nil =>
          cases m with
          | gap =>
              cases h
              exact absurd hMem List.not_mem_nil
          | word w =>
              cases h
              cases List.mem_singleton.mp hMem
          | text ps => exact hm.elim
          | escape ps => exact hm.elim
          | hex ps left value => exact hm.elim
      | cons c s =>
          obtain ⟨out, m', found, hStep, hScan, rfl⟩ := scan_cons_iff.mp h
          obtain ⟨hOut, hMode⟩ := step_of_outside hm hStep
          have hFound := (List.mem_append.mp hMem).resolve_left (hOut ps)
          have hShorter : s.length < n := hLength ▸ Nat.lt_succ_self _
          obtain hMode | rfl := hMode
          · obtain ⟨a, b, rest, rfl, hReads⟩ := ih _ hShorter hMode hScan hFound rfl
            exact ⟨c :: a, b, rest, rfl, hReads⟩
          · obtain ⟨qs, rest, us, hReads, hRest, rfl⟩ := scan_text_iff.mp hScan
            obtain hHere | hLater := List.mem_cons.mp hFound
            · cases hHere
              exact ⟨[c], s, rest, rfl, hReads⟩
            · obtain ⟨d, before, rfl⟩ := hReads.exists_append
              have hRestShorter : rest.length < n := by
                rw [List.length_cons, List.length_append] at hShorter
                omega
              have hGap : Mode.gap.Outside := trivial
              obtain ⟨a, b, rest', rfl, hReads'⟩ := ih _ hRestShorter hGap hRest hLater rfl
              exact ⟨c :: d :: (before ++ a), b, rest', by simp, hReads'⟩

/-! ## The ends of a text -/

/-- No character of the kind is part of a token outside strings. -/
def Separates (space : Char → Bool) : Prop :=
  ∀ c, space c = true → inWord c = false ∧ c ≠ '"' ∧ punctuation c = none

section Ends

variable {space : Char → Bool} {m : Mode} {c : Char} {s : List Char} {ts : List Token}

theorem Separates.start_eq (h : Separates space) (hc : space c = true)
    {r : List Token × Mode} (hr : start c = some r) : r = ([], .gap) := by
  obtain ⟨hWord, hQuote, hPunctuation⟩ := h c hc
  rw [start, if_neg hQuote, if_neg (Bool.eq_false_iff.mp hWord), hPunctuation] at hr
  by_cases hBlank : isBlank c = true
  · rw [if_pos hBlank] at hr
    exact (Option.some.inj hr).symm
  · rw [if_neg hBlank] at hr
    cases hr

theorem outside_of_last (hQuote : c ≠ '"') (h : scan m [c] = some ts) : m.Outside := by
  obtain ⟨out, m', rest, hStep, hFinish, -⟩ := scan_cons_iff.mp h
  cases m with
  | gap => trivial
  | word w => trivial
  | text ps =>
      rw [step, if_neg hQuote] at hStep
      split_ifs at hStep <;> cases hStep <;> cases hFinish
  | escape ps =>
      rw [step] at hStep
      split_ifs at hStep
      · cases hStep
        cases hFinish
      · obtain ⟨code, -, hOut⟩ := Option.map_eq_some_iff.mp hStep
        cases hOut
        cases hFinish
  | hex ps left value =>
      cases left with
      | zero =>
          obtain ⟨digit, -, hOut⟩ := Option.map_eq_some_iff.mp hStep
          cases hOut
          cases hFinish
      | succ left =>
          obtain ⟨digit, -, hOut⟩ := Option.map_eq_some_iff.mp hStep
          cases hOut
          cases hFinish

theorem scan_cons_eq_none (h : start c = none) : scan .gap (c :: s) = none := by
  rw [scan, step, h, Option.bind_none]

theorem scan_concat_eq_none (hWord : inWord c = false) (h : start c = none) :
    scan m (s ++ [c]) = none := by
  have hQuote : c ≠ '"' := by
    rintro rfl
    cases h
  rw [Option.eq_none_iff_forall_ne_some]
  intro ts hScan
  obtain ⟨out, m', rest, -, hLast, -⟩ := scan_append_iff.mp hScan
  have hOutside := outside_of_last hQuote hLast
  obtain ⟨out', m'', rest', hStep, -, -⟩ := scan_cons_iff.mp hLast
  cases m' with
  | gap => cases h.symm.trans hStep
  | word w =>
      rw [step, hWord, h] at hStep
      cases hStep
  | text ps => exact hOutside
  | escape ps => exact hOutside
  | hex ps left value => exact hOutside

theorem scan_dropWhile (hSpace : Separates space) (h : scan .gap s = some ts) :
    scan .gap (s.dropWhile space) = some ts := by
  induction s with
  | nil => exact h
  | cons c s ih =>
      by_cases hc : space c = true
      · obtain ⟨out, m, rest, hStep, hRest, rfl⟩ := scan_cons_iff.mp h
        cases hSpace.start_eq hc hStep
        rw [List.dropWhile_cons_of_pos hc]
        exact ih hRest
      · rw [List.dropWhile_cons_of_neg hc]
        exact h

theorem scan_of_concat (hSpace : Separates space) (hc : space c = true)
    (h : scan m (s ++ [c]) = some ts) : scan m s = some ts := by
  obtain ⟨hWord, hQuote, -⟩ := hSpace c hc
  obtain ⟨out, m', rest, hRun, hLast, rfl⟩ := scan_append_iff.mp h
  have hOutside := outside_of_last hQuote hLast
  obtain ⟨out', m'', rest', hStep, hFinish, rfl⟩ := scan_cons_iff.mp hLast
  rw [← List.append_nil s, scan_append, hRun]
  cases m' with
  | gap =>
      cases hSpace.start_eq hc hStep
      cases hFinish
      rfl
  | word w =>
      rw [step, hWord, if_neg Bool.false_ne_true] at hStep
      obtain ⟨r, hStart, hOut⟩ := Option.map_eq_some_iff.mp hStep
      cases hSpace.start_eq hc hStart
      cases hOut
      cases hFinish
      rfl
  | text ps => exact hOutside.elim
  | escape ps => exact hOutside.elim
  | hex ps left value => exact hOutside.elim

theorem scan_of_append_spaces (hSpace : Separates space) {w : List Char}
    (hw : ∀ c ∈ w, space c = true) (h : scan m (s ++ w) = some ts) : scan m s = some ts := by
  induction w using List.reverseRecOn with
  | nil => rwa [List.append_nil] at h
  | append_singleton w c ih =>
      rw [← List.append_assoc] at h
      have hc := hw c (List.mem_append_right _ (List.mem_singleton.mpr rfl))
      exact ih (fun d hd => hw d (List.mem_append_left _ hd)) (scan_of_concat hSpace hc h)

end Ends

/-! ## Blanks and words -/

section Words

variable {m : Mode} {c : Char} {s w : List Char} {ts : List Token}

theorem scan_blank (hw : ∀ c ∈ w, isBlank c = true) (s : List Char) :
    scan .gap (w ++ s) = scan .gap s := by
  induction w with
  | nil => rfl
  | cons c w ih =>
      have hStart : start c = some ([], .gap) := if_pos (hw c List.mem_cons_self)
      rw [List.cons_append, scan, step, hStart, Option.bind_some,
        ih fun d hd => hw d (List.mem_cons_of_mem c hd)]
      cases scan .gap s <;> rfl

theorem not_inWord_of_isBlank (h : isBlank c = true) : inWord c = false := by
  rw [isBlank, decide_eq_true_eq] at h
  obtain rfl | rfl | rfl | rfl := h <;> rfl

theorem start_of_inWord (h : inWord c = true) : start c = some ([], .word [c]) := by
  have hBlank : ¬ isBlank c = true := fun hBlank =>
    Bool.false_ne_true ((not_inWord_of_isBlank hBlank).symm.trans h)
  have hQuote : c ≠ '"' := by
    rintro rfl
    cases h
  rw [start, if_neg hBlank, if_neg hQuote, if_pos h]

theorem scan_punctuation {t : Token} (hStart : start c = some ([t], .gap)) (s : List Char) :
    scan .gap (c :: s) = (scan .gap s).map fun ts => t :: ts := by
  rw [scan, step, hStart]
  rfl

theorem scan_word (u : List Char) (hw : ∀ d ∈ w, inWord d = true) (hc : inWord c = false)
    (s : List Char) :
    scan (.word u) (w ++ c :: s) = (scan .gap (c :: s)).map fun ts => .word (u ++ w) :: ts := by
  induction w generalizing u with
  | nil =>
      rw [List.nil_append, List.append_nil, scan, step, if_neg (Bool.eq_false_iff.mp hc), scan, step]
      cases start c with
      | none => rfl
      | some r =>
          simp only [Option.map_some, Option.bind_some, Option.map_map]
          rfl
  | cons d w ih =>
      rw [List.cons_append, scan, step, if_pos (hw d List.mem_cons_self), Option.bind_some,
        ih _ fun e he => hw e (List.mem_cons_of_mem d he), Option.map_map, List.append_assoc]
      rfl

theorem scan_gap_word (hNonempty : w ≠ []) (hw : ∀ d ∈ w, inWord d = true) (hc : inWord c = false)
    (s : List Char) :
    scan .gap (w ++ c :: s) = (scan .gap (c :: s)).map fun ts => .word w :: ts := by
  obtain ⟨d, w, rfl⟩ := List.exists_cons_of_ne_nil hNonempty
  rw [List.cons_append, scan, step, start_of_inWord (hw d List.mem_cons_self), Option.bind_some,
    scan_word [d] (fun e he => hw e (List.mem_cons_of_mem d he)) hc, Option.map_map]
  rfl

theorem head_of_scan_word {u : List Char} (h : scan (.word u) s = some ts) :
    ∃ v rest, ts = .word v :: rest := by
  induction s generalizing u ts with
  | nil =>
      cases h
      exact ⟨u, [], rfl⟩
  | cons c s ih =>
      obtain ⟨out, m', rest, hStep, hRest, rfl⟩ := scan_cons_iff.mp h
      rw [step] at hStep
      split_ifs at hStep with hWord
      · cases hStep
        exact ih hRest
      · obtain ⟨r, -, hOut⟩ := Option.map_eq_some_iff.mp hStep
        cases hOut
        exact ⟨u, r.1 ++ rest, rfl⟩

/-- A text without tokens is blank. -/
theorem blank_of_scan_nil (h : scan m s = some []) : m = .gap ∧ ∀ c ∈ s, isBlank c = true := by
  induction s generalizing m with
  | nil =>
      cases m with
      | gap => exact ⟨rfl, nofun⟩
      | word w => cases h
      | text ps => cases h
      | escape ps => cases h
      | hex ps left value => cases h
  | cons c s ih =>
      obtain ⟨out, m', rest, hStep, hRest, hNil⟩ := scan_cons_iff.mp h
      obtain ⟨rfl, rfl⟩ := List.append_eq_nil_iff.mp hNil.symm
      obtain ⟨rfl, hBlank⟩ := ih hRest
      cases m with
      | gap =>
          rw [step, start] at hStep
          split_ifs at hStep with hc hQuote hWord
          · refine ⟨rfl, fun d hd => ?_⟩
            rcases List.mem_cons.mp hd with rfl | hd
            · exact hc
            · exact hBlank d hd
          · cases hStep
          · cases hStep
          · obtain ⟨t, -, hOut⟩ := Option.map_eq_some_iff.mp hStep
            cases hOut
      | word w =>
          rw [step] at hStep
          split_ifs at hStep
          · cases hStep
          · obtain ⟨r, -, hOut⟩ := Option.map_eq_some_iff.mp hStep
            cases hOut
      | text ps =>
          rw [step] at hStep
          split_ifs at hStep <;> cases hStep
      | escape ps =>
          rw [step] at hStep
          split_ifs at hStep
          · cases hStep
          · obtain ⟨code, -, hOut⟩ := Option.map_eq_some_iff.mp hStep
            cases hOut
      | hex ps left value =>
          cases left with
          | zero =>
              obtain ⟨digit, -, hOut⟩ := Option.map_eq_some_iff.mp hStep
              cases hOut
          | succ left =>
              obtain ⟨digit, -, hOut⟩ := Option.map_eq_some_iff.mp hStep
              cases hOut

theorem punctuation_openArr (h : punctuation c = some .openArr) : c = '[' := by
  unfold punctuation at h
  split at h <;> first | rfl | cases h

theorem punctuation_closeArr (h : punctuation c = some .closeArr) : c = ']' := by
  unfold punctuation at h
  split at h <;> first | rfl | cases h

theorem blank_of_openArr (hs : '[' ∉ s) (h : scan .gap (s ++ w) = some (.openArr :: ts)) :
    ∀ c ∈ s, isBlank c = true := by
  induction s with
  | nil => nofun
  | cons c s ih =>
      rw [List.mem_cons, not_or] at hs
      obtain ⟨out, m', rest, hStep, hRest, hTokens⟩ := scan_cons_iff.mp h
      rw [step, start] at hStep
      split_ifs at hStep with hBlank hQuote hWord
      · cases hStep
        rw [List.nil_append] at hTokens
        subst hTokens
        intro d hd
        rcases List.mem_cons.mp hd with rfl | hd
        · exact hBlank
        · exact ih hs.2 hRest d hd
      · cases hStep
        obtain ⟨qs, behind, us, -, -, rfl⟩ := scan_text_iff.mp hRest
        cases hTokens
      · cases hStep
        obtain ⟨v, us, rfl⟩ := head_of_scan_word hRest
        cases hTokens
      · obtain ⟨t, ht, hOut⟩ := Option.map_eq_some_iff.mp hStep
        cases hOut
        cases hTokens
        exact absurd (punctuation_openArr ht).symm hs.1

/-- A text without a closing bracket has no token for one. -/
theorem closeArr_notMem (hs : ']' ∉ s) (h : scan m s = some ts) : .closeArr ∉ ts := by
  have hStart : ∀ {c out m'}, start c = some (out, m') → c ≠ ']' → .closeArr ∉ out := by
    intro c out m' h hc
    rw [start] at h
    split_ifs at h
    · cases h
      exact List.not_mem_nil
    · cases h
      exact List.not_mem_nil
    · cases h
      exact List.not_mem_nil
    · obtain ⟨t, ht, hOut⟩ := Option.map_eq_some_iff.mp h
      cases hOut
      intro hMem
      cases List.mem_singleton.mp hMem
      exact hc (punctuation_closeArr ht)
  induction s generalizing m ts with
  | nil =>
      cases m with
      | gap =>
          cases h
          exact List.not_mem_nil
      | word w =>
          cases h
          exact fun hMem => nomatch List.mem_singleton.mp hMem
      | text ps => cases h
      | escape ps => cases h
      | hex ps left value => cases h
  | cons c s ih =>
      rw [List.mem_cons, not_or] at hs
      obtain ⟨out, m', rest, hStep, hRest, rfl⟩ := scan_cons_iff.mp h
      rw [List.mem_append, not_or]
      refine ⟨?_, ih hs.2 hRest⟩
      cases m with
      | gap => exact hStart hStep (Ne.symm hs.1)
      | word w =>
          rw [step] at hStep
          split_ifs at hStep
          · cases hStep
            exact List.not_mem_nil
          · obtain ⟨r, hr, hOut⟩ := Option.map_eq_some_iff.mp hStep
            cases hOut
            rw [List.mem_cons, not_or]
            exact ⟨nofun, hStart hr (Ne.symm hs.1)⟩
      | text ps =>
          rw [step] at hStep
          split_ifs at hStep
          · cases hStep
            exact fun hMem => nomatch List.mem_singleton.mp hMem
          · cases hStep
            exact List.not_mem_nil
          · cases hStep
            exact List.not_mem_nil
      | escape ps =>
          rw [step] at hStep
          split_ifs at hStep
          · cases hStep
            exact List.not_mem_nil
          · obtain ⟨code, -, hOut⟩ := Option.map_eq_some_iff.mp hStep
            cases hOut
            exact List.not_mem_nil
      | hex ps left value =>
          cases left with
          | zero =>
              obtain ⟨digit, -, hOut⟩ := Option.map_eq_some_iff.mp hStep
              cases hOut
              exact List.not_mem_nil
          | succ left =>
              obtain ⟨digit, -, hOut⟩ := Option.map_eq_some_iff.mp hStep
              cases hOut
              exact List.not_mem_nil

end Words

end AsetPlatform.Library.JsonText

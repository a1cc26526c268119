import AsetPlatform.Library.FloatTexts
import AsetPlatform.Library.JsonParser
import AsetPlatform.Library.NumberTexts

/-!
# The numbers of JSON

How Python reads them: an integer has any size, but only so many digits, and a float is rounded.
`float(x)` of an integer that no float can hold raises. `PyFloat` has exact rationals, so rounding is
a function `nearest`.

`numberTexts_number` is what the expression `-?\d+\.?\d*` finds in such a number: its mantissa and,
apart from it, its exponent.
-/

set_option autoImplicit false

namespace AsetPlatform.Library.JsonText

open AsetPlatform.Library.Regex

/-! ## Reading -/

/-- A number as it is read, with its exact value. -/
structure Number where
  integer : Bool
  value : PyFloat

/-- The number is written without a point and without an exponent. -/
def isInteger (w : List Char) : Bool := isNumber w && w.all fun c => c ≠ '.' && c ≠ 'e' && c ≠ 'E'

/-- The exact value of a number's text. Every number of JSON is a text that `float` takes. -/
def exactValue (w : List Char) : PyFloat := (readFloat w).getD .nan

def jsonNumber (w : List Char) : Number := ⟨isInteger w, exactValue w⟩

/-- The limit that `int` sets on the digits of a text. -/
def maxStrDigits : Nat := 4300

/-- `int` refuses the text for its length. -/
def refusedInteger (w : List Char) : Bool :=
  isInteger w && maxStrDigits < (w.filter Char.isDigit).length

def Token.refused : Token → Bool
  | .word w => refusedInteger w
  | _ => false

/-- `json.loads(s)`, of a text that is not nested too deeply; `none` when it raises `ValueError`. -/
def loadNumbers (s : List Char) : Option (Value Number) :=
  (scan .gap s).bind fun ts => if ts.any Token.refused then none else (parse ts).map (Doc.value jsonNumber)

/-! ## Floats -/

/-- The integers from here on round beyond the largest float. -/
def floatRange : ℚ := (Nat.pow 2 1024 - Nat.pow 2 970 : Nat)

/-- A value that no float can hold. -/
def outOfRange : PyFloat → Bool
  | .number x => decide (x ≤ -floatRange) || decide (floatRange ≤ x)
  | _ => false

/-- The float of an exact value. -/
def roundTo (nearest : ℚ → PyFloat) : PyFloat → PyFloat
  | .number x => nearest x
  | x => x

/-- What `float(s)` makes of a character before it reads a text: white space becomes a blank, and a
digit the digit of ASCII. -/
def plainChar (T : CharTables) (c : Char) : Char :=
  if c = '\x0b' ∨ c = '\x0c' then ' '
  else if c.toNat < 127 then c
  else if T.isSpace c then ' '
  else if T.isDigit c then Char.ofNat ('0'.toNat + T.digitValue c)
  else '?'

/-- `float(s)`, with the exact value; `none` when it raises. -/
def floatOfText (T : CharTables) (s : List Char) : Option PyFloat := readFloat (s.map (plainChar T))

/-- The characters of a string; a half of a pair is none. -/
def textOfCodes (cs : List Nat) : Option (List Char) :=
  cs.mapM fun n => if n.isValidChar then some (Char.ofNat n) else none

/-! ## Numbers as texts -/

/-- Only digits of ASCII, and at least one. -/
def Digits (w : List Char) : Prop := w ≠ [] ∧ ∀ c ∈ w, c.isDigit = true

theorem digits_of_areDigits {w : List Char} (h : areDigits w = true) : Digits w := by
  rw [areDigits, Bool.and_eq_true, Bool.not_eq_true', List.isEmpty_eq_false_iff, List.all_eq_true] at h
  exact h

/-- The exponent that a number ends with, as the expression finds it. -/
def exponentTexts : List Char → List (List Char)
  | [] => []
  | _ :: '+' :: w => [w]
  | _ :: w => [w]

/-- Whether the character starts an exponent. -/
def startsExponent (c : Char) : Bool := c = 'e' || c = 'E'

/-- The texts of a number: the mantissa, and the exponent if there is one. -/
def pieces (w : List Char) : List (List Char) :=
  w.takeWhile (fun c => !startsExponent c) :: exponentTexts (w.dropWhile fun c => !startsExponent c)

theorem exponent_cases {w : List Char} (h : isExponent w = true) :
    w = [] ∨ ∃ e sign ds, startsExponent e = true ∧ (sign = [] ∨ sign = ['+'] ∨ sign = ['-']) ∧
      Digits ds ∧ w = e :: (sign ++ ds) := by
  cases w with
  | nil => exact .inl rfl
  | cons e w =>
      rw [isExponent, Bool.and_eq_true] at h
      obtain ⟨he, hDigits⟩ := h
      refine .inr ?_
      split_ifs at hDigits with hSign
      · cases w with
        | nil =>
            obtain hSign | hSign := hSign <;> cases hSign
        | cons sign w =>
            have hWord : sign = '+' ∨ sign = '-' := by simpa using hSign
            refine ⟨e, [sign], w, he, .inr ?_, digits_of_areDigits hDigits, rfl⟩
            exact hWord.imp (congrArg fun c => [c]) (congrArg fun c => [c])
      · exact ⟨e, [], w, he, .inl rfl, digits_of_areDigits hDigits, rfl⟩

theorem number_cases {w : List Char} (h : isNumber w = true) :
    ∃ sign whole point ex, w = sign ++ (whole ++ (point ++ ex)) ∧ (sign = [] ∨ sign = ['-']) ∧
      Digits whole ∧ (point = [] ∨ ∃ ds, Digits ds ∧ point = '.' :: ds) ∧ isExponent ex = true := by
  have hFraction : ∀ w, isFraction w = true → ∃ point ex, w = point ++ ex ∧
      (point = [] ∨ ∃ ds, Digits ds ∧ point = '.' :: ds) ∧ isExponent ex = true := by
    intro w h
    rw [isFraction.eq_def] at h
    split at h
    · rename_i w
      obtain ⟨hDigits, hExponent⟩ := Bool.and_eq_true_iff.mp h
      refine ⟨'.' :: w.takeWhile Char.isDigit, w.dropWhile Char.isDigit, ?_, ?_, hExponent⟩
      · rw [List.cons_append, List.takeWhile_append_dropWhile]
      · exact .inr ⟨_, digits_of_areDigits hDigits, rfl⟩
    · exact ⟨[], w, rfl, .inl rfl, h⟩
  have hUnsigned : ∀ w, isUnsigned w = true → ∃ whole point ex, w = whole ++ (point ++ ex) ∧
      Digits whole ∧ (point = [] ∨ ∃ ds, Digits ds ∧ point = '.' :: ds) ∧ isExponent ex = true := by
    intro w h
    simp only [isUnsigned, Bool.and_eq_true] at h
    obtain ⟨⟨hWhole, -⟩, hRest⟩ := h
    obtain ⟨point, ex, hText, hPoint, hExponent⟩ := hFraction _ hRest
    refine ⟨w.takeWhile Char.isDigit, point, ex, ?_, digits_of_areDigits hWhole, hPoint, hExponent⟩
    rw [← hText, List.takeWhile_append_dropWhile]
  rw [isNumber.eq_def] at h
  split at h
  · obtain ⟨whole, point, ex, rfl, hRest⟩ := hUnsigned _ h
    exact ⟨['-'], whole, point, ex, rfl, .inr rfl, hRest⟩
  · obtain ⟨whole, point, ex, rfl, hRest⟩ := hUnsigned _ h
    exact ⟨[], whole, point, ex, rfl, .inl rfl, hRest⟩

section Characters

variable {T : CharTables} {c : Char}

theorem toNat_of_isDigit (h : c.isDigit = true) : 48 ≤ c.toNat ∧ c.toNat ≤ 57 := by
  rw [Char.isDigit, Bool.and_eq_true, decide_eq_true_eq, decide_eq_true_eq, ge_iff_le,
    UInt32.le_iff_toNat_le, UInt32.le_iff_toNat_le] at h
  exact h

theorem isDigit_of_isDigit (hT : AsciiDigits T) (h : c.isDigit = true) : T.isDigit c = true := by
  have hRange := toNat_of_isDigit h
  rw [hT c (by omega), h]

theorem Digits.of_tables (hT : AsciiDigits T) {w : List Char} (h : Digits w) :
    ∀ c ∈ w, T.isDigit c = true := fun c hc => isDigit_of_isDigit hT (h.2 c hc)

theorem apart_of_startsExponent (hT : AsciiDigits T) (h : startsExponent c = true) : Apart T c := by
  rw [startsExponent, Bool.or_eq_true, decide_eq_true_eq, decide_eq_true_eq] at h
  obtain rfl | rfl := h
  · exact ⟨hT 'e' (by decide), by decide, by decide⟩
  · exact ⟨hT 'E' (by decide), by decide, by decide⟩

theorem not_startsExponent_of_isDigit (h : c.isDigit = true) : startsExponent c = false := by
  have hRange := toNat_of_isDigit h
  rw [startsExponent, Bool.or_eq_false_iff, decide_eq_false_iff_not, decide_eq_false_iff_not]
  constructor
  · rintro rfl
    exact absurd hRange.2 (by decide)
  · rintro rfl
    exact absurd hRange.2 (by decide)

end Characters

section Texts

variable {T : CharTables} {w : List Char}

theorem takeWhile_digits {p : Char → Bool} {ds rest : List Char} (hds : ∀ c ∈ ds, p c = true)
    (hRest : ∀ c ∈ rest.head?, p c = false) :
    (ds ++ rest).takeWhile p = ds ∧ (ds ++ rest).dropWhile p = rest := by
  have hStop : rest.takeWhile p = [] ∧ rest.dropWhile p = rest := by
    cases rest with
    | nil => exact ⟨rfl, rfl⟩
    | cons c rest =>
        have hc := Bool.eq_false_iff.mp (hRest c rfl)
        exact ⟨List.takeWhile_cons_of_neg hc, List.dropWhile_cons_of_neg hc⟩
  rw [List.takeWhile_append_of_pos hds, List.dropWhile_append_of_pos hds, hStop.1, hStop.2,
    List.append_nil]
  exact ⟨rfl, rfl⟩

theorem unsignedAt_number (hT : AsciiDigits T) {whole point ex : List Char} (hWhole : Digits whole)
    (hPoint : point = [] ∨ ∃ ds, Digits ds ∧ point = '.' :: ds)
    (hEx : ∀ c ∈ ex.head?, startsExponent c = true) :
    unsignedAt T (whole ++ (point ++ ex)) = some (whole ++ point, ex) := by
  have hStop : ∀ c ∈ ex.head?, T.isDigit c = false := fun c hc =>
    (apart_of_startsExponent hT (hEx c hc)).1
  have hHead : ∀ c ∈ (point ++ ex).head?, T.isDigit c = false := by
    obtain rfl | ⟨ds, -, rfl⟩ := hPoint
    · exact hStop
    · rintro c hc
      cases hc
      exact hT '.' (by decide)
  have hFraction : fractionAt T (point ++ ex) = (point, ex) := by
    obtain rfl | ⟨ds, hds, rfl⟩ := hPoint
    · obtain ⟨hTake, hDrop⟩ := @takeWhile_digits T.isDigit [] ex nofun hStop
      rw [List.nil_append] at hTake hDrop ⊢
      rw [fractionAt.eq_def]
      split
      · exact absurd (hEx '.' rfl) (by decide)
      · rw [hTake, hDrop]
    · obtain ⟨hTake, hDrop⟩ := takeWhile_digits (hds.of_tables hT) hStop
      rw [List.cons_append, fractionAt, hTake, hDrop]
  obtain ⟨hTake, hDrop⟩ := takeWhile_digits (hWhole.of_tables hT) hHead
  rw [unsignedAt, hTake, hDrop, if_neg hWhole.1, hFraction]

theorem numberAt_digits (hT : AsciiDigits T) {ds : List Char} (h : Digits ds) :
    unsignedAt T ds = some (ds, []) ∧ numberAt T ds = some (ds, []) := by
  have hUnsigned : unsignedAt T (ds ++ ([] ++ [])) = some (ds ++ [], []) :=
    unsignedAt_number hT h (.inl rfl) nofun
  simp only [List.append_nil] at hUnsigned
  refine ⟨hUnsigned, ?_⟩
  rw [numberAt.eq_def]
  split
  · exact absurd (h.2 '-' List.mem_cons_self) (by decide)
  · exact hUnsigned

theorem numberTexts_exponent (hT : AsciiDigits T) {ex : List Char} (h : isExponent ex = true) :
    numberTexts T ex = exponentTexts ex := by
  obtain rfl | ⟨e, sign, ds, he, hSign, hDigits, rfl⟩ := exponent_cases h
  · rfl
  · obtain ⟨hUnsigned, hNumber⟩ := numberAt_digits hT hDigits
    have hPlus : Apart T '+' := ⟨hT '+' (by decide), by decide, by decide⟩
    have hFound : numberTexts T ds = [ds] := numberTexts_of_some hT hNumber
    rw [numberTexts_cons_of_none hT (numberAt_apart (apart_of_startsExponent hT he) _)]
    obtain rfl | rfl | rfl := hSign
    · -- the digits do not start with a sign
      rw [List.nil_append, hFound, exponentTexts.eq_def]
      split
      · rename_i hEmpty
        cases hEmpty
      · rename_i hText
        cases hText
        exact absurd (hDigits.2 '+' List.mem_cons_self) (by decide)
      · rename_i hText
        cases hText
        rfl
    · rw [List.singleton_append, numberTexts_cons_of_none hT (numberAt_apart hPlus ds), hFound,
        exponentTexts]
    · have hMinus : numberAt T ('-' :: ds) = some ('-' :: ds, []) := by
        rw [numberAt, hUnsigned]
        rfl
      rw [List.singleton_append, numberTexts_of_some hT hMinus]
      rfl

theorem head?_exponent {ex : List Char} (h : isExponent ex = true) :
    ∀ c ∈ ex.head?, startsExponent c = true := by
  obtain rfl | ⟨e, sign, ds, he, -, -, rfl⟩ := exponent_cases h
  · nofun
  · rintro c hc
    cases hc
    exact he

theorem numberTexts_number (hT : AsciiDigits T) (h : isNumber w = true) :
    numberTexts T w = pieces w := by
  obtain ⟨sign, whole, point, ex, rfl, hSign, hWhole, hPoint, hEx⟩ := number_cases h
  have hUnsigned := unsignedAt_number hT hWhole hPoint (head?_exponent hEx)
  have hNumber : numberAt T (sign ++ (whole ++ (point ++ ex))) =
      some (sign ++ (whole ++ point), ex) := by
    obtain rfl | rfl := hSign
    · rw [List.nil_append, List.nil_append, numberAt.eq_def]
      split
      · rename_i hText
        obtain ⟨c, cs, rfl⟩ := List.exists_cons_of_ne_nil hWhole.1
        cases (List.cons.inj hText).1
        exact absurd (hWhole.2 '-' List.mem_cons_self) (by decide)
      · exact hUnsigned
    · rw [List.singleton_append, numberAt, hUnsigned]
      rfl
  have hMantissa : ∀ c ∈ sign ++ (whole ++ point), (!startsExponent c) = true := by
    intro c hc
    rw [Bool.not_eq_true']
    rcases List.mem_append.mp hc with hc | hc
    · obtain rfl | rfl := hSign
      · cases hc
      · rw [List.mem_singleton.mp hc]
        rfl
    · rcases List.mem_append.mp hc with hc | hc
      · exact not_startsExponent_of_isDigit (hWhole.2 c hc)
      · obtain rfl | ⟨ds, hds, rfl⟩ := hPoint
        · cases hc
        · rcases List.mem_cons.mp hc with rfl | hc
          · rfl
          · exact not_startsExponent_of_isDigit (hds.2 c hc)
  have hStop : ∀ c ∈ ex.head?, (!startsExponent c) = false := fun c hc => by
    rw [head?_exponent hEx c hc, Bool.not_true]
  obtain ⟨hTake, hDrop⟩ := takeWhile_digits hMantissa hStop
  rw [numberTexts_of_some hT hNumber, numberTexts_exponent hT hEx, pieces]
  simp only [List.append_assoc] at hTake hDrop
  rw [hTake, hDrop]

theorem pieces_of_no_exponent (h : ∀ c ∈ w, startsExponent c = false) : pieces w = [w] := by
  have hAll : ∀ c ∈ w, (!startsExponent c) = true := fun c hc => by rw [h c hc, Bool.not_false]
  obtain ⟨hTake, hDrop⟩ := @takeWhile_digits (fun c => !startsExponent c) w [] hAll nofun
  rw [List.append_nil] at hTake hDrop
  rw [pieces, hTake, hDrop, exponentTexts]

/-! ## Reading a match -/

/-- A character of a number is printed, and it is no white space. -/
def NumberChar (c : Char) : Prop := c.isDigit = true ∨ c ∈ ['-', '+', '.', 'e', 'E']

theorem numberChar_of_number (h : isNumber w = true) : ∀ c ∈ w, NumberChar c := by
  obtain ⟨sign, whole, point, ex, rfl, hSign, hWhole, hPoint, hEx⟩ := number_cases h
  intro c hc
  simp only [List.mem_append] at hc
  obtain hc | hc | hc | hc := hc
  · obtain rfl | rfl := hSign
    · cases hc
    · rw [List.mem_singleton.mp hc]
      exact .inr (by decide)
  · exact .inl (hWhole.2 c hc)
  · obtain rfl | ⟨ds, hds, rfl⟩ := hPoint
    · cases hc
    · rcases List.mem_cons.mp hc with rfl | hc
      · exact .inr (by decide)
      · exact .inl (hds.2 c hc)
  · obtain rfl | ⟨e, sign, ds, he, hSign, hds, rfl⟩ := exponent_cases hEx
    · cases hc
    · rcases List.mem_cons.mp hc with rfl | hc
      · rw [startsExponent, Bool.or_eq_true, decide_eq_true_eq, decide_eq_true_eq] at he
        obtain rfl | rfl := he
        · exact .inr (by decide)
        · exact .inr (by decide)
      · rcases List.mem_append.mp hc with hc | hc
        · obtain rfl | rfl | rfl := hSign
          · cases hc
          · rw [List.mem_singleton.mp hc]
            exact .inr (by decide)
          · rw [List.mem_singleton.mp hc]
            exact .inr (by decide)
        · exact .inl (hds.2 c hc)

theorem plainChar_of_numberChar {c : Char} (h : NumberChar c) : plainChar T c = c := by
  obtain h | h := h
  · have hRange := toNat_of_isDigit h
    rw [plainChar, if_neg, if_pos (by omega)]
    rintro (rfl | rfl)
    · exact absurd hRange.1 (by decide)
    · exact absurd hRange.1 (by decide)
  · simp only [List.mem_cons, List.not_mem_nil, or_false] at h
    obtain rfl | rfl | rfl | rfl | rfl := h <;> rfl

theorem floatOfText_number (h : isNumber w = true) : floatOfText T w = readFloat w := by
  rw [floatOfText]
  congr 1
  conv_rhs => rw [← List.map_id w]
  exact List.map_congr_left fun c hc => plainChar_of_numberChar (numberChar_of_number h c hc)

end Texts

/-! ## Decimals -/

theorem digitPart_digits {ds : List Char} (h : Digits ds) : digitPart ds = some ds := by
  have hNone : '_' ∉ ds := fun hMem => absurd (h.2 '_' hMem) (by decide)
  rw [digitPart, List.splitOn_eq_singleton hNone, if_pos]
  · exact congrArg some List.flatten_singleton
  · rw [List.all_eq_true]
    intro g hg
    rw [List.mem_singleton.mp hg, Bool.and_eq_true, Bool.not_eq_true', List.isEmpty_eq_false_iff,
      List.all_eq_true]
    exact h

theorem readDecimal_isSome {whole ds : List Char} (hWhole : Digits whole)
    (hds : ∀ c ∈ ds, c.isDigit = true) {point : List Char} (hPoint : point = [] ∨ point = '.' :: ds) :
    (readDecimal (whole ++ point)).isSome := by
  have hNoPoint : ∀ {w : List Char}, (∀ c ∈ w, c.isDigit = true) → '.' ∉ w := fun hw hMem =>
    absurd (hw '.' hMem) (by decide)
  obtain rfl | rfl := hPoint
  · rw [List.append_nil, readDecimal, List.splitOn_eq_singleton (hNoPoint hWhole.2)]
    simp only [digitPart_digits hWhole, Option.map_some, Option.isSome_some]
  · obtain ⟨c, cs, rfl⟩ := List.exists_cons_of_ne_nil hWhole.1
    rw [readDecimal, List.splitOn_append_cons_self_of_not_mem (hNoPoint hWhole.2),
      List.splitOn_eq_singleton (hNoPoint hds)]
    cases ds with
    | nil => simp only [digitPart_digits hWhole, Option.map_some, Option.isSome_some]
    | cons d ds =>
        have hFraction : Digits (d :: ds) := ⟨List.cons_ne_nil d ds, hds⟩
        simp only [digitPart_digits hWhole, digitPart_digits hFraction, Option.bind_some,
          Option.map_some, Option.isSome_some]

theorem readUnsigned_isSome {whole ds point : List Char} (hWhole : Digits whole)
    (hds : ∀ c ∈ ds, c.isDigit = true) (hPoint : point = [] ∨ point = '.' :: ds) :
    (readUnsigned (whole ++ point)).isSome := by
  have hNoE : 'e' ∉ whole ++ point := by
    rw [List.mem_append, not_or]
    refine ⟨fun hMem => absurd (hWhole.2 'e' hMem) (by decide), ?_⟩
    obtain rfl | rfl := hPoint
    · exact List.not_mem_nil
    · rw [List.mem_cons, not_or]
      exact ⟨by decide, fun hMem => absurd (hds 'e' hMem) (by decide)⟩
  have hName : ∀ name : List Char, name.head?.all (fun c => !c.isDigit) = true →
      whole ++ point ≠ name := by
    rintro name hHead rfl
    obtain ⟨c, cs, rfl⟩ := List.exists_cons_of_ne_nil hWhole.1
    have hDigit := hWhole.2 c List.mem_cons_self
    simp [hDigit] at hHead
  rw [readUnsigned, if_neg (hName _ (by decide)), if_neg, List.splitOn_eq_singleton hNoE]
  · rw [Option.isSome_map]
    exact readDecimal_isSome hWhole hds hPoint
  · rw [not_or]
    exact ⟨hName _ (by decide), hName _ (by decide)⟩

theorem readFloat_eq {s : List Char} (h : ∀ c ∈ s, c.isDigit = true ∨ c = '-' ∨ c = '.') :
    (strip .ascii s).map Char.toLower = s := by
  have hSpace : ∀ c ∈ s, CharTables.ascii.isSpace c = false := by
    intro c hc
    show c.isWhitespace = false
    obtain hDigit | rfl | rfl := h c hc
    · have hRange := toNat_of_isDigit hDigit
      rw [Bool.eq_false_iff]
      intro hBlank
      simp only [Char.isWhitespace, Bool.or_eq_true, decide_eq_true_eq] at hBlank
      obtain ((rfl | rfl) | rfl) | rfl := hBlank <;> exact absurd hRange.1 (by decide)
    · decide
    · decide
  have hDrop : ∀ u : List Char, (∀ c ∈ u, CharTables.ascii.isSpace c = false) →
      u.dropWhile CharTables.ascii.isSpace = u := by
    intro u hu
    cases u with
    | nil => rfl
    | cons c u => exact List.dropWhile_cons_of_neg (Bool.eq_false_iff.mp (hu c List.mem_cons_self))
  have hStrip : strip .ascii s = s := by
    rw [strip, hDrop s hSpace, hDrop _ fun c hc => hSpace c (List.mem_reverse.mp hc),
      List.reverse_reverse]
  rw [hStrip]
  conv_rhs => rw [← List.map_id s]
  apply List.map_congr_left
  intro c hc
  obtain hDigit | rfl | rfl := h c hc
  · exact toLower_eq_self (.inr (.inl hDigit))
  · rfl
  · rfl

theorem readFloat_isSome {sign whole ds point : List Char} (hSign : sign = [] ∨ sign = ['-'])
    (hWhole : Digits whole) (hds : ∀ c ∈ ds, c.isDigit = true)
    (hPoint : point = [] ∨ point = '.' :: ds) : (readFloat (sign ++ (whole ++ point))).isSome := by
  have hUnsigned := readUnsigned_isSome hWhole hds hPoint
  have hChars : ∀ c ∈ sign ++ (whole ++ point), c.isDigit = true ∨ c = '-' ∨ c = '.' := by
    intro c hc
    simp only [List.mem_append] at hc
    obtain hc | hc | hc := hc
    · obtain rfl | rfl := hSign
      · cases hc
      · exact .inr (.inl (List.mem_singleton.mp hc))
    · exact .inl (hWhole.2 c hc)
    · obtain rfl | rfl := hPoint
      · cases hc
      · rcases List.mem_cons.mp hc with rfl | hc
        · exact .inr (.inr rfl)
        · exact .inl (hds c hc)
  rw [readFloat, readFloat_eq hChars]
  obtain rfl | rfl := hSign
  · obtain ⟨c, cs, rfl⟩ := List.exists_cons_of_ne_nil hWhole.1
    have hDigit := hWhole.2 c List.mem_cons_self
    rw [List.nil_append, List.cons_append] at *
    split
    · rename_i hText
      cases hText
      exact absurd hDigit (by decide)
    · rename_i hText
      cases hText
      exact absurd hDigit (by decide)
    · exact hUnsigned
  · show ((readUnsigned (whole ++ point)).map PyFloat.neg).isSome
    rw [Option.isSome_map]
    exact hUnsigned

/-! ## Matches -/

/-- What the tables say about digits: those of ASCII are as usual, each has a value, and none is
white space. -/
structure DigitTables (T : CharTables) : Prop where
  ascii : AsciiDigits T
  value_lt : ∀ c, T.isDigit c = true → T.digitValue c < 10
  not_space : ∀ c, T.isDigit c = true → T.isSpace c = false

theorem digitTables_ascii : DigitTables CharTables.ascii where
  ascii := asciiDigits_ascii
  value_lt c h := by
    have hRange := toNat_of_isDigit h
    show c.toNat - '0'.toNat < 10
    have : '0'.toNat = 48 := rfl
    omega
  not_space c h := by
    have hRange := toNat_of_isDigit h
    show c.isWhitespace = false
    rw [Bool.eq_false_iff]
    intro hBlank
    simp only [Char.isWhitespace, Bool.or_eq_true, decide_eq_true_eq] at hBlank
    obtain ((rfl | rfl) | rfl) | rfl := hBlank <;> exact absurd hRange.1 (by decide)

section Matches

variable {T : CharTables} {m rest s : List Char}

/-- What the expression reads: a sign, digits, and a point with the digits behind it. -/
def IsMatch (T : CharTables) (m : List Char) : Prop :=
  ∃ sign whole ds point, m = sign ++ (whole ++ point) ∧ (sign = [] ∨ sign = ['-']) ∧ whole ≠ [] ∧
    (∀ c ∈ whole, T.isDigit c = true) ∧ (∀ c ∈ ds, T.isDigit c = true) ∧
      (point = [] ∨ point = '.' :: ds)

theorem digits_takeWhile (s : List Char) : ∀ c ∈ s.takeWhile T.isDigit, T.isDigit c = true :=
  fun _ hc => List.mem_takeWhile_imp hc

theorem isMatch_of_unsignedAt (h : unsignedAt T s = some (m, rest)) {sign : List Char}
    (hSign : sign = [] ∨ sign = ['-']) : IsMatch T (sign ++ m) := by
  rw [unsignedAt] at h
  split_ifs at h with hWhole
  cases h
  have hPoint : ∃ ds, (∀ c ∈ ds, T.isDigit c = true) ∧
      ((fractionAt T (s.dropWhile T.isDigit)).1 = [] ∨
        (fractionAt T (s.dropWhile T.isDigit)).1 = '.' :: ds) := by
    rw [fractionAt.eq_def]
    split
    · exact ⟨_, digits_takeWhile _, .inr rfl⟩
    · refine ⟨[], fun c hc => absurd hc List.not_mem_nil, .inl ?_⟩
      -- behind all the digits there is none
      rw [List.takeWhile_eq_nil_iff]
      intro hLength
      exact List.dropWhile_get_zero_not T.isDigit s hLength
  obtain ⟨ds, hds, hPoint⟩ := hPoint
  exact ⟨sign, _, ds, _, rfl, hSign, hWhole, digits_takeWhile s, hds, hPoint⟩

theorem isMatch_of_numberAt (h : numberAt T s = some (m, rest)) : IsMatch T m := by
  rw [numberAt.eq_def] at h
  split at h
  · obtain ⟨⟨m, rest⟩, hUnsigned, hOut⟩ := Option.map_eq_some_iff.mp h
    cases hOut
    exact isMatch_of_unsignedAt hUnsigned (.inr rfl)
  · exact isMatch_of_unsignedAt h (.inl rfl)

theorem isMatch_of_mem (hT : AsciiDigits T) (h : m ∈ numberTexts T s) : IsMatch T m := by
  induction hLength : s.length using Nat.strong_induction_on generalizing s with
  | _ n ih =>
      cases s with
      | nil => cases h
      | cons c s =>
          cases hMatch : numberAt T (c :: s) with
          | none =>
              rw [numberTexts_cons_of_none hT hMatch] at h
              exact ih s.length (hLength ▸ Nat.lt_succ_self _) h rfl
          | some r =>
              obtain ⟨m', rest⟩ := r
              rw [numberTexts_of_some hT hMatch] at h
              obtain ⟨hText, hNonempty⟩ := numberAt_append hMatch
              rcases List.mem_cons.mp h with rfl | h
              · exact isMatch_of_numberAt hMatch
              · refine ih rest.length ?_ h rfl
                rw [← hLength, hText, List.length_append]
                have := List.length_pos_iff.mpr hNonempty
                omega

theorem isDigit_plainChar (hT : DigitTables T) {c : Char} (h : T.isDigit c = true) :
    (plainChar T c).isDigit = true := by
  by_cases hAscii : c.toNat < 128
  · have hDigit : c.isDigit = true := hT.ascii c hAscii ▸ h
    rw [plainChar_of_numberChar (.inl hDigit)]
    exact hDigit
  · have hControl : ¬ (c = '\x0b' ∨ c = '\x0c') := by
      rintro (rfl | rfl)
      · exact hAscii (by decide)
      · exact hAscii (by decide)
    have hValue := hT.value_lt c h
    rw [plainChar, if_neg hControl, if_neg (by omega), hT.not_space c h,
      if_neg Bool.false_ne_true, if_pos h]
    interval_cases T.digitValue c <;> rfl

theorem floatOfText_isSome (hT : DigitTables T) (h : m ∈ numberTexts T s) :
    (floatOfText T m).isSome := by
  obtain ⟨sign, whole, ds, point, rfl, hSign, hWhole, hDigits, hds, hPoint⟩ :=
    isMatch_of_mem hT.ascii h
  have hPlain : ∀ w : List Char, (∀ c ∈ w, T.isDigit c = true) →
      ∀ c ∈ w.map (plainChar T), c.isDigit = true := by
    intro w hw c hc
    obtain ⟨d, hd, rfl⟩ := List.mem_map.mp hc
    exact isDigit_plainChar hT (hw d hd)
  rw [floatOfText, List.map_append, List.map_append]
  refine readFloat_isSome ?_ ⟨fun hNil => hWhole (List.map_eq_nil_iff.mp hNil), hPlain whole hDigits⟩
    (hPlain ds hds) ?_
  · obtain rfl | rfl := hSign
    · exact .inl rfl
    · exact .inr rfl
  · obtain rfl | rfl := hPoint
    · exact .inl rfl
    · exact .inr rfl

end Matches

end AsetPlatform.Library.JsonText

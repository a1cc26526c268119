import AsetPlatform.Library.JsonParser
import AsetPlatform.Recommendations.Stage3

/-!
# Reading the reply

How `stage3_llm_reasoning` gets from the reply of the LLM to what it parses: fences are stripped,
commas before closing brackets are dropped, and the rest is parsed as JSON.

The comma and the bracket may both stand inside a string. So the value of a valid text comes through
only if no string of it, name or value, has a comma that is followed by a closing bracket, with at
most white space in between. Fences come off only if they are of backticks and close with three.
-/

set_option autoImplicit false

namespace AsetPlatform.Recommendations.Stage3

open AsetPlatform.Library
open AsetPlatform.Library.JsonText

universe u v

def readReply {F : Type u} {ν : Type v} (rt : Runtime F) (number : List Char → ν)
    (raw : List Char) : Option (Value ν) :=
  (stripFences rt raw).bind fun text => loads number (repairCommas rt.tables 0 text)

/-- The reply is read as the value of the document. -/
def Gives {F : Type u} {ν : Type v} (rt : Runtime F) (number : List Char → ν) (raw : List Char)
    (d : Doc) : Prop :=
  readReply rt number raw = some (d.value number)

/-! ## Trailing commas -/

/-- A bracket before which a comma is dropped. -/
def isCloser (c : Char) : Bool := c = '}' || c = ']'

/-- The text has a comma that is dropped. -/
def Trails (T : CharTables) (s : List Char) : Prop := HasTrailing (· == ',') T.isSpace isCloser s

/-- One comma is dropped, with the white space behind it. -/
def DropsComma (T : CharTables) : List Char → List Char → Prop := Drops (· == ',') T.isSpace isCloser

/-- The kind of a character that is written as itself. -/
def asItself (p : Char → Bool) : Piece → Bool
  | .plain c => p c
  | .escape _ => false

/-- The string has a comma that is dropped. -/
def TrailsInside (T : CharTables) (ps : List Piece) : Prop :=
  HasTrailing (asItself (· == ',')) (asItself T.isSpace) (asItself isCloser) ps

/-- No printable character of ASCII is white space. -/
def VisibleAscii (T : CharTables) : Prop := ∀ c : Char, '!' ≤ c → c ≤ '~' → T.isSpace c = false

theorem visibleAscii_ascii : VisibleAscii CharTables.ascii := by
  intro c hLow _
  show c.isWhitespace = false
  rw [← Bool.not_eq_true]
  intro hSpace
  simp only [Char.isWhitespace, Bool.or_eq_true, decide_eq_true_eq] at hSpace
  obtain ((rfl | rfl) | rfl) | rfl := hSpace <;> exact absurd hLow (by decide)

theorem visible_of_inWord {c : Char} (h : inWord c = true) : '!' ≤ c ∧ c ≤ '~' := by
  rw [inWord, Bool.or_eq_true, Bool.or_eq_true, Bool.or_eq_true, decide_eq_true_eq,
    decide_eq_true_eq, decide_eq_true_eq] at h
  obtain ((hAlphanum | rfl) | rfl) | rfl := h
  · simp only [Char.isAlphanum, isAlpha_eq, isUpper_eq, isLower_eq, Char.isDigit,
      Bool.or_eq_true, Bool.and_eq_true, decide_eq_true_eq, UInt32.le_iff_toNat_le,
      ge_iff_le] at hAlphanum
    rw [Char.le_def, Char.le_def, UInt32.le_iff_toNat_le, UInt32.le_iff_toNat_le]
    have : '!'.val.toNat = 33 := rfl
    have : '~'.val.toNat = 126 := rfl
    have : '0'.val.toNat = 48 := rfl
    have : '9'.val.toNat = 57 := rfl
    have : 'A'.val.toNat = 65 := rfl
    have : 'Z'.val.toNat = 90 := rfl
    have : 'a'.val.toNat = 97 := rfl
    have : 'z'.val.toNat = 122 := rfl
    omega
  · exact ⟨by decide, by decide⟩
  · exact ⟨by decide, by decide⟩
  · exact ⟨by decide, by decide⟩

section Spaces

variable {T : CharTables} (hT : VisibleAscii T)

include hT

theorem not_isSpace_of_isCloser (c : Char) (h : isCloser c = true) : T.isSpace c = false := by
  rw [isCloser, Bool.or_eq_true, decide_eq_true_eq, decide_eq_true_eq] at h
  obtain rfl | rfl := h
  · exact hT _ (by decide) (by decide)
  · exact hT _ (by decide) (by decide)

theorem apart_asItself : ∀ p, asItself isCloser p = true → asItself T.isSpace p = false
  | .plain c, hc => not_isSpace_of_isCloser hT c hc
  | .escape _, hc => absurd hc Bool.false_ne_true

theorem separates_isSpace : Separates T.isSpace := by
  intro c hSpace
  have hHidden : ¬ ('!' ≤ c ∧ c ≤ '~') := fun h =>
    Bool.false_ne_true ((hT c h.1 h.2).symm.trans hSpace)
  refine ⟨?_, ?_, ?_⟩
  · rw [Bool.eq_false_iff]
    exact fun hWord => hHidden (visible_of_inWord hWord)
  · rintro rfl
    exact hHidden ⟨by decide, by decide⟩
  · rw [punctuation.eq_def]
    split <;> first | rfl | exact absurd ⟨by decide, by decide⟩ hHidden

end Spaces

/-! ## What the repair does -/

section Repair

variable {T : CharTables}

theorem repairCommas_eq (n : Nat) (s : List Char) :
    repairCommas T n s = repairCommas T 0 (s.drop n) := by
  induction n generalizing s with
  | zero => rw [List.drop_zero]
  | succ n ih =>
      cases s with
      | nil => rw [repairCommas, List.drop_nil, repairCommas]
      | cons c s => rw [repairCommas, List.drop_succ_cons, ih]

theorem repairCommas_cons (c : Char) (s : List Char) :
    repairCommas T 0 (c :: s) =
      if c = ',' ∧ closesNext T.isSpace isCloser s = true then
        repairCommas T 0 (s.dropWhile T.isSpace)
      else c :: repairCommas T 0 s := by
  have hDrop : s.drop (s.takeWhile T.isSpace).length = s.dropWhile T.isSpace := by
    have hSplit := @List.drop_left _ (s.takeWhile T.isSpace) (s.dropWhile T.isSpace)
    rwa [List.takeWhile_append_dropWhile] at hSplit
  have hNext : closesNext T.isSpace isCloser s = true ↔
      ((s.dropWhile T.isSpace).head? = some '}' ∨ (s.dropWhile T.isSpace).head? = some ']') := by
    rw [closesNext]
    cases (s.dropWhile T.isSpace).head? with
    | none => simp
    | some d => simp [isCloser]
  rw [repairCommas, hDrop, repairCommas_eq (s.takeWhile T.isSpace).length, hDrop]
  simp only [hNext]

theorem repairCommas_cases (hT : VisibleAscii T) (s : List Char) :
    (¬ Trails T s ∧ repairCommas T 0 s = s) ∨
      Relation.TransGen (DropsComma T) s (repairCommas T 0 s) := by
  have hApart := not_isSpace_of_isCloser hT
  induction hLength : s.length using Nat.strong_induction_on generalizing s with
  | _ n ih =>
      cases s with
      | nil => exact .inl ⟨not_hasTrailing_nil, rfl⟩
      | cons c s =>
          have hShorter : s.length < n := hLength ▸ Nat.lt_succ_self _
          rw [repairCommas_cons]
          by_cases hTrails : c = ',' ∧ closesNext T.isSpace isCloser s = true
          · obtain ⟨rfl, hNext⟩ := hTrails
            obtain ⟨w, d, b, rfl, hw, hClose⟩ := (closesNext_iff hApart).mp hNext
            have hd := Bool.eq_false_iff.mp (hApart d hClose)
            rw [if_pos ⟨rfl, hNext⟩, List.dropWhile_append_of_pos hw, List.dropWhile_cons_of_neg hd]
            have hFirst : DropsComma T (',' :: (w ++ d :: b)) (d :: b) :=
              ⟨[], ',', w, d, b, rfl, rfl, hw, hClose, rfl⟩
            have hBehind : (d :: b).length < n := by
              rw [List.length_append] at hShorter
              omega
            obtain ⟨-, hSame⟩ | hMore := ih _ hBehind (d :: b) rfl
            · rw [hSame]
              exact .inr (.single hFirst)
            · exact .inr (.head hFirst hMore)
          · rw [if_neg hTrails]
            obtain ⟨hNone, hSame⟩ | hMore := ih _ hShorter s rfl
            · refine .inl ⟨?_, by rw [hSame]⟩
              rw [Trails, hasTrailing_cons_iff hApart, beq_iff_eq, not_or]
              exact ⟨hTrails, hNone⟩
            · exact .inr (hMore.lift (c :: ·) fun _ _ hDrop => hDrop.cons c)

end Repair

/-! ## Strings with a trailing comma -/

section Strings

variable {T : CharTables} {s rest : List Char} {ps : List Piece}

theorem closesNext_of_reads (h : Reads s ps rest)
    (hNext : closesNext (asItself T.isSpace) (asItself isCloser) ps = true) :
    closesNext T.isSpace isCloser s = true := by
  rw [closesNext] at hNext ⊢
  induction h with
  | close rest => cases hNext
  | @plain c s rest ps _ _ _ _ ih =>
      by_cases hc : T.isSpace c = true
      · have hPiece : asItself T.isSpace (.plain c) = true := hc
        rw [List.dropWhile_cons_of_pos hPiece] at hNext
        rw [List.dropWhile_cons_of_pos hc]
        exact ih hNext
      · have hPiece : ¬ asItself T.isSpace (.plain c) = true := hc
        rw [List.dropWhile_cons_of_neg hPiece] at hNext
        rw [List.dropWhile_cons_of_neg hc]
        exact hNext
  | escape _ _ _ => cases hNext

theorem trails_of_reads (hT : VisibleAscii T) (h : Reads s ps rest) (hInside : TrailsInside T ps) :
    Trails T s := by
  have hApart := not_isSpace_of_isCloser hT
  have hApartInside := apart_asItself hT
  induction h with
  | close rest => exact (not_hasTrailing_nil hInside).elim
  | @plain c s rest ps _ _ _ hReads ih =>
      rw [Trails, hasTrailing_cons_iff hApart]
      obtain ⟨hComma, hNext⟩ | hLater := (hasTrailing_cons_iff hApartInside).mp hInside
      · exact .inl ⟨hComma, closesNext_of_reads hReads hNext⟩
      · exact .inr (ih hLater)
  | @escape e s rest code ps _ _ ih =>
      obtain ⟨hComma, -⟩ | hLater := (hasTrailing_cons_iff hApartInside).mp hInside
      · cases hComma
      · exact (ih hLater).append_left ('\\' :: e)

/-- What a string that is read on through white space and a bracket has of them. -/
theorem reads_spaces {w b : List Char} {c : Char} (hT : VisibleAscii T)
    (hw : ∀ x ∈ w, T.isSpace x = true) (hc : isCloser c = true)
    (h : Reads (w ++ c :: b) ps rest) :
    ∃ qs, ps = w.map .plain ++ .plain c :: qs ∧ Reads b qs rest := by
  have hQuote : T.isSpace '"' = false := hT _ (by decide) (by decide)
  have hSlash : T.isSpace '\\' = false := hT _ (by decide) (by decide)
  induction w generalizing ps with
  | nil =>
      cases h with
      | close rest => cases hc
      | plain _ _ _ h => exact ⟨_, rfl, h⟩
      | escape _ h => cases hc
  | cons x w ih =>
      have hx := hw x List.mem_cons_self
      rw [List.cons_append] at h
      generalize hBehind : w ++ c :: b = behind at h
      cases h with
      | close rest => cases hx.symm.trans hQuote
      | plain _ _ _ h =>
          subst hBehind
          obtain ⟨qs, rfl, hReads⟩ := ih (fun y hy => hw y (List.mem_cons_of_mem x hy)) h
          exact ⟨qs, rfl, hReads⟩
      | escape _ h => cases hx.symm.trans hSlash

theorem commas_dropped (ps qs : List Piece) (w : List Char) (c : Char) :
    (codes (ps ++ .plain c :: qs)).count commaCode <
      (codes (ps ++ .plain ',' :: (w.map .plain ++ .plain c :: qs))).count commaCode := by
  have hComma : (Piece.plain ',').code = commaCode := rfl
  simp only [count_codes, List.countP_append, List.countP_cons, hComma, decide_true, if_true]
  omega

theorem start_of_isCloser {c : Char} (h : isCloser c = true) :
    ∃ t, start c = some ([t], .gap) ∧ t.closes = true ∧ inWord c = false ∧ c ≠ '"' ∧ c ≠ '\\' ∧
      ¬ c < ' ' := by
  rw [isCloser, Bool.or_eq_true, decide_eq_true_eq, decide_eq_true_eq] at h
  obtain rfl | rfl := h
  · exact ⟨.closeObj, rfl, rfl, rfl, by decide, by decide, by decide⟩
  · exact ⟨.closeArr, rfl, rfl, rfl, by decide, by decide, by decide⟩

/-- A trailing comma is a token before a closing one, or it is inside a string. Without it the text
scans as well, with fewer commas. -/
theorem scan_dropped {m : Mode} {w b : List Char} {c : Char} {ts : List Token}
    (hT : VisibleAscii T) (hw : ∀ x ∈ w, T.isSpace x = true) (hc : isCloser c = true)
    (h : scan m (',' :: (w ++ c :: b)) = some ts) :
    (TrailingComma ts ∨ ∃ ps, .str ps ∈ ts ∧ TrailsInside T ps) ∧
      ∃ us, scan m (c :: b) = some us ∧ commas us < commas ts := by
  have hSeparates := separates_isSpace hT
  have hApart := not_isSpace_of_isCloser hT
  obtain ⟨closing, hStart, hCloses, hWord, hQuote, hSlash, hPrinted⟩ := start_of_isCloser hc
  -- Between tokens the white space goes, and the comma is a token right before the bracket.
  have hGap : ∀ us, scan .gap (w ++ c :: b) = some us →
      scan .gap (c :: b) = some us ∧ ∃ behind, us = closing :: behind := by
    intro us hScan
    have hDrop := scan_dropWhile hSeparates hScan
    rw [List.dropWhile_append_of_pos hw,
      List.dropWhile_cons_of_neg (Bool.eq_false_iff.mp (hApart c hc))] at hDrop
    obtain ⟨out, m', behind, hStep, -, rfl⟩ := scan_cons_iff.mp hDrop
    cases hStart.symm.trans hStep
    exact ⟨hDrop, behind, rfl⟩
  have hTrailing : ∀ before behind, TrailingComma (before ++ .comma :: closing :: behind) :=
    fun before behind => ⟨before, .comma, [], closing, behind, rfl, rfl, nofun, hCloses⟩
  have hComma : Token.comma.commas = 1 := rfl
  obtain ⟨out, m', found, hStep, hScan, rfl⟩ := scan_cons_iff.mp h
  cases m with
  | gap =>
      cases hStep
      obtain ⟨hBehind, behind, rfl⟩ := hGap found hScan
      refine ⟨.inl (hTrailing [] behind), _, hBehind, ?_⟩
      rw [commas_append, commas_cons .comma, hComma]
      omega
  | word u =>
      cases hStep
      obtain ⟨hBehind, behind, rfl⟩ := hGap found hScan
      refine ⟨.inl (hTrailing [.word u] behind), .word u :: closing :: behind, ?_, ?_⟩
      · obtain ⟨out, m', rest, hStep, hRest, hFound⟩ := scan_cons_iff.mp hBehind
        refine scan_cons_iff.mpr ⟨.word u :: out, m', rest, ?_, hRest, congrArg _ hFound⟩
        rw [step, if_neg (Bool.eq_false_iff.mp hWord)]
        exact Option.map_eq_some_iff.mpr ⟨_, hStep, rfl⟩
      · rw [commas_append, commas_cons (.word u), commas_cons (.word u), commas_cons .comma, hComma]
        omega
  | text ps =>
      obtain ⟨qs, rest, us, hReads, hRest, hFound⟩ := scan_text_iff.mp h
      have hInside : ∃ qs', qs = .plain ',' :: (w.map .plain ++ .plain c :: qs') ∧
          Reads b qs' rest := by
        cases hReads with
        | plain _ _ _ hReads =>
            obtain ⟨qs', rfl, hBehind⟩ := reads_spaces hT hw hc hReads
            exact ⟨qs', rfl, hBehind⟩
      obtain ⟨qs', rfl, hBehind⟩ := hInside
      rw [hFound]
      refine ⟨.inr ⟨_, List.mem_cons_self, ?_⟩, .str (ps ++ .plain c :: qs') :: us, ?_, ?_⟩
      · have hHere : TrailsInside T (.plain ',' :: (w.map .plain ++ .plain c :: qs')) := by
          refine ⟨[], .plain ',', w.map .plain, .plain c, qs', rfl, rfl, ?_, hc⟩
          intro x hx
          obtain ⟨y, hy, rfl⟩ := List.mem_map.mp hx
          exact hw y hy
        exact hHere.append_left ps
      · exact scan_text_of_reads (.plain hQuote hSlash hPrinted hBehind) hRest ps
      · rw [commas_cons, commas_cons, Token.commas, Token.commas]
        have := commas_dropped ps qs' w c
        omega
  | escape ps => cases hStep
  | hex ps left value => cases left <;> cases hStep

end Strings

/-! ## Repaired texts -/

/-- No string of the document, name or value, has a comma that is dropped. -/
def Clean (T : CharTables) (d : Doc) : Prop := ∀ ps, .str ps ∈ d.write [] → ¬ TrailsInside T ps

section Texts

variable {T : CharTables} {s s' : List Char} {ts : List Token} {d : Doc}

theorem scan_dropsComma (hT : VisibleAscii T) (hDrops : DropsComma T s s')
    (h : scan .gap s = some ts) :
    (TrailingComma ts ∨ ∃ ps, .str ps ∈ ts ∧ TrailsInside T ps) ∧
      ∃ us, scan .gap s' = some us ∧ commas us < commas ts := by
  obtain ⟨a, m, w, c, b, rfl, hMark, hw, hClose, rfl⟩ := hDrops
  obtain rfl := beq_iff_eq.mp hMark
  obtain ⟨out, m', found, hRun, hScan, rfl⟩ := scan_append_iff.mp h
  obtain ⟨hWhere, us, hScan', hLess⟩ := scan_dropped hT hw hClose hScan
  refine ⟨?_, out ++ us, scan_append_iff.mpr ⟨out, m', us, hRun, hScan', rfl⟩, ?_⟩
  · obtain hToken | ⟨ps, hMem, hInside⟩ := hWhere
    · exact .inl (hToken.append_left out)
    · exact .inr ⟨ps, List.mem_append_right out hMem, hInside⟩
  · rw [commas_append, commas_append]
    omega

theorem scan_dropsCommas (hT : VisibleAscii T) (hDrops : Relation.TransGen (DropsComma T) s s')
    (h : scan .gap s = some ts) : ∃ us, scan .gap s' = some us ∧ commas us < commas ts := by
  induction hDrops with
  | single hFirst => exact (scan_dropsComma hT hFirst h).2
  | tail _ hLast ih =>
      obtain ⟨us, hScan, hLess⟩ := ih
      obtain ⟨vs, hScan', hLess'⟩ := (scan_dropsComma hT hLast hScan).2
      exact ⟨vs, hScan', hLess'.trans hLess⟩

theorem trails_iff (hT : VisibleAscii T) (h : scan .gap s = some (d.write [])) :
    Trails T s ↔ ¬ Clean T d := by
  rw [Clean]
  push Not
  constructor
  · rintro ⟨a, m, w, c, b, hs, hTrail⟩
    have hDrops : DropsComma T s (a ++ c :: b) :=
      ⟨a, m, w, c, b, hs, hTrail.1, hTrail.2.1, hTrail.2.2, rfl⟩
    obtain hToken | hInside := (scan_dropsComma hT hDrops h).1
    · exact (d.not_trailingComma_write [] not_hasTrailing_nil hToken).elim
    · exact hInside
  · rintro ⟨ps, hMem, hInside⟩
    have hGap : Mode.gap.Outside := trivial
    obtain ⟨a, b, rest, rfl, hReads⟩ := exists_reads_of_mem_scan hGap h hMem
    exact (trails_of_reads hT hReads hInside).append_left a

variable {ν : Type v} (number : List Char → ν)

theorem loads_of_scan (h : scan .gap s = some (d.write [])) :
    loads number s = some (d.value number) := by
  rw [loads, h, Option.bind_some, parse_eq_some_iff.mpr rfl, Option.map_some]

/-- What a valid text means after the repair. -/
theorem loads_repairCommas (hT : VisibleAscii T) (h : scan .gap s = some (d.write [])) :
    (Clean T d → loads number (repairCommas T 0 s) = some (d.value number)) ∧
      (d.UniqueNames → loads number (repairCommas T 0 s) = some (d.value number) → Clean T d) := by
  obtain ⟨hNone, hSame⟩ | hDrops := repairCommas_cases hT s
  · have hClean : Clean T d := not_not.mp fun hNot => hNone ((trails_iff hT h).mpr hNot)
    rw [hSame]
    exact ⟨fun _ => loads_of_scan number h, fun _ _ => hClean⟩
  · have hTrails : Trails T s := by
      obtain ⟨t, ⟨a, m, w, c, b, hs, hMark, hw, hClose, -⟩, -⟩ :=
        Relation.TransGen.head'_iff.mp hDrops
      exact ⟨a, m, w, c, b, hs, hMark, hw, hClose⟩
    have hNotClean := (trails_iff hT h).mp hTrails
    refine ⟨fun hClean => absurd hClean hNotClean, fun hUnique hLoads => ?_⟩
    -- The repaired text has fewer commas than the value shows.
    obtain ⟨us, hScan, hLess⟩ := scan_dropsCommas hT hDrops h
    rw [loads, hScan, Option.bind_some] at hLoads
    obtain ⟨d', hParse, hValue⟩ := Option.map_eq_some_iff.mp hLoads
    have hAtMost := (d'.commas_value number []).1
    have hAll := (d.commas_value number []).2 hUnique
    rw [← parse_eq_some_iff.mp hParse, hValue] at hAtMost
    omega

end Texts

/-! ## Fences -/

/-- A Markdown fence: a line of at least three marks, with a note behind them, and after the text as
many marks again or more, or nothing if the fence is not closed. -/
structure Fence where
  mark : Char
  opening : Nat
  info : List Char
  closing : Nat
  isMark : mark = '`' ∨ mark = '~'
  opens : 3 ≤ opening
  oneLine : '\n' ∉ info
  closes : closing = 0 ∨ opening ≤ closing

def Fence.around (f : Fence) (text : List Char) : List Char :=
  List.replicate f.opening f.mark ++
    (f.info ++ '\n' :: (text ++ List.replicate f.closing f.mark))

def wrapped (fence : Option Fence) (text : List Char) : List Char :=
  match fence with
  | none => text
  | some f => f.around text

/-- The fence is one that is stripped: of backticks, and not closed or closed by three. -/
def ComesOff : Option Fence → Prop
  | none => True
  | some f => f.mark = '`' ∧ f.closing ≤ 3

section Strip

variable {T : CharTables} {s w : List Char} {ts : List Token}

theorem scan_rstrip (hT : VisibleAscii T) (h : scan .gap s = some ts) :
    scan .gap (rstrip T s) = some ts := by
  obtain ⟨w, hs, hw⟩ := rstrip_spec T s
  rw [hs] at h
  exact scan_of_append_spaces (separates_isSpace hT) hw h

theorem scan_strip (hT : VisibleAscii T) (h : scan .gap s = some ts) :
    scan .gap (strip T s) = some ts :=
  scan_rstrip hT (scan_dropWhile (separates_isSpace hT) h)

end Strip

/-! ## What is left of a reply -/

section Replies

variable {F : Type u} {rt : Runtime F} {s text : List Char} {ts : List Token}

/-- The end of `stripFences`: a closing fence taken off. -/
def dropClosing (T : CharTables) (text : List Char) : List Char :=
  if "```".toList.isSuffixOf text then rstrip T (text.take (text.length - 3)) else text

theorem start_mark {f : Fence} : start f.mark = none ∧ inWord f.mark = false := by
  obtain h | h := f.isMark <;> rw [h] <;> exact ⟨rfl, rfl⟩

theorem not_suffix_of_last {c : Char} (hc : c ≠ '`') (a : List Char) :
    "```".toList.isSuffixOf (a ++ [c]) = false := by
  rw [Bool.eq_false_iff]
  intro hSuffix
  obtain ⟨x, hx⟩ := List.isSuffixOf_iff_suffix.mp hSuffix
  have hLast : (x ++ "``".toList) ++ ['`'] = a ++ [c] := by
    rw [List.append_assoc]
    exact hx
  cases (List.append_inj' hLast rfl).2
  exact hc rfl

theorem not_suffix_of_scan (a : List Char) (h : scan .gap s = some ts) (hs : s ≠ []) :
    "```".toList.isSuffixOf (a ++ s) = false := by
  obtain ⟨y, c, rfl⟩ := (List.eq_nil_or_concat' s).resolve_left hs
  have hc : c ≠ '`' := by
    rintro rfl
    cases (scan_concat_eq_none rfl rfl).symm.trans h
  rw [← List.append_assoc]
  exact not_suffix_of_last hc _

theorem stripFences_of_scan (raw : List Char) (h : scan .gap (strip rt.tables raw) = some ts)
    (hs : strip rt.tables raw ≠ []) : stripFences rt raw = some (strip rt.tables raw) := by
  have hPrefix : ¬ "```".toList.isPrefixOf (strip rt.tables raw) = true := by
    intro hPrefix
    obtain ⟨rest, hRest⟩ := List.isPrefixOf_iff_prefix.mp hPrefix
    rw [← hRest] at h
    cases (scan_cons_eq_none rfl).symm.trans h
  have hSuffix := not_suffix_of_scan [] h hs
  rw [List.nil_append] at hSuffix
  rw [stripFences, if_neg hPrefix, Option.map_some, if_neg (Bool.eq_false_iff.mp hSuffix)]

theorem stripFences_of_ticks {n : Nat} {info rest raw : List Char} (hn : 3 ≤ n) (hInfo : '\n' ∉ info)
    (h : strip rt.tables raw = List.replicate n '`' ++ (info ++ '\n' :: rest)) :
    stripFences rt raw = some (dropClosing rt.tables rest) := by
  have hPrefix : "```".toList.isPrefixOf (strip rt.tables raw) = true := by
    obtain ⟨k, rfl⟩ := Nat.exists_eq_add_of_le hn
    rw [List.isPrefixOf_iff_prefix, h, List.replicate_add, List.append_assoc]
    exact List.prefix_append _ _
  have hLine : (strip rt.tables raw).dropWhile (fun c => c ≠ '\n') = '\n' :: rest := by
    rw [h, ← List.append_assoc, List.dropWhile_append_of_pos]
    · rfl
    · intro c hc
      rw [decide_eq_true_eq]
      rintro rfl
      obtain hTick | hNote := List.mem_append.mp hc
      · cases List.eq_of_mem_replicate hTick
      · exact hInfo hNote
  rw [stripFences, if_pos hPrefix, hLine, Option.map_some, dropClosing]

theorem getLast?_repairCommas {T : CharTables} (hT : VisibleAscii T) (s : List Char) :
    (repairCommas T 0 s).getLast? = s.getLast? := by
  have hDrop : ∀ {s s' : List Char}, DropsComma T s s' → s'.getLast? = s.getLast? := by
    rintro s s' ⟨a, m, w, c, b, rfl, -, -, -, rfl⟩
    rw [← List.cons_append, ← List.append_assoc, List.getLast?_append_cons,
      List.getLast?_append_cons]
  obtain ⟨-, hSame⟩ | hDrops := repairCommas_cases hT s
  · rw [hSame]
  · generalize repairCommas T 0 s = s' at hDrops
    induction hDrops with
    | single hFirst => exact hDrop hFirst
    | tail _ hLast ih => exact (hDrop hLast).trans ih

theorem scan_repaired_mark {T : CharTables} (hT : VisibleAscii T) {c : Char}
    (hWord : inWord c = false) (hStart : start c = none) (s : List Char) :
    scan .gap (repairCommas T 0 (s ++ [c])) = none := by
  have hLast := getLast?_repairCommas hT (s ++ [c])
  rw [List.getLast?_concat] at hLast
  obtain ⟨y, hy⟩ := List.getLast?_eq_some_iff.mp hLast
  rw [hy]
  exact scan_concat_eq_none hWord hStart

/-- What stands behind the first line of a fence, without the white space at the end. -/
def Fence.inner (f : Fence) (T : CharTables) (text : List Char) : List Char :=
  if f.closing = 0 then rstrip T text else text ++ List.replicate f.closing f.mark

theorem strip_fence {T : CharTables} (hT : VisibleAscii T) (f : Fence)
    (hText : rstrip T text ≠ []) : strip T (f.around text) =
      List.replicate f.opening f.mark ++ (f.info ++ '\n' :: f.inner T text) := by
  have hMark : T.isSpace f.mark = false := by
    obtain h | h := f.isMark <;> rw [h] <;> exact hT _ (by decide) (by decide)
  have hStart : (f.around text).dropWhile T.isSpace = f.around text := by
    obtain ⟨n, hn⟩ : ∃ n, f.opening = n + 1 := ⟨f.opening - 1, by have := f.opens; omega⟩
    rw [Fence.around, hn, List.replicate_succ, List.cons_append,
      List.dropWhile_cons_of_neg (Bool.eq_false_iff.mp hMark)]
  have hJoin : ∀ x, List.replicate f.opening f.mark ++ (f.info ++ '\n' :: x) =
      (List.replicate f.opening f.mark ++ (f.info ++ ['\n'])) ++ x := by
    intro x
    simp only [List.append_assoc, List.singleton_append]
  show rstrip T ((f.around text).dropWhile T.isSpace) = _
  rw [hStart, Fence.around, Fence.inner]
  split_ifs with hClosing
  · rw [hClosing, List.replicate_zero, List.append_nil, hJoin, rstrip_append _ hText, ← hJoin]
  · obtain ⟨k, hk⟩ := Nat.exists_eq_succ_of_ne_zero hClosing
    rw [hk, List.replicate_succ', hJoin, ← List.append_assoc text, ← List.append_assoc,
      rstrip_concat hMark]

section Fences

variable {ν : Type v} (number : List Char → ν) {f : Fence} {raw : List Char}

theorem stripFences_of_comesOff (hT : VisibleAscii rt.tables) (hs : rstrip rt.tables text ≠ [])
    (h : scan .gap text = some ts) (hf : ComesOff (some f))
    (hRaw : strip rt.tables raw =
      List.replicate f.opening f.mark ++ (f.info ++ '\n' :: f.inner rt.tables text)) :
    stripFences rt raw = some (rstrip rt.tables text) := by
  obtain ⟨hMark, hClosing⟩ := hf
  rw [hMark] at hRaw
  rw [stripFences_of_ticks f.opens f.oneLine hRaw, Fence.inner, hMark]
  split_ifs with hOpen
  · have hSuffix := not_suffix_of_scan [] (scan_rstrip hT h) hs
    rw [List.nil_append] at hSuffix
    rw [dropClosing, if_neg (Bool.eq_false_iff.mp hSuffix)]
  · have hThree : f.closing = 3 := by
      have := f.opens
      have := f.closes
      omega
    have hSuffix : "```".toList.isSuffixOf (text ++ List.replicate 3 '`') = true :=
      List.isSuffixOf_iff_suffix.mpr (List.suffix_append _ _)
    have hTake : (text ++ List.replicate 3 '`').take ((text ++ List.replicate 3 '`').length - 3) =
        text := by
      rw [List.length_append, List.length_replicate, Nat.add_sub_cancel, List.take_left]
    rw [hThree, dropClosing, if_pos hSuffix, hTake]

theorem not_suffix_inner (hT : VisibleAscii rt.tables) (hs : rstrip rt.tables text ≠ [])
    (h : scan .gap text = some ts) (hMark : f.mark = '~') (a : List Char) :
    "```".toList.isSuffixOf (a ++ f.inner rt.tables text) = false := by
  rw [Fence.inner]
  split_ifs with hOpen
  · exact not_suffix_of_scan a (scan_rstrip hT h) hs
  · obtain ⟨k, hk⟩ := Nat.exists_eq_succ_of_ne_zero hOpen
    rw [hk, hMark, List.replicate_succ', ← List.append_assoc, ← List.append_assoc]
    exact not_suffix_of_last (by decide) _

/-- A fence of tildes stays, and of a longer fence of backticks some are left. -/
theorem readReply_of_not_comesOff (hT : VisibleAscii rt.tables) (hs : rstrip rt.tables text ≠ [])
    (h : scan .gap text = some ts) (hf : ¬ ComesOff (some f))
    (hRaw : strip rt.tables raw =
      List.replicate f.opening f.mark ++ (f.info ++ '\n' :: f.inner rt.tables text)) :
    readReply rt number raw = none := by
  have hOpens := f.opens
  obtain hMark | hMark := f.isMark
  · have hClosing : 3 < f.closing := by
      by_contra hFew
      exact hf ⟨hMark, Nat.le_of_not_lt hFew⟩
    obtain ⟨k, hk⟩ : ∃ k, f.closing = k + 1 + 3 := ⟨f.closing - 4, by omega⟩
    have hInner : f.inner rt.tables text =
        ((text ++ List.replicate k '`') ++ ['`']) ++ List.replicate 3 '`' := by
      rw [Fence.inner, if_neg (by omega), hMark, hk, List.replicate_add, List.replicate_succ']
      simp only [List.append_assoc]
    rw [hMark] at hRaw
    rw [readReply, stripFences_of_ticks f.opens f.oneLine hRaw, Option.bind_some, hInner]
    have hSuffix : "```".toList.isSuffixOf
        (((text ++ List.replicate k '`') ++ ['`']) ++ List.replicate 3 '`') = true :=
      List.isSuffixOf_iff_suffix.mpr (List.suffix_append _ _)
    rw [dropClosing, if_pos hSuffix, List.length_append, List.length_replicate, Nat.add_sub_cancel,
      List.take_left, rstrip_concat (hT _ (by decide) (by decide)), loads,
      scan_repaired_mark hT rfl rfl]
    rfl
  · obtain ⟨n, hn⟩ : ∃ n, f.opening = n + 1 := ⟨f.opening - 1, by omega⟩
    obtain ⟨rest, hRest⟩ : ∃ rest, strip rt.tables raw = '~' :: rest := by
      rw [hRaw, hMark, hn, List.replicate_succ, List.cons_append]
      exact ⟨_, rfl⟩
    have hSuffix : "```".toList.isSuffixOf (strip rt.tables raw) = false := by
      rw [hRaw, ← List.append_assoc, List.append_cons]
      exact not_suffix_inner hT hs h hMark _
    have hPrefix : ¬ "```".toList.isPrefixOf (strip rt.tables raw) = true := by
      rw [hRest]
      exact Bool.false_ne_true
    rw [readReply, stripFences, if_neg hPrefix, Option.map_some,
      if_neg (Bool.eq_false_iff.mp hSuffix), Option.bind_some, hRest, repairCommas_cons,
      if_neg (fun hComma => absurd hComma.1 (by decide)), loads, scan_cons_eq_none rfl]
    rfl

end Fences

/-- For every text of a JSON object, bare or in a fence, with white space around: if the fence comes
off and no string has a comma before a bracket, the value of the text is read. Otherwise something
else or nothing is read, provided no name repeats in an object if it is only for such a comma. -/
theorem readReply_iff {ν : Type v} (number : List Char → ν) (hT : VisibleAscii rt.tables)
    {before after : List Char} (hBefore : ∀ c ∈ before, rt.tables.isSpace c = true)
    (hAfter : ∀ c ∈ after, rt.tables.isSpace c = true) (fence : Option Fence)
    {ms : List (List Piece × Doc)} (hText : scan .gap text = some ((Doc.obj ms).write [])) :
    (ComesOff fence ∧ Clean rt.tables (.obj ms) →
      Gives rt number (before ++ wrapped fence text ++ after) (.obj ms)) ∧
    (Gives rt number (before ++ wrapped fence text ++ after) (.obj ms) →
      ComesOff fence ∧ ((Doc.obj ms).UniqueNames → Clean rt.tables (.obj ms))) := by
  have hRest : ∀ {s}, scan .gap s = some ((Doc.obj ms).write []) → s ≠ [] := by
    rintro s hScan rfl
    have hLength := (Doc.obj ms).length_write []
    rw [← Option.some.inj hScan] at hLength
    exact Nat.lt_irrefl _ hLength
  have hStripped : strip rt.tables (before ++ wrapped fence text ++ after) =
      strip rt.tables (wrapped fence text) := strip_around hBefore hAfter
  -- If what is left of the reply is a text of the object, the repair decides.
  have hRead : ∀ {s}, stripFences rt (before ++ wrapped fence text ++ after) = some s →
      scan .gap s = some ((Doc.obj ms).write []) → ComesOff fence →
      (ComesOff fence ∧ Clean rt.tables (.obj ms) →
        Gives rt number (before ++ wrapped fence text ++ after) (.obj ms)) ∧
      (Gives rt number (before ++ wrapped fence text ++ after) (.obj ms) →
        ComesOff fence ∧ ((Doc.obj ms).UniqueNames → Clean rt.tables (.obj ms))) := by
    intro s hLeft hScan hFence
    obtain ⟨hKeeps, hOnly⟩ := loads_repairCommas number hT hScan
    rw [Gives, readReply, hLeft, Option.bind_some]
    exact ⟨fun h => hKeeps h.2, fun h => ⟨hFence, fun hUnique => hOnly hUnique h⟩⟩
  cases fence with
  | none =>
      have hScan := scan_strip hT hText
      have hLeft := stripFences_of_scan (before ++ wrapped none text ++ after)
        ((congrArg _ hStripped).trans hScan) (hStripped ▸ hRest hScan)
      rw [hStripped] at hLeft
      exact hRead hLeft hScan trivial
  | some f =>
      have hScan := scan_rstrip hT hText
      have hRaw := hStripped.trans (strip_fence hT f (hRest hScan))
      by_cases hFence : ComesOff (some f)
      · exact hRead (stripFences_of_comesOff hT (hRest hScan) hText hFence hRaw) hScan hFence
      · have hNone := readReply_of_not_comesOff number hT (hRest hScan) hText hFence hRaw
        refine ⟨fun h => absurd h.1 hFence, fun h => ?_⟩
        cases hNone.symm.trans h

end Replies

/-! ## Two replies -/

/-- The strings of a document, looked through. -/
def finds (T : CharTables) : Token → Bool
  | .str ps => findsTrailing (asItself (· == ',')) (asItself T.isSpace) (asItself isCloser) ps
  | _ => false

theorem clean_of_finds {T : CharTables} (hT : VisibleAscii T) {d : Doc}
    (h : ∀ t ∈ d.write [], finds T t = false) : Clean T d := by
  intro ps hMem hInside
  have hFound := (findsTrailing_iff (apart_asItself hT)).mpr hInside
  exact Bool.false_ne_true ((h _ hMem).symm.trans hFound)

def asciiRuntime : Runtime Unit where
  tables := CharTables.ascii
  loads := fun _ => none
  format1 := fun _ => ""
  promptLength := 0
  lastProvider := ""

/-- An object with one member. -/
def rationaleDoc (rationale : String) : Doc :=
  .obj [("rationale".toList.map .plain, .str (rationale.toList.map .plain))]

/-- A fence as it is mostly written. -/
def jsonFence : Fence where
  mark := '`'
  opening := 3
  info := "json".toList
  closing := 3
  isMark := .inl rfl
  opens := Nat.le_refl 3
  oneLine := by decide +kernel
  closes := .inr (Nat.le_refl 3)

/-- Commas and brackets may stand in a string, if none is behind the other. -/
theorem fenced_rationale_read :
    Gives asciiRuntime id
      ("\n".toList ++ wrapped (some jsonFence)
        "\x7b\"rationale\": \"Up 5%, hold [x]\"\x7d\n".toList ++ "\n".toList)
      (rationaleDoc "Up 5%, hold [x]") := by
  have hClean : Clean CharTables.ascii (rationaleDoc "Up 5%, hold [x]") :=
    clean_of_finds visibleAscii_ascii (by decide +kernel)
  exact (readReply_iff id visibleAscii_ascii (by decide +kernel) (by decide +kernel) (some jsonFence)
    (by decide +kernel)).1 ⟨⟨rfl, Nat.le_refl 3⟩, hClean⟩

/-- A comma before a bracket is lost from a string. -/
theorem comma_before_bracket_lost :
    scan .gap "\x7b\"rationale\": \"[a,]\"\x7d".toList = some ((rationaleDoc "[a,]").write []) ∧
      (rationaleDoc "[a,]").UniqueNames ∧
      Gives asciiRuntime id "\x7b\"rationale\": \"[a,]\"\x7d".toList (rationaleDoc "[a]") ∧
      ¬ Gives asciiRuntime id "\x7b\"rationale\": \"[a,]\"\x7d".toList (rationaleDoc "[a,]") := by
  have hLeft : stripFences asciiRuntime "\x7b\"rationale\": \"[a,]\"\x7d".toList =
      some "\x7b\"rationale\": \"[a,]\"\x7d".toList := by decide +kernel
  have hRepaired : repairCommas CharTables.ascii 0 "\x7b\"rationale\": \"[a,]\"\x7d".toList =
      "\x7b\"rationale\": \"[a]\"\x7d".toList := by decide +kernel
  have hScan : scan .gap "\x7b\"rationale\": \"[a]\"\x7d".toList =
      some ((rationaleDoc "[a]").write []) := by decide +kernel
  have hGives : Gives asciiRuntime id "\x7b\"rationale\": \"[a,]\"\x7d".toList
      (rationaleDoc "[a]") := by
    rw [Gives, readReply, hLeft, Option.bind_some]
    show loads id (repairCommas CharTables.ascii 0 _) = _
    rw [hRepaired]
    exact loads_of_scan id hScan
  refine ⟨by decide +kernel, ⟨List.nodup_singleton _, trivial, trivial⟩, hGives, fun h => ?_⟩
  have hSame := Option.some.inj (hGives.symm.trans h)
  exact absurd (congrArg Value.commas hSame) (by decide +kernel)

end AsetPlatform.Recommendations.Stage3

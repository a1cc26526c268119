import AsetPlatform.Library.JsonNumbers

/-!
# Parsing sentiment scores

`_parse_scores` of `backend/tools/_sentiment_scorer.py`: the reply of the LLM is read as JSON, and when
that is no list of the right length, the first numbers of the text are taken for the scores.

A reply is prose, an array of numbers, and prose again. `readsRight_iff` says when the array comes
through. The numbers of the text are those of the prose as well, and the exponent of a number is one of
its own, so that prose with a number before the array displaces the scores.
-/

set_option autoImplicit false

namespace AsetPlatform.Jobs.ParseScores

open AsetPlatform.Library
open AsetPlatform.Library.JsonText
open AsetPlatform.Library.Regex

/-! ## The parser -/

/-- What depends on the interpreter: its character tables, the float nearest to a number, and the texts
that are nested too deeply for `json.loads`. -/
structure Python where
  tables : CharTables
  digits : DigitTables tables
  nearest : ℚ → PyFloat
  tooDeep : List Char → Bool

inductive PyError where
  | valueError
  | typeError
  | overflowError
  | recursionError
  deriving DecidableEq

/-- `except (json.JSONDecodeError, ValueError, TypeError)`. -/
def PyError.caught : PyError → Bool
  | valueError => true
  | typeError => true
  | overflowError => false
  | recursionError => false

/-- `max(-1.0, min(1.0, x))`. -/
def clamp (x : PyFloat) : PyFloat :=
  let y := if x.lt (.number 1) then x else .number 1
  if PyFloat.lt (.number (-1)) y then y else .number (-1)

/-- An integer that no float can hold. -/
def tooLarge : Value Number → Bool
  | .num x => x.integer && outOfRange x.value
  | _ => false

/-- `float(x)`, of what `json.loads` returns. -/
def toFloat (py : Python) (v : Value Number) : Except PyError PyFloat :=
  match v with
  | .num x => if tooLarge v then .error .overflowError else .ok (roundTo py.nearest x.value)
  | .bool b => .ok (.number (if b then 1 else 0))
  | .str cs =>
      ((textOfCodes cs).bind (floatOfText py.tables)).elim (.error .valueError) fun x =>
        .ok (roundTo py.nearest x)
  | _ => .error .typeError

/-- `[max(-1.0, min(1.0, float(x))) for x in xs]`. -/
def clampAll {α : Type*} (float : α → Except PyError PyFloat) : List α → Except PyError (List PyFloat)
  | [] => .ok []
  | x :: xs => (float x).bind fun score => (clampAll float xs).map fun scores => clamp score :: scores

/-- The JSON parse: the scores, or nothing if it is no list of the right length. -/
def direct (py : Python) (raw : List Char) (count : Nat) : Except PyError (Option (List PyFloat)) :=
  if py.tooDeep raw then .error .recursionError
  else
    match loadNumbers raw with
    | some (.arr vs) => if vs.length = count then (clampAll (toFloat py) vs).map some else .ok none
    | some _ => .ok none
    | none => .error .valueError

/-- `float(x)`, of a text. -/
def textToFloat (py : Python) (text : List Char) : Except PyError PyFloat :=
  (floatOfText py.tables text).elim (.error .valueError) fun x => .ok (roundTo py.nearest x)

/-- The first numbers of the text, or zeros if there are too few. -/
def fallback (py : Python) (raw : List Char) (count : Nat) : Except PyError (List PyFloat) :=
  let nums := numberTexts py.tables raw
  if count ≤ nums.length then clampAll (textToFloat py) (nums.take count)
  else .ok (List.replicate count (.number 0))

/-- `_parse_scores`. -/
def parseScores (py : Python) (raw : List Char) (count : Nat) : Except PyError (List PyFloat) :=
  match direct py raw count with
  | .ok (some scores) => .ok scores
  | .ok none => fallback py raw count
  | .error e => if e.caught then fallback py raw count else .error e

/-! ## Scores -/

/-- A score from -1 to 1. -/
def InRange (x : PyFloat) : Prop := ∃ q, x = .number q ∧ -1 ≤ q ∧ q ≤ 1

theorem clamp_number (q : ℚ) : clamp (.number q) = .number (max (-1) (min 1 q)) := by
  have hMin : (if q < 1 then q else 1) = min 1 q := by
    split_ifs with h
    · exact (min_eq_right h.le).symm
    · exact (min_eq_left (not_lt.mp h)).symm
  have hInner : (if (PyFloat.number q).lt (.number 1) then PyFloat.number q else .number 1) =
      .number (min 1 q) := by
    rw [← hMin]
    simp only [PyFloat.lt, decide_eq_true_eq]
    split_ifs <;> rfl
  rw [clamp, hInner]
  simp only [PyFloat.lt, decide_eq_true_eq]
  split_ifs with h
  · rw [max_eq_right h.le]
  · rw [max_eq_left (not_lt.mp h)]

theorem inRange_clamp (x : PyFloat) : InRange (clamp x) := by
  cases x with
  | nan => exact ⟨1, by decide +kernel, by norm_num, le_rfl⟩
  | inf s =>
      cases s with
      | false => exact ⟨1, by decide +kernel, by norm_num, le_rfl⟩
      | true => exact ⟨-1, by decide +kernel, le_rfl, by norm_num⟩
  | number q =>
      exact ⟨max (-1) (min 1 q), clamp_number q, le_max_left _ _,
        max_le (by norm_num) (min_le_left _ _)⟩

section ClampAll

variable {α : Type*} {float : α → Except PyError PyFloat} {xs : List α} {scores : List PyFloat}

theorem inRange_of_clampAll (h : clampAll float xs = .ok scores) :
    scores.length = xs.length ∧ ∀ x ∈ scores, InRange x := by
  induction xs generalizing scores with
  | nil =>
      cases h
      exact ⟨rfl, nofun⟩
  | cons x xs ih =>
      rw [clampAll] at h
      cases hFirst : float x with
      | error e =>
          rw [hFirst] at h
          cases h
      | ok score =>
          rw [hFirst] at h
          cases hMore : clampAll float xs with
          | error e =>
              rw [hMore] at h
              cases h
          | ok more =>
              rw [hMore] at h
              cases h
              obtain ⟨hLength, hRange⟩ := ih hMore
              refine ⟨congrArg Nat.succ hLength, fun y hy => ?_⟩
              rcases List.mem_cons.mp hy with rfl | hy
              · exact inRange_clamp score
              · exact hRange y hy

theorem clampAll_ok {value : α → PyFloat} (h : ∀ x ∈ xs, float x = .ok (value x)) :
    clampAll float xs = .ok (xs.map fun x => clamp (value x)) := by
  induction xs with
  | nil => rfl
  | cons x xs ih =>
      rw [clampAll, h x List.mem_cons_self, ih fun y hy => h y (List.mem_cons_of_mem x hy)]
      rfl

theorem exists_ok_of_clampAll (h : clampAll float xs = .ok scores) :
    ∀ x ∈ xs, ∃ y, float x = .ok y := by
  induction xs generalizing scores with
  | nil => nofun
  | cons x xs ih =>
      rw [clampAll] at h
      cases hFirst : float x with
      | error e =>
          rw [hFirst] at h
          cases h
      | ok y =>
          rw [hFirst] at h
          cases hMore : clampAll float xs with
          | error e =>
              rw [hMore] at h
              cases h
          | ok more =>
              intro z hz
              rcases List.mem_cons.mp hz with rfl | hz
              · exact ⟨y, hFirst⟩
              · exact ih hMore z hz

theorem clampAll_map {β : Type*} (g : β → α) (ys : List β) :
    clampAll float (ys.map g) = clampAll (fun y => float (g y)) ys := by
  induction ys with
  | nil => rfl
  | cons y ys ih => rw [List.map_cons, clampAll, clampAll, ih]

theorem clampAll_error_iff {e : PyError} :
    clampAll float xs = .error e ↔
      ∃ before x after, xs = before ++ x :: after ∧ (∀ y ∈ before, ∃ score, float y = .ok score) ∧
        float x = .error e := by
  induction xs with
  | nil =>
      constructor
      · intro h
        cases h
      · rintro ⟨before, x, after, hText, -, -⟩
        exact absurd hText.symm (by simp)
  | cons x xs ih =>
      rw [clampAll]
      cases hFirst : float x with
      | error e' =>
          constructor
          · intro h
            cases h
            exact ⟨[], x, xs, rfl, nofun, hFirst⟩
          · rintro ⟨before, y, after, hText, hBefore, hError⟩
            cases before with
            | nil =>
                cases hText
                cases hFirst.symm.trans hError
                rfl
            | cons z before =>
                cases hText
                obtain ⟨score, hScore⟩ := hBefore x List.mem_cons_self
                cases hFirst.symm.trans hScore
      | ok score =>
          have hStep : (Except.bind (.ok score) fun score =>
              (clampAll float xs).map fun scores => clamp score :: scores) = .error e ↔
                clampAll float xs = .error e := by
            cases hMore : clampAll float xs with
            | error e' =>
                constructor
                · intro h
                  cases h
                  rfl
                · intro h
                  cases h
                  rfl
            | ok more => exact ⟨nofun, nofun⟩
          rw [hStep, ih]
          constructor
          · rintro ⟨before, y, after, rfl, hBefore, hError⟩
            refine ⟨x :: before, y, after, rfl, fun z hz => ?_, hError⟩
            rcases List.mem_cons.mp hz with rfl | hz
            · exact ⟨score, hFirst⟩
            · exact hBefore z hz
          · rintro ⟨before, y, after, hText, hBefore, hError⟩
            cases before with
            | nil =>
                cases hText
                cases hFirst.symm.trans hError
            | cons z before =>
                cases hText
                exact ⟨before, y, after, rfl, fun w hw => hBefore w (List.mem_cons_of_mem _ hw),
                  hError⟩

end ClampAll

/-! ## What can be raised -/

section Raised

variable (py : Python) (raw : List Char) (count : Nat)

/-- What a number of the text counts as. -/
def textScore (text : List Char) : PyFloat :=
  clamp (roundTo py.nearest ((floatOfText py.tables text).getD .nan))

/-- The fallback raises nothing: `float` takes whatever the expression finds. -/
theorem fallback_eq : fallback py raw count =
    .ok (if count ≤ (numberTexts py.tables raw).length then
      ((numberTexts py.tables raw).take count).map (textScore py)
    else List.replicate count (.number 0)) := by
  rw [fallback]
  split_ifs with hEnough
  · apply clampAll_ok
    intro text hText
    obtain ⟨x, hx⟩ := Option.isSome_iff_exists.mp
      (floatOfText_isSome py.digits (List.mem_of_mem_take hText))
    rw [textToFloat, hx]
    rfl
  · rfl

theorem inRange_fallback {scores : List PyFloat} (h : fallback py raw count = .ok scores) :
    scores.length = count ∧ ∀ x ∈ scores, InRange x := by
  rw [fallback_eq] at h
  cases h
  split_ifs with hEnough
  · refine ⟨by rw [List.length_map, List.length_take, min_eq_left hEnough], fun x hx => ?_⟩
    obtain ⟨text, -, rfl⟩ := List.mem_map.mp hx
    exact inRange_clamp _
  · refine ⟨List.length_replicate, fun x hx => ?_⟩
    rw [List.eq_of_mem_replicate hx]
    exact ⟨0, rfl, by norm_num, by norm_num⟩

/-- The reply is a list of the right length in which an integer that no float can hold comes before
any item that has no float. -/
def Overflows : Prop :=
  ∃ before v after, loadNumbers raw = some (.arr (before ++ v :: after)) ∧
    (before ++ v :: after).length = count ∧ (∀ u ∈ before, ∃ x, toFloat py u = .ok x) ∧
      tooLarge v = true

theorem toFloat_error_iff {v : Value Number} {e : PyError} (he : e.caught = false) :
    toFloat py v = .error e ↔ e = .overflowError ∧ tooLarge v = true := by
  have hOther : ∀ {e'}, PyError.caught e' = true → e' ≠ e := by
    rintro e' he' rfl
    exact Bool.false_ne_true (he.symm.trans he')
  cases v with
  | num x =>
      rw [toFloat]
      split_ifs with hLarge
      · constructor
        · intro h
          cases h
          exact ⟨rfl, hLarge⟩
        · rintro ⟨rfl, -⟩
          rfl
      · exact ⟨nofun, fun h => absurd h.2 hLarge⟩
  | bool b => exact ⟨nofun, fun h => nomatch h.2⟩
  | str cs =>
      refine ⟨fun h => ?_, fun h => nomatch h.2⟩
      rw [toFloat] at h
      cases hText : (textOfCodes cs).bind (floatOfText py.tables) with
      | none =>
          rw [hText] at h
          cases h
          cases he
      | some x =>
          rw [hText] at h
          cases h
  | null =>
      refine ⟨fun h => ?_, fun h => nomatch h.2⟩
      cases h
      cases he
  | arr vs =>
      refine ⟨fun h => ?_, fun h => nomatch h.2⟩
      cases h
      cases he
  | obj ms =>
      refine ⟨fun h => ?_, fun h => nomatch h.2⟩
      cases h
      cases he

/-- What is raised, and by what reply. -/
theorem direct_error_iff {e : PyError} (he : e.caught = false) : direct py raw count = .error e ↔
    (e = .recursionError ∧ py.tooDeep raw = true) ∨
      (e = .overflowError ∧ py.tooDeep raw = false ∧ Overflows py raw count) := by
  rw [direct]
  by_cases hDeep : py.tooDeep raw = true
  · rw [if_pos hDeep]
    constructor
    · intro h
      cases h
      exact .inl ⟨rfl, hDeep⟩
    · rintro (⟨rfl, -⟩ | ⟨-, hNot, -⟩)
      · rfl
      · exact absurd hDeep (Bool.eq_false_iff.mp hNot)
  · have hShallow := Bool.eq_false_iff.mpr hDeep
    have hNoList : (∀ vs, loadNumbers raw ≠ some (.arr vs)) → ¬ Overflows py raw count :=
      fun h ⟨_, _, _, hLoad, _⟩ => h _ hLoad
    rw [if_neg hDeep]
    have hGoal : ∀ {r : Except PyError (Option (List PyFloat))},
        (r = .error e ↔ e = .overflowError ∧ Overflows py raw count) →
          (r = .error e ↔ (e = .recursionError ∧ py.tooDeep raw = true) ∨
            (e = .overflowError ∧ py.tooDeep raw = false ∧ Overflows py raw count)) := by
      intro r h
      rw [h]
      constructor
      · exact fun ⟨hError, hOver⟩ => .inr ⟨hError, hShallow, hOver⟩
      · rintro (⟨-, hTrue⟩ | ⟨hError, -, hOver⟩)
        · exact absurd hTrue hDeep
        · exact ⟨hError, hOver⟩
    apply hGoal
    split
    · rename_i vs hLoad
      by_cases hLength : vs.length = count
      · rw [if_pos hLength]
        have hMap : (clampAll (toFloat py) vs).map some = .error e ↔
            clampAll (toFloat py) vs = .error e := by
          cases clampAll (toFloat py) vs with
          | error e' =>
              constructor
              · intro h
                cases h
                rfl
              · intro h
                cases h
                rfl
          | ok scores => exact ⟨nofun, nofun⟩
        rw [hMap, clampAll_error_iff]
        constructor
        · rintro ⟨before, v, after, rfl, hBefore, hError⟩
          obtain ⟨rfl, hLarge⟩ := (toFloat_error_iff py he).mp hError
          exact ⟨rfl, before, v, after, hLoad, hLength, hBefore, hLarge⟩
        · rintro ⟨rfl, before, v, after, hLoad', -, hBefore, hLarge⟩
          cases hLoad.symm.trans hLoad'
          exact ⟨before, v, after, rfl, hBefore, (toFloat_error_iff py he).mpr ⟨rfl, hLarge⟩⟩
      · rw [if_neg hLength]
        refine ⟨nofun, ?_⟩
        rintro ⟨-, before, v, after, hLoad', hCount, -⟩
        cases hLoad.symm.trans hLoad'
        exact absurd hCount hLength
    · rename_i hNoArr hLoad
      refine ⟨nofun, fun h => absurd h.2 (hNoList fun vs hArr => ?_)⟩
      exact hNoArr vs (Option.some.inj (hLoad.symm.trans hArr))
    · rename_i hLoad
      refine ⟨fun h => ?_, fun h => absurd h.2 (hNoList fun vs hArr => nomatch hLoad.symm.trans hArr)⟩
      cases h
      cases he

theorem inRange_parseScores {scores : List PyFloat} (h : parseScores py raw count = .ok scores) :
    scores.length = count ∧ ∀ x ∈ scores, InRange x := by
  rw [parseScores] at h
  split at h
  · rename_i scores' hDirect
    cases h
    rw [direct] at hDirect
    split_ifs at hDirect
    split at hDirect
    · rename_i vs hLoad
      split_ifs at hDirect with hLength
      cases hClamp : clampAll (toFloat py) vs with
      | error e =>
          rw [hClamp] at hDirect
          cases hDirect
      | ok scores =>
          rw [hClamp] at hDirect
          cases hDirect
          obtain ⟨hScores, hRange⟩ := inRange_of_clampAll hClamp
          exact ⟨hScores.trans hLength, hRange⟩
      · cases hDirect
    · cases hDirect
    · cases hDirect
  · exact inRange_fallback py raw count h
  · split_ifs at h
    exact inRange_fallback py raw count h

theorem parseScores_ok_iff : (∃ scores, parseScores py raw count = .ok scores) ↔
    py.tooDeep raw = false ∧ ¬ Overflows py raw count := by
  have hFallback : ∃ scores, fallback py raw count = .ok scores := ⟨_, fallback_eq py raw count⟩
  have hRaised := fun e (he : PyError.caught e = false) => direct_error_iff py raw count he
  rw [parseScores]
  constructor
  · intro h
    constructor
    · rw [Bool.eq_false_iff]
      intro hDeep
      rw [(hRaised .recursionError rfl).mpr (.inl ⟨rfl, hDeep⟩)] at h
      obtain ⟨scores, h⟩ := h
      cases h
    · intro hOver
      by_cases hDeep : py.tooDeep raw = true
      · rw [(hRaised .recursionError rfl).mpr (.inl ⟨rfl, hDeep⟩)] at h
        obtain ⟨scores, h⟩ := h
        cases h
      · rw [(hRaised .overflowError rfl).mpr
          (.inr ⟨rfl, Bool.eq_false_iff.mpr hDeep, hOver⟩)] at h
        obtain ⟨scores, h⟩ := h
        cases h
  · rintro ⟨hShallow, hFits⟩
    split
    · exact ⟨_, rfl⟩
    · exact hFallback
    · rename_i e hDirect
      split_ifs with he
      · exact hFallback
      · obtain ⟨-, hDeep⟩ | ⟨-, -, hOver⟩ := (hRaised e (Bool.eq_false_iff.mpr he)).mp hDirect
        · exact absurd hDeep (Bool.eq_false_iff.mp hShallow)
        · exact absurd hOver hFits

end Raised

/-! ## Replies -/

/-- A number of an array, with the blanks around it. -/
structure Entry where
  lead : List Char
  number : List Char
  trail : List Char
  isNumber : JsonText.isNumber number = true
  blank : ∀ c ∈ lead ++ trail, isBlank c = true

def Entry.text (e : Entry) : List Char := e.lead ++ (e.number ++ e.trail)

/-- The entries behind the first one. -/
def moreEntries : List Entry → List Char
  | [] => []
  | e :: es => ',' :: (e.text ++ moreEntries es)

def entriesText : List Entry → List Char
  | [] => []
  | e :: es => e.text ++ moreEntries es

/-- An array of numbers in prose without brackets. -/
structure Reply where
  before : List Char
  gap : List Char
  entries : List Entry
  after : List Char
  blank : ∀ c ∈ gap, isBlank c = true
  prose : ∀ c ∈ before ++ after, c ≠ '[' ∧ c ≠ ']'

namespace Reply

def text (r : Reply) : List Char :=
  r.before ++ '[' :: (r.gap ++ (entriesText r.entries ++ ']' :: r.after))

/-- The reply is the array, which `json.loads` takes. -/
def Bare (r : Reply) : Prop :=
  (∀ c ∈ r.before ++ r.after, isBlank c = true) ∧
    ∀ e ∈ r.entries, refusedInteger e.number = false

/-- The numbers of the reply up to the end of the array, the exponents apart. -/
def found (py : Python) (r : Reply) : List (List Char) :=
  numberTexts py.tables r.before ++ r.entries.flatMap fun e => pieces e.number

end Reply

def Entry.score (py : Python) (e : Entry) : PyFloat :=
  clamp (roundTo py.nearest (exactValue e.number))

/-- The condition: a bare array has no integer that no float can hold, and otherwise the first numbers
of the reply are worth the entries. -/
def Reply.ReadsRight (py : Python) (r : Reply) : Prop :=
  py.tooDeep r.text = false ∧
    (r.Bare → ∀ e ∈ r.entries, tooLarge (.num (jsonNumber e.number)) = false) ∧
      (¬ r.Bare →
        ((r.found py).take r.entries.length).map (textScore py) = r.entries.map (Entry.score py))

/-! ## What the expression finds in a reply -/

section Found

variable {py : Python}

theorem apart_of_isBlank {T : CharTables} (hT : AsciiDigits T) {c : Char} (h : isBlank c = true) :
    Apart T c := by
  rw [isBlank, decide_eq_true_eq] at h
  obtain rfl | rfl | rfl | rfl := h
  · exact ⟨hT _ (by decide), by decide, by decide⟩
  · exact ⟨hT _ (by decide), by decide, by decide⟩
  · exact ⟨hT _ (by decide), by decide, by decide⟩
  · exact ⟨hT _ (by decide), by decide, by decide⟩

theorem numberTexts_entry {T : CharTables} (hT : AsciiDigits T) (e : Entry) :
    numberTexts T e.text = pieces e.number := by
  have hLead : ∀ c ∈ e.lead, Apart T c := fun c hc =>
    apart_of_isBlank hT (e.blank c (List.mem_append_left _ hc))
  have hTrail : ∀ c ∈ e.trail, Apart T c := fun c hc =>
    apart_of_isBlank hT (e.blank c (List.mem_append_right _ hc))
  rw [Entry.text, numberTexts_apart_append hT hLead, numberTexts_append_apart hT hTrail,
    numberTexts_number hT e.isNumber]

theorem numberTexts_entries {T : CharTables} (hT : AsciiDigits T) (es : List Entry)
    (after : List Char) : numberTexts T (entriesText es ++ ']' :: after) =
      es.flatMap (fun e => pieces e.number) ++ numberTexts T after := by
  have hComma : Apart T ',' := ⟨hT _ (by decide), by decide, by decide⟩
  have hClose : Apart T ']' := ⟨hT _ (by decide), by decide, by decide⟩
  have hMore : ∀ (es : List Entry) (e : Entry),
      numberTexts T (e.text ++ (moreEntries es ++ ']' :: after)) =
        (e :: es).flatMap (fun e => pieces e.number) ++ numberTexts T after := by
    intro es
    induction es with
    | nil =>
        intro e
        rw [moreEntries, List.nil_append, numberTexts_append_cons hT hClose, numberTexts_entry hT,
          List.flatMap_singleton]
    | cons e' es ih =>
        intro e
        rw [moreEntries, List.cons_append, numberTexts_append_cons hT hComma, numberTexts_entry hT,
          List.append_assoc, ih e', List.flatMap_cons, List.flatMap_cons, List.flatMap_cons]
        simp only [List.append_assoc]
  cases es with
  | nil => exact numberTexts_append_cons hT hClose [] after
  | cons e es =>
      rw [entriesText, List.append_assoc]
      exact hMore es e

theorem numberTexts_reply (py : Python) (r : Reply) : numberTexts py.tables r.text =
    r.found py ++ numberTexts py.tables r.after := by
  have hT := py.digits.ascii
  have hOpen : Apart py.tables '[' := ⟨hT _ (by decide), by decide, by decide⟩
  have hGap : ∀ c ∈ r.gap, Apart py.tables c := fun c hc => apart_of_isBlank hT (r.blank c hc)
  rw [Reply.text, numberTexts_append_cons hT hOpen, numberTexts_apart_append hT hGap,
    numberTexts_entries hT, Reply.found, List.append_assoc]

theorem length_le_found (r : Reply) : r.entries.length ≤ (r.found py).length := by
  have hEach : ∀ es : List Entry, es.length ≤ (es.flatMap fun e => pieces e.number).length := by
    intro es
    induction es with
    | nil => exact Nat.le_refl 0
    | cons e es ih =>
        rw [List.flatMap_cons, List.length_append, List.length_cons, pieces, List.length_cons]
        omega
  rw [Reply.found, List.length_append]
  exact (hEach r.entries).trans (Nat.le_add_left _ _)

theorem fallback_reply (py : Python) (r : Reply) : fallback py r.text r.entries.length =
    .ok (((r.found py).take r.entries.length).map (textScore py)) := by
  have hLength := @length_le_found py r
  rw [fallback_eq, numberTexts_reply, if_pos, List.take_append_of_le_length hLength]
  rw [List.length_append]
  exact hLength.trans (Nat.le_add_right _ _)

/-- Without a number before the array and without exponents the first numbers are the entries. -/
theorem found_of_plain {r : Reply} (hBefore : ∀ c ∈ r.before, py.tables.isDigit c = false)
    (hPlain : ∀ e ∈ r.entries, ∀ c ∈ e.number, startsExponent c = false) :
    ((r.found py).take r.entries.length).map (textScore py) = r.entries.map (Entry.score py) := by
  have hPieces : ∀ es : List Entry, (∀ e ∈ es, ∀ c ∈ e.number, startsExponent c = false) →
      (es.flatMap fun e => pieces e.number) = es.map Entry.number := by
    intro es hes
    induction es with
    | nil => rfl
    | cons e es ih =>
        rw [List.flatMap_cons, pieces_of_no_exponent (hes e List.mem_cons_self),
          ih fun e' he' => hes e' (List.mem_cons_of_mem e he')]
        rfl
  have hScore : ∀ e ∈ r.entries, textScore py e.number = e.score py := by
    intro e _
    rw [textScore, floatOfText_number e.isNumber, Entry.score, exactValue]
  rw [Reply.found, numberTexts_eq_nil py.digits.ascii hBefore, List.nil_append,
    hPieces r.entries hPlain, ← List.length_map Entry.number, List.take_length, List.map_map]
  exact List.map_congr_left hScore

end Found

/-! ## What the JSON parse makes of a reply -/

section Parse

/-- The array as a document. -/
def Entry.doc (e : Entry) : Doc :=
  .word ⟨e.number, by rw [isLiteral, e.isNumber, Bool.or_true]⟩

theorem inWord_of_numberChar {c : Char} (h : NumberChar c) : inWord c = true := by
  obtain h | h := h
  · rw [inWord, Char.isAlphanum, h, Bool.or_true]
    rfl
  · simp only [List.mem_cons, List.not_mem_nil, or_false] at h
    obtain rfl | rfl | rfl | rfl | rfl := h <;> rfl

theorem number_ne_nil {w : List Char} (h : isNumber w = true) : w ≠ [] := by
  rintro rfl
  cases h

theorem inWord_trail (e : Entry) {c : Char} (hc : inWord c = false) (s : List Char) :
    ∃ d rest, e.trail ++ c :: s = d :: rest ∧ inWord d = false := by
  cases hTrail : e.trail with
  | nil => exact ⟨c, s, rfl, hc⟩
  | cons d trail =>
      have hd : d ∈ e.lead ++ e.trail := by
        rw [hTrail]
        exact List.mem_append_right _ List.mem_cons_self
      exact ⟨d, trail ++ c :: s, rfl, not_inWord_of_isBlank (e.blank d hd)⟩

theorem scan_entry (e : Entry) {c : Char} (hc : inWord c = false) (s : List Char) :
    scan .gap (e.text ++ c :: s) = (scan .gap (c :: s)).map fun ts => .word e.number :: ts := by
  have hLead : ∀ c ∈ e.lead, isBlank c = true := fun c hc => e.blank c (List.mem_append_left _ hc)
  have hTrail : ∀ c ∈ e.trail, isBlank c = true := fun c hc => e.blank c (List.mem_append_right _ hc)
  obtain ⟨d, rest, hRest, hd⟩ := inWord_trail e hc s
  have hWord := scan_gap_word (number_ne_nil e.isNumber)
    (fun c hc => inWord_of_numberChar (numberChar_of_number e.isNumber c hc)) hd rest
  rw [← hRest, scan_blank hTrail] at hWord
  rw [Entry.text, List.append_assoc, List.append_assoc, scan_blank hLead, hWord]

theorem scan_moreEntries (es : List Entry) {after : List Char}
    (hAfter : ∀ c ∈ after, isBlank c = true) :
    scan .gap (moreEntries es ++ ']' :: after) = some (moreItems (es.map Entry.doc) []) := by
  have hClose : scan .gap (']' :: after) = some [.closeArr] := by
    rw [scan_punctuation rfl, ← List.append_nil after, scan_blank hAfter]
    rfl
  induction es with
  | nil => exact hClose
  | cons e es ih =>
      have hNext : ∃ c s, moreEntries es ++ ']' :: after = c :: s ∧ inWord c = false := by
        cases es with
        | nil => exact ⟨']', after, rfl, rfl⟩
        | cons e' es => exact ⟨',', _, rfl, rfl⟩
      obtain ⟨c, s, hText, hc⟩ := hNext
      rw [moreEntries, List.cons_append, scan_punctuation rfl, List.append_assoc, hText,
        scan_entry e hc, ← hText, ih, List.map_cons, moreItems]
      rfl

theorem scan_reply {r : Reply} (hBlank : ∀ c ∈ r.before ++ r.after, isBlank c = true) :
    scan .gap r.text = some ((Doc.arr (r.entries.map Entry.doc)).write []) := by
  have hBefore : ∀ c ∈ r.before, isBlank c = true := fun c hc =>
    hBlank c (List.mem_append_left _ hc)
  have hAfter : ∀ c ∈ r.after, isBlank c = true := fun c hc =>
    hBlank c (List.mem_append_right _ hc)
  rw [Reply.text, scan_blank hBefore, scan_punctuation rfl, scan_blank r.blank]
  cases hEntries : r.entries with
  | nil =>
      have hEmpty := scan_moreEntries [] hAfter
      rw [moreEntries] at hEmpty
      rw [entriesText, hEmpty]
      rfl
  | cons e es =>
      have hNext : ∃ c s, moreEntries es ++ ']' :: r.after = c :: s ∧ inWord c = false := by
        cases es with
        | nil => exact ⟨']', r.after, rfl, rfl⟩
        | cons e' es => exact ⟨',', _, rfl, rfl⟩
      obtain ⟨c, s, hText, hc⟩ := hNext
      rw [entriesText, List.append_assoc, hText, scan_entry e hc, ← hText,
        scan_moreEntries es hAfter, List.map_cons, Doc.write]
      rfl

theorem exists_write_arr (ds : List Doc) : ∃ us, (Doc.arr ds).write [] = us ++ [.closeArr] := by
  have hDoc : ∀ (d : Doc) ts, ∃ us, d.write ts = us ++ ts := fun d ts => d.exists_write ts
  have hItems : ∀ ds : List Doc, ∃ us, moreItems ds [] = us ++ [.closeArr] := by
    intro ds
    induction ds with
    | nil => exact ⟨[], by rw [moreItems]; rfl⟩
    | cons d ds ih =>
        obtain ⟨us, hus⟩ := ih
        obtain ⟨vs, hvs⟩ := hDoc d (moreItems ds [])
        refine ⟨.comma :: (vs ++ us), ?_⟩
        rw [moreItems, hvs, hus, List.cons_append, List.append_assoc]
  cases ds with
  | nil => exact ⟨[.openArr], by rw [Doc.write]; rfl⟩
  | cons d ds =>
      obtain ⟨us, hus⟩ := hItems ds
      obtain ⟨vs, hvs⟩ := hDoc d (moreItems ds [])
      refine ⟨.openArr :: (vs ++ us), ?_⟩
      rw [Doc.write, hvs, hus, List.cons_append, List.append_assoc]

theorem head_write_arr (ds : List Doc) : ∃ us, (Doc.arr ds).write [] = .openArr :: us := by
  cases ds with
  | nil => exact ⟨_, by rw [Doc.write]⟩
  | cons d ds => exact ⟨_, by rw [Doc.write]⟩

theorem blank_of_scan_reply {r : Reply} {ds : List Doc}
    (h : scan .gap r.text = some ((Doc.arr ds).write [])) :
    ∀ c ∈ r.before ++ r.after, isBlank c = true := by
  have hNoOpen : '[' ∉ r.before := fun hMem => (r.prose _ (List.mem_append_left _ hMem)).1 rfl
  have hNoClose : ']' ∉ r.after := fun hMem => (r.prose _ (List.mem_append_right _ hMem)).2 rfl
  have hBefore : ∀ c ∈ r.before, isBlank c = true := by
    obtain ⟨us, hus⟩ := head_write_arr ds
    rw [hus] at h
    exact blank_of_openArr hNoOpen h
  have hAfter : ∀ c ∈ r.after, isBlank c = true := by
    have hSplit : r.text = (r.before ++ '[' :: (r.gap ++ (entriesText r.entries ++ [']']))) ++
        r.after := by
      simp [Reply.text]
    rw [hSplit] at h
    obtain ⟨out, m, rest, -, hScan, hTokens⟩ := scan_append_iff.mp h
    obtain ⟨us, hus⟩ := exists_write_arr ds
    have hNone := closeArr_notMem hNoClose hScan
    -- the last token is the bracket, which is none of those behind it
    rcases List.eq_nil_or_concat rest with rfl | ⟨more, t, rfl⟩
    · exact (blank_of_scan_nil hScan).2
    · rw [hus, List.concat_eq_append, ← List.append_assoc] at hTokens
      have hLast := (List.append_inj' hTokens rfl).2
      cases hLast
      rw [List.concat_eq_append] at hNone
      exact absurd (List.mem_append_right more (List.mem_singleton.mpr rfl)) hNone
  intro c hc
  rcases List.mem_append.mp hc with hc | hc
  · exact hBefore c hc
  · exact hAfter c hc

theorem value_arr {d : Doc} {vs : List (Value Number)} (h : d.value jsonNumber = .arr vs) :
    ∃ ds, d = .arr ds ∧ itemValues jsonNumber ds = vs := by
  cases d with
  | word w =>
      rw [Doc.value, wordValue] at h
      split_ifs at h
  | str ps => rw [Doc.value] at h; cases h
  | arr ds =>
      rw [Doc.value] at h
      cases h
      exact ⟨ds, rfl, rfl⟩
  | obj ms => rw [Doc.value] at h; cases h

theorem wordValue_number {w : List Char} (h : isNumber w = true) :
    wordValue jsonNumber w = .num (jsonNumber w) := by
  have hName : ∀ name : List Char, (∃ c ∈ name, c ∈ ['n', 't', 'f']) → w ≠ name := by
    rintro name ⟨c, hc, hLetter⟩ rfl
    obtain hDigit | hSign := numberChar_of_number h c hc
    · simp only [List.mem_cons, List.not_mem_nil, or_false] at hLetter
      obtain rfl | rfl | rfl := hLetter <;> cases hDigit
    · simp only [List.mem_cons, List.not_mem_nil, or_false] at hLetter
      obtain rfl | rfl | rfl := hLetter <;> exact absurd hSign (by decide)
  rw [wordValue, if_neg (hName _ ⟨'n', by decide, by decide⟩),
    if_neg (hName _ ⟨'t', by decide, by decide⟩), if_neg (hName _ ⟨'f', by decide, by decide⟩)]

theorem itemValues_entries (es : List Entry) :
    itemValues jsonNumber (es.map Entry.doc) = es.map fun e => .num (jsonNumber e.number) := by
  induction es with
  | nil => rfl
  | cons e es ih =>
      rw [List.map_cons, itemValues, ih, Entry.doc, Doc.value, wordValue_number e.isNumber,
        List.map_cons]

theorem any_refused_items (es : List Entry) :
    (moreItems (es.map Entry.doc) []).any Token.refused = es.any fun e => refusedInteger e.number := by
  induction es with
  | nil => rw [List.map_nil, moreItems]; rfl
  | cons e es ih =>
      rw [List.map_cons, moreItems, Entry.doc, Doc.write, List.any_cons, List.any_cons, ih,
        List.any_cons]
      rfl

theorem any_refused (es : List Entry) : ((Doc.arr (es.map Entry.doc)).write []).any Token.refused =
    es.any fun e => refusedInteger e.number := by
  cases es with
  | nil => rw [List.map_nil, Doc.write]; rfl
  | cons e es =>
      rw [List.map_cons, Doc.write, Entry.doc, Doc.write, List.any_cons, List.any_cons,
        any_refused_items, List.any_cons]
      rfl

theorem loadNumbers_bare {r : Reply} (h : r.Bare) :
    loadNumbers r.text = some (.arr (r.entries.map fun e => .num (jsonNumber e.number))) := by
  have hNone : ((Doc.arr (r.entries.map Entry.doc)).write []).any Token.refused = false := by
    rw [any_refused, List.any_eq_false]
    exact fun e he => Bool.eq_false_iff.mp (h.2 e he)
  rw [loadNumbers, scan_reply h.1, Option.bind_some, hNone, if_neg Bool.false_ne_true,
    parse_eq_some_iff.mpr rfl, Option.map_some, Doc.value, itemValues_entries]

theorem bare_of_loadNumbers {r : Reply} {vs : List (Value Number)}
    (h : loadNumbers r.text = some (.arr vs)) : r.Bare := by
  rw [loadNumbers] at h
  obtain ⟨ts, hScan, hParse⟩ := Option.bind_eq_some_iff.mp h
  split_ifs at hParse with hRefused
  obtain ⟨d, hd, hValue⟩ := Option.map_eq_some_iff.mp hParse
  obtain ⟨ds, rfl, -⟩ := value_arr hValue
  have hBlank : ∀ c ∈ r.before ++ r.after, isBlank c = true := by
    rw [parse_eq_some_iff.mp hd] at hScan
    exact blank_of_scan_reply hScan
  refine ⟨hBlank, fun e he => ?_⟩
  cases hScan.symm.trans (scan_reply hBlank)
  rw [any_refused, List.any_eq_true, not_exists] at hRefused
  exact Bool.eq_false_iff.mpr fun hBad => hRefused e ⟨he, hBad⟩

end Parse

/-! ## When the array comes through -/

section ComesThrough

variable (py : Python)

theorem parseScores_bare {r : Reply} (hDeep : py.tooDeep r.text = false) (hBare : r.Bare) :
    parseScores py r.text r.entries.length = .ok (r.entries.map (Entry.score py)) ↔
      ∀ e ∈ r.entries, tooLarge (.num (jsonNumber e.number)) = false := by
  have hLength : (r.entries.map fun e => Value.num (jsonNumber e.number)).length =
      r.entries.length := List.length_map _
  have hDirect : direct py r.text r.entries.length =
      (clampAll (toFloat py) (r.entries.map fun e => .num (jsonNumber e.number))).map some := by
    rw [direct, if_neg (Bool.eq_false_iff.mp hDeep), loadNumbers_bare hBare]
    exact if_pos hLength
  constructor
  · intro hResult e he
    rw [Bool.eq_false_iff]
    intro hLarge
    have hOver : toFloat py (.num (jsonNumber e.number)) = .error .overflowError := if_pos hLarge
    cases hItems : clampAll (toFloat py) (r.entries.map fun e => .num (jsonNumber e.number)) with
    | ok scores =>
        obtain ⟨x, hx⟩ := exists_ok_of_clampAll hItems _ (List.mem_map_of_mem he)
        cases hOver.symm.trans hx
    | error e' =>
        -- a number has no other error
        obtain ⟨before, v, after, hSplit, -, hError⟩ := clampAll_error_iff.mp hItems
        have hMem : v ∈ r.entries.map fun e => Value.num (jsonNumber e.number) := by
          rw [hSplit]
          exact List.mem_append_right _ List.mem_cons_self
        obtain ⟨e'', -, rfl⟩ := List.mem_map.mp hMem
        have hOverflow : e' = .overflowError := by
          rw [toFloat] at hError
          split_ifs at hError
          cases hError
          rfl
        rw [parseScores, hDirect, hItems, hOverflow] at hResult
        cases hResult
  · intro hFits
    have hFloat : ∀ e ∈ r.entries, toFloat py (.num (jsonNumber e.number)) =
        .ok (roundTo py.nearest (exactValue e.number)) := fun e he =>
      if_neg (Bool.eq_false_iff.mp (hFits e he))
    have hItems : clampAll (toFloat py) (r.entries.map fun e => .num (jsonNumber e.number)) =
        .ok (r.entries.map (Entry.score py)) := by
      rw [clampAll_map]
      exact clampAll_ok hFloat
    rw [parseScores, hDirect, hItems]
    rfl

theorem parseScores_prose {r : Reply} (hDeep : py.tooDeep r.text = false) (hBare : ¬ r.Bare) :
    parseScores py r.text r.entries.length =
      .ok (((r.found py).take r.entries.length).map (textScore py)) := by
  rw [← fallback_reply, parseScores, direct, if_neg (Bool.eq_false_iff.mp hDeep)]
  cases hLoad : loadNumbers r.text with
  | none => rfl
  | some v =>
      cases v with
      | arr vs => exact absurd (bare_of_loadNumbers hLoad) hBare
      | null => rfl
      | bool b => rfl
      | num x => rfl
      | str cs => rfl
      | obj ms => rfl

theorem scores_iff (r : Reply) :
    parseScores py r.text r.entries.length = .ok (r.entries.map (Entry.score py)) ↔
      r.ReadsRight py := by
  by_cases hDeep : py.tooDeep r.text = true
  · constructor
    · intro h
      have hOk := (parseScores_ok_iff py r.text r.entries.length).mp ⟨_, h⟩
      exact absurd hDeep (Bool.eq_false_iff.mp hOk.1)
    · intro h
      exact absurd hDeep (Bool.eq_false_iff.mp h.1)
  · have hShallow := Bool.eq_false_iff.mpr hDeep
    by_cases hBare : r.Bare
    · rw [parseScores_bare py hShallow hBare]
      exact ⟨fun h => ⟨hShallow, fun _ => h, fun hNot => absurd hBare hNot⟩, fun h => h.2.1 hBare⟩
    · rw [parseScores_prose py hShallow hBare, Except.ok.injEq]
      exact ⟨fun h => ⟨hShallow, fun hB => absurd hB hBare, fun _ => h⟩, fun h => h.2.2 hBare⟩

/-- The array comes through if no digit stands before it, no number has an exponent and no integer is
too large. -/
theorem readsRight_of_plain {r : Reply} (hDeep : py.tooDeep r.text = false)
    (hBefore : ∀ c ∈ r.before, py.tables.isDigit c = false)
    (hPlain : ∀ e ∈ r.entries, (∀ c ∈ e.number, startsExponent c = false) ∧
      tooLarge (.num (jsonNumber e.number)) = false) : r.ReadsRight py :=
  ⟨hDeep, fun _ e he => (hPlain e he).2, fun _ => found_of_plain hBefore fun e he => (hPlain e he).1⟩

end ComesThrough

/-- When the array of a reply comes through, and when a reply of any kind gives scores. -/
theorem readsRight_iff (py : Python) :
    (∀ r : Reply,
      parseScores py r.text r.entries.length = .ok (r.entries.map (Entry.score py)) ↔
        r.ReadsRight py) ∧
    ∀ (raw : List Char) (count : Nat),
      (∃ scores, parseScores py raw count = .ok scores ∧ scores.length = count ∧
        ∀ x ∈ scores, InRange x) ↔
          py.tooDeep raw = false ∧ ¬ Overflows py raw count := by
  refine ⟨scores_iff py, fun raw count => ?_⟩
  rw [← parseScores_ok_iff]
  constructor
  · rintro ⟨scores, h, -⟩
    exact ⟨scores, h⟩
  · rintro ⟨scores, h⟩
    exact ⟨scores, h, inRange_parseScores py raw count h⟩

/-- An interpreter that does not round. -/
def exactPython : Python where
  tables := .ascii
  digits := digitTables_ascii
  nearest := .number
  tooDeep _ := false

/-- `Scores for 2 headlines: [0.5, -0.3]`. -/
def countedReply : Reply where
  before := "Scores for 2 headlines: ".toList
  gap := []
  entries :=
    [⟨[], "0.5".toList, [], by decide +kernel, nofun⟩,
      ⟨" ".toList, "-0.3".toList, [], by decide +kernel, by decide +kernel⟩]
  after := []
  blank := nofun
  prose := by decide +kernel

/-- The count in the prose is taken for the first score. -/
theorem countedReply_displaced :
    parseScores exactPython "Scores for 2 headlines: [0.5, -0.3]".toList 2 =
        .ok [.number 1, .number (1 / 2)] ∧
      countedReply.text = "Scores for 2 headlines: [0.5, -0.3]".toList ∧
      ¬ ∀ (py : Python) (r : Reply),
        parseScores py r.text r.entries.length = .ok (r.entries.map (Entry.score py)) := by
  have hRun : parseScores exactPython "Scores for 2 headlines: [0.5, -0.3]".toList 2 =
      .ok [.number 1, .number (1 / 2)] := by decide +kernel
  have hText : countedReply.text = "Scores for 2 headlines: [0.5, -0.3]".toList := by decide +kernel
  refine ⟨hRun, hText, fun h => ?_⟩
  have hClaim := h exactPython countedReply
  rw [hText] at hClaim
  exact absurd (hRun.symm.trans hClaim) (by decide +kernel)

end AsetPlatform.Jobs.ParseScores

import AsetPlatform.Library.JsonScanner
import AsetPlatform.Library.TrailingMarks
import Mathlib.Algebra.Order.BigOperators.Group.List
import Mathlib.Algebra.Order.Group.Nat
import Mathlib.Data.List.Pairwise
import Mathlib.Data.List.Sort
import Mathlib.Algebra.GroupWithZero.Nat
import Mathlib.Data.List.Lex

/-!
# Parsing JSON

The tokens of a text are read by recursive descent, with fuel for the calls. `parseValue_write` and
`parseValue_sound` say that the parser inverts `Doc.write`, so a text has at most one document.

The value of a document forgets how its strings are written. Of several members of an object with
one name the last one counts, and objects list their members by name. Numbers are read by a function
that is a parameter.
-/

set_option autoImplicit false

namespace AsetPlatform.Library.JsonText

universe u

/-! ## Documents -/

def areDigits (w : List Char) : Bool := !w.isEmpty && w.all Char.isDigit

/-- An exponent, or nothing. -/
def isExponent : List Char → Bool
  | [] => true
  | e :: w =>
      (e = 'e' || e = 'E') && areDigits (if w.head? = some '+' ∨ w.head? = some '-' then w.tail else w)

/-- A fraction and an exponent, each of which may be missing. -/
def isFraction : List Char → Bool
  | '.' :: w => areDigits (w.takeWhile Char.isDigit) && isExponent (w.dropWhile Char.isDigit)
  | w => isExponent w

def isUnsigned (w : List Char) : Bool :=
  let whole := w.takeWhile Char.isDigit
  areDigits whole && (whole.head? ≠ some '0' || whole.length = 1) &&
    isFraction (w.dropWhile Char.isDigit)

def isNumber : List Char → Bool
  | '-' :: w => isUnsigned w
  | w => isUnsigned w

local instance lawfulTexts : LawfulBEq (List Char) := inferInstance

/-- The words that are values. Besides the numbers of JSON these are the three that stand for floats
without a decimal text. -/
def isLiteral (w : List Char) : Bool :=
  w ∈ ["null".toList, "true".toList, "false".toList, "NaN".toList, "Infinity".toList,
    "-Infinity".toList] || isNumber w

abbrev Literal := { w : List Char // isLiteral w = true }

inductive Doc where
  | word (w : Literal)
  | str (ps : List Piece)
  | arr (ds : List Doc)
  | obj (ms : List (List Piece × Doc))

mutual

/-- The tokens of a document, with others behind them. -/
def Doc.write : Doc → List Token → List Token
  | .word w, ts => .word w.1 :: ts
  | .str ps, ts => .str ps :: ts
  | .arr [], ts => .openArr :: .closeArr :: ts
  | .arr (d :: ds), ts => .openArr :: d.write (moreItems ds ts)
  | .obj [], ts => .openObj :: .closeObj :: ts
  | .obj ((k, d) :: ms), ts => .openObj :: .str k :: .colon :: d.write (moreMembers ms ts)

/-- The items behind the first one. -/
def moreItems : List Doc → List Token → List Token
  | [], ts => .closeArr :: ts
  | d :: ds, ts => .comma :: d.write (moreItems ds ts)

/-- The members behind the first one. -/
def moreMembers : List (List Piece × Doc) → List Token → List Token
  | [], ts => .closeObj :: ts
  | (k, d) :: ms, ts => .comma :: .str k :: .colon :: d.write (moreMembers ms ts)

end

/-! ## The parser -/

mutual

def parseValue : Nat → List Token → Option (Doc × List Token)
  | _ + 1, .word w :: ts => if h : isLiteral w = true then some (.word ⟨w, h⟩, ts) else none
  | _ + 1, .str ps :: ts => some (.str ps, ts)
  | n + 1, .openArr :: ts =>
      match ts with
      | .closeArr :: rest => some (.arr [], rest)
      | ts => (parseItems n ts).map fun r => (.arr r.1, r.2)
  | n + 1, .openObj :: ts =>
      match ts with
      | .closeObj :: rest => some (.obj [], rest)
      | ts => (parseMembers n ts).map fun r => (.obj r.1, r.2)
  | _, _ => none

/-- The items of an array up to its end. -/
def parseItems : Nat → List Token → Option (List Doc × List Token)
  | n + 1, ts =>
      (parseValue n ts).bind fun r =>
        match r.2 with
        | .comma :: rest => (parseItems n rest).map fun q => (r.1 :: q.1, q.2)
        | .closeArr :: rest => some ([r.1], rest)
        | _ => none
  | _, _ => none

/-- The members of an object up to its end. -/
def parseMembers : Nat → List Token → Option (List (List Piece × Doc) × List Token)
  | n + 1, .str k :: .colon :: ts =>
      (parseValue n ts).bind fun r =>
        match r.2 with
        | .comma :: rest => (parseMembers n rest).map fun q => ((k, r.1) :: q.1, q.2)
        | .closeObj :: rest => some ([(k, r.1)], rest)
        | _ => none
  | _, _ => none

end

/-- The document of the tokens of a whole text. -/
def parse (ts : List Token) : Option Doc :=
  match parseValue (2 * ts.length) ts with
  | some (d, []) => some d
  | _ => none

section Parser

variable {n : Nat} {ts rest : List Token} {d : Doc} {ds : List Doc} {ms : List (List Piece × Doc)}

theorem parseValue_cases (h : parseValue (n + 1) ts = some (d, rest)) :
    (∃ w, d = .word w ∧ ts = .word w.1 :: rest) ∨ (∃ ps, d = .str ps ∧ ts = .str ps :: rest) ∨
      (d = .arr [] ∧ ts = .openArr :: .closeArr :: rest) ∨
      (∃ ds more, d = .arr ds ∧ ts = .openArr :: more ∧ parseItems n more = some (ds, rest)) ∨
      (d = .obj [] ∧ ts = .openObj :: .closeObj :: rest) ∨
      ∃ ms more, d = .obj ms ∧ ts = .openObj :: more ∧ parseMembers n more = some (ms, rest) := by
  cases ts with
  | nil => cases h
  | cons t ts =>
      cases t with
      | word w =>
          rw [parseValue] at h
          split_ifs at h with hw
          cases h
          exact .inl ⟨⟨w, hw⟩, rfl, rfl⟩
      | str ps =>
          cases h
          exact .inr (.inl ⟨ps, rfl, rfl⟩)
      | openArr =>
          rw [parseValue.eq_def] at h
          dsimp only at h
          split at h
          · cases h
            exact .inr (.inr (.inl ⟨rfl, rfl⟩))
          · obtain ⟨r, hr, hOut⟩ := Option.map_eq_some_iff.mp h
            cases hOut
            exact .inr (.inr (.inr (.inl ⟨r.1, _, rfl, rfl, hr⟩)))
      | openObj =>
          rw [parseValue.eq_def] at h
          dsimp only at h
          split at h
          · cases h
            exact .inr (.inr (.inr (.inr (.inl ⟨rfl, rfl⟩))))
          · obtain ⟨r, hr, hOut⟩ := Option.map_eq_some_iff.mp h
            cases hOut
            exact .inr (.inr (.inr (.inr (.inr ⟨r.1, _, rfl, rfl, hr⟩))))
      | closeArr => cases h
      | closeObj => cases h
      | colon => cases h
      | comma => cases h

theorem parseItems_cases (h : parseItems (n + 1) ts = some (ds, rest)) :
    ∃ d behind, parseValue n ts = some (d, behind) ∧
      ((ds = [d] ∧ behind = .closeArr :: rest) ∨
        ∃ more ds', ds = d :: ds' ∧ behind = .comma :: more ∧ parseItems n more = some (ds', rest)) := by
  rw [parseItems] at h
  obtain ⟨⟨d, behind⟩, hValue, h⟩ := Option.bind_eq_some_iff.mp h
  refine ⟨d, behind, hValue, ?_⟩
  split at h
  · rename_i more hBehind
    obtain ⟨r, hr, hOut⟩ := Option.map_eq_some_iff.mp h
    cases hOut
    exact .inr ⟨more, r.1, rfl, hBehind, hr⟩
  · rename_i hBehind
    cases h
    exact .inl ⟨rfl, hBehind⟩
  · cases h

theorem parseMembers_cases (h : parseMembers (n + 1) ts = some (ms, rest)) :
    ∃ k first d behind, ts = .str k :: .colon :: first ∧ parseValue n first = some (d, behind) ∧
      ((ms = [(k, d)] ∧ behind = .closeObj :: rest) ∨
        ∃ more ms', ms = (k, d) :: ms' ∧ behind = .comma :: more ∧
          parseMembers n more = some (ms', rest)) := by
  rw [parseMembers.eq_def] at h
  split at h
  · rename_i k first hts
    cases hts
    obtain ⟨⟨d, behind⟩, hValue, h⟩ := Option.bind_eq_some_iff.mp h
    refine ⟨k, first, d, behind, rfl, hValue, ?_⟩
    split at h
    · rename_i more hBehind
      obtain ⟨r, hr, hOut⟩ := Option.map_eq_some_iff.mp h
      cases hOut
      exact .inr ⟨more, r.1, rfl, hBehind, hr⟩
    · rename_i hBehind
      cases h
      exact .inl ⟨rfl, hBehind⟩
    · cases h
  · cases h

/-- What the parser takes is the document that it returns, written out. -/
theorem parse_sound (n : Nat) :
    (∀ ts d rest, parseValue n ts = some (d, rest) → ts = d.write rest) ∧
      (∀ ts ds rest, parseItems n ts = some (ds, rest) →
        ∃ d more, ds = d :: more ∧ ts = d.write (moreItems more rest)) ∧
      ∀ ts ms rest, parseMembers n ts = some (ms, rest) →
        ∃ k d more, ms = (k, d) :: more ∧
          ts = .str k :: .colon :: d.write (moreMembers more rest) := by
  induction n with
  | zero => refine ⟨?_, ?_, ?_⟩ <;> (intro ts out rest h; cases h)
  | succ n ih =>
      obtain ⟨ihValue, ihItems, ihMembers⟩ := ih
      refine ⟨fun ts d rest h => ?_, fun ts ds rest h => ?_, fun ts ms rest h => ?_⟩
      · obtain ⟨w, rfl, rfl⟩ | ⟨ps, rfl, rfl⟩ | ⟨rfl, rfl⟩ | ⟨ds, more, rfl, rfl, hItems⟩ | ⟨rfl, rfl⟩ |
          ⟨ms, more, rfl, rfl, hMembers⟩ := parseValue_cases h
        · rw [Doc.write]
        · rw [Doc.write]
        · rw [Doc.write]
        · obtain ⟨d, ds, rfl, rfl⟩ := ihItems _ _ _ hItems
          rw [Doc.write]
        · rw [Doc.write]
        · obtain ⟨k, d, ms, rfl, rfl⟩ := ihMembers _ _ _ hMembers
          rw [Doc.write]
      · obtain ⟨d, behind, hValue, ⟨rfl, rfl⟩ | ⟨more, ds, rfl, rfl, hMore⟩⟩ := parseItems_cases h
        · exact ⟨d, [], rfl, ihValue _ _ _ hValue⟩
        · obtain ⟨d', ds, rfl, rfl⟩ := ihItems _ _ _ hMore
          exact ⟨d, d' :: ds, rfl, ihValue _ _ _ hValue⟩
      · obtain ⟨k, first, d, behind, rfl, hValue, ⟨rfl, rfl⟩ | ⟨more, ms, rfl, rfl, hMore⟩⟩ :=
          parseMembers_cases h
        · exact ⟨k, d, [], rfl, by rw [ihValue _ _ _ hValue, moreMembers]⟩
        · obtain ⟨k', d', ms, rfl, rfl⟩ := ihMembers _ _ _ hMore
          exact ⟨k, d, (k', d') :: ms, rfl, by rw [ihValue _ _ _ hValue, moreMembers]⟩

end Parser

mutual

theorem Doc.length_write : ∀ (d : Doc) (ts : List Token), ts.length < (d.write ts).length
  | .word w, ts => by rw [Doc.write]; exact Nat.lt_succ_self _
  | .str ps, ts => by rw [Doc.write]; exact Nat.lt_succ_self _
  | .arr [], ts => by rw [Doc.write]; exact (Nat.lt_succ_self _).trans (Nat.lt_succ_self _)
  | .arr (d :: ds), ts => by
      have hFirst := d.length_write (moreItems ds ts)
      have hMore := length_moreItems ds ts
      rw [Doc.write, List.length_cons]
      omega
  | .obj [], ts => by rw [Doc.write]; exact (Nat.lt_succ_self _).trans (Nat.lt_succ_self _)
  | .obj ((k, d) :: ms), ts => by
      have hFirst := d.length_write (moreMembers ms ts)
      have hMore := length_moreMembers ms ts
      rw [Doc.write, List.length_cons, List.length_cons, List.length_cons]
      omega

theorem length_moreItems : ∀ (ds : List Doc) (ts : List Token),
    ts.length < (moreItems ds ts).length
  | [], ts => by rw [moreItems]; exact Nat.lt_succ_self _
  | d :: ds, ts => by
      have hFirst := d.length_write (moreItems ds ts)
      have hMore := length_moreItems ds ts
      rw [moreItems, List.length_cons]
      omega

theorem length_moreMembers : ∀ (ms : List (List Piece × Doc)) (ts : List Token),
    ts.length < (moreMembers ms ts).length
  | [], ts => by rw [moreMembers]; exact Nat.lt_succ_self _
  | (k, d) :: ms, ts => by
      have hFirst := d.length_write (moreMembers ms ts)
      have hMore := length_moreMembers ms ts
      rw [moreMembers, List.length_cons, List.length_cons, List.length_cons]
      omega

end

mutual

theorem Doc.exists_write : ∀ (d : Doc) (ts : List Token), ∃ us, d.write ts = us ++ ts
  | .word w, ts => ⟨[.word w.1], by rw [Doc.write]; rfl⟩
  | .str ps, ts => ⟨[.str ps], by rw [Doc.write]; rfl⟩
  | .arr [], ts => ⟨[.openArr, .closeArr], by rw [Doc.write]; rfl⟩
  | .arr (d :: ds), ts => by
      obtain ⟨us, hus⟩ := exists_moreItems ds ts
      obtain ⟨vs, hvs⟩ := d.exists_write (moreItems ds ts)
      exact ⟨.openArr :: (vs ++ us), by rw [Doc.write, hvs, hus, List.cons_append, List.append_assoc]⟩
  | .obj [], ts => ⟨[.openObj, .closeObj], by rw [Doc.write]; rfl⟩
  | .obj ((k, d) :: ms), ts => by
      obtain ⟨us, hus⟩ := exists_moreMembers ms ts
      obtain ⟨vs, hvs⟩ := d.exists_write (moreMembers ms ts)
      exact ⟨.openObj :: .str k :: .colon :: (vs ++ us), by
        rw [Doc.write, hvs, hus, List.cons_append, List.cons_append, List.cons_append,
          List.append_assoc]⟩

theorem exists_moreItems : ∀ (ds : List Doc) (ts : List Token), ∃ us, moreItems ds ts = us ++ ts
  | [], ts => ⟨[.closeArr], by rw [moreItems]; rfl⟩
  | d :: ds, ts => by
      obtain ⟨us, hus⟩ := exists_moreItems ds ts
      obtain ⟨vs, hvs⟩ := d.exists_write (moreItems ds ts)
      exact ⟨.comma :: (vs ++ us), by rw [moreItems, hvs, hus, List.cons_append, List.append_assoc]⟩

theorem exists_moreMembers : ∀ (ms : List (List Piece × Doc)) (ts : List Token),
    ∃ us, moreMembers ms ts = us ++ ts
  | [], ts => ⟨[.closeObj], by rw [moreMembers]; rfl⟩
  | (k, d) :: ms, ts => by
      obtain ⟨us, hus⟩ := exists_moreMembers ms ts
      obtain ⟨vs, hvs⟩ := d.exists_write (moreMembers ms ts)
      exact ⟨.comma :: .str k :: .colon :: (vs ++ us), by
        rw [moreMembers, hvs, hus, List.cons_append, List.cons_append, List.cons_append,
          List.append_assoc]⟩

end

/-- The end of an array or an object. -/
def Token.closes : Token → Bool
  | .closeArr => true
  | .closeObj => true
  | _ => false

theorem Doc.not_closes_write (d : Doc) (ts : List Token) :
    (d.write ts).head?.any Token.closes = false := by
  cases d with
  | word w => rw [Doc.write]; rfl
  | str ps => rw [Doc.write]; rfl
  | arr ds => cases ds <;> (rw [Doc.write]; rfl)
  | obj ms => cases ms <;> (rw [Doc.write]; rfl)

/-- A comma right before the end of an array or an object. -/
def TrailingComma (ts : List Token) : Prop :=
  HasTrailing (· == .comma) (fun _ => false) Token.closes ts

theorem trailingComma_cons_iff {t : Token} {ts : List Token} : TrailingComma (t :: ts) ↔
    (t = .comma ∧ ts.head?.any Token.closes = true) ∨ TrailingComma ts := by
  have hNext : closesNext (fun _ => false) Token.closes ts = ts.head?.any Token.closes := by
    rw [closesNext]
    cases ts <;> rfl
  rw [TrailingComma, hasTrailing_cons_iff (fun _ _ => rfl), hNext, beq_iff_eq, TrailingComma]

mutual

theorem Doc.not_trailingComma_write : ∀ (d : Doc) (ts : List Token), ¬ TrailingComma ts →
    ¬ TrailingComma (d.write ts)
  | .word w, ts, h => by
      rw [Doc.write, trailingComma_cons_iff, not_or]
      exact ⟨nofun, h⟩
  | .str ps, ts, h => by
      rw [Doc.write, trailingComma_cons_iff, not_or]
      exact ⟨nofun, h⟩
  | .arr [], ts, h => by
      rw [Doc.write, trailingComma_cons_iff, trailingComma_cons_iff, not_or, not_or]
      exact ⟨nofun, nofun, h⟩
  | .arr (d :: ds), ts, h => by
      rw [Doc.write, trailingComma_cons_iff, not_or]
      exact ⟨nofun, d.not_trailingComma_write _ (not_trailingComma_moreItems ds ts h)⟩
  | .obj [], ts, h => by
      rw [Doc.write, trailingComma_cons_iff, trailingComma_cons_iff, not_or, not_or]
      exact ⟨nofun, nofun, h⟩
  | .obj ((k, d) :: ms), ts, h => by
      rw [Doc.write]
      simp only [trailingComma_cons_iff, not_or]
      exact ⟨nofun, nofun, nofun, d.not_trailingComma_write _ (not_trailingComma_moreMembers ms ts h)⟩

theorem not_trailingComma_moreItems : ∀ (ds : List Doc) (ts : List Token), ¬ TrailingComma ts →
    ¬ TrailingComma (moreItems ds ts)
  | [], ts, h => by
      rw [moreItems, trailingComma_cons_iff, not_or]
      exact ⟨nofun, h⟩
  | d :: ds, ts, h => by
      rw [moreItems, trailingComma_cons_iff, not_or]
      refine ⟨fun hClose => ?_, d.not_trailingComma_write _ (not_trailingComma_moreItems ds ts h)⟩
      rw [d.not_closes_write] at hClose
      exact Bool.false_ne_true hClose.2

theorem not_trailingComma_moreMembers : ∀ (ms : List (List Piece × Doc)) (ts : List Token),
    ¬ TrailingComma ts → ¬ TrailingComma (moreMembers ms ts)
  | [], ts, h => by
      rw [moreMembers, trailingComma_cons_iff, not_or]
      exact ⟨nofun, h⟩
  | (k, d) :: ms, ts, h => by
      rw [moreMembers]
      simp only [trailingComma_cons_iff, not_or]
      exact ⟨nofun, nofun, nofun, d.not_trailingComma_write _ (not_trailingComma_moreMembers ms ts h)⟩

end

/-- The parser reads the document back, with two calls for each token. -/
def Doc.ReadBack (d : Doc) : Prop :=
  ∀ n ts, 2 * (d.write ts).length ≤ n + 2 * ts.length → parseValue n (d.write ts) = some (d, ts)

theorem exists_fuel {a b n : Nat} (h : 2 * a ≤ n + 2 * b) (hLength : b < a) : ∃ k, n = k + 1 :=
  ⟨n - 1, by omega⟩

mutual

theorem Doc.readBack : ∀ d : Doc, d.ReadBack
  | .word w, n, ts, h => by
      obtain ⟨n, rfl⟩ := exists_fuel h (Doc.length_write _ ts)
      rw [Doc.write, parseValue, dif_pos w.2]
  | .str ps, n, ts, h => by
      obtain ⟨n, rfl⟩ := exists_fuel h (Doc.length_write _ ts)
      rw [Doc.write, parseValue]
  | .arr [], n, ts, h => by
      obtain ⟨n, rfl⟩ := exists_fuel h (Doc.length_write _ ts)
      rw [Doc.write, parseValue]
  | .arr (d :: ds), n, ts, h => by
      obtain ⟨n, rfl⟩ := exists_fuel h (Doc.length_write _ ts)
      rw [Doc.write, List.length_cons] at h
      rw [Doc.write, parseValue, parseItems_write ds d d.readBack n ts (by omega)]
      · rfl
      · intro rest hStart
        have hClose := d.not_closes_write (moreItems ds ts)
        rw [hStart] at hClose
        cases hClose
  | .obj [], n, ts, h => by
      obtain ⟨n, rfl⟩ := exists_fuel h (Doc.length_write _ ts)
      rw [Doc.write, parseValue]
  | .obj ((k, d) :: ms), n, ts, h => by
      obtain ⟨n, rfl⟩ := exists_fuel h (Doc.length_write _ ts)
      rw [Doc.write] at h
      simp only [List.length_cons] at h
      rw [Doc.write, parseValue, parseMembers_write ms k d d.readBack n ts (by omega)]
      · rfl
      · exact fun rest => nofun

theorem parseItems_write : ∀ (ds : List Doc) (d : Doc), d.ReadBack → ∀ n ts,
    2 * (d.write (moreItems ds ts)).length + 1 ≤ n + 2 * ts.length →
      parseItems n (d.write (moreItems ds ts)) = some (d :: ds, ts)
  | [], d, hd, n, ts, h => by
      have hLength := d.length_write (moreItems [] ts)
      rw [moreItems] at h hLength ⊢
      obtain ⟨n, rfl⟩ : ∃ k, n = k + 1 := ⟨n - 1, by rw [List.length_cons] at hLength; omega⟩
      rw [parseItems, hd n _ (by rw [List.length_cons]; omega)]
      rfl
  | d' :: ds, d, hd, n, ts, h => by
      have hLength := d.length_write (moreItems (d' :: ds) ts)
      rw [moreItems] at h hLength ⊢
      have hMore := d'.length_write (moreItems ds ts)
      have hLast := length_moreItems ds ts
      rw [List.length_cons] at hLength
      obtain ⟨n, rfl⟩ : ∃ k, n = k + 1 := ⟨n - 1, by omega⟩
      rw [parseItems, hd n _ (by rw [List.length_cons]; omega), Option.bind_some]
      show (parseItems n _).map _ = _
      rw [parseItems_write ds d' d'.readBack n ts (by omega)]
      rfl

theorem parseMembers_write : ∀ (ms : List (List Piece × Doc)) (k : List Piece) (d : Doc), d.ReadBack →
    ∀ n ts, 2 * (d.write (moreMembers ms ts)).length + 1 ≤ n + 2 * ts.length →
      parseMembers n (.str k :: .colon :: d.write (moreMembers ms ts)) = some ((k, d) :: ms, ts)
  | [], k, d, hd, n, ts, h => by
      have hLength := d.length_write (moreMembers [] ts)
      rw [moreMembers] at h hLength ⊢
      obtain ⟨n, rfl⟩ : ∃ k, n = k + 1 := ⟨n - 1, by rw [List.length_cons] at hLength; omega⟩
      rw [parseMembers, hd n _ (by rw [List.length_cons]; omega)]
      rfl
  | (k', d') :: ms, k, d, hd, n, ts, h => by
      have hLength := d.length_write (moreMembers ((k', d') :: ms) ts)
      rw [moreMembers] at h hLength ⊢
      have hMore := d'.length_write (moreMembers ms ts)
      have hLast := length_moreMembers ms ts
      simp only [List.length_cons] at hLength
      obtain ⟨n, rfl⟩ : ∃ k, n = k + 1 := ⟨n - 1, by omega⟩
      rw [parseMembers, hd n _ (by simp only [List.length_cons]; omega), Option.bind_some]
      show (parseMembers n _).map _ = _
      rw [parseMembers_write ms k' d' d'.readBack n ts (by omega)]
      rfl

end

theorem parse_eq_some_iff {ts : List Token} {d : Doc} : parse ts = some d ↔ ts = d.write [] := by
  constructor
  · intro h
    rw [parse] at h
    split at h
    · rename_i hValue
      cases h
      exact (parse_sound _).1 _ _ _ hValue
    · cases h
  · rintro rfl
    have hValue := d.readBack (2 * (d.write []).length) [] (Nat.le_refl _)
    rw [parse, hValue]

/-! ## Values -/

/-- Two escapes for the halves of a code make that code. -/
def joinPairs : List Nat → List Nat
  | high :: low :: cs =>
      if 0xD800 ≤ high ∧ high < 0xDC00 ∧ 0xDC00 ≤ low ∧ low < 0xE000 then
        (0x10000 + (high - 0xD800) * 0x400 + (low - 0xDC00)) :: joinPairs cs
      else high :: joinPairs (low :: cs)
  | cs => cs

/-- The codes of a string. -/
def codes (ps : List Piece) : List Nat := joinPairs (ps.map Piece.code)

inductive Value (ν : Type u) where
  | null
  | bool (b : Bool)
  | num (x : ν)
  | str (cs : List Nat)
  | arr (vs : List (Value ν))
  | obj (ms : List (List Nat × Value ν))

/-- The members of an object: the last one of each name, by name. -/
def membersOf {β : Type u} (ms : List (List Nat × β)) : List (List Nat × β) :=
  (ms.pwFilter fun a b => a.1 ≠ b.1).insertionSort fun a b => a.1 ≤ b.1

section Values

variable {ν : Type u} (number : List Char → ν)

def wordValue (w : List Char) : Value ν :=
  if w = "null".toList then .null
  else if w = "true".toList then .bool true
  else if w = "false".toList then .bool false
  else .num (number w)

mutual

/-- The value that a document denotes. -/
def Doc.value : Doc → Value ν
  | .word w => wordValue number w.1
  | .str ps => .str (codes ps)
  | .arr ds => .arr (itemValues ds)
  | .obj ms => .obj (membersOf (memberValues ms))

def itemValues : List Doc → List (Value ν)
  | [] => []
  | d :: ds => d.value :: itemValues ds

def memberValues : List (List Piece × Doc) → List (List Nat × Value ν)
  | [] => []
  | (k, d) :: ms => (codes k, d.value) :: memberValues ms

end

/-- Parsing a text. -/
def loads (s : List Char) : Option (Value ν) :=
  ((scan .gap s).bind parse).map fun d => d.value number

end Values

mutual

/-- No object of the document has two members with one name. -/
def Doc.UniqueNames : Doc → Prop
  | .word _ => True
  | .str _ => True
  | .arr ds => ItemsUnique ds
  | .obj ms => (ms.map fun m => codes m.1).Nodup ∧ MembersUnique ms

def ItemsUnique : List Doc → Prop
  | [] => True
  | d :: ds => d.UniqueNames ∧ ItemsUnique ds

def MembersUnique : List (List Piece × Doc) → Prop
  | [] => True
  | (_, d) :: ms => d.UniqueNames ∧ MembersUnique ms

end

/-! ## Commas

A text has the commas of its strings and those between the items and members. The value of the text
says how many there are, unless a name repeats. -/

def commaCode : Nat := 44

def Token.commas : Token → Nat
  | .comma => 1
  | .str ps => (codes ps).count commaCode
  | .word _ => 0
  | .openArr => 0
  | .closeArr => 0
  | .openObj => 0
  | .closeObj => 0
  | .colon => 0

def commas (ts : List Token) : Nat := (ts.map Token.commas).sum

mutual

def Value.commas {ν : Type u} : Value ν → Nat
  | .null => 0
  | .bool _ => 0
  | .num _ => 0
  | .str cs => cs.count commaCode
  | .arr vs => vs.length - 1 + itemCommas vs
  | .obj ms => ms.length - 1 + memberCommas ms

def itemCommas {ν : Type u} : List (Value ν) → Nat
  | [] => 0
  | v :: vs => v.commas + itemCommas vs

def memberCommas {ν : Type u} : List (List Nat × Value ν) → Nat
  | [] => 0
  | (k, v) :: ms => k.count commaCode + v.commas + memberCommas ms

end

@[simp] theorem commas_nil : commas [] = 0 := rfl

@[simp] theorem commas_cons (t : Token) (ts : List Token) :
    commas (t :: ts) = t.commas + commas ts := List.sum_cons

@[simp] theorem commas_append (ts us : List Token) : commas (ts ++ us) = commas ts + commas us := by
  rw [commas, List.map_append, List.sum_append, commas, commas]

theorem count_joinPairs (cs : List Nat) :
    (joinPairs cs).count commaCode = cs.count commaCode := by
  induction cs using joinPairs.induct with
  | case1 high low cs hPair ih =>
      have hJoined : 0x10000 + (high - 0xD800) * 0x400 + (low - 0xDC00) ≠ commaCode := by
        rw [commaCode]
        omega
      have hHigh : high ≠ commaCode := by
        rw [commaCode]
        omega
      have hLow : low ≠ commaCode := by
        rw [commaCode]
        omega
      rw [joinPairs, if_pos hPair, List.count_cons_of_ne hJoined, ih, List.count_cons_of_ne hHigh,
        List.count_cons_of_ne hLow]
  | case2 high low cs hPair ih =>
      rw [joinPairs, if_neg hPair, List.count_cons, ih]
      exact List.count_cons.symm
  | case3 cs hShort =>
      rw [joinPairs]
      exact hShort

theorem count_codes (ps : List Piece) :
    (codes ps).count commaCode = ps.countP fun p => p.code = commaCode := by
  rw [codes, count_joinPairs, List.count, List.countP_map]
  rfl

section Members

variable {ν : Type u} {ms ms' : List (List Nat × Value ν)}

theorem memberCommas_eq_sum (ms : List (List Nat × Value ν)) :
    memberCommas ms = (ms.map fun m => m.1.count commaCode + m.2.commas).sum := by
  induction ms with
  | nil => rfl
  | cons m ms ih => rw [memberCommas, ih, List.map_cons, List.sum_cons]

theorem membersOf_sublist (ms : List (List Nat × Value ν)) :
    ∃ kept, kept.Sublist ms ∧ (membersOf ms).Perm kept :=
  ⟨_, List.pwFilter_sublist ms, List.perm_insertionSort _ _⟩

theorem memberCommas_membersOf_le (ms : List (List Nat × Value ν)) :
    memberCommas (membersOf ms) ≤ memberCommas ms := by
  obtain ⟨kept, hSub, hPerm⟩ := membersOf_sublist ms
  rw [memberCommas_eq_sum, memberCommas_eq_sum, (hPerm.map _).sum_eq]
  exact (hSub.map _).sum_le_sum fun _ _ => Nat.zero_le _

theorem length_membersOf_le (ms : List (List Nat × Value ν)) :
    (membersOf ms).length ≤ ms.length := by
  obtain ⟨kept, hSub, hPerm⟩ := membersOf_sublist ms
  exact hPerm.length_eq.trans_le hSub.length_le

theorem membersOf_perm (h : (ms.map Prod.fst).Nodup) : (membersOf ms).Perm ms := by
  have hAll : ms.pwFilter (fun a b => a.1 ≠ b.1) = ms :=
    List.pwFilter_eq_self.mpr (List.pairwise_map.mp h)
  rw [membersOf, hAll]
  exact List.perm_insertionSort _ _

theorem memberCommas_membersOf (h : (ms.map Prod.fst).Nodup) :
    memberCommas (membersOf ms) = memberCommas ms := by
  rw [memberCommas_eq_sum, memberCommas_eq_sum, ((membersOf_perm h).map _).sum_eq]

end Members

section Commas

variable {ν : Type u} (number : List Char → ν)

theorem length_itemValues (ds : List Doc) : (itemValues number ds).length = ds.length := by
  induction ds with
  | nil => rfl
  | cons d ds ih => rw [itemValues, List.length_cons, List.length_cons, ih]

theorem length_memberValues (ms : List (List Piece × Doc)) :
    (memberValues number ms).length = ms.length := by
  induction ms with
  | nil => rfl
  | cons m ms ih =>
      obtain ⟨k, d⟩ := m
      rw [memberValues, List.length_cons, List.length_cons, ih]

theorem map_fst_memberValues (ms : List (List Piece × Doc)) :
    (memberValues number ms).map Prod.fst = ms.map fun m => codes m.1 := by
  induction ms with
  | nil => rfl
  | cons m ms ih =>
      obtain ⟨k, d⟩ := m
      rw [memberValues, List.map_cons, List.map_cons, ih]

@[simp] theorem commas_wordValue (w : List Char) : (wordValue number w).commas = 0 := by
  rw [wordValue]
  split_ifs <;> rw [Value.commas]

mutual

/-- A value shows at most the commas of its text, and all of them if no name repeats. -/
theorem Doc.commas_value : ∀ (d : Doc) (ts : List Token),
    (d.value number).commas + commas ts ≤ commas (d.write ts) ∧
      (d.UniqueNames → (d.value number).commas + commas ts = commas (d.write ts))
  | .word w, ts => by
      have hSame : ((Doc.word w).value number).commas + commas ts = commas ((Doc.word w).write ts) := by
        rw [Doc.value, Doc.write, commas_wordValue, commas_cons, Token.commas]
      exact ⟨hSame.le, fun _ => hSame⟩
  | .str ps, ts => by
      have hSame : ((Doc.str ps).value number).commas + commas ts = commas ((Doc.str ps).write ts) := by
        rw [Doc.value, Doc.write, Value.commas, commas_cons, Token.commas]
      exact ⟨hSame.le, fun _ => hSame⟩
  | .arr [], ts => by
      have hSame : ((Doc.arr []).value number).commas + commas ts = commas ((Doc.arr []).write ts) := by
        rw [Doc.value, Doc.write, itemValues, Value.commas, itemCommas, commas_cons, commas_cons]
        show 0 - 1 + 0 + commas ts = 0 + (0 + commas ts)
        omega
      exact ⟨hSame.le, fun _ => hSame⟩
  | .arr (d :: ds), ts => by
      obtain ⟨hFirst, hFirstSame⟩ := d.commas_value (moreItems ds ts)
      obtain ⟨hMore, hMoreSame⟩ := itemCommas_itemValues ds ts
      rw [Doc.value, Doc.write, itemValues, Value.commas, itemCommas, List.length_cons,
        length_itemValues, commas_cons, Token.commas, Doc.UniqueNames, ItemsUnique]
      refine ⟨by omega, fun ⟨hUnique, hRest⟩ => ?_⟩
      have := hFirstSame hUnique
      have := hMoreSame hRest
      omega
  | .obj [], ts => by
      have hSame : ((Doc.obj []).value number).commas + commas ts = commas ((Doc.obj []).write ts) := by
        rw [Doc.value, Doc.write, memberValues, Value.commas, commas_cons, commas_cons]
        show 0 - 1 + 0 + commas ts = 0 + (0 + commas ts)
        omega
      exact ⟨hSame.le, fun _ => hSame⟩
  | .obj ((k, d) :: ms), ts => by
      obtain ⟨hFirst, hFirstSame⟩ := d.commas_value (moreMembers ms ts)
      obtain ⟨hMore, hMoreSame⟩ := memberCommas_memberValues ms ts
      have hKept := memberCommas_membersOf_le (memberValues number ((k, d) :: ms))
      have hLength := length_membersOf_le (memberValues number ((k, d) :: ms))
      rw [length_memberValues, List.length_cons] at hLength
      have hAll := @memberCommas_membersOf _ (memberValues number ((k, d) :: ms))
      have hAllLength := fun h => (@membersOf_perm _ (memberValues number ((k, d) :: ms)) h).length_eq
      rw [map_fst_memberValues] at hAll hAllLength
      rw [length_memberValues, List.length_cons] at hAllLength
      rw [memberValues, memberCommas] at hKept hAll
      rw [memberValues] at hLength hAllLength
      rw [Doc.value, Doc.write, memberValues, Value.commas, Doc.UniqueNames, MembersUnique]
      simp only [commas_cons, Token.commas]
      refine ⟨by omega, fun ⟨hNames, hUnique, hRest⟩ => ?_⟩
      have := hFirstSame hUnique
      have := hMoreSame hRest
      have := hAll hNames
      have := hAllLength hNames
      omega

theorem itemCommas_itemValues : ∀ (ds : List Doc) (ts : List Token),
    ds.length + itemCommas (itemValues number ds) + commas ts ≤ commas (moreItems ds ts) ∧
      (ItemsUnique ds →
        ds.length + itemCommas (itemValues number ds) + commas ts = commas (moreItems ds ts))
  | [], ts => by
      have hSame : ([] : List Doc).length + itemCommas (itemValues number []) + commas ts =
          commas (moreItems [] ts) := by
        rw [moreItems, itemValues, itemCommas, commas_cons, Token.commas]
        rfl
      exact ⟨hSame.le, fun _ => hSame⟩
  | d :: ds, ts => by
      obtain ⟨hFirst, hFirstSame⟩ := d.commas_value (moreItems ds ts)
      obtain ⟨hMore, hMoreSame⟩ := itemCommas_itemValues ds ts
      rw [moreItems, itemValues, itemCommas, List.length_cons, commas_cons, Token.commas,
        ItemsUnique]
      refine ⟨by omega, fun ⟨hUnique, hRest⟩ => ?_⟩
      have := hFirstSame hUnique
      have := hMoreSame hRest
      omega

theorem memberCommas_memberValues : ∀ (ms : List (List Piece × Doc)) (ts : List Token),
    ms.length + memberCommas (memberValues number ms) + commas ts ≤ commas (moreMembers ms ts) ∧
      (MembersUnique ms →
        ms.length + memberCommas (memberValues number ms) + commas ts =
          commas (moreMembers ms ts))
  | [], ts => by
      have hSame : ([] : List (List Piece × Doc)).length + memberCommas (memberValues number []) +
          commas ts = commas (moreMembers [] ts) := by
        rw [moreMembers, memberValues, memberCommas, commas_cons, Token.commas]
        rfl
      exact ⟨hSame.le, fun _ => hSame⟩
  | (k, d) :: ms, ts => by
      obtain ⟨hFirst, hFirstSame⟩ := d.commas_value (moreMembers ms ts)
      obtain ⟨hMore, hMoreSame⟩ := memberCommas_memberValues ms ts
      rw [moreMembers, memberValues, memberCommas, List.length_cons, MembersUnique]
      simp only [commas_cons, Token.commas]
      refine ⟨by omega, fun ⟨hUnique, hRest⟩ => ?_⟩
      have := hFirstSame hUnique
      have := hMoreSame hRest
      omega

end

end Commas

end AsetPlatform.Library.JsonText

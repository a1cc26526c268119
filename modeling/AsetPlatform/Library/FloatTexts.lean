import AsetPlatform.Library.Months
import AsetPlatform.Library.Text
import Mathlib.Data.Rat.Floor

/-!
# Floats with infinities, and their texts

A `PyFloat` is NaN, an infinity, or a rational; arithmetic on rationals is exact, and division is that
of NumPy. `Formats` are the texts of a float, `str(x)`, `{x:.nf}` and `{x:+.nf}`: numerals, whatever
the rounding. `Formats.decimal` writes decimals as they are. `readFloat` is `float(s)`.
-/

set_option autoImplicit false

namespace AsetPlatform.Library

inductive PyFloat where
  | nan
  | inf (negative : Bool)
  | number (x : ℚ)
  deriving DecidableEq

/-- The integer nearest to a rational, ties to even. -/
def nearestInt (x : ℚ) : Int :=
  let n := x.floor
  let rest := x - n
  if rest < 1 / 2 ∨ rest = 1 / 2 ∧ n % 2 = 0 then n else n + 1

namespace PyFloat

def isNaN : PyFloat → Bool
  | nan => true
  | _ => false

/-- `math.isfinite(x)`. -/
def isFinite : PyFloat → Bool
  | number _ => true
  | _ => false

def neg : PyFloat → PyFloat
  | nan => nan
  | inf s => inf (!s)
  | number x => number (-x)

def add : PyFloat → PyFloat → PyFloat
  | number x, number y => number (x + y)
  | inf s, inf t => if s = t then inf s else nan
  | inf s, number _ => inf s
  | number _, inf t => inf t
  | _, _ => nan

def sub (x y : PyFloat) : PyFloat := add x (neg y)

/-- The sign of a float; that of NaN is immaterial. -/
def negative : PyFloat → Bool
  | nan => false
  | inf s => s
  | number x => decide (x < 0)

def isZero : PyFloat → Bool
  | number x => decide (x = 0)
  | _ => false

def mul : PyFloat → PyFloat → PyFloat
  | number x, number y => number (x * y)
  | nan, _ => nan
  | _, nan => nan
  | x, y => if x.isZero ∨ y.isZero then nan else inf (x.negative != y.negative)

/-- Division of NumPy floats, which does not raise. -/
def div : PyFloat → PyFloat → PyFloat
  | number x, number y =>
      if y ≠ 0 then number (x / y)
      else if x = 0 then nan
      else inf (decide (x < 0))
  | inf s, number y => inf (s != decide (y < 0))
  | number _, inf _ => number 0
  | _, _ => nan

/-- `x < y`, false when one is NaN. -/
def lt : PyFloat → PyFloat → Bool
  | number x, number y => decide (x < y)
  | inf s, inf t => s && !t
  | inf s, number _ => s
  | number _, inf t => !t
  | _, _ => false

/-- `x <= y`, false when one is NaN. -/
def le : PyFloat → PyFloat → Bool
  | number x, number y => decide (x ≤ y)
  | inf s, inf t => s || !t
  | inf s, number _ => s
  | number _, inf t => !t
  | _, _ => false

/-- `round(x, n)`. -/
def round (n : Nat) : PyFloat → PyFloat
  | number x => number (nearestInt (x * 10 ^ n) / 10 ^ n)
  | x => x

@[simp]
theorem isNaN_number (x : ℚ) : (number x).isNaN = false := rfl

theorem isNaN_div_iff (x y : PyFloat) :
    (div x y).isNaN = true ↔
      x.isNaN = true ∨ y.isNaN = true ∨ x.isZero = true ∧ y.isZero = true ∨
        x.isFinite = false ∧ y.isFinite = false := by
  cases x <;> cases y <;> simp only [div, isNaN, isZero, isFinite] <;> try simp
  rename_i x y
  by_cases hy : y = 0
  · by_cases hx : x = 0
    · simp [hx, hy]
    · simp [hx, hy]
  · simp [hy]

theorem isNaN_sub_number (x : PyFloat) (y : ℚ) : (sub x (number y)).isNaN = x.isNaN := by
  cases x <;> rfl

end PyFloat

/-! ## Texts -/

/-- The text of a number: letters, digits, a point and a sign. -/
def Numeral (s : List Char) : Prop :=
  s ≠ [] ∧ ∀ c ∈ s, c.isAlphanum = true ∨ c = '.' ∨ c = '+' ∨ c = '-'

/-- The texts of a float: `str(x)`, `{x:.nf}` and `{x:+.nf}`. -/
structure Formats where
  str : PyFloat → List Char
  fixed : Nat → PyFloat → List Char
  signed : Nat → PyFloat → List Char
  numeral_str : ∀ x, Numeral (str x)
  numeral_fixed : ∀ n x, Numeral (fixed n x)
  numeral_signed : ∀ n x, Numeral (signed n x)
  str_nan : str .nan = "nan".toList
  str_inf : ∀ s, str (.inf s) = if s then "-inf".toList else "inf".toList
  fixed_nan : ∀ n, fixed n .nan = "nan".toList
  fixed_inf : ∀ n s, fixed n (.inf s) = if s then "-inf".toList else "inf".toList

/-- `n` digits of a number, with leading zeros. -/
def padDigits (n k : Nat) : List Char :=
  let digits := (toString k).toList
  List.replicate (n - digits.length) '0' ++ digits

/-- `{|x|:.nf}`. -/
def magnitudeText (n : Nat) (x : ℚ) : List Char :=
  let k := (nearestInt (|x| * 10 ^ n)).natAbs
  (toString (k / 10 ^ n)).toList ++ if n = 0 then [] else '.' :: padDigits n (k % 10 ^ n)

/-- `{x:.nf}`. -/
def fixedText (n : Nat) : PyFloat → List Char
  | .nan => "nan".toList
  | .inf s => if s then "-inf".toList else "inf".toList
  | .number x => if x < 0 then '-' :: magnitudeText n x else magnitudeText n x

/-- `{x:+.nf}`. -/
def signedText (n : Nat) (x : PyFloat) : List Char :=
  if x.negative then fixedText n x else '+' :: fixedText n x

/-- The least number of decimals that writes a number, from `n` on and within `fuel` more. -/
def decimalsFrom (x : ℚ) : Nat → Nat → Nat
  | 0, n => n
  | fuel + 1, n => if (x * 10 ^ n).den = 1 then n else decimalsFrom x fuel (n + 1)

/-- `str(x)`, of a decimal of ordinary size. -/
def strText : PyFloat → List Char
  | .number x => fixedText (decimalsFrom x 16 1) (.number x)
  | x => fixedText 1 x

theorem numeral_toString (k : Nat) : Numeral (toString k).toList := by
  refine ⟨?_, fun c hc => ?_⟩
  · have hText : (toString k).toList = Nat.toDigits 10 k := Nat.toList_repr
    rw [hText]
    exact Nat.toDigits_ne_nil
  · have hDigit := isDigit_of_mem_toString hc
    left
    rw [Char.isAlphanum, hDigit, Bool.or_true]

theorem Numeral.cons {s : List Char} (h : Numeral s) {c : Char} (hc : c = '.' ∨ c = '+' ∨ c = '-') :
    Numeral (c :: s) := by
  refine ⟨List.cons_ne_nil c s, fun x hx => ?_⟩
  rcases List.mem_cons.mp hx with rfl | hx
  · exact .inr hc
  · exact h.2 x hx

theorem numeral_padDigits (n k : Nat) : Numeral (padDigits n k) := by
  obtain ⟨hNonempty, hChars⟩ := numeral_toString k
  refine ⟨fun h => hNonempty (List.append_eq_nil_iff.mp h).2, fun c hc => ?_⟩
  rcases List.mem_append.mp hc with hc | hc
  · rw [(List.mem_replicate.mp hc).2]
    exact .inl (by decide)
  · exact hChars c hc

theorem Numeral.append {s t : List Char} (hs : Numeral s)
    (ht : ∀ c ∈ t, c.isAlphanum = true ∨ c = '.' ∨ c = '+' ∨ c = '-') : Numeral (s ++ t) := by
  refine ⟨fun h => hs.1 (List.append_eq_nil_iff.mp h).1, fun c hc => ?_⟩
  rcases List.mem_append.mp hc with hc | hc
  · exact hs.2 c hc
  · exact ht c hc

theorem numeral_magnitudeText (n : Nat) (x : ℚ) : Numeral (magnitudeText n x) := by
  apply (numeral_toString _).append
  split
  · exact fun c hc => absurd hc List.not_mem_nil
  · exact ((numeral_padDigits _ _).cons (.inl rfl)).2

theorem numeral_fixedText (n : Nat) (x : PyFloat) : Numeral (fixedText n x) := by
  have hNan : Numeral "nan".toList := ⟨by decide, by decide⟩
  have hInf : Numeral "inf".toList := ⟨by decide, by decide⟩
  cases x with
  | nan => exact hNan
  | inf s =>
      cases s with
      | false => exact hInf
      | true => exact hInf.cons (.inr (.inr rfl))
  | number x =>
      simp only [fixedText]
      split
      · exact (numeral_magnitudeText n x).cons (.inr (.inr rfl))
      · exact numeral_magnitudeText n x

theorem numeral_signedText (n : Nat) (x : PyFloat) : Numeral (signedText n x) := by
  unfold signedText
  split
  · exact numeral_fixedText n x
  · exact (numeral_fixedText n x).cons (.inr (.inl rfl))

theorem numeral_strText (x : PyFloat) : Numeral (strText x) := by
  unfold strText
  split
  · exact numeral_fixedText _ _
  · exact numeral_fixedText _ _

/-- Decimals, written out. -/
def Formats.decimal : Formats where
  str := strText
  fixed := fixedText
  signed := signedText
  numeral_str := numeral_strText
  numeral_fixed := numeral_fixedText
  numeral_signed := numeral_signedText
  str_nan := rfl
  str_inf := fun _ => rfl
  fixed_nan := fun _ => rfl
  fixed_inf := fun _ _ => rfl

example : Formats.decimal.str (.number (125 / 2)) = "62.5".toList ∧
    Formats.decimal.signed 1 (.number (-3 / 80)) = "-0.0".toList := by decide +kernel

/-! ## Reading -/

/-- Digits, with an underscore only between two of them. -/
def digitPart (s : List Char) : Option (List Char) :=
  let groups := s.splitOn '_'
  if groups.all fun g => !g.isEmpty && g.all Char.isDigit then some groups.flatten else none

/-- Digits with or without a point; there is a digit on one side of it. -/
def readDecimal (s : List Char) : Option ℚ :=
  match s.splitOn '.' with
  | [whole] => (digitPart whole).map fun ds => (Nat.ofDigitChars 10 ds 0 : ℚ)
  | [[], fraction] => (digitPart fraction).map fun fs => Nat.ofDigitChars 10 fs 0 / 10 ^ fs.length
  | [whole, []] => (digitPart whole).map fun ds => (Nat.ofDigitChars 10 ds 0 : ℚ)
  | [whole, fraction] =>
      (digitPart whole).bind fun ds => (digitPart fraction).map fun fs =>
        Nat.ofDigitChars 10 (ds ++ fs) 0 / 10 ^ fs.length
  | _ => none

/-- A power of ten, by its exponent. -/
def readExponent (s : List Char) : Option ℚ :=
  match s with
  | '-' :: rest => (digitPart rest).map fun ds => 1 / 10 ^ Nat.ofDigitChars 10 ds 0
  | '+' :: rest => (digitPart rest).map fun ds => 10 ^ Nat.ofDigitChars 10 ds 0
  | _ => (digitPart s).map fun ds => 10 ^ Nat.ofDigitChars 10 ds 0

def readUnsigned (s : List Char) : Option PyFloat :=
  if s = "nan".toList then some .nan
  else if s = "inf".toList ∨ s = "infinity".toList then some (.inf false)
  else
    match s.splitOn 'e' with
    | [mantissa] => (readDecimal mantissa).map .number
    | [mantissa, exponent] =>
        (readDecimal mantissa).bind fun m => (readExponent exponent).map fun e => .number (m * e)
    | _ => none

/-- `float(s)` of a text of ASCII; `none` when it raises. -/
def readFloat (s : List Char) : Option PyFloat :=
  match (strip .ascii s).map Char.toLower with
  | '-' :: rest => (readUnsigned rest).map PyFloat.neg
  | '+' :: rest => readUnsigned rest
  | rest => readUnsigned rest

example : readFloat " -1_0.25e1\n".toList = some (.number (-205 / 2)) ∧
    readFloat "1__0".toList = none ∧ readFloat "Infinity".toList = some (.inf false) := by
  decide +kernel

theorem splitOn_cons_of_ne {c sep : Char} (h : c ≠ sep) (s : List Char) :
    ∃ part rest, (c :: s).splitOn sep = (c :: part) :: rest := by
  obtain ⟨part, rest, hSplit⟩ := List.exists_cons_of_ne_nil (List.splitOn_ne_nil sep s)
  refine ⟨part, rest, ?_⟩
  rw [List.splitOn_cons_eq_if_modifyHead, beq_eq_false_iff_ne.mpr h, hSplit]
  rfl

theorem digitPart_cons {c : Char} (hDigit : c.isDigit = false) (hSep : c ≠ '_') (s : List Char) :
    digitPart (c :: s) = none := by
  obtain ⟨part, rest, hSplit⟩ := splitOn_cons_of_ne hSep s
  rw [digitPart, hSplit]
  simp [hDigit]

theorem readFloat_bracket (s : List Char) : readFloat ('[' :: s) = none := by
  have hStrip : ∃ rest, strip .ascii ('[' :: s) = '[' :: rest := by
    rw [strip, List.dropWhile_cons_of_neg (by decide), List.reverse_cons, List.dropWhile_append]
    split
    · exact ⟨[], rfl⟩
    · exact ⟨_, by rw [List.reverse_append]; rfl⟩
  obtain ⟨rest, hStrip⟩ := hStrip
  have hLower : Char.toLower '[' = '[' := by decide
  rw [readFloat, hStrip, List.map_cons, hLower]
  change readUnsigned ('[' :: rest.map Char.toLower) = none
  have hDecimal : ∀ more, readDecimal ('[' :: more) = none := by
    intro more
    obtain ⟨whole, parts, hSplit⟩ := splitOn_cons_of_ne (show '[' ≠ '.' by decide) more
    have hWhole : digitPart ('[' :: whole) = none := digitPart_cons (by decide) (by decide) whole
    rw [readDecimal, hSplit]
    match parts with
    | [] => simp only [hWhole, Option.map_none]
    | [[]] => simp only [hWhole, Option.map_none]
    | [_ :: _] => simp only [hWhole, Option.bind_none]
    | _ :: _ :: _ => rfl
  obtain ⟨mantissa, parts, hSplit⟩ :=
    splitOn_cons_of_ne (show '[' ≠ 'e' by decide) (rest.map Char.toLower)
  rw [readUnsigned, if_neg (by simp), if_neg (by simp), hSplit]
  match parts with
  | [] => simp only [hDecimal, Option.map_none]
  | [_] => simp only [hDecimal, Option.bind_none]
  | _ :: _ :: _ => rfl

end AsetPlatform.Library

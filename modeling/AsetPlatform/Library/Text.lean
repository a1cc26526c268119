import Mathlib.Data.List.Infix
import Mathlib.Data.List.TakeWhile

/-!
# Texts and backtracking regular expressions

Texts are lists of characters. What depends on the character database (white space, digits and their
values, word characters, lower case, equality up to case) is read from `CharTables`, so that a
result over an arbitrary table holds for the one of the running interpreter; `CharTables.ascii` is
the table of the first 128 characters.

`Regex.ends r c` lists the cursors at which a match of `r` started at `c` may end, in the order in
which a backtracking matcher tries them: the first alternative before the second, one more
repetition before none. `Regex.matchHead`, `Regex.search` and `Regex.findAll` are a match at the
start, a match anywhere, and the texts of the successive matches from the left.
-/

set_option autoImplicit false

namespace AsetPlatform.Library

/-- The facts about characters that come from a character database. -/
structure CharTables where
  isSpace : Char → Bool
  isDigit : Char → Bool
  digitValue : Char → Nat
  isWord : Char → Bool
  lower : List Char → List Char
  upper : List Char → List Char
  sameIgnoringCase : Char → Char → Bool

def CharTables.ascii : CharTables where
  isSpace c := c.isWhitespace
  isDigit c := c.isDigit
  digitValue c := c.toNat - '0'.toNat
  isWord c := c.isAlphanum || c == '_'
  lower s := s.map Char.toLower
  upper s := s.map Char.toUpper
  sameIgnoringCase a b := a.toLower == b.toLower

/-- Lower-case letters, digits and underscores are their own lower case. -/
def CharTables.KeepsLower (T : CharTables) : Prop :=
  ∀ s : List Char, (∀ c ∈ s, c.isLower ∨ c.isDigit ∨ c = '_') → T.lower s = s

theorem isAlpha_eq (c : Char) : c.isAlpha = (c.isUpper || c.isLower) := rfl

theorem isUpper_eq (c : Char) : c.isUpper = decide (c.val ≥ 'A'.val ∧ c.val ≤ 'Z'.val) := rfl

theorem isLower_eq (c : Char) :
    c.isLower = (decide (c.val ≥ 'a'.val) && decide (c.val ≤ 'z'.val)) := rfl

theorem toLower_eq_self {c : Char} (h : c.isLower ∨ c.isDigit ∨ c = '_') : c.toLower = c := by
  apply dif_neg
  rintro ⟨hge, hle⟩
  rcases h with h | h | h
  · obtain ⟨hge', -⟩ := (Bool.and_eq_true _ _).mp h
    simp_all only [ge_iff_le, decide_eq_true_eq, UInt32.le_iff_toNat_le]
    have : 'a'.val.toNat = 97 := rfl
    have : 'Z'.val.toNat = 90 := rfl
    omega
  · obtain ⟨-, hle'⟩ := (Bool.and_eq_true _ _).mp h
    simp_all only [ge_iff_le, decide_eq_true_eq, UInt32.le_iff_toNat_le]
    have : '9'.val.toNat = 57 := rfl
    have : 'A'.val.toNat = 65 := rfl
    omega
  · subst h
    revert hge hle
    decide

theorem keepsLower_ascii : CharTables.ascii.KeepsLower := by
  intro s hs
  show s.map Char.toLower = s
  apply (List.map_congr_left ?_).trans (List.map_id s)
  intro c hc
  exact toLower_eq_self (hs c hc)

theorem append_sep_inj {sep : Char} {x y z w : List Char} (hx : sep ∉ x) (hy : sep ∉ y)
    (h : x ++ sep :: z = y ++ sep :: w) : x = y ∧ z = w := by
  induction x generalizing y with
  | nil =>
      cases y with
      | nil => exact ⟨rfl, (List.cons.inj h).2⟩
      | cons c y => exact absurd (List.mem_cons.mpr (.inl (List.cons.inj h).1)) hy
  | cons c x ih =>
      cases y with
      | nil => exact absurd (List.mem_cons.mpr (.inl (List.cons.inj h).1.symm)) hx
      | cons d y =>
          obtain ⟨rfl, hRest⟩ := List.cons.inj h
          have hTail := ih (fun hMem => hx (List.mem_cons_of_mem _ hMem))
            (fun hMem => hy (List.mem_cons_of_mem _ hMem)) hRest
          exact ⟨by rw [hTail.1], hTail.2⟩

/-! ## Operations on texts -/

/-- What holds of all characters of a text is decided along the text. -/
instance decidableForallMem (p : Char → Prop) [DecidablePred p] (s : List Char) :
    Decidable (∀ c ∈ s, p c) :=
  List.decidableBAll p s

/-- What holds of a character of a text is decided along the text. -/
instance decidableExistsMem (p : Char → Prop) [DecidablePred p] (s : List Char) :
    Decidable (∃ c ∈ s, p c) :=
  List.decidableBEx p s

/-- A text without the white space at its ends. -/
def strip (T : CharTables) (s : List Char) : List Char :=
  ((s.dropWhile T.isSpace).reverse.dropWhile T.isSpace).reverse

/-- A text without the white space at its right end. -/
def rstrip (T : CharTables) (s : List Char) : List Char :=
  (s.reverse.dropWhile T.isSpace).reverse

/-- `s.lower()`, for the characters of ASCII. -/
def asciiLower (s : String) : String := String.ofList (s.toList.map Char.toLower)

/-- `s.upper()`, for the characters of ASCII. -/
def asciiUpper (s : String) : String := String.ofList (s.toList.map Char.toUpper)

theorem toUpper_idem (c : Char) : c.toUpper.toUpper = c.toUpper := by
  delta Char.toUpper
  split
  · rename_i hLower
    have hLow := UInt32.le_iff_toNat_le.mp hLower.1
    have hHigh := UInt32.le_iff_toNat_le.mp hLower.2
    split
    · rename_i hAgain
      have hLowAgain := UInt32.le_iff_toNat_le.mp hAgain.1
      simp [UInt32.toNat_add] at hLow hHigh hLowAgain
      omega
    · rfl
  · rfl

theorem asciiUpper_idem (s : String) : asciiUpper (asciiUpper s) = asciiUpper s := by
  simp [asciiUpper, Function.comp_def, toUpper_idem]

/-- `sub` occurs in `s`. -/
def occursIn (sub s : List Char) : Bool := decide (sub <:+: s)

/-- The lines of a text, split at each newline. -/
def splitLines (s : List Char) : List (List Char) := s.splitOn '\n'

/-- Lines joined with a newline between them. -/
def joinLines (ls : List (List Char)) : List Char := List.intercalate ['\n'] ls

/-- The text before the last newline, or the whole text when there is none. -/
def beforeLastLine (s : List Char) : List Char :=
  match s.reverse.dropWhile (fun c => c != '\n') with
  | [] => s
  | _ :: before => before.reverse

/-- A text without the occurrences of `pat`, found from the left; `skip` counts the characters of
the last occurrence that are still to be dropped. -/
def removeFrom (pat : List Char) : Nat → List Char → List Char
  | _, [] => []
  | skip + 1, _ :: s => removeFrom pat skip s
  | 0, c :: s =>
      if pat.isPrefixOf (c :: s) then removeFrom pat (pat.length - 1) s
      else c :: removeFrom pat 0 s

/-- `s.replace(pat, "")`. -/
def removeAll (pat s : List Char) : List Char := removeFrom pat 0 s

theorem removeFrom_eq (pat : List Char) (n : Nat) (s : List Char) :
    removeFrom pat n s = removeAll pat (s.drop n) := by
  induction n generalizing s with
  | zero => rfl
  | succ n ih =>
      cases s with
      | nil => rfl
      | cons c s => exact ih s

theorem removeAll_of_notMem {p : Char} (ps : List Char) {s : List Char} (h : p ∉ s) :
    removeAll (p :: ps) s = s := by
  induction s with
  | nil => rfl
  | cons c s ih =>
      rw [List.mem_cons, not_or] at h
      have hprefix : (p :: ps).isPrefixOf (c :: s) = false := by
        simp [List.isPrefixOf, h.1]
      rw [removeAll, removeFrom, hprefix]
      exact congrArg (c :: ·) (ih h.2)

theorem removeAll_append {p : Char} (ps : List Char) {s : List Char} (h : p ∉ s) :
    removeAll (p :: ps) ((p :: ps) ++ s) = s := by
  have hprefix : (p :: ps).isPrefixOf (p :: (ps ++ s)) = true :=
    List.isPrefixOf_iff_prefix.mpr (List.prefix_append (p :: ps) s)
  rw [List.cons_append, removeAll, removeFrom, hprefix, if_pos rfl, removeFrom_eq]
  simp only [List.length_cons, Nat.add_sub_cancel, List.drop_left]
  exact removeAll_of_notMem ps h

theorem eq_of_append_sep {sep : Char} {a b u v : List Char} (hu : sep ∉ u) (hv : sep ∉ v)
    (h : a ++ sep :: u = b ++ sep :: v) : u = v := by
  -- the longer start would put its separator into the other end
  have hend : ∀ {as x y : List Char}, sep ∉ x → sep :: x = as ++ sep :: y → x = y := by
    intro as x y hx heq
    cases as with
    | nil => exact (List.cons.inj heq).2
    | cons c cs =>
        have htail := (List.cons.inj heq).2
        exact absurd (htail ▸ List.mem_append_right cs List.mem_cons_self) hx
  rcases List.append_eq_append_iff.1 h with ⟨as, -, heq⟩ | ⟨as, -, heq⟩
  · exact hend hu heq
  · exact (hend hv heq).symm

theorem eq_false_of_mem_splitOnP {α : Type*} {p : α → Bool} {xs l : List α} {x : α}
    (hl : l ∈ xs.splitOnP p) (hx : x ∈ l) : p x = false := by
  induction xs generalizing l with
  | nil =>
      rw [List.splitOnP_nil, List.mem_singleton] at hl
      subst hl
      cases hx
  | cons y xs ih =>
      rw [List.splitOnP_cons_eq_if_modifyHead] at hl
      cases hy : p y with
      | true =>
          rw [if_pos hy, List.mem_cons] at hl
          obtain rfl | hl := hl
          · cases hx
          · exact ih hl hx
      | false =>
          rw [if_neg (Bool.eq_false_iff.mp hy)] at hl
          obtain ⟨first, others, hSplit⟩ :=
            List.exists_cons_of_ne_nil (List.splitOnP_ne_nil p xs)
          rw [hSplit, List.modifyHead_cons, List.mem_cons] at hl
          obtain rfl | hl := hl
          · obtain rfl | hx := List.mem_cons.mp hx
            · exact hy
            · exact ih (by rw [hSplit]; exact List.mem_cons_self) hx
          · exact ih (by rw [hSplit]; exact List.mem_cons_of_mem _ hl) hx

/-! ## Texts without the white space at their ends -/

section Strip

variable {T : CharTables} {s w : List Char}

theorem rstrip_spec (T : CharTables) (s : List Char) :
    ∃ w, s = rstrip T s ++ w ∧ ∀ c ∈ w, T.isSpace c = true := by
  refine ⟨(s.reverse.takeWhile T.isSpace).reverse, ?_, fun c hc => ?_⟩
  · rw [rstrip, ← List.reverse_append, List.takeWhile_append_dropWhile, List.reverse_reverse]
  · exact List.mem_takeWhile_imp (List.mem_reverse.mp hc)

theorem rstrip_append_spaces (hw : ∀ c ∈ w, T.isSpace c = true) :
    rstrip T (s ++ w) = rstrip T s := by
  rw [rstrip, List.reverse_append,
    List.dropWhile_append_of_pos fun c hc => hw c (List.mem_reverse.mp hc), rstrip]

theorem rstrip_append (a : List Char) (hs : rstrip T s ≠ []) :
    rstrip T (a ++ s) = a ++ rstrip T s := by
  rw [rstrip] at hs
  rw [rstrip, List.reverse_append, List.dropWhile_append, if_neg, List.reverse_append,
    List.reverse_reverse, rstrip]
  rw [List.isEmpty_iff, ← List.reverse_eq_nil_iff]
  exact hs

theorem rstrip_concat {c : Char} (hc : T.isSpace c = false) : rstrip T (s ++ [c]) = s ++ [c] := by
  rw [rstrip, List.reverse_append, List.reverse_singleton, List.singleton_append,
    List.dropWhile_cons_of_neg (Bool.eq_false_iff.mp hc), List.reverse_cons, List.reverse_reverse]

theorem strip_around {before after : List Char} (hBefore : ∀ c ∈ before, T.isSpace c = true)
    (hAfter : ∀ c ∈ after, T.isSpace c = true) : strip T (before ++ s ++ after) = strip T s := by
  show rstrip T ((before ++ s ++ after).dropWhile T.isSpace) = rstrip T (s.dropWhile T.isSpace)
  rw [List.append_assoc, List.dropWhile_append_of_pos hBefore, List.dropWhile_append]
  split_ifs with hEmpty
  · rw [List.isEmpty_iff.mp hEmpty, List.dropWhile_eq_nil_iff.mpr hAfter]
  · exact rstrip_append_spaces hAfter

theorem strip_spec (T : CharTables) (s : List Char) :
    ∃ before after, s = before ++ strip T s ++ after ∧ (∀ c ∈ before, T.isSpace c = true) ∧
      ∀ c ∈ after, T.isSpace c = true := by
  obtain ⟨after, hs, hAfter⟩ := rstrip_spec T (s.dropWhile T.isSpace)
  refine ⟨s.takeWhile T.isSpace, after, ?_, fun c hc => List.mem_takeWhile_imp hc, hAfter⟩
  calc s = s.takeWhile T.isSpace ++ s.dropWhile T.isSpace := List.takeWhile_append_dropWhile.symm
    _ = s.takeWhile T.isSpace ++ (strip T s ++ after) := congrArg _ hs
    _ = s.takeWhile T.isSpace ++ strip T s ++ after := (List.append_assoc _ _ _).symm

end Strip

/-! ## Regular expressions -/

/-- Regular expressions over characters. Repetition is greedy. -/
inductive Regex where
  | empty
  | char (p : Char → Bool)
  | seq (a b : Regex)
  | alt (a b : Regex)
  | star (a : Regex)
  | wordBoundary

/-- A position in a text: the characters read so far, last first, and those still to read. -/
structure Cursor where
  before : List Char
  after : List Char
  deriving DecidableEq

namespace Regex

/-- At least one repetition. -/
def plus (r : Regex) : Regex := .seq r (.star r)

/-- One or none. -/
def opt (r : Regex) : Regex := .alt r .empty

/-- At most `n` repetitions. -/
def upTo (r : Regex) : Nat → Regex
  | 0 => .empty
  | n + 1 => .alt (.seq r (upTo r n)) .empty

/-- At least `m` and at most `m + n` repetitions. -/
def between (r : Regex) (m n : Nat) : Regex :=
  match m with
  | 0 => upTo r n
  | m + 1 => .seq r (between r m n)

/-- The characters of a text in order, each compared with `same`. -/
def literal (same : Char → Char → Bool) : List Char → Regex
  | [] => .empty
  | c :: cs => .seq (.char (same c)) (literal same cs)

/-- The first matching alternative of a list. -/
def oneOf : List Regex → Regex
  | [] => .char fun _ => false
  | [r] => r
  | r :: rs => .alt r (oneOf rs)

/-- Whether exactly one side of the cursor is a word character. -/
def atWordBoundary (T : CharTables) (c : Cursor) : Bool :=
  (c.before.head?.any T.isWord) != (c.after.head?.any T.isWord)

/-- The ends of repetitions: longer ones first, each pass reading at least one character. -/
def starEnds (step : Cursor → List Cursor) : Nat → Cursor → List Cursor
  | 0, c => [c]
  | fuel + 1, c =>
      ((step c).filter fun d => d.after.length < c.after.length).flatMap (starEnds step fuel) ++ [c]

/-- The cursors at which a match may end, in the order a backtracking matcher finds them. -/
def ends (T : CharTables) : Regex → Cursor → List Cursor
  | .empty, c => [c]
  | .char p, c =>
      match c.after with
      | [] => []
      | x :: xs => if p x then [⟨x :: c.before, xs⟩] else []
  | .seq a b, c => (ends T a c).flatMap (ends T b)
  | .alt a b, c => ends T a c ++ ends T b c
  | .star a, c => starEnds (ends T a) c.after.length c
  | .wordBoundary, c => if atWordBoundary T c then [c] else []

def textBetween (c d : Cursor) : List Char := c.after.take (c.after.length - d.after.length)

/-- Whether a match starts at the beginning of the text. -/
def matchHead (T : CharTables) (r : Regex) (s : List Char) : Bool :=
  !(ends T r ⟨[], s⟩).isEmpty

/-- The cursors of a text from the given one to the end. -/
def cursors : List Char → List Char → List Cursor
  | before, [] => [⟨before, []⟩]
  | before, x :: xs => ⟨before, x :: xs⟩ :: cursors (x :: before) xs

/-- Whether a match starts anywhere in the text. -/
def search (T : CharTables) (r : Regex) (s : List Char) : Bool :=
  (cursors [] s).any fun c => !(ends T r c).isEmpty

/-- The texts of the successive matches. `skip` counts the characters of the last match that are
still to be passed. -/
def findFrom (T : CharTables) (r : Regex) : Nat → List Char → List Char → List (List Char)
  | _, _, [] => []
  | skip + 1, before, x :: xs => findFrom T r skip (x :: before) xs
  | 0, before, x :: xs =>
      match ends T r ⟨before, x :: xs⟩ with
      | [] => findFrom T r 0 (x :: before) xs
      | d :: _ =>
          textBetween ⟨before, x :: xs⟩ d ::
            findFrom T r ((x :: xs).length - d.after.length - 1) (x :: before) xs

/-- The texts of the successive matches from the left, for an expression that matches no empty
text. -/
def findAll (T : CharTables) (r : Regex) (s : List Char) : List (List Char) :=
  findFrom T r 0 [] s

example : findAll .ascii (plus (.char Char.isUpper)) "ab CD eF".toList =
    ["CD".toList, "F".toList] := by decide

end Regex

end AsetPlatform.Library

import Mathlib.Algebra.Order.Ring.Rat
import Mathlib.Data.String.Basic

/-!
# Close matches of a word

The similarity of two texts is twice the number of characters in their matching blocks over the sum
of their lengths. The blocks are found from the longest common substring (the first of the longest,
by its place in the first text and then in the second), then on both sides of it.
-/

set_option autoImplicit false

namespace AsetPlatform.Library

/-- The length of the common start of two texts. -/
def commonStart : List Char → List Char → Nat
  | a :: as, b :: bs => if a = b then commonStart as bs + 1 else 0
  | _, _ => 0

/-- The places in two texts, and the length, of a longest common substring. -/
def longestMatch (a b : List Char) : Nat × Nat × Nat :=
  (List.range a.length).foldl
    (fun best i => (List.range b.length).foldl
      (fun best j =>
        let k := commonStart (a.drop i) (b.drop j)
        if best.2.2 < k then (i, j, k) else best) best)
    (0, 0, 0)

/-- The number of characters in matching blocks. Each round matches at least one character, so the
length of the first text bounds the rounds. -/
def matchedChars : Nat → List Char → List Char → Nat
  | 0, _, _ => 0
  | rounds + 1, a, b =>
      let m := longestMatch a b
      if m.2.2 = 0 then 0
      else matchedChars rounds (a.take m.1) (b.take m.2.1) + m.2.2 +
        matchedChars rounds (a.drop (m.1 + m.2.2)) (b.drop (m.2.1 + m.2.2))

def similarity (a b : List Char) : ℚ :=
  if a.length + b.length = 0 then 1
  else 2 * matchedChars a.length a b / (a.length + b.length)

/-- The candidate most similar to the word, among those that reach the cutoff; of equally similar
ones the last in the order of texts. -/
def closeMatch (cutoff : ℚ) (word : List Char) (candidates : List String) : Option String :=
  candidates.foldl
    (fun best x =>
      if similarity x.toList word < cutoff then best
      else
        match best with
        | none => some x
        | some y =>
            if similarity y.toList word < similarity x.toList word ∨
                similarity y.toList word = similarity x.toList word ∧ y < x then some x
            else some y)
    none

example : closeMatch (3 / 5) "appel".toList ["ape", "apple", "peach"] = some "apple" := by
  decide +kernel

end AsetPlatform.Library

import AsetPlatform.Maintenance.OrphanSweep

/-!
# Spellings of a file

`backend/maintenance/iceberg_maintenance.py`, `_normalize_uri`. A file is spelled as a plain path or as
a `file://` URI, with any number of slashes in front and between the parts and with dots. The URI branch
drops the slashes in front of the first one; the plain one leaves them to `os.path.abspath`, which keeps
two (`normalizeUri_spelling`). Two spellings are told apart as the files are, unless one of them has
these two slashes and the other has not (`identifies_iff`).
-/

set_option autoImplicit false

namespace AsetPlatform.Maintenance

open AsetPlatform.Library

/-- A spelling of a path. -/
structure Spelling where
  path : AbsPath
  uri : Bool
  body : List Char
  rooted : body.head? = some '/'
  named : namedParts body = path.parts

namespace Spelling

def text (s : Spelling) : List Char := if s.uri then uriScheme ++ s.body else s.body

/-- A plain path with two slashes in front, not more. -/
def TwoSlashes (s : Spelling) : Prop := s.uri = false ∧ leadingSlashes s.body = 2

instance (s : Spelling) : Decidable s.TwoSlashes := inferInstanceAs (Decidable (_ ∧ _))

end Spelling

/-- Two spellings are normalised to one text exactly if they are of one path. -/
def Identifies (cwd : AbsPath) (s t : Spelling) : Prop :=
  normalizeUri cwd s.text = normalizeUri cwd t.text ↔ s.path = t.path

/-! ## The two branches -/

theorem collapseSlashes_spec (s : List Char) :
    leadingSlashes (collapseSlashes ('/' :: s)) = 1 ∧
      (collapseSlashes ('/' :: s)).head? = some '/' ∧
      namedParts (collapseSlashes ('/' :: s)) = namedParts s := by
  induction s with
  | nil => exact ⟨rfl, rfl, rfl⟩
  | cons c s ih =>
      by_cases hc : c = '/'
      · subst hc
        rw [namedParts_slash]
        exact ih
      · have hKept : collapseSlashes ('/' :: c :: s) = '/' :: c :: s := by
          rw [collapseSlashes]
          rintro rest hRest
          exact hc (List.cons.inj (List.cons.inj hRest).2).1
        rw [hKept, namedParts_slash]
        exact ⟨by simp [leadingSlashes, hc], rfl, rfl⟩

theorem normalizeUri_rooted (cwd : AbsPath) {s : List Char} (h : s.head? = some '/') :
    normalizeUri cwd s = normpath s := by
  obtain ⟨s, rfl⟩ := List.head?_eq_some_iff.mp h
  have hScheme : uriScheme.isPrefixOf ('/' :: s) = false := rfl
  rw [normalizeUri, if_neg (List.cons_ne_nil _ _), hScheme, if_neg Bool.false_ne_true, abspath,
    if_pos h]

theorem normalizeUri_spelling (cwd : AbsPath) (s : Spelling) :
    normalizeUri cwd s.text = if s.TwoSlashes then '/' :: s.path.text else s.path.text := by
  obtain ⟨path, uri, body, hRooted, hNamed⟩ := s
  cases uri with
  | false =>
      show normalizeUri cwd body = _
      rw [normalizeUri_rooted cwd hRooted, normpath_eq hRooted, pathOf_eq hNamed]
      simp only [Spelling.TwoSlashes, true_and]
  | true =>
      obtain ⟨rest, rfl⟩ := List.head?_eq_some_iff.mp hRooted
      obtain ⟨hOne, hHead, hParts⟩ := collapseSlashes_spec rest
      have hScheme : uriScheme.isPrefixOf (uriScheme ++ '/' :: rest) = true :=
        List.isPrefixOf_iff_prefix.mpr (List.prefix_append _ _)
      have hne : uriScheme ++ '/' :: rest ≠ [] := List.cons_ne_nil _ _
      show normalizeUri cwd (uriScheme ++ '/' :: rest) = _
      rw [normalizeUri, if_neg hne, hScheme, if_pos rfl, List.drop_left, abspath,
        if_pos hHead, normpath_eq hHead, hOne, if_neg (by decide), if_neg fun h => by cases h.1]
      rw [namedParts_slash] at hNamed
      rw [pathOf_eq (hParts.trans hNamed)]

/-! ## Any text -/

/-- The path with a slash in front of its text is a plain spelling of it. -/
def doubled (path : AbsPath) : Spelling where
  path := path
  uri := false
  body := '/' :: path.text
  rooted := rfl
  named := by rw [namedParts_slash, namedParts_text]

theorem twoSlashes_doubled (path : AbsPath) : (doubled path).TwoSlashes := by
  refine ⟨rfl, ?_⟩
  show leadingSlashes ('/' :: path.text) = 2
  rcases path.text_cases with h | ⟨c, s, hc, h⟩
  · rw [h]
    rfl
  · rw [h]
    simp [leadingSlashes, hc]

theorem normalizeUri_cases (cwd : AbsPath) (s : List Char) :
    normalizeUri cwd s = [] ∨
      ∃ path, normalizeUri cwd s = path.text ∨ normalizeUri cwd s = (doubled path).text := by
  by_cases hEmpty : s = []
  · exact Or.inl (if_pos hEmpty)
  · right
    have hAbs : ∀ t, ∃ path : AbsPath, abspath cwd t = path.text ∨ abspath cwd t = '/' :: path.text := by
      intro t
      rw [abspath]
      split
      · next hHead =>
          rw [normpath_eq hHead]
          split
          · exact ⟨_, Or.inr rfl⟩
          · exact ⟨_, Or.inl rfl⟩
      · rw [normpath_eq rfl]
        split
        · exact ⟨_, Or.inr rfl⟩
        · exact ⟨_, Or.inl rfl⟩
    rw [normalizeUri, if_neg hEmpty]
    exact hAbs _

theorem normalizeUri_idempotent (cwd : AbsPath) (s : List Char) :
    normalizeUri cwd (normalizeUri cwd s) = normalizeUri cwd s := by
  rcases normalizeUri_cases cwd s with h | ⟨path, h | h⟩
  · rw [h]
    rfl
  · rw [h, normalizeUri_path]
  · rw [h, normalizeUri_spelling, if_pos (twoSlashes_doubled path)]
    rfl

/-- Spellings are told apart as their paths are, unless they are spellings of one path of which one
has two slashes in front; and what is normalised stays. -/
theorem identifies_iff (cwd : AbsPath) (s t : Spelling) (other : List Char) :
    (Identifies cwd s t ∧
        normalizeUri cwd (normalizeUri cwd other) = normalizeUri cwd other) ↔
      (s.path = t.path → (s.TwoSlashes ↔ t.TwoSlashes)) := by
  have hApart : ∀ p q : AbsPath, '/' :: p.text ≠ q.text := by
    intro p q h
    rcases q.text_cases with hq | ⟨c, rest, hc, hq⟩
    · rw [hq] at h
      exact List.cons_ne_nil _ _ (List.cons.inj h).2
    · rw [hq] at h
      exact hc (List.cons.inj (List.cons.inj h).2).1.symm
  rw [and_iff_left (normalizeUri_idempotent cwd other), Identifies, normalizeUri_spelling,
    normalizeUri_spelling]
  by_cases hs : s.TwoSlashes
  · by_cases ht : t.TwoSlashes
    · rw [if_pos hs, if_pos ht, List.cons_inj_right]
      exact iff_of_true ⟨AbsPath.text_injective, congrArg AbsPath.text⟩ fun _ => iff_of_true hs ht
    · rw [if_pos hs, if_neg ht, iff_false_left (hApart _ _)]
      exact ⟨fun hNe hSame => absurd hSame hNe, fun h hSame => ht ((h hSame).mp hs)⟩
  · by_cases ht : t.TwoSlashes
    · have hNot : s.path.text ≠ '/' :: t.path.text := (hApart _ _).symm
      rw [if_neg hs, if_pos ht, iff_false_left hNot]
      exact ⟨fun hNe hSame => absurd hSame hNe, fun h hSame => hs ((h hSame).mpr ht)⟩
    · rw [if_neg hs, if_neg ht]
      exact iff_of_true ⟨AbsPath.text_injective, congrArg AbsPath.text⟩ fun _ => iff_of_false hs ht

/-- `/Users/x.json` -/
def exampleFile : AbsPath where
  parts := ["Users".toList, "x.json".toList]
  isPart := by decide

/-- `//Users/x.json` and `file:////Users/x.json` -/
def exampleSpelling (uri : Bool) : Spelling where
  path := exampleFile
  uri := uri
  body := "//Users/x.json".toList
  rooted := rfl
  named := by decide

/-- The slashes in front of a plain path stay two. -/
theorem not_identifies_twoSlashes :
    normalizeUri exampleFile (exampleSpelling false).text = "//Users/x.json".toList ∧
      normalizeUri exampleFile (exampleSpelling true).text = "/Users/x.json".toList ∧
      ¬ Identifies exampleFile (exampleSpelling false) (exampleSpelling true) := by
  rw [Identifies, normalizeUri_spelling, normalizeUri_spelling]
  decide

end AsetPlatform.Maintenance

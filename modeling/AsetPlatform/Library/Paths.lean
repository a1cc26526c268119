import AsetPlatform.Library.Text

/-!
# POSIX paths

An absolute path in normal form is a list of parts without empty parts, `.` and `..`. `normpath` and
`abspath` are the functions of Python's `os.path` on the texts of paths; an absolute path in normal
form is its own normal form (`abspath_text`), and it is determined by its text (`text_injective`).
-/

set_option autoImplicit false

namespace AsetPlatform.Library

/-- A part of a path in normal form. -/
def IsPart (part : List Char) : Prop := part ≠ [] ∧ part ≠ ['.'] ∧ part ≠ ['.', '.'] ∧ '/' ∉ part

instance (part : List Char) : Decidable (IsPart part) := inferInstanceAs (Decidable (_ ∧ _ ∧ _ ∧ _))

/-- An absolute path in normal form. -/
structure AbsPath where
  parts : List (List Char)
  isPart : ∀ part ∈ parts, IsPart part
  deriving DecidableEq

def AbsPath.text (path : AbsPath) : List Char := '/' :: ['/'].intercalate path.parts

/-- One part of a text is dropped, kept, or takes back the part before it. -/
def pushPart (rooted : Bool) (done : List (List Char)) (part : List Char) : List (List Char) :=
  if part = [] ∨ part = ['.'] then done
  else if part ≠ ['.', '.'] ∨ (rooted = false ∧ done = []) ∨ done.getLast? = some ['.', '.'] then
    done ++ [part]
  else done.dropLast

/-- The slashes a normalised text begins with: two stay two. -/
def leadingSlashes : List Char → Nat
  | '/' :: '/' :: '/' :: _ => 1
  | '/' :: '/' :: _ => 2
  | '/' :: _ => 1
  | _ => 0

/-- `os.path.normpath`. -/
def normpath (path : List Char) : List Char :=
  let slashes := leadingSlashes path
  let parts := (path.splitOn '/').foldl (pushPart (slashes ≠ 0)) []
  let result := List.replicate slashes '/' ++ ['/'].intercalate parts
  if result = [] then ['.'] else result

/-- `os.path.abspath` in a working directory. -/
def abspath (cwd : AbsPath) (path : List Char) : List Char :=
  if path.head? = some '/' then normpath path else normpath (cwd.text ++ '/' :: path)

/-- `os.path.basename`. -/
def basename (path : List Char) : List Char := (path.reverse.takeWhile (· ≠ '/')).reverse

/-- `os.path.splitext` of a name without slashes, its first part: what stands before the last dot,
unless nothing but dots stands there. -/
def splitextRoot (name : List Char) : List Char :=
  match name.reverse.dropWhile (· ≠ '.') with
  | [] => name
  | _ :: before => if before.all (· = '.') then name else before.reverse

theorem foldl_pushPart (rooted : Bool) (done parts : List (List Char))
    (h : ∀ part ∈ parts, IsPart part) : parts.foldl (pushPart rooted) done = done ++ parts := by
  induction parts generalizing done with
  | nil => simp
  | cons part parts ih =>
      obtain ⟨hne, hdot, hdots, -⟩ := h part List.mem_cons_self
      have hpush : pushPart rooted done part = done ++ [part] := by
        simp [pushPart, hne, hdot, hdots]
      rw [List.foldl_cons, hpush, ih _ fun p hp => h p (List.mem_cons_of_mem _ hp)]
      simp

theorem AbsPath.text_cases (path : AbsPath) :
    path.text = ['/'] ∨ ∃ c s, c ≠ '/' ∧ path.text = '/' :: c :: s := by
  obtain ⟨parts, hparts⟩ := path
  cases parts with
  | nil => exact Or.inl rfl
  | cons part rest =>
      obtain ⟨hne, -, -, hslash⟩ := hparts part List.mem_cons_self
      cases part with
      | nil => exact absurd rfl hne
      | cons c cs =>
          have hc : c ≠ '/' := fun hc => hslash (hc ▸ List.mem_cons_self)
          cases rest with
          | nil => exact Or.inr ⟨c, cs, hc, by simp [AbsPath.text]⟩
          | cons next rest =>
              exact Or.inr ⟨c, cs ++ '/' :: ['/'].intercalate (next :: rest), hc, by
                simp [AbsPath.text]⟩

theorem leadingSlashes_text (path : AbsPath) : leadingSlashes path.text = 1 := by
  rcases path.text_cases with h | ⟨c, s, hc, h⟩
  · rw [h]
    rfl
  · rw [h]
    simp [leadingSlashes, hc]

theorem splitOn_text (path : AbsPath) (h : path.parts ≠ []) :
    path.text.splitOn '/' = [] :: path.parts := by
  have hsplit : ([] ++ '/' :: ['/'].intercalate path.parts).splitOn '/' =
      [] :: (['/'].intercalate path.parts).splitOn '/' :=
    List.splitOn_append_cons_self_of_not_mem (by simp) _
  rw [List.nil_append] at hsplit
  rw [AbsPath.text, hsplit, List.splitOn_intercalate '/' (fun p hp => (path.isPart p hp).2.2.2) h]

theorem normpath_text (path : AbsPath) : normpath path.text = path.text := by
  simp only [normpath, leadingSlashes_text]
  by_cases h : path.parts = []
  · have hroot : path.text = ['/'] := by simp [AbsPath.text, h]
    rw [hroot]
    decide
  · rw [splitOn_text path h, List.foldl_cons]
    have hfirst : pushPart (decide (1 ≠ 0)) [] [] = [] := rfl
    rw [hfirst, foldl_pushPart _ _ _ path.isPart]
    simp [AbsPath.text]

theorem abspath_text (cwd path : AbsPath) : abspath cwd path.text = path.text := by
  have hhead : path.text.head? = some '/' := rfl
  rw [abspath, if_pos hhead, normpath_text]

theorem filter_splitOn_text (path : AbsPath) :
    (path.text.splitOn '/').filter (· ≠ []) = path.parts := by
  by_cases h : path.parts = []
  · have hroot : path.text = ['/'] := by simp [AbsPath.text, h]
    rw [hroot, h]
    decide
  · rw [splitOn_text path h]
    have hkept : path.parts.filter (· ≠ []) = path.parts :=
      List.filter_eq_self.mpr fun part hpart => decide_eq_true (path.isPart part hpart).1
    rw [List.filter_cons_of_neg (by simp), hkept]

theorem AbsPath.text_injective {p q : AbsPath} (h : p.text = q.text) : p = q := by
  have hparts : p.parts = q.parts := by
    rw [← filter_splitOn_text p, h, filter_splitOn_text q]
  obtain ⟨parts, hp⟩ := p
  obtain ⟨parts', hq⟩ := q
  obtain rfl : parts = parts' := hparts
  rfl

/-! ## Spellings of a path -/

/-- The parts of a text that are neither empty nor a dot. -/
def namedParts (s : List Char) : List (List Char) :=
  (s.splitOn '/').filter fun part => part ≠ [] ∧ part ≠ ['.']

theorem namedParts_slash (s : List Char) : namedParts ('/' :: s) = namedParts s := by
  have hSplit : ([] ++ '/' :: s).splitOn '/' = [] :: s.splitOn '/' :=
    List.splitOn_append_cons_self_of_not_mem (by simp) _
  rw [List.nil_append] at hSplit
  rw [namedParts, hSplit, List.filter_cons_of_neg (by simp), namedParts]

theorem namedParts_text (path : AbsPath) : namedParts path.text = path.parts := by
  rw [← filter_splitOn_text path, namedParts, List.filter_congr]
  intro part hPart
  by_cases hEmpty : part = []
  · simp [hEmpty]
  · have hKept : part ∈ path.parts := by
      rw [← filter_splitOn_text path]
      exact List.mem_filter.mpr ⟨hPart, decide_eq_true hEmpty⟩
    simp [hEmpty, (path.isPart part hKept).2.1]

/-- Empty parts and dots change nothing. -/
theorem foldl_pushPart_named (rooted : Bool) (done parts : List (List Char)) :
    parts.foldl (pushPart rooted) done =
      (parts.filter fun part => part ≠ [] ∧ part ≠ ['.']).foldl (pushPart rooted) done := by
  induction parts generalizing done with
  | nil => rfl
  | cons part parts ih =>
      rw [List.foldl_cons, ih]
      by_cases hNamed : part ≠ [] ∧ part ≠ ['.']
      · rw [List.filter_cons, if_pos (decide_eq_true hNamed), List.foldl_cons]
      · rw [List.filter_cons, if_neg (by simpa using hNamed)]
        congr 1
        rw [not_and_or, not_not, not_not] at hNamed
        exact if_pos hNamed

theorem leadingSlashes_pos {s : List Char} (h : s.head? = some '/') :
    leadingSlashes s = 1 ∨ leadingSlashes s = 2 := by
  obtain ⟨s, rfl⟩ := List.head?_eq_some_iff.mp h
  rcases s with _ | ⟨c, _ | ⟨d, s⟩⟩
  · exact Or.inl rfl
  · by_cases hc : c = '/'
    · exact Or.inr (by subst hc; rfl)
    · exact Or.inl (by simp [leadingSlashes, hc])
  · by_cases hc : c = '/'
    · subst hc
      by_cases hd : d = '/'
      · exact Or.inl (by subst hd; rfl)
      · exact Or.inr (by simp [leadingSlashes, hd])
    · exact Or.inl (by simp [leadingSlashes, hc])

theorem normpath_rooted {s : List Char} (h : s.head? = some '/') :
    normpath s = List.replicate (leadingSlashes s) '/' ++
      ['/'].intercalate ((namedParts s).foldl (pushPart true) []) := by
  have hPos : leadingSlashes s ≠ 0 := by
    rcases leadingSlashes_pos h with h | h <;> rw [h] <;> decide
  have hne : List.replicate (leadingSlashes s) '/' ++
      ['/'].intercalate ((s.splitOn '/').foldl (pushPart true) []) ≠ [] := by
    rw [ne_eq, List.append_eq_nil_iff, List.replicate_eq_nil_iff]
    exact fun hBoth => hPos hBoth.1
  simp only [normpath, decide_eq_true hPos]
  rw [if_neg hne, foldl_pushPart_named]
  rfl

theorem isPart_foldl_pushPart {parts done : List (List Char)} (hDone : ∀ part ∈ done, IsPart part)
    (hSlash : ∀ part ∈ parts, '/' ∉ part) :
    ∀ part ∈ parts.foldl (pushPart true) done, IsPart part := by
  induction parts generalizing done with
  | nil => exact hDone
  | cons part parts ih =>
      apply ih _ fun q hq => hSlash q (List.mem_cons_of_mem _ hq)
      intro q hq
      rw [pushPart] at hq
      split at hq
      · exact hDone q hq
      · next hNamed =>
          rw [not_or] at hNamed
          split at hq
          · next hPushed =>
              have hDots : part ≠ ['.', '.'] := by
                rcases hPushed with hDots | ⟨hRooted, -⟩ | hLast
                · exact hDots
                · cases hRooted
                · exact absurd rfl (hDone _ (List.mem_of_getLast? hLast)).2.2.1
              rcases List.mem_append.mp hq with hq | hq
              · exact hDone q hq
              · rw [List.mem_singleton.mp hq]
                exact ⟨hNamed.1, hNamed.2, hDots, hSlash part List.mem_cons_self⟩
          · exact hDone q (List.mem_of_mem_dropLast hq)

/-- The path of a text that starts with a slash. -/
def pathOf (s : List Char) : AbsPath where
  parts := (namedParts s).foldl (pushPart true) []
  isPart := by
    apply isPart_foldl_pushPart (fun part hPart => absurd hPart List.not_mem_nil)
    intro part hPart hSlash
    have hOther := eq_false_of_mem_splitOnP (List.mem_filter.mp hPart).1 hSlash
    rw [beq_self_eq_true] at hOther
    cases hOther

theorem pathOf_eq {s : List Char} {path : AbsPath} (h : namedParts s = path.parts) :
    pathOf s = path := by
  cases path with
  | mk parts isPart =>
      have hParts : (namedParts s).foldl (pushPart true) [] = parts := by
        rw [h, foldl_pushPart _ _ _ isPart, List.nil_append]
      simp only [pathOf, hParts]

theorem normpath_eq {s : List Char} (h : s.head? = some '/') :
    normpath s = if leadingSlashes s = 2 then '/' :: (pathOf s).text else (pathOf s).text := by
  rw [normpath_rooted h]
  rcases leadingSlashes_pos h with hOne | hTwo
  · rw [hOne, if_neg (by decide)]
    rfl
  · rw [hTwo, if_pos rfl]
    rfl

end AsetPlatform.Library

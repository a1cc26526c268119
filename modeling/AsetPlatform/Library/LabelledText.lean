import AsetPlatform.Library.Captures

/-!
# Reading labelled values out of a text

`labelled` is `re.search(r"LABEL\s*:\s*(.+)", text)` with the group stripped. A text is a list of
entries, `NAME: VALUE` lines and other lines, and a label reads the value of the first entry whose
name ends with it (`labelled_render`): what precedes a colon decides whether it is read, so it is
enough to look at the names and at the colons inside the values.

A `Label` brings the test of a name, which says *no answer* where more of the text would be needed.
-/

set_option autoImplicit false

namespace AsetPlatform.Library

open Regex

/-- What the readers of a text assume of white space. -/
structure CharTables.Separates (T : CharTables) : Prop where
  blank : T.isSpace ' ' = true
  newline : T.isSpace '\n' = true
  colon : T.isSpace ':' = false

/-- `\s*`. -/
def spaces (T : CharTables) : Regex := .star (.char T.isSpace)

/-- `LABEL\s*:`. -/
def toColon (T : CharTables) (label : Regex) : Regex :=
  .seq (.seq label (spaces T)) (.char (· == ':'))

/-- `.+`. -/
def restOfLine : Regex := .plus (.char (· != '\n'))

/-- `re.search(r"LABEL\s*:\s*(.+)", text)`: the group, stripped. -/
def labelled (T : CharTables) (label : Regex) (text : List Char) : Option (List Char) :=
  (capture T (.seq (toColon T label) (spaces T)) restOfLine text).map (strip T)

/-- A word of the label ends the text, up to white space. -/
def EndsWith (T : CharTables) (label : Regex) (s : List Char) : Prop :=
  ∃ a w sp, s = a ++ (w ++ sp) ∧ w ∈ label.lang ∧ ∀ x ∈ sp, T.isSpace x = true

section Search

variable {T : CharTables} {label : Regex}

theorem EndsWith.append {s : List Char} (h : EndsWith T label s) (a : List Char) :
    EndsWith T label (a ++ s) := by
  obtain ⟨b, w, sp, rfl, hw, hsp⟩ := h
  exact ⟨a ++ b, w, sp, by rw [List.append_assoc], hw, hsp⟩

theorem mem_ends_toColon_iff (hLabel : label.ContextFree) {c d : Cursor} :
    d ∈ ends T (toColon T label) c ↔
      ∃ w sp, w ∈ label.lang ∧ (∀ x ∈ sp, T.isSpace x = true) ∧
        Past c (w ++ sp ++ [':']) d := by
  have hFree : (toColon T label).ContextFree := ⟨⟨hLabel, trivial⟩, trivial⟩
  rw [mem_ends_iff T hFree]
  constructor
  · rintro ⟨_, ⟨_, ⟨w, hw, sp, hsp, rfl⟩, _, ⟨x, rfl, hx⟩, rfl⟩, hPast⟩
    rw [eq_of_beq hx] at hPast
    exact ⟨w, sp, hw, mem_lang_star_char_iff.mp hsp, hPast⟩
  · rintro ⟨w, sp, hw, hsp, hPast⟩
    exact ⟨_, ⟨w ++ sp, ⟨w, hw, sp, mem_lang_star_char_iff.mpr hsp, rfl⟩, [':'],
      ⟨':', rfl, rfl⟩, rfl⟩, hPast⟩

theorem take_length_sub_dropWhile {α : Type*} (p : α → Bool) (xs : List α) :
    xs.take (xs.length - (xs.dropWhile p).length) = xs.takeWhile p := by
  have hLength := congrArg List.length (List.takeWhile_append_dropWhile (p := p) (l := xs))
  rw [List.length_append] at hLength
  have hCount : xs.length - (xs.dropWhile p).length = (xs.takeWhile p).length := by omega
  rw [hCount]
  exact (List.prefix_iff_eq_take.mp (List.takeWhile_prefix p)).symm

/-- Behind the colon, the value is what the line holds after the white space. -/
theorem captureAt_of_ends (hT : T.Separates) {c : Cursor} {B : List Char}
    (hSome : ends T (toColon T label) c ≠ [])
    (hAll : ∀ d ∈ ends T (toColon T label) c, d.after = B)
    (hValue : B.dropWhile T.isSpace ≠ []) :
    captureAt T (.seq (toColon T label) (spaces T)) restOfLine c =
      some ((B.dropWhile T.isSpace).takeWhile (· != '\n')) := by
  obtain ⟨d, ds, hEnds⟩ := List.exists_cons_of_ne_nil hSome
  obtain ⟨y, ys, hRest⟩ := List.exists_cons_of_ne_nil hValue
  have hy : T.isSpace y = false := by
    have hHead := List.head_dropWhile_not T.isSpace hValue
    simpa only [hRest, List.head_cons] using hHead
  have hBreak : (y != '\n') = true := by
    rw [bne_iff_ne]
    rintro rfl
    rw [hT.newline] at hy
    exact Bool.noConfusion hy
  have hHead : ((ends T (toColon T label) c).flatMap (ends T (spaces T))).head? =
      some ⟨(B.takeWhile T.isSpace).reverse ++ d.before, y :: ys⟩ := by
    apply head?_flatMap_of_head? (a := d) (by rw [hEnds]; rfl)
    have hAfter := hAll d (by rw [hEnds]; exact List.mem_cons_self)
    have hLongest := head_ends_star_char T T.isSpace d.before d.after
    rw [hAfter, hRest] at hLongest
    rw [← hLongest, ← hAfter]
    rfl
  apply head?_flatMap_of_head? hHead
  rw [List.head?_map, hRest]
  have hEnd := head_ends_star_char T (· != '\n') (y :: ((B.takeWhile T.isSpace).reverse ++ d.before)) ys
  have hGroup : ∀ before : List Char, ends T restOfLine ⟨before, y :: ys⟩ =
      ends T (.star (.char (· != '\n'))) ⟨y :: before, ys⟩ := by
    intro before
    have hOne : ends T (.char (· != '\n')) ⟨before, y :: ys⟩ = [⟨y :: before, ys⟩] := if_pos hBreak
    rw [restOfLine, Regex.plus, ends, hOne, List.flatMap_singleton]
  rw [hGroup, hEnd, Option.map_some, textBetween]
  have hTake := take_length_sub_dropWhile (· != '\n') (y :: ys)
  rw [List.dropWhile_cons_of_pos (p := (· != '\n')) hBreak] at hTake
  rw [hTake]

/-- The first colon that a word of the label precedes is the one that is read. -/
theorem capture_of_first (hT : T.Separates) (hLabel : label.ContextFree)
    (hColon : ∀ w ∈ label.lang, ':' ∉ w) (hNonempty : [] ∉ label.lang) {A B : List Char}
    (hHit : EndsWith T label A)
    (hFirst : ∀ a b, A = a ++ ':' :: b → ¬ EndsWith T label a)
    (hValue : B.dropWhile T.isSpace ≠ []) :
    capture T (.seq (toColon T label) (spaces T)) restOfLine (A ++ ':' :: B) =
      some ((B.dropWhile T.isSpace).takeWhile (· != '\n')) := by
  unfold capture
  -- the cursors before the match find nothing; the cursor of the match is the first that does
  generalize ([] : List Char) = before
  induction A generalizing before with
  | nil =>
      obtain ⟨a, w, sp, hNil, hw, -⟩ := hHit
      obtain ⟨-, hNil'⟩ := List.append_eq_nil_iff.mp hNil.symm
      obtain ⟨rfl, -⟩ := List.append_eq_nil_iff.mp hNil'
      exact absurd hw hNonempty
  | cons x A ih =>
      have hAfter : ∀ d ∈ ends T (toColon T label) ⟨before, x :: A ++ ':' :: B⟩, d.after = B := by
        intro d hd
        obtain ⟨w, sp, hw, hsp, hPast, -⟩ := (mem_ends_toColon_iff hLabel).mp hd
        have hNoColon : ':' ∉ w ++ sp := by
          intro hMem
          rcases List.mem_append.mp hMem with hMem | hMem
          · exact hColon w hw hMem
          · exact Bool.noConfusion ((hsp _ hMem).symm.trans hT.colon)
        have hSplit : x :: A ++ ':' :: B = (w ++ sp) ++ ':' :: d.after := by
          have hWhole : x :: A ++ ':' :: B = w ++ sp ++ [':'] ++ d.after := hPast
          rw [hWhole, List.append_assoc (w ++ sp)]
          rfl
        rcases List.append_eq_append_iff.mp hSplit with ⟨as, hWord, hTail⟩ | ⟨as, hLonger, hTail⟩
        · cases as with
          | nil => exact (List.cons.inj hTail).2.symm
          | cons y as =>
              rw [← (List.cons.inj hTail).1] at hWord
              exact absurd (hWord ▸ List.mem_append_right _ List.mem_cons_self) hNoColon
        · cases as with
          | nil => exact (List.cons.inj hTail).2
          | cons y as =>
              rw [← (List.cons.inj hTail).1] at hLonger
              exact absurd ⟨[], w, sp, rfl, hw, hsp⟩ (hFirst _ _ hLonger)
      by_cases hHere : ends T (toColon T label) ⟨before, x :: A ++ ':' :: B⟩ = []
      · have hNone : captureAt T (.seq (toColon T label) (spaces T)) restOfLine
            ⟨before, x :: A ++ ':' :: B⟩ = none := by
          rw [captureAt, ends, hHere]
          rfl
        rw [List.cons_append, cursors, List.findSome?_cons]
        rw [List.cons_append] at hNone
        rw [hNone]
        refine ih ?_ (fun a b hA hEnds => hFirst (x :: a) b (by rw [hA]; rfl) (hEnds.append [x])) _
        obtain ⟨a, w, sp, hA, hw, hsp⟩ := hHit
        cases a with
        | nil =>
            have hMem : (⟨':' :: (w ++ sp).reverse ++ before, B⟩ : Cursor) ∈
                ends T (toColon T label) ⟨before, x :: A ++ ':' :: B⟩ := by
              refine (mem_ends_toColon_iff hLabel).mpr ⟨w, sp, hw, hsp, ?_, ?_⟩
              · rw [hA, List.append_assoc (w ++ sp)]
                rfl
              · exact (congrArg (· ++ before) List.reverse_concat).symm
            rw [hHere] at hMem
            exact absurd hMem List.not_mem_nil
        | cons y a => exact ⟨a, w, sp, (List.cons.inj hA).2, hw, hsp⟩
      · have hValueAt := captureAt_of_ends hT hHere hAfter hValue
        rw [List.cons_append, cursors, List.findSome?_cons]
        rw [List.cons_append] at hValueAt
        rw [hValueAt]

theorem of_mem_cursors {before s : List Char} {c : Cursor} (hc : c ∈ cursors before s) :
    c.before.reverse ++ c.after = before.reverse ++ s := by
  induction s generalizing before with
  | nil =>
      rw [List.mem_singleton.mp hc]
  | cons x s ih =>
      rcases List.mem_cons.mp hc with rfl | hc
      · rfl
      · rw [ih hc, List.reverse_cons, List.append_assoc]
        rfl

theorem capture_eq_none (hLabel : label.ContextFree) {s : List Char}
    (h : ∀ a b, s = a ++ ':' :: b → ¬ EndsWith T label a) :
    capture T (.seq (toColon T label) (spaces T)) restOfLine s = none := by
  apply List.findSome?_eq_none_iff.mpr
  intro c hc
  have hNone : ends T (toColon T label) c = [] := by
    apply List.eq_nil_iff_forall_not_mem.mpr
    intro d hd
    obtain ⟨w, sp, hw, hsp, hPast, -⟩ := (mem_ends_toColon_iff hLabel).mp hd
    have hText : s = (c.before.reverse ++ (w ++ sp)) ++ ':' :: d.after := by
      rw [← List.nil_append s, ← List.reverse_nil, ← of_mem_cursors hc, hPast]
      simp only [List.append_assoc, List.singleton_append]
    exact h _ _ hText ⟨c.before.reverse, w, sp, rfl, hw, hsp⟩
  rw [captureAt, ends, hNone]
  rfl

end Search

/-! ## Labels -/

/-- Whether a text begins with a pattern, whatever may follow it; no answer where that matters. -/
def prefixTest (pattern s : List Char) : Option Bool :=
  if pattern.isPrefixOf s then some true
  else if s.isPrefixOf pattern then none
  else some false

theorem prefixTest_iff {pattern s : List Char} {hit : Bool} (h : prefixTest pattern s = some hit)
    (rest : List Char) : pattern <+: s ++ rest ↔ hit = true := by
  unfold prefixTest at h
  split at h
  · rename_i hPrefix
    cases h
    exact iff_of_true ((List.isPrefixOf_iff_prefix.mp hPrefix).trans (List.prefix_append s rest)) rfl
  · rename_i hNot
    split at h
    · exact absurd h (Option.some_ne_none hit).symm
    · rename_i hNot'
      cases h
      refine iff_of_false (fun hPrefix => ?_) Bool.false_ne_true
      rcases List.prefix_or_prefix_of_prefix hPrefix (List.prefix_append s rest) with hIn | hIn
      · exact hNot (List.isPrefixOf_iff_prefix.mpr hIn)
      · exact hNot' (List.isPrefixOf_iff_prefix.mpr hIn)

theorem prefixTest_nil {pattern : List Char} (h : pattern ≠ []) : prefixTest pattern [] = none := by
  cases pattern with
  | nil => exact absurd rfl h
  | cons x xs => rfl

/-- The end of a text, reversed and without white space. -/
def ending (T : CharTables) (s : List Char) : List Char := s.reverse.dropWhile T.isSpace

/-- A label of a reader, with the test of the texts it ends, read from the end. -/
structure Label (T : CharTables) where
  pattern : Regex
  contextFree : pattern.ContextFree
  test : List Char → Option Bool
  colon_notMem : ∀ w ∈ pattern.lang, ':' ∉ w
  nil_notMem : [] ∉ pattern.lang
  test_iff : ∀ {s : List Char} {hit : Bool}, test (ending T s) = some hit →
    ∀ before : List Char, EndsWith T pattern (before ++ s) ↔ hit = true

theorem ending_append {T : CharTables} {s : List Char} (h : ending T s ≠ []) (before : List Char) :
    ending T (before ++ s) = ending T s ++ before.reverse := by
  unfold ending at h ⊢
  rw [List.reverse_append, List.dropWhile_append, if_neg]
  rwa [List.isEmpty_iff]

section Words

variable {T : CharTables}

theorem eq_ending_append (T : CharTables) (s : List Char) :
    ∃ sp, s = (ending T s).reverse ++ sp ∧ ∀ x ∈ sp, T.isSpace x = true := by
  refine ⟨(s.reverse.takeWhile T.isSpace).reverse, ?_, ?_⟩
  · rw [ending, ← List.reverse_append, List.takeWhile_append_dropWhile, List.reverse_reverse]
  · intro x hx
    exact List.all_eq_true.mp List.all_takeWhile x (List.mem_reverse.mp hx)

theorem ending_append_spaces {w sp : List Char} (hw : w ≠ []) (hEnd : ending T w = w.reverse)
    (hsp : ∀ x ∈ sp, T.isSpace x = true) (a : List Char) :
    ending T (a ++ (w ++ sp)) = w.reverse ++ a.reverse := by
  have hNonempty : ending T w ≠ [] := by
    rw [hEnd]
    exact fun h => hw (List.reverse_eq_nil_iff.mp h)
  have hWord : ending T (w ++ sp) = w.reverse := by
    rw [ending, List.reverse_append, List.dropWhile_append_of_pos fun x hx =>
      hsp x (List.mem_reverse.mp hx)]
    exact hEnd
  rw [ending_append (by rwa [hWord, ← hEnd]), hWord]

theorem endsWith_literal_iff {w : List Char} (hw : w ≠ []) (hEnd : ending T w = w.reverse)
    {s : List Char} :
    EndsWith T (literal (· == ·) w) s ↔ w.reverse <+: ending T s := by
  constructor
  · rintro ⟨a, w', sp, rfl, hw', hsp⟩
    obtain rfl := mem_lang_literal_iff.mp hw'
    rw [ending_append_spaces hw hEnd hsp]
    exact List.prefix_append _ _
  · rintro ⟨rest, hRest⟩
    obtain ⟨sp, hs, hsp⟩ := eq_ending_append T s
    refine ⟨rest.reverse, w, sp, ?_, mem_lang_literal_iff.mpr rfl, hsp⟩
    rw [hs, ← hRest, List.reverse_append, List.reverse_reverse, List.append_assoc]

def Label.text (w : List Char) (hw : w ≠ []) (hEnd : ending T w = w.reverse) (hColon : ':' ∉ w) :
    Label T where
  pattern := literal (· == ·) w
  contextFree := contextFree_literal _ w
  test := prefixTest w.reverse
  colon_notMem := fun _ hMem => mem_lang_literal_iff.mp hMem ▸ hColon
  nil_notMem := fun hMem => hw (mem_lang_literal_iff.mp hMem).symm
  test_iff := by
    intro s hit hTest before
    have hNonempty : ending T s ≠ [] := by
      intro hNil
      rw [hNil, prefixTest_nil fun h => hw (List.reverse_eq_nil_iff.mp h)] at hTest
      exact Option.some_ne_none hit hTest.symm
    rw [endsWith_literal_iff hw hEnd, ending_append hNonempty]
    exact prefixTest_iff hTest before.reverse

/-- `FIRST\s+SECOND`. -/
def twoWords (T : CharTables) (first second : List Char) : Regex :=
  .seq (literal (· == ·) first) (.seq (.plus (.char T.isSpace)) (literal (· == ·) second))

theorem mem_lang_twoWords_iff {first second w : List Char} :
    w ∈ (twoWords T first second).lang ↔
      ∃ sp, sp ≠ [] ∧ (∀ x ∈ sp, T.isSpace x = true) ∧ w = first ++ (sp ++ second) := by
  constructor
  · rintro ⟨u, hu, _, ⟨_, ⟨_, ⟨x, rfl, hx⟩, sp, hsp, rfl⟩, v, hv, rfl⟩, rfl⟩
    rw [mem_lang_literal_iff.mp hu, mem_lang_literal_iff.mp hv]
    refine ⟨x :: sp, List.cons_ne_nil x sp, ?_, rfl⟩
    intro y hy
    rcases List.mem_cons.mp hy with rfl | hy
    · exact hx
    · exact mem_lang_star_char_iff.mp hsp y hy
  · rintro ⟨sp, hNonempty, hsp, rfl⟩
    obtain ⟨x, sp, rfl⟩ := List.exists_cons_of_ne_nil hNonempty
    refine ⟨first, mem_lang_literal_iff.mpr rfl, _, ⟨x :: sp, ⟨[x], ⟨x, rfl, ?_⟩, sp, ?_, rfl⟩, second,
      mem_lang_literal_iff.mpr rfl, rfl⟩, rfl⟩
    · exact hsp x List.mem_cons_self
    · exact mem_lang_star_char_iff.mpr fun y hy => hsp y (List.mem_cons_of_mem x hy)

theorem endsWith_twoWords_iff {first second : List Char} (hSecond : second ≠ [])
    (hEnd : ending T second = second.reverse) {s : List Char} :
    EndsWith T (twoWords T first second) s ↔
      ∃ sp, sp ≠ [] ∧ (∀ x ∈ sp, T.isSpace x = true) ∧
        second.reverse ++ (sp ++ first.reverse) <+: ending T s := by
  constructor
  · rintro ⟨a, w, sp', rfl, hw, hsp'⟩
    obtain ⟨sp, hNonempty, hsp, rfl⟩ := mem_lang_twoWords_iff.mp hw
    refine ⟨sp.reverse, fun h => hNonempty (List.reverse_eq_nil_iff.mp h),
      fun x hx => hsp x (List.mem_reverse.mp hx), a.reverse, ?_⟩
    have hText : a ++ (first ++ (sp ++ second) ++ sp') = (a ++ (first ++ sp)) ++ (second ++ sp') := by
      simp only [List.append_assoc]
    rw [hText, ending_append_spaces hSecond hEnd hsp']
    simp only [List.reverse_append, List.append_assoc]
  · rintro ⟨sp, hNonempty, hsp, rest, hRest⟩
    obtain ⟨sp', hs, hsp'⟩ := eq_ending_append T s
    refine ⟨rest.reverse, first ++ (sp.reverse ++ second), sp', ?_, ?_, hsp'⟩
    · rw [hs, ← hRest]
      simp only [List.reverse_append, List.reverse_reverse, List.append_assoc]
    · exact mem_lang_twoWords_iff.mpr ⟨sp.reverse, fun h => hNonempty (List.reverse_eq_nil_iff.mp h),
        fun x hx => hsp x (List.mem_reverse.mp hx), rfl⟩

def twoWordsTest (T : CharTables) (first second s : List Char) : Option Bool :=
  match prefixTest second.reverse s with
  | some true =>
      match s.drop second.length with
      | [] => none
      | x :: rest =>
          if T.isSpace x then prefixTest first.reverse (rest.dropWhile T.isSpace) else some false
  | answer => answer

/-- White space before a word that does not begin with any. -/
theorem spaces_append_prefix_iff {w : List Char} (hw : ending T w.reverse = w) (hNonempty : w ≠ [])
    {x : Char} (hx : T.isSpace x = true) {s : List Char} :
    (∃ sp, sp ≠ [] ∧ (∀ y ∈ sp, T.isSpace y = true) ∧ sp ++ w <+: x :: s) ↔
      w <+: s.dropWhile T.isSpace := by
  have hDrop : w.dropWhile T.isSpace = w := by
    rwa [ending, List.reverse_reverse] at hw
  constructor
  · rintro ⟨sp, hsp, hAll, rest, hRest⟩
    obtain ⟨y, sp, rfl⟩ := List.exists_cons_of_ne_nil hsp
    obtain ⟨-, rfl⟩ := List.cons.inj hRest
    change w <+: (sp ++ w ++ rest).dropWhile T.isSpace
    rw [List.append_assoc, List.dropWhile_append_of_pos fun z hz => hAll z (List.mem_cons_of_mem y hz),
      List.dropWhile_append, hDrop, if_neg]
    · exact List.prefix_append w rest
    · rwa [List.isEmpty_iff]
  · rintro ⟨rest, hRest⟩
    refine ⟨x :: s.takeWhile T.isSpace, List.cons_ne_nil x _, ?_, rest, ?_⟩
    · intro y hy
      rcases List.mem_cons.mp hy with rfl | hy
      · exact hx
      · exact List.all_eq_true.mp List.all_takeWhile y hy
    · rw [List.append_assoc, hRest, List.cons_append, List.takeWhile_append_dropWhile]

def Label.twoWords (first second : List Char) (hFirst : first ≠ [])
    (hFirstEnd : ending T first = first.reverse) (hFirstColon : ':' ∉ first) (hSecond : second ≠ [])
    (hSecondEnd : ending T second = second.reverse) (hSecondColon : ':' ∉ second)
    (hT : T.Separates) : Label T where
  pattern := Library.twoWords T first second
  contextFree := ⟨contextFree_literal _ first, ⟨trivial, trivial⟩, contextFree_literal _ second⟩
  test := twoWordsTest T first second
  colon_notMem := by
    intro w hw hMem
    obtain ⟨sp, -, hsp, rfl⟩ := mem_lang_twoWords_iff.mp hw
    rcases List.mem_append.mp hMem with hMem | hMem
    · exact hFirstColon hMem
    · rcases List.mem_append.mp hMem with hMem | hMem
      · exact Bool.noConfusion ((hsp _ hMem).symm.trans hT.colon)
      · exact hSecondColon hMem
  nil_notMem := by
    intro hNil
    obtain ⟨sp, -, -, hw⟩ := mem_lang_twoWords_iff.mp hNil
    exact hFirst (List.append_eq_nil_iff.mp hw.symm).1
  test_iff := by
    intro s hit hTest before
    have hFirstRev : first.reverse ≠ [] := fun h => hFirst (List.reverse_eq_nil_iff.mp h)
    have hSecondRev : second.reverse ≠ [] := fun h => hSecond (List.reverse_eq_nil_iff.mp h)
    unfold twoWordsTest at hTest
    have hNonempty : ending T s ≠ [] := by
      intro hNil
      rw [hNil, prefixTest_nil hSecondRev] at hTest
      exact Option.some_ne_none hit hTest.symm
    rw [endsWith_twoWords_iff hSecond hSecondEnd, ending_append hNonempty]
    cases hAnswer : prefixTest second.reverse (ending T s) with
    | none =>
        rw [hAnswer] at hTest
        exact absurd hTest.symm (Option.some_ne_none hit)
    | some found =>
        have hFound := fun rest => prefixTest_iff hAnswer rest
        rw [hAnswer] at hTest
        cases found with
        | false =>
            cases hTest
            refine iff_of_false ?_ Bool.false_ne_true
            rintro ⟨sp, -, -, hPrefix⟩
            exact Bool.false_ne_true ((hFound _).mp ((List.prefix_append _ _).trans hPrefix))
        | true =>
            -- the second word is read: the white space before it, and the first word
            obtain ⟨rest, hRest⟩ : second.reverse <+: ending T s := by
              have hSelf := (hFound []).mpr rfl
              rwa [List.append_nil] at hSelf
            have hDrop : (ending T s).drop second.length = rest := by
              rw [← hRest, ← List.length_reverse, List.drop_left]
            simp only [hDrop] at hTest
            rw [← hRest]
            simp only [List.append_assoc, List.prefix_append_right_inj]
            cases rest with
            | nil => exact absurd hTest.symm (Option.some_ne_none hit)
            | cons x rest =>
                simp only at hTest
                split at hTest
                · rename_i hx
                  rw [List.cons_append, spaces_append_prefix_iff
                    (by rw [List.reverse_reverse]; exact hFirstEnd) hFirstRev hx,
                    List.dropWhile_append, if_neg]
                  · exact prefixTest_iff hTest before.reverse
                  · intro hEmpty
                    rw [List.isEmpty_iff.mp hEmpty, prefixTest_nil hFirstRev] at hTest
                    exact Option.some_ne_none hit hTest.symm
                · rename_i hx
                  cases hTest
                  refine iff_of_false ?_ Bool.false_ne_true
                  rintro ⟨sp, hsp, hAll, hPrefix⟩
                  obtain ⟨y, sp, rfl⟩ := List.exists_cons_of_ne_nil hsp
                  obtain ⟨tail, hTail⟩ := hPrefix
                  rw [← (List.cons.inj hTail).1] at hx
                  exact hx (hAll y List.mem_cons_self)

end Words

/-! ## Entries -/

/-- A line of a text, or a `NAME: VALUE` line. -/
inductive TextEntry where
  | plain (text : List Char)
  | field (name value : List Char)

namespace TextEntry

def render : TextEntry → List Char
  | plain text => text ++ ['\n']
  | field name value => name ++ ':' :: ' ' :: value ++ ['\n']

end TextEntry

def renderEntries (entries : List TextEntry) : List Char := entries.flatMap TextEntry.render

/-- A value that stands on one line with no white space around it. -/
structure Tidy (T : CharTables) (value : List Char) : Prop where
  nonempty : value ≠ []
  line : '\n' ∉ value
  start : value.dropWhile T.isSpace = value
  stop : ending T value = value.reverse

theorem Tidy.join {T : CharTables} {s m t : List Char} (hs : Tidy T s) (hm : '\n' ∉ m)
    (ht : Tidy T t) : Tidy T (s ++ (m ++ t)) where
  nonempty := fun h => hs.nonempty (List.append_eq_nil_iff.mp h).1
  line := by
    simp only [List.mem_append, not_or]
    exact ⟨hs.line, hm, ht.line⟩
  start := by
    rw [List.dropWhile_append, hs.start, if_neg]
    rw [List.isEmpty_iff]
    exact hs.nonempty
  stop := by
    have hEnd : ending T t ≠ [] := by
      rw [ht.stop]
      exact fun h => ht.nonempty (List.reverse_eq_nil_iff.mp h)
    rw [← List.append_assoc, ending_append hEnd, ht.stop, ← List.reverse_append]

section Entries

variable {T : CharTables} (L : Label T)

/-- No colon of the text is preceded by the label, whatever stands before the text. -/
def Quiet (s : List Char) : Prop :=
  ∀ before a b : List Char, s = a ++ ':' :: b → ¬ EndsWith T L.pattern (before ++ a)

variable {L}

theorem quiet_of_notMem {s : List Char} (h : ':' ∉ s) : Quiet L s := by
  intro before a b hs
  rw [hs] at h
  exact absurd (List.mem_append_right a List.mem_cons_self) h

theorem Quiet.append {s t : List Char} (hs : Quiet L s) (ht : Quiet L t) : Quiet L (s ++ t) := by
  intro before a b hSplit
  rcases List.append_eq_append_iff.mp hSplit with ⟨as, rfl, ht'⟩ | ⟨as, hs', hb⟩
  · rw [← List.append_assoc]
    exact ht (before ++ s) as b ht'
  · cases as with
    | nil =>
        rw [List.append_nil] at hs'
        subst hs'
        have hEmpty := ht (before ++ s) [] b hb.symm
        rwa [List.append_nil] at hEmpty
    | cons y as =>
        rw [← (List.cons.inj hb).1] at hs'
        exact hs before a as hs'

theorem quiet_colon {s : List Char} (hs : ':' ∉ s) (hTest : L.test (ending T s) = some false) :
    Quiet L (s ++ [':']) := by
  intro before a b hSplit
  have hOnce : ':' ∉ a := by
    intro hMem
    -- a second colon would stand behind the one at the end
    have hCount := congrArg (List.count ':') hSplit
    rw [List.count_append, List.count_append, List.count_cons_self,
      List.count_eq_zero.mpr hs] at hCount
    have hPos := List.count_pos_iff.mpr hMem
    simp only [List.count_cons_self, List.count_nil] at hCount
    omega
  have hBoth : s = a ∧ [] = b := append_sep_inj hs hOnce hSplit
  rw [← hBoth.1]
  exact fun hEnds => Bool.false_ne_true ((L.test_iff hTest before).mp hEnds)

theorem quiet_of_colon {a s b : List Char} (ha : ':' ∉ a) (hs : ':' ∉ s)
    (hTest : L.test (ending T s) = some false) (hb : Quiet L b) : Quiet L (a ++ (s ++ ':' :: b)) := by
  have hMiddle := (quiet_colon hs hTest).append hb
  rw [List.append_assoc] at hMiddle
  exact (quiet_of_notMem ha).append hMiddle

variable (L) in
/-- What the reader of a label has to know of an entry: the name decides whether it is read. -/
def TextEntry.Clear : TextEntry → Prop
  | .plain text => Quiet L text
  | .field name value =>
      ':' ∉ name ∧ (L.test (ending T name)).isSome ∧ Tidy T value ∧ Quiet L value

variable (L) in
/-- The value of an entry whose name ends with the label. -/
def TextEntry.read : TextEntry → Option (List Char)
  | .plain _ => none
  | .field name value => if L.test (ending T name) = some true then some value else none

theorem TextEntry.Clear.quiet {e : TextEntry} (h : e.Clear L) (hNone : e.read L = none) :
    Quiet L e.render := by
  have hBreak : Quiet L ['\n'] := quiet_of_notMem (by decide)
  cases e with
  | plain text => exact Quiet.append h hBreak
  | field name value =>
      obtain ⟨hName, hTest, -, hValue⟩ := h
      obtain ⟨hit, hHit⟩ := Option.isSome_iff_exists.mp hTest
      have hFalse : hit = false := by
        cases hit with
        | false => rfl
        | true =>
            rw [TextEntry.read, if_pos hHit] at hNone
            exact absurd hNone (Option.some_ne_none value)
      rw [hFalse] at hHit
      have hBlank : Quiet L [' '] := quiet_of_notMem (by decide)
      have hAll := (((quiet_colon hName hHit).append hBlank).append hValue).append hBreak
      have hText : name ++ [':'] ++ [' '] ++ value ++ ['\n'] = (field name value).render := by
        simp only [TextEntry.render, List.append_assoc, List.cons_append, List.nil_append]
      rwa [hText] at hAll

theorem quiet_renderEntries {entries : List TextEntry} (h : ∀ e ∈ entries, Quiet L e.render) :
    Quiet L (renderEntries entries) := by
  induction entries with
  | nil => exact quiet_of_notMem List.not_mem_nil
  | cons e entries ih =>
      exact (h e List.mem_cons_self).append (ih fun e' he' => h e' (List.mem_cons_of_mem e he'))

theorem strip_of_tidy {value : List Char} (h : Tidy T value) : strip T value = value := by
  rw [strip, h.start]
  exact (congrArg List.reverse h.stop).trans value.reverse_reverse

/-- A label reads the value of the first entry whose name ends with it. -/
theorem labelled_render (hT : T.Separates) {entries : List TextEntry}
    (hClear : ∀ e ∈ entries, e.Clear L) {rest : List Char} (hRest : Quiet L rest) :
    labelled T L.pattern (renderEntries entries ++ rest) = entries.findSome? (TextEntry.read L) := by
  cases hFound : entries.findSome? (TextEntry.read L) with
  | none =>
      have hNone := List.findSome?_eq_none_iff.mp hFound
      have hQuiet := (quiet_renderEntries fun e he => (hClear e he).quiet (hNone e he)).append hRest
      rw [labelled, capture_eq_none L.contextFree fun a b hText => hQuiet [] a b hText]
      rfl
  | some value =>
      obtain ⟨before, e, behind, rfl, hRead, hNone⟩ := List.findSome?_eq_some_iff.mp hFound
      cases e with
      | plain text => exact absurd hRead (Option.some_ne_none value).symm
      | field name value' =>
          obtain ⟨hName, -, hTidy, -⟩ := hClear (.field name value') (by simp)
          rw [TextEntry.read] at hRead
          split at hRead
          · rename_i hTest
            cases hRead
            have hBefore := quiet_renderEntries fun e he =>
              (hClear e (List.mem_append_left _ he)).quiet (hNone e he)
            have hNameQuiet : Quiet L name := quiet_of_notMem hName
            have hText : renderEntries (before ++ .field name value :: behind) ++ rest =
                (renderEntries before ++ name) ++
                  ':' :: (' ' :: (value ++ '\n' :: (renderEntries behind ++ rest))) := by
              simp only [renderEntries, List.flatMap_append, List.flatMap_cons, TextEntry.render,
                List.append_assoc, List.cons_append, List.nil_append]
            obtain ⟨x, xs, hValue⟩ := List.exists_cons_of_ne_nil hTidy.nonempty
            have hDrop : (' ' :: (value ++ '\n' :: (renderEntries behind ++ rest))).dropWhile
                T.isSpace = value ++ '\n' :: (renderEntries behind ++ rest) := by
              rw [List.dropWhile_cons_of_pos hT.blank, List.dropWhile_append, hTidy.start, if_neg]
              rw [hValue]
              exact Bool.false_ne_true
            have hLine : (value ++ '\n' :: (renderEntries behind ++ rest)).takeWhile (· != '\n') =
                value := by
              rw [List.takeWhile_append_of_pos]
              · simp
              · intro y hy
                rw [bne_iff_ne]
                rintro rfl
                exact hTidy.line hy
            rw [labelled, hText, capture_of_first hT L.contextFree L.colon_notMem L.nil_notMem
              ((L.test_iff hTest _).mpr rfl) (fun a b hSplit => (hBefore.append hNameQuiet) [] a b
                hSplit) (by rw [hDrop, hValue]; exact List.cons_ne_nil _ _), hDrop, hLine]
            exact congrArg some (strip_of_tidy hTidy)
          · exact absurd hRead (Option.some_ne_none value).symm

/-- The name and the value of a field. -/
def TextEntry.pair : TextEntry → Option (List Char × List Char)
  | .plain _ => none
  | .field name value => some (name, value)

/-- A label whose first name is known reads the value there. -/
theorem findSome?_read {entries : List TextEntry} {i : Nat}
    (hFirst : ((entries.filterMap TextEntry.pair).map Prod.fst).findIdx?
      (fun name => L.test (ending T name) = some true) = some i) :
    entries.findSome? (TextEntry.read L) = ((entries.filterMap TextEntry.pair)[i]?).map Prod.snd := by
  induction entries generalizing i with
  | nil => exact absurd hFirst.symm (Option.some_ne_none i)
  | cons e entries ih =>
      cases e with
      | plain text => exact ih hFirst
      | field name value =>
          have hPairs : (TextEntry.field name value :: entries).filterMap TextEntry.pair =
              (name, value) :: entries.filterMap TextEntry.pair := rfl
          rw [hPairs, List.map_cons, List.findIdx?_cons] at hFirst
          rw [hPairs, List.findSome?_cons, TextEntry.read]
          by_cases hHere : L.test (ending T name) = some true
          · rw [if_pos (decide_eq_true hHere)] at hFirst
            rw [if_pos hHere]
            cases hFirst
            rfl
          · rw [if_neg (by rwa [decide_eq_true_eq])] at hFirst
            obtain ⟨j, hj, rfl⟩ := Option.map_eq_some_iff.mp hFirst
            rw [if_neg hHere]
            exact ih hj

/-- A label that ends one name of a set of names reads the field of that name. -/
theorem findSome?_read_eq_lookup {entries : List TextEntry} {names : List (List Char)} {own : List Char}
    (hTest : ∀ name ∈ names, L.test (ending T name) = some (name == own))
    (hNames : ∀ f ∈ entries.filterMap TextEntry.pair, f.1 ∈ names) :
    entries.findSome? (TextEntry.read L) = (entries.filterMap TextEntry.pair).lookup own := by
  induction entries with
  | nil => rfl
  | cons e entries ih =>
      cases e with
      | plain text => exact ih hNames
      | field name value =>
          have hPairs : (TextEntry.field name value :: entries).filterMap TextEntry.pair =
              (name, value) :: entries.filterMap TextEntry.pair := rfl
          rw [hPairs] at hNames
          have hHere := hTest name (hNames (name, value) List.mem_cons_self)
          have hRest := ih fun f hf => hNames f (List.mem_cons_of_mem _ hf)
          rw [hPairs, List.findSome?_cons, List.lookup_cons, TextEntry.read, hHere, BEq.comm]
          cases own == name with
          | true => rfl
          | false => exact hRest

end Entries

end AsetPlatform.Library

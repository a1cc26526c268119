import Mathlib.Algebra.Order.BigOperators.Group.List
import AsetPlatform.ScreenQL.Lexemes
import AsetPlatform.ScreenQL.Statements

/-!
# Line breaks in a query

`Breaks T q first lines` is that the query `q` is cut at token boundaries into the texts of a first
line and of the lines behind it; each cut is beside a connective or a parenthesis, or takes the place
of an AND. `written` is the text on its lines, with any indentation and any blank lines.

`tokenize` puts an AND between two lines unless the second starts with a connective and a blank. The
tokens of a sentence have one connective less than fields, and no two connectives side by side
(`Derives.balance`, `Derives.connectives_apart`), so that the lines mean the query exactly if each
line behind a cut beside a token starts in that way (`parses_alike_iff`).
-/

set_option autoImplicit false

namespace AsetPlatform.ScreenQL

open AsetPlatform.Library AsetPlatform.Library.Sql

/-! ## Connectives of a sentence -/

def TokenKind.isConnective : TokenKind → Bool
  | .and | .or => true
  | _ => false

def TokenKind.isField : TokenKind → Bool
  | .field _ => true
  | _ => false

section Sentences

variable {T : CharTables} {level : Level} {ts us : List TokenKind} {n : ASTNode}

theorem Derives.balance (h : Derives T level ts n) :
    ts.countP TokenKind.isConnective + 1 = ts.countP TokenKind.isField := by
  induction h with
  | orSingle _ ih => exact ih
  | andSingle _ ih => exact ih
  | orMore _ _ ihl ihr =>
      simp only [List.countP_append, List.countP_cons, TokenKind.isConnective, TokenKind.isField,
        if_true, Bool.false_eq_true, if_false]
      omega
  | andMore _ _ ihl ihr =>
      simp only [List.countP_append, List.countP_cons, TokenKind.isConnective, TokenKind.isField,
        if_true, Bool.false_eq_true, if_false]
      omega
  | paren _ ih =>
      simp only [List.countP_append, List.cons_append, List.countP_cons, List.countP_nil,
        TokenKind.isConnective, TokenKind.isField, Bool.false_eq_true, if_false]
      omega
  | condition c _ =>
      obtain ⟨_, o, v, _, _, _, _⟩ := c
      cases o <;> cases v <;> rfl

/-- Of two neighbours, at most one is a connective. -/
def Loose (k k' : TokenKind) : Prop := ¬ (k.isConnective = true ∧ k'.isConnective = true)

/-- Connectives stand neither at the ends nor side by side. -/
structure Spread (ts : List TokenKind) : Prop where
  head : ∀ k ∈ ts.head?, k.isConnective = false
  last : ∀ k ∈ ts.getLast?, k.isConnective = false
  chain : ts.IsChain Loose

theorem Spread.connect {k : TokenKind} (ht : Spread ts) (hu : Spread us) (hts : ts ≠ []) (hus : us ≠ []) :
    Spread (ts ++ k :: us) where
  head := by
    obtain ⟨t, ts, rfl⟩ := List.exists_cons_of_ne_nil hts
    exact ht.head
  last := by
    rw [List.getLast?_append_of_ne_nil ts (List.cons_ne_nil k us), List.getLast?_cons_of_ne_nil hus]
    exact hu.last
  chain := by
    rw [List.isChain_append]
    refine ⟨ht.chain, ?_, ?_⟩
    · rw [List.isChain_cons]
      refine ⟨fun k' hk' h => ?_, hu.chain⟩
      rw [hu.head k' hk'] at h
      cases h.2
    · intro k' hk' k'' hk'' h
      rw [ht.last k' hk'] at h
      cases h.1

theorem Derives.spread (h : Derives T level ts n) : ts ≠ [] ∧ Spread ts := by
  induction h with
  | orSingle _ ih => exact ih
  | andSingle _ ih => exact ih
  | orMore _ _ ihl ihr => exact ⟨by simp, ihl.2.connect ihr.2 ihl.1 ihr.1⟩
  | andMore _ _ ihl ihr => exact ⟨by simp, ihl.2.connect ihr.2 ihl.1 ihr.1⟩
  | paren _ ih => 
      refine ⟨by simp, ⟨fun k hk => ?_, fun k hk => ?_, ?_⟩⟩
      · cases hk
        rfl
      · rw [List.getLast?_concat] at hk
        cases hk
        rfl
      · rw [List.isChain_append]
        refine ⟨?_, List.isChain_singleton _, ?_⟩
        · rw [List.isChain_cons]
          exact ⟨fun k' _ h => Bool.noConfusion h.1, ih.2.chain⟩
        · intro k _ k' hk' h
          cases hk'
          cases h.2
  | condition c _ =>
      obtain ⟨_, o, v, _, _, _, _⟩ := c
      refine ⟨by simp, ⟨fun k hk => ?_, fun k hk => ?_, ?_⟩⟩
      · cases hk
        rfl
      · cases hk
        cases v <;> rfl
      · cases o <;> simp [Loose, TokenKind.isConnective, Operator.token]

end Sentences

/-! ## Cutting a query into lines -/

/-- A line behind the first: the end of the line before it with blank lines and its indentation,
and its text. The cut takes the place of an AND, or no token's. -/
structure Line (T : CharTables) where
  gap : List Char
  inPlace : Bool
  body : List Char
  spaces : ∀ c ∈ gap, T.isSpace c = true
  breaks : ∃ c ∈ gap, isLineBreak c = true

/-- A connective or a parenthesis. -/
def TokenKind.isMark : TokenKind → Bool
  | .and | .or | .lparen | .rparen => true
  | _ => false

/-- The cuts of a query: each is at a token boundary, and there is a token before it. -/
inductive Breaks (T : CharTables) : List Char → List Char → List (Line T) → Prop where
  | last {q : List Char} : strip T q ≠ [] → Breaks T q (strip T q) []
  | beside {p q : List Char} {ks : List TokenKind} {l : Line T} {lines : List (Line T)} :
      Scans T (p ++ q) ks q → ks ≠ [] → l.inPlace = false →
      (∃ k, k.isMark = true ∧ (ks.getLast? = some k ∨ ∃ r, matchToken T q = some (k, r))) →
      Breaks T q l.body lines → Breaks T (p ++ q) (strip T p) (l :: lines)
  | inPlace {p q r : List Char} {ks : List TokenKind} {l : Line T} {lines : List (Line T)} :
      Scans T (p ++ q) ks q → ks ≠ [] → l.inPlace = true → matchToken T q = some (.and, r) →
      Breaks T r l.body lines → Breaks T (p ++ q) (strip T p) (l :: lines)

/-- The query on its lines, with white space before the first and behind the last one. -/
def written {T : CharTables} (before first : List Char) (lines : List (Line T)) (after : List Char) :
    List Char :=
  before ++ first ++ (lines.flatMap fun l => l.gap ++ l.body) ++ after

section Cuts

variable {T : CharTables} {p q rest text : List Char} {k : TokenKind} {ks K : List TokenKind}
  {lines : List (Line T)} {first : List Char}

/-- A text on one line, without white space at its ends. -/
structure Body (T : CharTables) (x : List Char) : Prop where
  start : Opens T x
  visible : Visible T x
  line : ∀ c ∈ x, isLineBreak c = false

theorem rstrip_of_visible (h : Visible T text) : rstrip T text = text := by
  obtain ⟨c, hc, hSpace⟩ := h
  obtain ⟨u, rfl⟩ := List.getLast?_eq_some_iff.mp hc
  exact rstrip_concat hSpace

theorem Body.strip (h : Body T text) : strip T text = text := by
  rw [Library.strip, h.start.dropWhile]
  exact rstrip_of_visible h.visible

theorem Scans.rest_start (h : Scans T text ks rest) (hne : ks ≠ []) :
    rest.dropWhile T.isSpace = rest := by
  induction h with
  | done => exact absurd rfl hne
  | @more text mid rest k ks hMatch hRun ih =>
      cases hRun with
      | done =>
          rw [matchToken_eq] at hMatch
          obtain ⟨r, -, hOut⟩ := Option.map_eq_some_iff.mp hMatch
          cases hOut
          exact dropWhile_idem T.isSpace r.2
      | more _ _ => exact ih (List.cons_ne_nil _ _)

theorem Scans.split (h : Scans T text ks rest) (hAll : Scans T text K []) :
    ∃ ls, K = ks ++ ls ∧ Scans T rest ls [] := by
  induction h generalizing K with
  | done => exact ⟨K, rfl, hAll⟩
  | more hMatch _ ih =>
      cases hAll with
      | done => exact absurd (matchToken_length T hMatch) (Nat.not_lt_zero _)
      | more hMatch' hRun =>
          rw [hMatch] at hMatch'
          cases hMatch'
          obtain ⟨ls, rfl, hRest⟩ := ih hRun
          exact ⟨ls, rfl, hRest⟩

theorem strip_opens {s : List Char} (h : Library.strip T s ≠ []) : Opens T (Library.strip T s) := by
  obtain ⟨w, hs, -⟩ := rstrip_spec T (s.dropWhile T.isSpace)
  have hApart := apart_dropWhile (p := T.isSpace) s
  obtain ⟨c, u, hText⟩ := List.exists_cons_of_ne_nil h
  have hHead : s.dropWhile T.isSpace = c :: u ++ w := hText ▸ hs
  rw [hHead] at hApart
  exact ⟨c, by rw [hText]; rfl, hApart c rfl⟩

theorem strip_visible {s : List Char} (h : Library.strip T s ≠ []) :
    Visible T (Library.strip T s) := by
  have hApart := apart_dropWhile (p := T.isSpace) (s.dropWhile T.isSpace).reverse
  rw [Library.strip] at h ⊢
  cases hRest : (s.dropWhile T.isSpace).reverse.dropWhile T.isSpace with
  | nil => exact absurd (by rw [hRest]; rfl) h
  | cons c u =>
      rw [hRest] at hApart
      rw [List.reverse_cons]
      exact visible_concat (hApart c rfl)

theorem Scans.body (hT : Lexical T) (h : Scans T (p ++ q) ks q) (hne : ks ≠ [])
    (hLine : ∀ c ∈ p, isLineBreak c = false) :
    Body T (Library.strip T p) ∧ Lexes T (Library.strip T p) ks := by
  obtain ⟨before, after, hp, hBefore, hAfter⟩ := strip_spec T p
  have hDrop := h.dropWhile hne
  -- there is a token in the part, so it is not blank
  have hText : Library.strip T p ≠ [] := by
    intro hEmpty
    rw [hp, hEmpty, List.append_nil, List.append_assoc, List.dropWhile_append_of_pos hBefore,
      List.dropWhile_append_of_pos hAfter] at hDrop
    exact hne (hDrop.eq_nil (length_dropWhile_le q))
  have hVisible := strip_visible hText
  refine ⟨⟨strip_opens hText, hVisible, fun c hc => hLine c (mem_of_mem_strip hc)⟩, ?_⟩
  have hEnd : (after ++ q).dropWhile T.isSpace = q := by
    rw [List.dropWhile_append_of_pos hAfter]
    exact h.rest_start hne
  rw [hp, List.append_assoc, List.append_assoc, List.dropWhile_append_of_pos hBefore,
    dropWhile_append_visible hVisible, (strip_opens hText).dropWhile] at hDrop
  apply Scans.lexes hT hVisible (r := after ++ q)
  rwa [hEnd]

/-- The tokens of a line behind the first in the query. -/
def Line.inQuery (r : Line T × List TokenKind) : List TokenKind :=
  (if r.1.inPlace then [.and] else []) ++ r.2

/-- The cuts of a query are at the tokens of the query. -/
theorem Breaks.tokens (hT : Lexical T) (h : Breaks T q first lines)
    (hLine : ∀ c ∈ q, isLineBreak c = false) (hAll : Scans T q K []) :
    ∃ (ks : List TokenKind) (rows : List (Line T × List TokenKind)), lines = rows.map Prod.fst ∧
      Body T first ∧ Lexes T first ks ∧ (∀ r ∈ rows, Body T r.1.body ∧ Lexes T r.1.body r.2) ∧
        K = ks ++ rows.flatMap Line.inQuery := by
  induction h generalizing K with
  | @last q hne =>
      have hK : K ≠ [] := by
        rintro rfl
        cases hAll
        exact hne rfl
      have hBody := Scans.body hT (p := q) (q := []) (by rwa [List.append_nil]) hK hLine
      refine ⟨K, [], rfl, hBody.1, hBody.2, fun r hr => absurd hr List.not_mem_nil, ?_⟩
      rw [List.flatMap_nil, List.append_nil]
  | @beside p q ks l lines hRun hks hFlag _ _ ih =>
      have hp := fun c hc => hLine c (List.mem_append_left q hc)
      have hq := fun c hc => hLine c (List.mem_append_right p hc)
      obtain ⟨ls, rfl, hRest⟩ := hRun.split hAll
      obtain ⟨ks', rows, rfl, hBody, hLexes, hRows, rfl⟩ := ih hq hRest
      obtain ⟨hFirst, hFirstLexes⟩ := hRun.body hT hks hp
      refine ⟨ks, (l, ks') :: rows, rfl, hFirst, hFirstLexes,
        List.forall_mem_cons.mpr ⟨⟨hBody, hLexes⟩, hRows⟩, ?_⟩
      rw [List.flatMap_cons, Line.inQuery, hFlag]
      rfl
  | @inPlace p q r ks l lines hRun hks hFlag hAnd _ ih =>
      have hp := fun c hc => hLine c (List.mem_append_left q hc)
      have hq := fun c hc => hLine c (List.mem_append_right p hc)
      have hr := fun c hc => hq c ((matchToken_suffix hT hAnd).subset hc)
      obtain ⟨ls, rfl, hRest⟩ := hRun.split hAll
      obtain ⟨ms, rfl, hTail⟩ := (Scans.more hAnd .done).split hRest
      obtain ⟨ks', rows, rfl, hBody, hLexes, hRows, rfl⟩ := ih hr hTail
      obtain ⟨hFirst, hFirstLexes⟩ := hRun.body hT hks hp
      refine ⟨ks, (l, ks') :: rows, rfl, hFirst, hFirstLexes,
        List.forall_mem_cons.mpr ⟨⟨hBody, hLexes⟩, hRows⟩, ?_⟩
      rw [List.flatMap_cons, Line.inQuery, hFlag]
      rfl

theorem queryLines_body {x : List Char} (h : Body T x) : queryLines T x = [x] := by
  rw [queryLines_line h.line, h.strip, if_neg h.visible.ne_nil]

theorem queryLines_gap (l : Line T) {x y : List Char} :
    queryLines T (x ++ (l.gap ++ y)) = queryLines T x ++ queryLines T y := by
  obtain ⟨c, hc, hBreak⟩ := l.breaks
  obtain ⟨u, v, hGap⟩ := List.append_of_mem hc
  have hSpaces := l.spaces
  rw [hGap] at hSpaces ⊢
  have hu : ∀ d ∈ u, T.isSpace d = true := fun d hd => hSpaces d (List.mem_append_left _ hd)
  have hv : ∀ d ∈ v, T.isSpace d = true := fun d hd =>
    hSpaces d (List.mem_append_right _ (List.mem_cons_of_mem c hd))
  rw [List.append_assoc, List.cons_append, ← List.append_assoc, queryLines_break hBreak,
    queryLines_append_spaces hu, queryLines_spaces_append hv]

theorem queryLines_written {before after : List Char} (hBefore : ∀ c ∈ before, T.isSpace c = true)
    (hAfter : ∀ c ∈ after, T.isSpace c = true) (hFirst : Body T first)
    (hLines : ∀ l ∈ lines, Body T l.body) :
    queryLines T (written before first lines after) = first :: lines.map Line.body := by
  have hText : ∀ x, Body T x →
      queryLines T (x ++ lines.flatMap fun l => l.gap ++ l.body) = x :: lines.map Line.body := by
    induction lines with
    | nil =>
        intro x hx
        rw [List.flatMap_nil, List.append_nil, queryLines_body hx]
        rfl
    | cons l lines ih =>
        intro x hx
        obtain ⟨hl, hLines⟩ := List.forall_mem_cons.mp hLines
        rw [List.flatMap_cons, List.append_assoc, queryLines_gap, queryLines_body hx,
          ih hLines l.body hl]
        rfl
  rw [written, queryLines_append_spaces hAfter, List.append_assoc,
    queryLines_spaces_append hBefore, hText first hFirst]

/-- The tokens that are read for a line behind the first. -/
def Line.read (r : Line T × List TokenKind) : List TokenKind :=
  (if startsWithConnective T r.1.body then [] else [.and]) ++ r.2

theorem lexes_and (hT : Lexical T) : Lexes T "AND".toList [.and] := by
  have hUpper : T.upper "AND".toList = "AND".toList := by
    rw [upper_ascii hT (by decide)]
    decide
  have hToken : wordToken T "AND".toList = .and := by
    rw [wordToken, hUpper]
    decide
  have hScan : scanWord T "AND".toList = some (.and, []) := by
    rw [← hToken]
    show scanWord T ('A' :: "ND".toList ++ []) = some (wordToken T ('A' :: "ND".toList), [])
    exact scanWord_word (by decide) (by decide) fun c hc => by cases hc
  have hMatch : matchToken T "AND".toList = some (.and, []) :=
    matchToken_of_scan (hT.visible 'A' (by decide) (by decide)) (scan_of_scanWord hT hScan)
  exact (Scans.more hMatch .done).lexes_of_nil hT
    (visible_concat (w := "AN".toList) (hT.visible 'D' (by decide) (by decide)))

/-- Texts read alone, with a blank between each two. -/
theorem lexes_join (hT : Lexical T) {ps : List (List Char × List TokenKind)} (hne : ps ≠ [])
    (h : ∀ p ∈ ps, Lexes T p.1 p.2 ∧ Opens T p.1) :
    Lexes T ([' '].intercalate (ps.map Prod.fst)) (ps.flatMap Prod.snd) ∧
      Opens T ([' '].intercalate (ps.map Prod.fst)) := by
  induction ps with
  | nil => exact absurd rfl hne
  | cons p ps ih =>
      obtain ⟨⟨hLexes, hStart⟩, h⟩ := List.forall_mem_cons.mp h
      cases ps with
      | nil =>
          rw [List.map_cons, List.map_nil, List.intercalate_singleton, List.flatMap_cons,
            List.flatMap_nil, List.append_nil]
          exact ⟨hLexes, hStart⟩
      | cons p' ps =>
          obtain ⟨hRest, hRestStart⟩ := ih (List.cons_ne_nil p' ps) h
          rw [List.map_cons, List.map_cons, List.intercalate_cons_cons, List.flatMap_cons,
            List.append_assoc, List.singleton_append, ← List.map_cons]
          exact ⟨hLexes.join hT hRest hRestStart, hStart.append _⟩

/-- The tokens of the one line that is made of the lines. -/
theorem lexes_written (hT : Lexical T) {rows : List (Line T × List TokenKind)} (hFirst : Body T first)
    (hFirstLexes : Lexes T first ks) (hRows : ∀ r ∈ rows, Body T r.1.body ∧ Lexes T r.1.body r.2) :
    Lexes T ([' '].intercalate (withConnectives T (first :: (rows.map Prod.fst).map Line.body)))
      (ks ++ rows.flatMap Line.read) := by
  let parts := fun r : Line T × List TokenKind =>
    (if startsWithConnective T r.1.body then [] else [("AND".toList, [TokenKind.and])]) ++
      [(r.1.body, r.2)]
  have hParts : ∀ p ∈ (first, ks) :: rows.flatMap parts, Lexes T p.1 p.2 ∧ Opens T p.1 := by
    rw [List.forall_mem_cons]
    refine ⟨⟨hFirstLexes, hFirst.start⟩, fun p hp => ?_⟩
    obtain ⟨r, hr, hp⟩ := List.mem_flatMap.mp hp
    obtain hp | hp := List.mem_append.mp hp
    · split_ifs at hp
      · cases hp
      · rw [List.mem_singleton.mp hp]
        exact ⟨lexes_and hT, 'A', rfl, hT.visible 'A' (by decide) (by decide)⟩
    · rw [List.mem_singleton.mp hp]
      exact ⟨(hRows r hr).2, (hRows r hr).1.start⟩
  have hTexts : withConnectives T (first :: (rows.map Prod.fst).map Line.body) =
      ((first, ks) :: rows.flatMap parts).map Prod.fst := by
    rw [withConnectives, List.map_cons, List.map_flatMap, List.map_map, List.flatMap_map]
    congr 1
    apply List.flatMap_congr
    intro r _
    dsimp only [parts, Function.comp_apply]
    split_ifs <;> rfl
  have hKinds : ks ++ rows.flatMap Line.read = ((first, ks) :: rows.flatMap parts).flatMap Prod.snd := by
    rw [List.flatMap_cons, List.flatMap_assoc]
    congr 1
    apply List.flatMap_congr
    intro r _
    dsimp only [parts, Line.read]
    split_ifs <;> simp
  rw [hTexts, hKinds]
  exact (lexes_join hT (List.cons_ne_nil _ _) hParts).1

end Cuts

/-! ## Lines that start with a connective -/

section Starts

variable {T : CharTables} {text : List Char} {ks : List TokenKind} {c : Char}

theorem toUpper_of_not_isWordChar (h : isWordChar c = false) : c.toUpper = c := by
  apply dif_neg
  rintro ⟨hLow, hHigh⟩
  rw [← Bool.not_eq_true] at h
  apply h
  simp only [isWordChar, Char.isAlphanum, isAlpha_eq, isLower_eq, Bool.or_eq_true,
    Bool.and_eq_true, decide_eq_true_eq]
  exact .inl (.inl (.inr ⟨hLow, hHigh⟩))

theorem forall_isWordChar {p : Char → Prop} (h : ∀ n < 128, p (Char.ofNat n))
    (hc : isWordChar c = true) : p c :=
  Char.ofNat_toNat c ▸ h c.toNat (bounds_of_isWordChar hc).2

theorem isWordChar_toUpper (h : isWordChar c = true) : isWordChar c.toUpper = true :=
  forall_isWordChar (p := fun c => isWordChar c = true → isWordChar c.toUpper = true)
    (by decide +kernel) h h

theorem starts_of_toUpper (h : c.toUpper = 'A' ∨ c.toUpper = 'O') :
    (c.isAlpha || c == '_') = true := by
  have hWord : isWordChar c = true := by
    by_contra hNot
    rw [toUpper_of_not_isWordChar (Bool.not_eq_true _ |>.mp hNot)] at h
    obtain rfl | rfl := h <;> exact hNot (by decide)
  exact forall_isWordChar
    (p := fun c => c.toUpper = 'A' ∨ c.toUpper = 'O' → (c.isAlpha || c == '_') = true)
    (by decide +kernel) hWord h

theorem upper_head (hT : Lexical T) (h : c.toNat < 128 ∨ T.isSpace c = true ∨ T.isDigit c = true)
    (s : List Char) : T.upper (c :: s) = c.toUpper :: T.upper s := by
  by_cases hAscii : c.toNat < 128
  · exact hT.upper_ascii c s hAscii
  · have hWord : isWordChar c = false :=
      Bool.eq_false_iff.mpr fun h => hAscii (bounds_of_isWordChar h).2
    rw [hT.upper_caseless c s (h.resolve_left hAscii), toUpper_of_not_isWordChar hWord]

theorem upper_append (hT : Lexical T) {w : List Char} (h : ∀ c ∈ w, c.toNat < 128) (s : List Char) :
    T.upper (w ++ s) = w.map Char.toUpper ++ T.upper s := by
  induction w with
  | nil => rfl
  | cons c w ih =>
      obtain ⟨hc, hw⟩ := List.forall_mem_cons.mp h
      rw [List.cons_append, hT.upper_ascii c _ hc, ih hw]
      rfl

theorem start_of_scan (hT : Lexical T) {s : List Char} {r : TokenKind × List Char}
    (h : scan T (c :: s) = some r) : c.toNat < 128 ∨ T.isSpace c = true ∨ T.isDigit c = true := by
  obtain ⟨d, hd, hStart⟩ := (alternative_scan hT).start h
  cases hd
  have hMarks : ∀ d ∈ ['>', '<', '!', '=', '(', ')'], d.toNat < 128 := by decide
  obtain hOp | rfl | (rfl | hDigit) | hParen | hWord := hStart
  · exact .inl (hMarks c (List.mem_of_mem_take (i := 4) hOp))
  · exact .inl (by decide)
  · exact .inl (by decide)
  · exact .inr (.inr hDigit)
  · exact .inl (hMarks c (List.mem_of_mem_drop (i := 4) hParen))
  · exact .inl (bounds_of_isWordChar (isWordChar_of_start hWord)).2

theorem apart_upper (hT : Lexical T) {rest : List Char} (hRest : Apart isWordChar rest)
    (hRun : Scans T (rest.dropWhile T.isSpace) ks []) : Apart isWordChar (T.upper rest) := by
  cases rest with
  | nil =>
      rw [hT.upper_nil]
      exact hRest
  | cons d v =>
      have hd : isWordChar d = false := hRest d rfl
      have hHead : d.toNat < 128 ∨ T.isSpace d = true ∨ T.isDigit d = true := by
        cases hSpace : T.isSpace d with
        | true => exact .inr (.inl rfl)
        | false =>
            rw [List.dropWhile_cons_of_neg (Bool.eq_false_iff.mp hSpace)] at hRun
            cases hRun with
            | more hMatch _ =>
                rw [matchToken_eq, List.dropWhile_cons_of_neg (Bool.eq_false_iff.mp hSpace)] at hMatch
                obtain ⟨r, hScan, -⟩ := Option.map_eq_some_iff.mp hMatch
                rw [← hSpace]
                exact start_of_scan hT hScan
      rw [upper_head hT hHead, toUpper_of_not_isWordChar hd]
      intro e he
      cases he
      exact hd

/-- A line that starts with a connective and a blank is read as starting with a connective. -/
theorem connective_of_starts (hT : Lexical T) (hOpens : Opens T text) (hRun : Scans T text ks [])
    (h : startsWithConnective T text = true) : ∃ k ∈ ks.head?, k.isConnective = true := by
  obtain ⟨c, hc, hSpace⟩ := hOpens
  obtain ⟨u, rfl⟩ := List.head?_eq_some_iff.mp hc
  obtain ⟨l, hl, z, hz⟩ : ∃ l ∈ ["AND".toList, "OR".toList], ∃ z,
      T.upper (c :: u) = l ++ ' ' :: z := by
    rw [startsWithConnective, Bool.or_eq_true, List.isPrefixOf_iff_prefix,
      List.isPrefixOf_iff_prefix] at h
    obtain ⟨z, hz⟩ | ⟨z, hz⟩ := h
    · exact ⟨_, List.mem_cons_self, z, hz.symm⟩
    · exact ⟨_, List.mem_cons_of_mem _ List.mem_cons_self, z, hz.symm⟩
  cases hRun with
  | @more _ mid _ k ks hMatch hRun =>
  have hEq := hMatch
  rw [matchToken_eq, List.dropWhile_cons_of_neg (Bool.eq_false_iff.mp hSpace)] at hEq
  obtain ⟨⟨k', tail⟩, hScan, hOut⟩ := Option.map_eq_some_iff.mp hEq
  cases hOut
  -- the first character is that of a word
  have hUpper := upper_head hT (start_of_scan hT hScan) u
  have hLetter : c.toUpper = 'A' ∨ c.toUpper = 'O' := by
    rw [hUpper] at hz
    obtain rfl | hl := List.mem_cons.mp hl
    · exact .inl (List.cons.inj hz).1
    · rw [List.mem_singleton.mp hl] at hz
      exact .inr (List.cons.inj hz).1
  obtain ⟨⟨k'', tail'⟩, hWord⟩ : ∃ r, scanWord T (c :: u) = some r := by
    rw [scanWord]
    exact ⟨_, if_pos (starts_of_toUpper hLetter)⟩
  rw [scan_of_scanWord hT hWord] at hScan
  cases hScan
  obtain ⟨d, word, hText, hStart, hChars, hRest, rfl⟩ := scanWord_eq_some hWord
  have hAll : ∀ e ∈ d :: word, isWordChar e = true :=
    List.forall_mem_cons.mpr ⟨isWordChar_of_start hStart, hChars⟩
  have hAscii : ∀ e ∈ d :: word, e.toNat < 128 := fun e he => (bounds_of_isWordChar (hAll e he)).2
  -- the word is what stands before the blank
  have hWordUpper : (d :: word).map Char.toUpper = l := by
    have hLetters : ∀ l ∈ ["AND".toList, "OR".toList], ∀ e ∈ l, isWordChar e = true := by decide
    have hLeft := takeWhile_append_apart (p := isWordChar) (w := (d :: word).map Char.toUpper)
      (s := T.upper tail) (fun e he => by
        obtain ⟨e', he', rfl⟩ := List.mem_map.mp he
        exact isWordChar_toUpper (hAll e' he')) (apart_upper hT hRest hRun)
    have hRight := takeWhile_append_apart (p := isWordChar) (s := ' ' :: z) (hLetters l hl) fun e he => by
      cases he
      decide
    rw [← upper_append hT hAscii, ← hText, hz, hRight] at hLeft
    exact hLeft.symm
  refine ⟨_, rfl, ?_⟩
  rw [wordToken, upper_ascii hT hAscii, hWordUpper]
  obtain rfl | hl := List.mem_cons.mp hl
  · rfl
  · rw [List.mem_singleton.mp hl]
    rfl

end Starts

/-! ## When the lines mean the query -/

section Main

variable {T : CharTables} {q text first before after : List Char} {K ks : List TokenKind}
  {lines : List (Line T)} {n : ASTNode}

theorem Scans.ne_eof (h : Scans T text ks q) : ∀ k ∈ ks, k ≠ .eof := by
  induction h with
  | done => exact fun k hk => absurd hk List.not_mem_nil
  | more hMatch _ ih => exact List.forall_mem_cons.mpr ⟨matchToken_ne_eof hMatch, ih⟩

theorem parseQuery_iff_of_scans (hLines : queryLines T text ≠ [])
    (hRun : Scans T ([' '].intercalate (withConnectives T (queryLines T text))) K []) :
    parseQuery T text = .ok n ↔ IsSentence T K n := by
  obtain ⟨ts, hts, hKinds⟩ := hRun.tokensFrom 0 rfl
  obtain ⟨us, vs, rfl, hus, hvs⟩ := List.map_eq_append_iff.mp hKinds
  obtain ⟨e, rfl, he⟩ := List.map_eq_singleton_iff.mp hvs
  rw [← tokenize_of_queryLines hLines] at hts
  have hNone : ∀ t ∈ us, t.kind ≠ .eof := fun t ht =>
    hRun.ne_eof t.kind (hus ▸ List.mem_map_of_mem ht)
  rw [parseQuery_eq_ok_iff hts, parse_eq_ok_iff T he hNone]
  exact hus ▸ Iff.rfl

theorem exists_scans_of_parseQuery (hT : Lexical T) (hLine : ∀ c ∈ q, isLineBreak c = false)
    (hn : parseQuery T q = .ok n) : ∃ K, Scans T q K [] ∧ IsSentence T K n := by
  have hne : Library.strip T q ≠ [] := by
    intro hEmpty
    have hError : tokenize T q = .error .emptyQuery := if_pos hEmpty
    rw [parseQuery, hError] at hn
    cases hn
  have hLines : queryLines T q = [Library.strip T q] := by
    rw [queryLines_line hLine, if_neg hne]
  have hOne : [' '].intercalate (withConnectives T (queryLines T q)) = Library.strip T q := by
    rw [hLines]
    exact List.intercalate_singleton
  cases hts : tokenize T q with
  | error e =>
      rw [parseQuery, hts] at hn
      cases hn
  | ok ts =>
      rw [tokenize_line hLine hne] at hts
      obtain ⟨K, -, hRun⟩ := scans_of_tokensFrom hts
      have hK : K ≠ [] := by
        rintro rfl
        generalize Library.strip T q = x at hRun hne
        cases hRun
        exact hne rfl
      refine ⟨K, ?_, ?_⟩
      · -- white space around the query changes nothing
        obtain ⟨w, w', hText, hw, hw'⟩ := strip_spec T q
        have hLexes := hRun.lexes_of_nil hT (strip_visible hne)
        have hEnd : w'.dropWhile T.isSpace = [] := List.dropWhile_eq_nil_iff.mpr hw'
        have hBehind := hLexes w' fun c hc => hw' c (List.mem_of_mem_head? hc)
        rw [hEnd] at hBehind
        rw [hText, List.append_assoc]
        apply Scans.of_dropWhile hK
        rw [List.dropWhile_append_of_pos hw]
        exact hBehind.dropWhile hK
      · apply (parseQuery_iff_of_scans (by rw [hLines]; exact List.cons_ne_nil _ _) _).mp hn
        rw [hOne]
        exact hRun

/-- The lines are read as the query exactly if each line whose cut takes no token's place starts with
a connective and a blank. -/
theorem parses_alike_iff (hT : Lexical T) (hLine : ∀ c ∈ q, isLineBreak c = false)
    (hn : parseQuery T q = .ok n) (hBreaks : Breaks T q first lines)
    (hBefore : ∀ c ∈ before, T.isSpace c = true) (hAfter : ∀ c ∈ after, T.isSpace c = true) :
    parseQuery T (written before first lines after) = .ok n ↔
      ∀ l ∈ lines, l.inPlace = false → startsWithConnective T l.body = true := by
  obtain ⟨K, hRun, hSentence⟩ := exists_scans_of_parseQuery hT hLine hn
  obtain ⟨ks, rows, rfl, hFirst, hFirstLexes, hRows, rfl⟩ := hBreaks.tokens hT hLine hRun
  have hBodies : ∀ l ∈ rows.map Prod.fst, Body T l.body := by
    intro l hl
    obtain ⟨r, hr, rfl⟩ := List.mem_map.mp hl
    exact (hRows r hr).1
  have hLines := queryLines_written hBefore hAfter hFirst hBodies
  have hNew : Scans T ([' '].intercalate (withConnectives T
      (queryLines T (written before first (rows.map Prod.fst) after))))
      (ks ++ rows.flatMap Line.read) [] := by
    rw [hLines]
    exact (lexes_written hT hFirst hFirstLexes hRows).scans
  rw [parseQuery_iff_of_scans (by rw [hLines]; exact List.cons_ne_nil _ _) hNew]
  -- a line in the place of an AND is no other connective's
  have hInPlace : ∀ r ∈ rows, r.1.inPlace = true → startsWithConnective T r.1.body = false := by
    intro r hr hFlag
    rw [Bool.eq_false_iff]
    intro hStarts
    obtain ⟨k, hk, hConnective⟩ :=
      connective_of_starts hT (hRows r hr).1.start (hRows r hr).2.scans hStarts
    obtain ⟨tail, hTail⟩ := List.head?_eq_some_iff.mp hk
    obtain ⟨a, b, rfl⟩ := List.append_of_mem hr
    have hInfix : [.and, k] <:+: ks ++ (a ++ r :: b).flatMap Line.inQuery := by
      refine ⟨ks ++ a.flatMap Line.inQuery, tail ++ b.flatMap Line.inQuery, ?_⟩
      rw [List.flatMap_append, List.flatMap_cons, Line.inQuery, hFlag, hTail]
      simp only [if_true, List.append_assoc, List.cons_append, List.nil_append]
    have hLoose := List.isChain_pair.mp ( List.IsChain.infix hSentence.1.spread.2.chain hInfix)
    exact hLoose ⟨rfl, hConnective⟩
  constructor
  · intro hOther l hl hFlag
    obtain ⟨r, hr, rfl⟩ := List.mem_map.mp hl
    by_contra hNot
    -- the AND that is put before the line is one connective too many
    have hFields : ∀ r ∈ rows, (Line.inQuery r).countP TokenKind.isField =
        (Line.read r).countP TokenKind.isField := by
      intro r _
      rw [Line.inQuery, Line.read, List.countP_append, List.countP_append]
      split_ifs <;> rfl
    have hLe : ∀ r ∈ rows, (Line.inQuery r).countP TokenKind.isConnective ≤
        (Line.read r).countP TokenKind.isConnective := by
      intro r hr
      have hOne := hInPlace r hr
      rw [Line.inQuery, Line.read, List.countP_append, List.countP_append]
      apply Nat.add_le_add_right
      cases hFlag : r.1.inPlace with
      | true =>
          rw [hOne hFlag]
          exact Nat.le_refl _
      | false => exact Nat.zero_le _
    have hLess : (Line.inQuery r).countP TokenKind.isConnective <
        (Line.read r).countP TokenKind.isConnective := by
      rw [Line.inQuery, Line.read, hFlag, Bool.eq_false_iff.mpr hNot, List.countP_append,
        List.countP_append]
      exact Nat.add_lt_add_right (by decide) _
    have hSum := List.sum_lt_sum (l := rows) _ _ hLe ⟨r, hr, hLess⟩
    have hBalance := hSentence.1.balance
    have hBalance' := hOther.1.balance
    have hSame := List.map_congr_left hFields
    rw [List.countP_append, List.countP_append, List.countP_flatMap, List.countP_flatMap] at hBalance
    rw [List.countP_append, List.countP_append, List.countP_flatMap, List.countP_flatMap] at hBalance'
    simp only [Function.comp_def] at hBalance hBalance'
    rw [hSame] at hBalance
    omega
  · intro hAll
    have hSame : rows.flatMap Line.read = rows.flatMap Line.inQuery := by
      apply List.flatMap_congr
      intro r hr
      rw [Line.read, Line.inQuery]
      cases hFlag : r.1.inPlace with
      | true => rw [hInPlace r hr hFlag]; rfl
      | false => rw [hAll r.1 (List.mem_map_of_mem hr) hFlag]; rfl
    rw [hSame]
    exact hSentence

end Main

/-! ## A query on two lines -/

/-- The second of two lines, indented. -/
def secondLine (inPlace : Bool) (body : List Char) : Line CharTables.ascii where
  gap := "\n  ".toList
  inPlace := inPlace
  body := body
  spaces := by decide
  breaks := ⟨'\n', by decide, by decide⟩

def twoConditions : List Char := "pe_ratio < 15 AND beta < 1".toList

theorem scans_twoConditions :
    Scans .ascii twoConditions [.field "pe_ratio".toList, .op .lt, .valueNum (.int 15)]
      "AND beta < 1".toList := by
  have hField : matchToken .ascii twoConditions =
      some (.field "pe_ratio".toList, "< 15 AND beta < 1".toList) := by decide +kernel
  have hOp : matchToken .ascii "< 15 AND beta < 1".toList =
      some (.op .lt, "15 AND beta < 1".toList) := by decide +kernel
  have hNum : matchToken .ascii "15 AND beta < 1".toList =
      some (.valueNum (.int 15), "AND beta < 1".toList) := by decide +kernel
  exact .more hField (.more hOp (.more hNum .done))

theorem matchToken_and :
    matchToken .ascii "AND beta < 1".toList = some (.and, "beta < 1".toList) := by decide +kernel

/-- The line break in front of the AND changes nothing. -/
theorem twoConditions_before_and :
    parseQuery .ascii (written [] "pe_ratio < 15".toList [secondLine false "AND beta < 1".toList] []) =
      parseQuery .ascii twoConditions := by
  have hAccepted : (parseQuery .ascii twoConditions).toBool = true := by decide +kernel
  cases hn : parseQuery .ascii twoConditions with
  | error e =>
      rw [hn] at hAccepted
      cases hAccepted
  | ok n =>
      have hNil : ∀ c ∈ ([] : List Char), CharTables.ascii.isSpace c = true := by decide
      have hBreaks : Breaks .ascii ("pe_ratio < 15 ".toList ++ "AND beta < 1".toList)
          (strip .ascii "pe_ratio < 15 ".toList) [secondLine false "AND beta < 1".toList] :=
        .beside scans_twoConditions (List.cons_ne_nil _ _) rfl ⟨.and, rfl, .inr ⟨_, matchToken_and⟩⟩
          (.last (q := "AND beta < 1".toList) (by decide))
      apply (parses_alike_iff lexical_ascii (by decide) hn hBreaks hNil hNil).mpr
      decide

/-- Behind the AND, the line break is taken for a second one. -/
theorem twoConditions_behind_and :
    Breaks .ascii twoConditions "pe_ratio < 15 AND".toList [secondLine false "beta < 1".toList] ∧
      (parseQuery .ascii twoConditions).toBool = true ∧
      parseQuery .ascii
          (written [] "pe_ratio < 15 AND".toList [secondLine false "beta < 1".toList] []) =
        .error (.error (.expectedField 18)) := by
  refine ⟨?_, by decide +kernel, by decide +kernel⟩
  have hRun : Scans .ascii ("pe_ratio < 15 AND ".toList ++ "beta < 1".toList)
      [.field "pe_ratio".toList, .op .lt, .valueNum (.int 15), .and] "beta < 1".toList :=
    scans_twoConditions.append (.more matchToken_and .done)
  exact .beside (l := secondLine false "beta < 1".toList) hRun (List.cons_ne_nil _ _) rfl
    ⟨.and, rfl, .inl rfl⟩ (.last (q := "beta < 1".toList) (by decide))

end AsetPlatform.ScreenQL

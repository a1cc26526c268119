import AsetPlatform.Library.Text
import Mathlib.Computability.Language

/-!
# The language of a regular expression, and captures

`Regex.lang` is the language of an expression without word boundaries. The backtracking matcher finds
its words and nothing else (`mem_ends_iff`), and the first one it tries under a repeated character is
the longest (`head_ends_star_char`).

`Regex.capture` is the group behind a leading expression in the first match of both.
-/

set_option autoImplicit false

namespace AsetPlatform.Library.Regex

/-! ## Languages -/

/-- The expression has no word boundary, so that what it matches does not depend on its context. -/
def ContextFree : Regex → Prop
  | .wordBoundary => False
  | .seq a b => a.ContextFree ∧ b.ContextFree
  | .alt a b => a.ContextFree ∧ b.ContextFree
  | .star a => a.ContextFree
  | _ => True

/-- The words of an expression without word boundaries. -/
def lang : Regex → Language Char
  | .empty => 1
  | .char p => {w | ∃ x, w = [x] ∧ p x = true}
  | .seq a b => a.lang * b.lang
  | .alt a b => a.lang + b.lang
  | .star a => KStar.kstar a.lang
  | .wordBoundary => 0

/-- The cursor after a word. -/
def Past (c : Cursor) (w : List Char) (d : Cursor) : Prop :=
  c.after = w ++ d.after ∧ d.before = w.reverse ++ c.before

theorem past_nil_iff {c d : Cursor} : Past c [] d ↔ d = c := by
  cases c
  cases d
  simp only [Past, List.nil_append, List.reverse_nil, Cursor.mk.injEq]
  exact ⟨fun h => ⟨h.2, h.1.symm⟩, fun h => ⟨h.2.symm, h.1⟩⟩

theorem past_append_iff {c d : Cursor} {u v : List Char} :
    Past c (u ++ v) d ↔ ∃ e, Past c u e ∧ Past e v d := by
  constructor
  · rintro ⟨hAfter, hBefore⟩
    refine ⟨⟨u.reverse ++ c.before, v ++ d.after⟩, ⟨?_, rfl⟩, rfl, ?_⟩
    · rw [hAfter, List.append_assoc]
    · rw [hBefore, List.reverse_append, List.append_assoc]
  · rintro ⟨e, ⟨hAfter, hBefore⟩, hAfter', hBefore'⟩
    refine ⟨?_, ?_⟩
    · rw [hAfter, hAfter', List.append_assoc]
    · rw [hBefore', hBefore, List.reverse_append, List.append_assoc]

theorem mem_starEnds_iff {step : Cursor → List Cursor} {l : Language Char}
    (hStep : ∀ c d, d ∈ step c ↔ ∃ w ∈ l, Past c w d) {fuel : Nat} {c d : Cursor}
    (hFuel : c.after.length ≤ fuel) :
    d ∈ starEnds step fuel c ↔ ∃ w ∈ KStar.kstar l, Past c w d := by
  induction fuel generalizing c with
  | zero =>
      have hEmpty : c.after = [] := List.length_eq_zero_iff.mp (Nat.le_zero.mp hFuel)
      rw [starEnds, List.mem_singleton]
      constructor
      · rintro rfl
        exact ⟨[], Language.nil_mem_kstar l, past_nil_iff.mpr rfl⟩
      · rintro ⟨w, -, hPast⟩
        have hNil := hPast.1
        rw [hEmpty] at hNil
        obtain ⟨rfl, -⟩ := List.append_eq_nil_iff.mp hNil.symm
        exact past_nil_iff.mp hPast
  | succ fuel ih =>
      simp only [starEnds, List.mem_append, List.mem_flatMap, List.mem_filter, List.mem_singleton,
        decide_eq_true_eq]
      constructor
      · rintro (⟨e, ⟨hMem, hShorter⟩, hd⟩ | rfl)
        · obtain ⟨u, hu, hPast⟩ := (hStep c e).mp hMem
          obtain ⟨v, hv, hPast'⟩ := (ih (by omega)).mp hd
          refine ⟨u ++ v, ?_, past_append_iff.mpr ⟨e, hPast, hPast'⟩⟩
          rw [← Language.one_add_self_mul_kstar_eq_kstar]
          exact .inr (Language.append_mem_mul hu hv)
        · exact ⟨[], Language.nil_mem_kstar l, past_nil_iff.mpr rfl⟩
      · rintro ⟨w, hw, hPast⟩
        obtain ⟨S, rfl, hS⟩ := Language.mem_kstar_iff_exists_nonempty.mp hw
        cases S with
        | nil => exact .inr (past_nil_iff.mp hPast)
        | cons u S =>
            -- the first repetition is not empty, so that the fuel suffices for the others
            obtain ⟨hu, hNonempty⟩ := hS u List.mem_cons_self
            obtain ⟨e, hFirst, hRest⟩ := past_append_iff.mp hPast
            have hLength := congrArg List.length hFirst.1
            rw [List.length_append] at hLength
            have hPos := List.length_pos_iff.mpr hNonempty
            refine .inl ⟨e, ⟨(hStep c e).mpr ⟨u, hu, hFirst⟩, by omega⟩, ?_⟩
            exact (ih (by omega)).mpr ⟨S.flatten,
              ⟨S, rfl, fun v hv => (hS v (List.mem_cons_of_mem _ hv)).1⟩, hRest⟩

/-- The matcher finds the words of the language. -/
theorem mem_ends_iff (T : CharTables) {r : Regex} (hr : r.ContextFree) {c d : Cursor} :
    d ∈ ends T r c ↔ ∃ w ∈ r.lang, Past c w d := by
  induction r generalizing c d with
  | empty =>
      simp only [ends, lang, List.mem_singleton, Language.mem_one]
      constructor
      · rintro rfl
        exact ⟨[], rfl, past_nil_iff.mpr rfl⟩
      · rintro ⟨w, rfl, hPast⟩
        exact past_nil_iff.mp hPast
  | char p =>
      obtain ⟨before, after⟩ := c
      obtain ⟨before', after'⟩ := d
      cases after with
      | nil =>
          simp only [ends, List.not_mem_nil, false_iff]
          rintro ⟨w, ⟨x, rfl, -⟩, hAfter, -⟩
          exact List.cons_ne_nil _ _ hAfter.symm
      | cons y ys =>
          constructor
          · intro h
            simp only [ends] at h
            split at h
            · rename_i hp
              obtain ⟨rfl, rfl⟩ := Cursor.mk.inj (List.mem_singleton.mp h)
              exact ⟨[y], ⟨y, rfl, hp⟩, rfl, rfl⟩
            · exact absurd h List.not_mem_nil
          · rintro ⟨w, ⟨x, rfl, hp⟩, hAfter, hBefore⟩
            obtain ⟨rfl, rfl⟩ := List.cons.inj hAfter
            simp only [ends, if_pos hp, List.mem_singleton, Cursor.mk.injEq]
            exact ⟨hBefore, trivial⟩
  | seq a b iha ihb =>
      simp only [ends, lang, List.mem_flatMap, iha hr.1, ihb hr.2, Language.mem_mul]
      constructor
      · rintro ⟨e, ⟨u, hu, hPast⟩, v, hv, hPast'⟩
        exact ⟨u ++ v, ⟨u, hu, v, hv, rfl⟩, past_append_iff.mpr ⟨e, hPast, hPast'⟩⟩
      · rintro ⟨w, ⟨u, hu, v, hv, rfl⟩, hPast⟩
        obtain ⟨e, hFirst, hRest⟩ := past_append_iff.mp hPast
        exact ⟨e, ⟨u, hu, hFirst⟩, v, hv, hRest⟩
  | alt a b iha ihb =>
      simp only [ends, lang, List.mem_append, iha hr.1, ihb hr.2, Language.mem_add]
      constructor
      · rintro (⟨w, hw, hPast⟩ | ⟨w, hw, hPast⟩)
        · exact ⟨w, .inl hw, hPast⟩
        · exact ⟨w, .inr hw, hPast⟩
      · rintro ⟨w, hw | hw, hPast⟩
        · exact .inl ⟨w, hw, hPast⟩
        · exact .inr ⟨w, hw, hPast⟩
  | star a ih => exact mem_starEnds_iff (fun c d => ih hr) le_rfl
  | wordBoundary => exact hr.elim

theorem mem_lang_literal_iff {cs w : List Char} : w ∈ (literal (· == ·) cs).lang ↔ w = cs := by
  induction cs generalizing w with
  | nil => exact Language.mem_one w
  | cons c cs ih =>
      constructor
      · rintro ⟨u, ⟨x, rfl, hx⟩, v, hv, rfl⟩
        rw [ih.mp hv, eq_of_beq hx]
        rfl
      · rintro rfl
        exact ⟨[c], ⟨c, rfl, beq_self_eq_true c⟩, cs, ih.mpr rfl, rfl⟩

theorem contextFree_literal (same : Char → Char → Bool) (cs : List Char) :
    (literal same cs).ContextFree := by
  induction cs with
  | nil => exact trivial
  | cons c cs ih => exact ⟨trivial, ih⟩

theorem mem_lang_star_char_iff {p : Char → Bool} {w : List Char} :
    w ∈ (star (char p)).lang ↔ ∀ x ∈ w, p x = true := by
  constructor
  · rintro ⟨S, rfl, hS⟩ x hx
    obtain ⟨u, hu, hMem⟩ := List.mem_flatten.mp hx
    obtain ⟨y, rfl, hp⟩ := hS u hu
    rw [List.mem_singleton.mp hMem]
    exact hp
  · intro h
    refine ⟨w.map fun x => [x], ?_, ?_⟩
    · rw [← List.flatMap_def, List.flatMap_singleton']
    · intro u hu
      obtain ⟨x, hx, rfl⟩ := List.mem_map.mp hu
      exact ⟨x, rfl, h x hx⟩

/-- The longest repetition of a character is tried first. -/
theorem head_ends_star_char (T : CharTables) (p : Char → Bool) (before after : List Char) :
    (ends T (star (char p)) ⟨before, after⟩).head? =
      some ⟨(after.takeWhile p).reverse ++ before, after.dropWhile p⟩ := by
  induction after generalizing before with
  | nil => rfl
  | cons x xs ih =>
      cases hx : p x with
      | true =>
          have hEnds : ends T (star (char p)) ⟨before, x :: xs⟩ =
              ends T (star (char p)) ⟨x :: before, xs⟩ ++ [⟨before, x :: xs⟩] := by
            simp [ends, starEnds, hx]
          rw [hEnds, List.head?_append, ih, Option.some_or, List.takeWhile_cons_of_pos hx,
            List.dropWhile_cons_of_pos hx, List.reverse_cons, List.append_assoc]
          rfl
      | false => simp [ends, starEnds, hx]

/-! ## Captures -/

/-- The first match of two expressions in a row that starts at a cursor: what the second reads. -/
def captureAt (T : CharTables) (lead group : Regex) (c : Cursor) : Option (List Char) :=
  ((ends T lead c).flatMap fun d => (ends T group d).map (textBetween d)).head?

/-- `re.search(lead(group), s)`: the text of the group. -/
def capture (T : CharTables) (lead group : Regex) (s : List Char) : Option (List Char) :=
  (cursors [] s).findSome? (captureAt T lead group)

theorem head?_flatMap_of_head? {α β : Type*} {l : List α} {f : α → List β} {a : α} {b : β}
    (ha : l.head? = some a) (hb : (f a).head? = some b) : (l.flatMap f).head? = some b := by
  cases l with
  | nil => exact absurd ha (Option.some_ne_none a).symm
  | cons x l =>
      cases ha
      rw [List.flatMap_cons, List.head?_append, hb, Option.some_or]

end AsetPlatform.Library.Regex

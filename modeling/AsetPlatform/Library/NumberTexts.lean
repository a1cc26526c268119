import AsetPlatform.Library.Captures

/-!
# The numbers of a text

`numberTexts T s` are the texts that the expression `-?\d+\.?\d*` finds in `s`, from the left.

`numberAt` says what a match at the start of a text reads. The search goes on behind the match, or
behind the first character if there is none (`numberTexts_of_some`, `numberTexts_cons_of_none`). A
character that is in no number splits the search in two (`numberTexts_append_cons`).
-/

set_option autoImplicit false

namespace AsetPlatform.Library.Regex

/-- The digits of ASCII are digits, and its other characters are not. -/
def AsciiDigits (T : CharTables) : Prop :=
  ∀ c : Char, c.toNat < 128 → T.isDigit c = c.isDigit

theorem asciiDigits_ascii : AsciiDigits CharTables.ascii := fun _ _ => rfl

/-- `\.?\d*`. -/
def fractionPattern (T : CharTables) : Regex :=
  .seq (opt (.char (· == '.'))) (.star (.char T.isDigit))

/-- `\d+\.?\d*`. -/
def unsignedPattern (T : CharTables) : Regex :=
  .seq (plus (.char T.isDigit)) (fractionPattern T)

/-- `-?\d+\.?\d*`. -/
def numberPattern (T : CharTables) : Regex :=
  .seq (opt (.char (· == '-'))) (unsignedPattern T)

/-- `re.findall(r"-?\d+\.?\d*", s)`. -/
def numberTexts (T : CharTables) (s : List Char) : List (List Char) := findAll T (numberPattern T) s

/-! ## What a match reads -/

/-- A point with the digits behind it, and the rest; a point needs no digit. -/
def fractionAt (T : CharTables) : List Char → List Char × List Char
  | '.' :: s => ('.' :: s.takeWhile T.isDigit, s.dropWhile T.isDigit)
  | s => (s.takeWhile T.isDigit, s.dropWhile T.isDigit)

/-- The number without a sign at the start of a text, and what is behind it. -/
def unsignedAt (T : CharTables) (s : List Char) : Option (List Char × List Char) :=
  let fraction := fractionAt T (s.dropWhile T.isDigit)
  if s.takeWhile T.isDigit = [] then none
  else some (s.takeWhile T.isDigit ++ fraction.1, fraction.2)

/-- The number at the start of a text, and what is behind it. -/
def numberAt (T : CharTables) : List Char → Option (List Char × List Char)
  | '-' :: s => (unsignedAt T s).map fun r => ('-' :: r.1, r.2)
  | s => unsignedAt T s

section Matches

variable {T : CharTables} {before s m rest : List Char}

theorem fractionAt_append (s : List Char) : (fractionAt T s).1 ++ (fractionAt T s).2 = s := by
  rw [fractionAt.eq_def]
  split
  · exact congrArg _ List.takeWhile_append_dropWhile
  · exact List.takeWhile_append_dropWhile

theorem unsignedAt_append (h : unsignedAt T s = some (m, rest)) : s = m ++ rest ∧ m ≠ [] := by
  rw [unsignedAt] at h
  split_ifs at h with hWhole
  cases h
  constructor
  · rw [List.append_assoc, fractionAt_append, List.takeWhile_append_dropWhile]
  · exact fun hNil => hWhole (List.append_eq_nil_iff.mp hNil).1

theorem numberAt_append (h : numberAt T s = some (m, rest)) : s = m ++ rest ∧ m ≠ [] := by
  rw [numberAt.eq_def] at h
  split at h
  · obtain ⟨⟨m, rest⟩, hUnsigned, hOut⟩ := Option.map_eq_some_iff.mp h
    cases hOut
    exact ⟨congrArg _ (unsignedAt_append hUnsigned).1, List.cons_ne_nil _ _⟩
  · exact unsignedAt_append h

theorem head_ends_fraction (before s : List Char) :
    (ends T (fractionPattern T) ⟨before, s⟩).head? =
      some ⟨(fractionAt T s).1.reverse ++ before, (fractionAt T s).2⟩ := by
  rw [fractionAt.eq_def]
  split
  · rename_i s
    have hFirst : (ends T (opt (.char (· == '.'))) ⟨before, '.' :: s⟩).head? =
        some ⟨'.' :: before, s⟩ := rfl
    rw [fractionPattern, ends, List.reverse_cons, List.append_assoc]
    exact head?_flatMap_of_head? hFirst (head_ends_star_char T T.isDigit ('.' :: before) s)
  · rename_i hNoPoint
    have hFirst : (ends T (opt (.char (· == '.'))) ⟨before, s⟩).head? = some ⟨before, s⟩ := by
      cases s with
      | nil => rfl
      | cons x s =>
          have hx : (x == '.') = false := by
            rw [beq_eq_false_iff_ne]
            rintro rfl
            exact hNoPoint s rfl
          simp [opt, ends, hx]
    rw [fractionPattern, ends]
    exact head?_flatMap_of_head? hFirst (head_ends_star_char T T.isDigit before s)

theorem head_ends_unsigned (before s : List Char) :
    (ends T (unsignedPattern T) ⟨before, s⟩).head? =
      (unsignedAt T s).map fun r => ⟨r.1.reverse ++ before, r.2⟩ := by
  have hNone : ∀ s : List Char, (ends T (.char T.isDigit) ⟨before, s⟩) = [] →
      s.takeWhile T.isDigit = [] → (ends T (unsignedPattern T) ⟨before, s⟩).head? =
        (unsignedAt T s).map fun r => ⟨r.1.reverse ++ before, r.2⟩ := by
    intro s hEnds hWhole
    rw [unsignedPattern, plus, ends, ends, hEnds, unsignedAt, if_pos hWhole]
    rfl
  cases s with
  | nil => exact hNone [] rfl rfl
  | cons x s =>
      by_cases hx : T.isDigit x = true
      · -- the first digit is read on its own, then the longest run of digits
        have hFirst : ends T (.char T.isDigit) ⟨before, x :: s⟩ = [⟨x :: before, s⟩] := if_pos hx
        have hDigits : (ends T (plus (.char T.isDigit)) ⟨before, x :: s⟩).head? =
            some ⟨((x :: s).takeWhile T.isDigit).reverse ++ before, (x :: s).dropWhile T.isDigit⟩ := by
          rw [plus, ends, hFirst, List.flatMap_singleton, head_ends_star_char,
            List.takeWhile_cons_of_pos hx, List.dropWhile_cons_of_pos hx, List.reverse_cons,
            List.append_assoc]
          rfl
        have hWhole : (x :: s).takeWhile T.isDigit ≠ [] := by
          rw [List.takeWhile_cons_of_pos hx]
          exact List.cons_ne_nil _ _
        rw [unsignedPattern, ends, unsignedAt, if_neg hWhole, Option.map_some,
          List.reverse_append, List.append_assoc]
        exact head?_flatMap_of_head? hDigits (head_ends_fraction _ _)
      · exact hNone _ (if_neg hx) (List.takeWhile_cons_of_neg hx)

theorem head_ends_number (hT : AsciiDigits T) (before s : List Char) :
    (ends T (numberPattern T) ⟨before, s⟩).head? =
      (numberAt T s).map fun r => ⟨r.1.reverse ++ before, r.2⟩ := by
  have hMinus : T.isDigit '-' = false := hT '-' (by decide)
  have hNoSign : ∀ s : List Char, ends T (opt (.char (· == '-'))) ⟨before, s⟩ = [⟨before, s⟩] →
      (ends T (numberPattern T) ⟨before, s⟩).head? =
        (unsignedAt T s).map fun r => ⟨r.1.reverse ++ before, r.2⟩ := by
    intro s hEnds
    rw [numberPattern, ends, hEnds, List.flatMap_singleton]
    exact head_ends_unsigned before s
  rw [numberAt.eq_def]
  split
  · rename_i s
    -- without the sign there is no match, so only the match behind the sign is left
    have hEnds : ends T (opt (.char (· == '-'))) ⟨before, '-' :: s⟩ =
        [⟨'-' :: before, s⟩, ⟨before, '-' :: s⟩] := rfl
    have hBehind : ends T (unsignedPattern T) ⟨before, '-' :: s⟩ = [] := by
      rw [← List.head?_eq_none_iff, head_ends_unsigned, unsignedAt,
        if_pos (List.takeWhile_cons_of_neg (Bool.eq_false_iff.mp hMinus))]
      rfl
    rw [numberPattern, ends, hEnds, List.flatMap_cons, List.flatMap_singleton, hBehind,
      List.append_nil, head_ends_unsigned, Option.map_map]
    congr 1
    funext r
    simp
  · rename_i hNoMinus
    apply hNoSign
    cases s with
    | nil => rfl
    | cons x s =>
        have hx : (x == '-') = false := by
          rw [beq_eq_false_iff_ne]
          rintro rfl
          exact hNoMinus s rfl
        simp [opt, ends, hx]

end Matches

/-! ## The search -/

section Search

variable {T : CharTables} {s m rest : List Char} {c : Char}

theorem findFrom_zero_cons (T : CharTables) (r : Regex) (before s : List Char) (c : Char) :
    findFrom T r 0 before (c :: s) =
      ((ends T r ⟨before, c :: s⟩).head?.elim (findFrom T r 0 (c :: before) s) fun d =>
        textBetween ⟨before, c :: s⟩ d ::
          findFrom T r ((c :: s).length - d.after.length - 1) (c :: before) s) := by
  rw [findFrom]
  cases ends T r ⟨before, c :: s⟩ with
  | nil => rfl
  | cons d ds => rfl

theorem findFrom_number (hT : AsciiDigits T) (before : List Char) :
    findFrom T (numberPattern T) 0 before (c :: s) =
      (numberAt T (c :: s)).elim (findFrom T (numberPattern T) 0 (c :: before) s) fun r =>
        r.1 :: findFrom T (numberPattern T) (r.1.length - 1) (c :: before) s := by
  rw [findFrom_zero_cons, head_ends_number hT]
  cases hMatch : numberAt T (c :: s) with
  | none => rfl
  | some r =>
      obtain ⟨m, rest⟩ := r
      obtain ⟨hText, -⟩ := numberAt_append hMatch
      have hLength : (c :: s).length - rest.length = m.length := by
        rw [hText, List.length_append, Nat.add_sub_cancel]
      simp only [Option.map_some, Option.elim_some, textBetween, hLength]
      rw [hText, List.take_left]

theorem findFrom_number_eq (hT : AsciiDigits T) (skip : Nat) (before s : List Char) :
    findFrom T (numberPattern T) skip before s = numberTexts T (s.drop skip) := by
  induction s generalizing skip before with
  | nil =>
      rw [List.drop_nil]
      cases skip <;> rfl
  | cons c s ih =>
      cases skip with
      | zero =>
          rw [List.drop_zero, numberTexts, findAll, findFrom_number hT, findFrom_number hT]
          simp only [ih]
      | succ skip => exact ih skip (c :: before)

@[simp] theorem numberTexts_nil : numberTexts T [] = [] := rfl

theorem numberTexts_cons_of_none (hT : AsciiDigits T) (h : numberAt T (c :: s) = none) :
    numberTexts T (c :: s) = numberTexts T s := by
  rw [numberTexts, findAll, findFrom_number hT, h, Option.elim_none, findFrom_number_eq hT,
    List.drop_zero]

theorem numberTexts_of_some (hT : AsciiDigits T) (h : numberAt T s = some (m, rest)) :
    numberTexts T s = m :: numberTexts T rest := by
  obtain ⟨rfl, hNonempty⟩ := numberAt_append h
  obtain ⟨c, m, rfl⟩ := List.exists_cons_of_ne_nil hNonempty
  rw [List.cons_append] at h ⊢
  rw [numberTexts, findAll, findFrom_number hT, h, Option.elim_some, findFrom_number_eq hT,
    List.length_cons, Nat.add_sub_cancel, List.drop_left]

end Search

/-! ## Characters of no number -/

/-- The character is in no number. -/
def Apart (T : CharTables) (c : Char) : Prop := T.isDigit c = false ∧ c ≠ '.' ∧ c ≠ '-'

section Apart

variable {T : CharTables} {a b : List Char} {c : Char}

theorem takeWhile_append_cons {p : Char → Bool} (h : p c = false) (a b : List Char) :
    (a ++ c :: b).takeWhile p = a.takeWhile p := by
  induction a with
  | nil => exact List.takeWhile_cons_of_neg (Bool.eq_false_iff.mp h)
  | cons x a ih =>
      cases hx : p x with
      | true =>
          rw [List.cons_append, List.takeWhile_cons_of_pos hx, List.takeWhile_cons_of_pos hx, ih]
      | false =>
          have hNot := Bool.eq_false_iff.mp hx
          rw [List.cons_append, List.takeWhile_cons_of_neg hNot, List.takeWhile_cons_of_neg hNot]

theorem dropWhile_append_cons {p : Char → Bool} (h : p c = false) (a b : List Char) :
    (a ++ c :: b).dropWhile p = a.dropWhile p ++ c :: b := by
  induction a with
  | nil => exact List.dropWhile_cons_of_neg (Bool.eq_false_iff.mp h)
  | cons x a ih =>
      cases hx : p x with
      | true =>
          rw [List.cons_append, List.dropWhile_cons_of_pos hx, List.dropWhile_cons_of_pos hx, ih]
      | false =>
          have hNot := Bool.eq_false_iff.mp hx
          rw [List.cons_append, List.dropWhile_cons_of_neg hNot, List.dropWhile_cons_of_neg hNot,
            List.cons_append]

theorem fractionAt_append_cons (h : Apart T c) (a b : List Char) :
    fractionAt T (a ++ c :: b) = ((fractionAt T a).1, (fractionAt T a).2 ++ c :: b) := by
  obtain ⟨hDigit, hPoint, -⟩ := h
  have hPlain : ∀ a : List Char, (∀ s, a ≠ '.' :: s) →
      fractionAt T a = (a.takeWhile T.isDigit, a.dropWhile T.isDigit) := by
    intro a hStart
    rw [fractionAt.eq_def]
    split
    · exact absurd rfl (hStart _)
    · rfl
  cases a with
  | nil =>
      rw [List.nil_append, hPlain, hPlain [] nofun]
      · exact congrArg₂ Prod.mk (takeWhile_append_cons hDigit [] b) (dropWhile_append_cons hDigit [] b)
      · intro s hStart
        exact hPoint (List.cons.inj hStart).1
  | cons x a =>
      by_cases hx : x = '.'
      · subst hx
        exact congrArg₂ Prod.mk (congrArg _ (takeWhile_append_cons hDigit a b))
          (dropWhile_append_cons hDigit a b)
      · have hStart : ∀ (a s : List Char), x :: a ≠ '.' :: s := fun a s h => hx (List.cons.inj h).1
        rw [List.cons_append, hPlain _ (hStart _), hPlain _ (hStart _), ← List.cons_append,
          takeWhile_append_cons hDigit, dropWhile_append_cons hDigit]

theorem unsignedAt_append_cons (h : Apart T c) (a b : List Char) :
    unsignedAt T (a ++ c :: b) = (unsignedAt T a).map fun r => (r.1, r.2 ++ c :: b) := by
  simp only [unsignedAt, takeWhile_append_cons h.1, dropWhile_append_cons h.1,
    fractionAt_append_cons h]
  split_ifs <;> rfl

theorem numberAt_append_cons (h : Apart T c) (a b : List Char) :
    numberAt T (a ++ c :: b) = (numberAt T a).map fun r => (r.1, r.2 ++ c :: b) := by
  have hPlain : ∀ a : List Char, (∀ s, a ≠ '-' :: s) → numberAt T a = unsignedAt T a := by
    intro a hStart
    rw [numberAt.eq_def]
    split
    · exact absurd rfl (hStart _)
    · rfl
  cases a with
  | nil =>
      rw [hPlain, hPlain [] nofun]
      · exact unsignedAt_append_cons h [] b
      · intro s hStart
        exact h.2.2 (List.cons.inj hStart).1
  | cons x a =>
      by_cases hx : x = '-'
      · subst hx
        rw [List.cons_append, numberAt, numberAt, unsignedAt_append_cons h, Option.map_map,
          Option.map_map]
        rfl
      · have hStart : ∀ (a s : List Char), x :: a ≠ '-' :: s := fun a s h => hx (List.cons.inj h).1
        rw [List.cons_append, hPlain _ (hStart _), hPlain _ (hStart _), ← List.cons_append]
        exact unsignedAt_append_cons h (x :: a) b

theorem numberAt_apart (h : Apart T c) (b : List Char) : numberAt T (c :: b) = none :=
  numberAt_append_cons h [] b

theorem numberTexts_append_cons (hT : AsciiDigits T) (h : Apart T c) (a b : List Char) :
    numberTexts T (a ++ c :: b) = numberTexts T a ++ numberTexts T b := by
  -- by the length of the first part, which gets shorter with every match
  induction hLength : a.length using Nat.strong_induction_on generalizing a with
  | _ n ih =>
      cases a with
      | nil => exact numberTexts_cons_of_none hT (numberAt_apart h b)
      | cons x a =>
          have hStep := numberAt_append_cons h (x :: a) b
          cases hMatch : numberAt T (x :: a) with
          | none =>
              rw [hMatch] at hStep
              rw [numberTexts_cons_of_none hT hMatch, ← ih a.length (hLength ▸ Nat.lt_succ_self _) a rfl]
              exact numberTexts_cons_of_none hT hStep
          | some r =>
              obtain ⟨m, rest⟩ := r
              rw [hMatch] at hStep
              obtain ⟨hText, hNonempty⟩ := numberAt_append hMatch
              have hShorter : rest.length < n := by
                rw [← hLength, hText, List.length_append]
                have := List.length_pos_iff.mpr hNonempty
                omega
              rw [numberTexts_of_some hT hMatch, numberTexts_of_some hT hStep,
                ih _ hShorter rest rfl, List.cons_append]

theorem numberTexts_apart_append (hT : AsciiDigits T) {w : List Char} (hw : ∀ c ∈ w, Apart T c)
    (s : List Char) : numberTexts T (w ++ s) = numberTexts T s := by
  induction w with
  | nil => rfl
  | cons c w ih =>
      rw [List.cons_append, numberTexts_cons_of_none hT (numberAt_apart (hw c List.mem_cons_self) _)]
      exact ih fun d hd => hw d (List.mem_cons_of_mem c hd)

theorem numberTexts_append_apart (hT : AsciiDigits T) {w : List Char} (hw : ∀ c ∈ w, Apart T c)
    (s : List Char) : numberTexts T (s ++ w) = numberTexts T s := by
  cases w with
  | nil => rw [List.append_nil]
  | cons c w =>
      have hBehind := numberTexts_apart_append hT (fun d hd => hw d (List.mem_cons_of_mem c hd)) []
      rw [List.append_nil] at hBehind
      rw [numberTexts_append_cons hT (hw c List.mem_cons_self), hBehind, numberTexts_nil,
        List.append_nil]

theorem numberTexts_eq_nil (hT : AsciiDigits T) {s : List Char} (h : ∀ c ∈ s, T.isDigit c = false) :
    numberTexts T s = [] := by
  induction s with
  | nil => rfl
  | cons c s ih =>
      have hTake : ∀ u : List Char, (∀ d ∈ u, T.isDigit d = false) → unsignedAt T u = none := by
        intro u hu
        rw [unsignedAt, if_pos]
        cases u with
        | nil => rfl
        | cons d u => exact List.takeWhile_cons_of_neg (Bool.eq_false_iff.mp (hu d List.mem_cons_self))
      have hNone : numberAt T (c :: s) = none := by
        rw [numberAt.eq_def]
        split
        · rename_i hText
          rw [hTake _ fun d hd => h d ((List.cons.inj hText).2 ▸ List.mem_cons_of_mem c hd)]
          rfl
        · exact hTake _ h
      rw [numberTexts_cons_of_none hT hNone]
      exact ih fun d hd => h d (List.mem_cons_of_mem c hd)

end Apart

end AsetPlatform.Library.Regex

import Mathlib.Data.List.DropRight
import Mathlib.Data.List.Infix

/-!
# Preview of a provider key

`backend/crypto/byo_secrets.py`, `mask_key`. The prefix shown ends at the last separator of the whole
key, not of the provider prefix: unless a separator stands in the last four characters, the preview
contains the secret part up to its last separator (`maskKey_eq`). Two keys have the same preview exactly
if these parts agree (`maskKey_eq_iff`).
-/

set_option autoImplicit false

namespace AsetPlatform.Byo.MaskKey

/-- `_MIN_MASK_LEN` -/
def minMaskLen : Nat := 6

/-- `ch in "_-"` -/
def isSep (c : Char) : Bool := c = '_' || c = '-'

/-- `last_sep`, after the loop over the characters. -/
def lastSep (plaintext : List Char) : Int :=
  plaintext.zipIdx.foldl (fun last row => if isSep row.1 then (row.2 : Int) else last) (-1)

/-- `plaintext[-4:]`, of a key of at least four characters. -/
def lastFour (plaintext : List Char) : List Char := plaintext.drop (plaintext.length - 4)

def stars : List Char := List.replicate 4 '*'

/-- `mask_key` -/
def maskKey (plaintext : List Char) : List Char :=
  if plaintext = [] then []
  else if plaintext.length < minMaskLen then List.replicate plaintext.length '*'
  else if 0 < lastSep plaintext ∧ lastSep plaintext < (plaintext.length : Int) - 4 then
    plaintext.take (lastSep plaintext + 1).toNat ++ stars ++ lastFour plaintext
  else stars ++ lastFour plaintext

/-- A prefix such as `gsk_` or `sk-ant-`: some characters and a separator. -/
structure ProviderPrefix where
  stem : List Char
  sep : Char
  stem_ne : stem ≠ []
  isSep_sep : isSep sep = true

namespace ProviderPrefix

def text (P : ProviderPrefix) : List Char := P.stem ++ [P.sep]

/-- What stands between the prefix and the last four characters of a key. -/
def secret (P : ProviderPrefix) (key : List Char) : List Char :=
  (key.take (key.length - 4)).drop P.text.length

end ProviderPrefix

/-- The characters up to the last separator. -/
def leading (s : List Char) : List Char := s.rdropWhile fun c => !isSep c

/-! ## The last separator -/

theorem leading_concat (s : List Char) (c : Char) :
    leading (s ++ [c]) = if isSep c then s ++ [c] else leading s := by
  rw [leading, List.rdropWhile_concat]
  cases isSep c <;> rfl

theorem lastSep_eq (s : List Char) : lastSep s = (leading s).length - 1 := by
  induction s using List.reverseRecOn with
  | nil => rfl
  | append_singleton s c ih =>
      have hStep : lastSep (s ++ [c]) = if isSep c then (s.length : Int) else lastSep s := by
        rw [lastSep, List.zipIdx_append, List.foldl_append]
        simp [lastSep]
      rw [hStep, leading_concat, ih]
      split
      · simp
      · rfl

theorem leading_append_of_plain (s : List Char) {t : List Char} (ht : ∀ c ∈ t, isSep c = false) :
    leading (s ++ t) = leading s := by
  induction t using List.reverseRecOn with
  | nil => rw [List.append_nil]
  | append_singleton t c ih =>
      have hc : isSep c = false := ht c (List.mem_append_right t List.mem_cons_self)
      rw [← List.append_assoc, leading_concat, hc]
      exact ih fun d hd => ht d (List.mem_append_left _ hd)

theorem leading_append (s : List Char) {c : Char} (hc : isSep c = true) (t : List Char) :
    leading (s ++ [c] ++ t) = s ++ [c] ++ leading t := by
  induction t using List.reverseRecOn with
  | nil => rw [List.append_nil, leading_concat, if_pos hc]; exact (List.append_nil _).symm
  | append_singleton t d ih =>
      rw [← List.append_assoc, leading_concat, leading_concat, ih]
      split
      · exact List.append_assoc _ _ _
      · rfl

theorem leading_isPrefixOf (s : List Char) : leading s <+: s := List.rdropWhile_prefix _ _

theorem length_lt_leading_append (s : List Char) {t : List Char} (ht : ∃ c ∈ t, isSep c = true) :
    s.length < (leading (s ++ t)).length := by
  obtain ⟨c, hMem, hc⟩ := ht
  obtain ⟨a, b, rfl⟩ := List.append_of_mem hMem
  have hSplit : s ++ (a ++ c :: b) = (s ++ a) ++ [c] ++ b := by simp
  rw [hSplit, leading_append _ hc]
  simp only [List.length_append, List.length_singleton]
  omega

/-! ## The preview -/

section Preview

variable (P : ProviderPrefix) {key : List Char}

theorem length_text : 2 ≤ P.text.length := by
  have hStem : 0 < P.stem.length := List.length_pos_iff.mpr P.stem_ne
  rw [ProviderPrefix.text, List.length_append, List.length_singleton]
  omega

theorem text_append_secret (hPrefix : P.text <+: key)
    (hTail : ∀ c ∈ lastFour key, isSep c = false) :
    P.text ++ P.secret key = key.take (key.length - 4) := by
  have hSplit : key.take (key.length - 4) ++ lastFour key = key := List.take_append_drop _ _
  have hHead : key.take (key.length - 4) <+: key := List.take_prefix _ _
  rcases List.prefix_or_prefix_of_prefix hPrefix hHead with hInside | ⟨u, hu⟩
  · obtain ⟨rest, hRest⟩ := hInside
    rw [ProviderPrefix.secret, ← hRest, List.drop_left]
  · rcases List.eq_nil_or_concat u with rfl | ⟨v, c, rfl⟩
    · rw [List.append_nil] at hu
      rw [ProviderPrefix.secret, hu, List.drop_length, List.append_nil]
    · -- the separator of the prefix would stand in the tail
      rw [List.concat_eq_append, ← List.append_assoc] at hu
      obtain ⟨-, hc⟩ := List.append_inj' hu rfl
      obtain ⟨rest, hRest⟩ := hPrefix
      have hBoth : key.take (key.length - 4) ++ lastFour key =
          key.take (key.length - 4) ++ (v ++ [c] ++ rest) := by
        rw [hSplit, ← List.append_assoc, ← List.append_assoc, hu]
        exact hRest.symm
      have hInTail : lastFour key = v ++ [c] ++ rest := List.append_cancel_left hBoth
      have hMem : c ∈ lastFour key := by
        rw [hInTail]
        exact List.mem_append_left _ (List.mem_append_right _ List.mem_cons_self)
      have hSep : isSep c = true := by
        rw [List.singleton_inj.mp hc]
        exact P.isSep_sep
      rw [hTail c hMem] at hSep
      cases hSep

theorem maskKey_eq (hPrefix : P.text <+: key) (hLength : minMaskLen ≤ key.length) :
    maskKey key = (if (lastFour key).any isSep then [] else P.text ++ leading (P.secret key)) ++
      stars ++ lastFour key := by
  have hne : key ≠ [] := by
    rintro rfl
    exact absurd hLength (by decide)
  have hSix : 6 ≤ key.length := hLength
  have hSplit : key.take (key.length - 4) ++ lastFour key = key := List.take_append_drop _ _
  have hHead : (key.take (key.length - 4)).length = key.length - 4 :=
    List.length_take_of_le (Nat.sub_le _ _)
  rw [maskKey, if_neg hne, if_neg (Nat.not_lt.mpr hLength)]
  cases hTail : (lastFour key).any isSep with
  | true =>
      have hLong := length_lt_leading_append (key.take (key.length - 4)) (List.any_eq_true.mp hTail)
      rw [hSplit, hHead] at hLong
      rw [if_neg (by rw [lastSep_eq]; omega), if_pos rfl]
      rfl
  | false =>
      have hPlain : ∀ c ∈ lastFour key, isSep c = false := by
        intro c hc
        rw [Bool.eq_false_iff]
        exact fun hSep => Bool.eq_false_iff.mp hTail (List.any_eq_true.mpr ⟨c, hc, hSep⟩)
      have hAll := leading_append_of_plain (key.take (key.length - 4)) hPlain
      rw [hSplit] at hAll
      have hLeading : leading key = P.text ++ leading (P.secret key) := by
        have hText := leading_append P.stem P.isSep_sep (P.secret key)
        rw [← ProviderPrefix.text, text_append_secret P hPrefix hPlain] at hText
        rw [hAll, hText]
      have hShort : (leading key).length ≤ key.length - 4 := by
        rw [hAll]
        exact (leading_isPrefixOf _).length_le.trans hHead.le
      have hText : 2 ≤ (leading key).length := by
        rw [hLeading, List.length_append]
        exact Nat.le_add_right_of_le (length_text P)
      have hEnd : (lastSep key + 1).toNat = (leading key).length := by
        rw [lastSep_eq]
        omega
      rw [if_pos (by rw [lastSep_eq]; omega), hEnd, if_neg Bool.false_ne_true, ← hLeading,
        ← List.prefix_iff_eq_take.mp (leading_isPrefixOf key)]

/-- Keys with the same prefix and the same last four characters have the same preview exactly if a
separator stands in these four, or if their secrets agree up to the last separators. -/
theorem maskKey_eq_iff {other : List Char} (hPrefix : P.text <+: key)
    (hLength : minMaskLen ≤ key.length) (hPrefix' : P.text <+: other)
    (hLength' : minMaskLen ≤ other.length) (hTail : lastFour key = lastFour other) :
    maskKey key = maskKey other ↔
      (lastFour key).any isSep = true ∨ leading (P.secret key) = leading (P.secret other) := by
  rw [maskKey_eq P hPrefix hLength, maskKey_eq P hPrefix' hLength', ← hTail,
    List.append_cancel_right_eq, List.append_cancel_right_eq]
  cases (lastFour key).any isSep with
  | true => exact iff_of_true rfl (Or.inl rfl)
  | false =>
      rw [if_neg Bool.false_ne_true, if_neg Bool.false_ne_true, List.append_cancel_left_eq]
      exact (or_iff_right Bool.false_ne_true).symm

end Preview

/-- `gsk_` -/
def gsk : ProviderPrefix where
  stem := "gsk".toList
  sep := '_'
  stem_ne := List.cons_ne_nil _ _
  isSep_sep := rfl

/-- A separator at the same place. -/
theorem maskKey_eq_iff_gsk :
    maskKey "gsk_ab-defgh3xyz".toList = maskKey "gsk_ab-QQQQQ3xyz".toList ↔
      (lastFour "gsk_ab-defgh3xyz".toList).any isSep = true ∨
        leading (gsk.secret "gsk_ab-defgh3xyz".toList) =
          leading (gsk.secret "gsk_ab-QQQQQ3xyz".toList) :=
  maskKey_eq_iff gsk (by decide) (by decide) (by decide) (by decide) (by decide)

/-- A separator in one of the secrets. -/
theorem maskKey_shows_secret :
    gsk.text <+: "gsk_abc_defgh3xyz".toList ∧ gsk.text <+: "gsk_QQQQQQQQQ3xyz".toList ∧
      lastFour "gsk_abc_defgh3xyz".toList = lastFour "gsk_QQQQQQQQQ3xyz".toList ∧
      maskKey "gsk_abc_defgh3xyz".toList = "gsk_abc_****3xyz".toList ∧
      maskKey "gsk_QQQQQQQQQ3xyz".toList = "gsk_****3xyz".toList := by
  decide

end AsetPlatform.Byo.MaskKey
